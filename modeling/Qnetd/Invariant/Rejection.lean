import Qnetd.Invariant.Identity

/-!
# Rejected requests

A request is rejected with a SERVER_ERROR, or with an INIT_REPLY that carries an error. On an active
session every check comes before the first change, with one exception: an INIT is refused from the
start, and still stores two fields.

* `Rejection`, `Rejected`, `Accepted` : the frames that say so, and the handlers that sent one or
  none;
* `Untouched` : all sessions and clusters as before;
* `Outcome.untouched_or_accepted` : a message other than INIT changes nothing or is not rejected.
-/

namespace Qnetd

inductive Rejection : Frame → Prop
  | serverError (seqSet : Bool) (seq : UInt32) (code : ReplyErrorCode) :
  Rejection (buildServerError seqSet seq code)
  | initReply (seqSet : Bool) (seq : UInt32) {code : ReplyErrorCode} (messages options : Bool)
      (maxRequest maxReply : UInt32) : code ≠ .noError →
      Rejection (buildInitReply seqSet seq code messages options maxRequest maxReply)

theorem Rejection.type {f : Frame} (h : Rejection f) :
    frameType f = .serverError ∨ frameType f = .initReply := by
  cases h with
  | serverError => exact Or.inl (by rw [buildServerError_eq, frameType_optFrame])
  | initReply => exact Or.inr (by rw [buildInitReply_eq, frameType_optFrame])

theorem not_rejection {f : Frame} (hs : frameType f ≠ .serverError)
    (hi : frameType f ≠ .initReply) : ¬Rejection f :=
  fun h => h.type.elim hs hi

/-- Client `i` is told that its request is rejected. -/
def Event.rejects (i : Slot) : Event → Prop
  | .send j f => j = i ∧ Rejection f
  | _ => False

def Rejected (i : Slot) (s s' : Server) : Prop :=
  ∃ new, s'.trace = new ++ s.trace ∧ ∃ e ∈ new, e.rejects i

def Accepted (i : Slot) (s s' : Server) : Prop :=
  ∃ new, s'.trace = new ++ s.trace ∧ ∀ e ∈ new, ¬e.rejects i

theorem Accepted.not_rejected {i : Slot} {s s' : Server} (h : Accepted i s s') :
    ¬Rejected i s s' := by
  rintro ⟨new, htr, e, he, hr⟩
  obtain ⟨new', htr', hnew⟩ := h
  have hsame : new = new' := List.append_cancel_right (htr.symm.trans htr')
  exact hnew e (hsame ▸ he) hr

theorem Accepted.trans {i : Slot} {s t u : Server} (h₁ : Accepted i s t) (h₂ : Accepted i t u) :
    Accepted i s u :=
  History.grown_trans h₁ h₂

theorem accepted_of_trace {i : Slot} {s s' : Server} (h : s'.trace = s.trace) : Accepted i s s' :=
  ⟨[], h, by simp⟩

theorem accepted_emit {i : Slot} (s : Server) {e : Event} (he : ¬e.rejects i) :
    Accepted i s (s.emit e) :=
  ⟨[e], rfl, by simpa using he⟩

theorem accepted_send (i : Slot) (s : Server) {f : Frame} (hf : ¬Rejection f) :
    Accepted i s (s.send i f) :=
  accepted_emit s fun h => hf h.2

theorem Server.Within.accepted {c : Int} {s s' : Server} (h : Server.Within c s s') (i : Slot) :
    Accepted i s s' := by
  obtain ⟨new, htr, hnew⟩ := h.trace
  refine ⟨new, htr, fun e he hr => ?_⟩
  have hw := hnew e he
  cases e with
  | send _ _ => exact hw
  | _ => exact hr

/-- Every session and every cluster record is as before. -/
structure Untouched (s s' : Server) : Prop where
  sessions : s'.sessions = s.sessions
  clusters : s'.clusters = s.clusters

namespace Server

variable {i : Slot} {s : Server}

theorem untouched_sendErr (i : Slot) (s : Server) (m : MsgDecoded) (code : ReplyErrorCode) :
    Untouched s (s.sendErr i m code) := ⟨rfl, rfl⟩

theorem not_rejection_reportReply (m : MsgDecoded) (ring : RingId) (v : Vote) (r : Report) :
    ¬Rejection (reportReply m ring v r) := by
  cases r with
  | list type =>
    rw [reportReply, buildNodeListReply_eq]
    exact not_rejection (by rw [frameType_optFrame]; nofun) (by rw [frameType_optFrame]; nofun)
  | heuristics =>
    rw [reportReply, buildHeuristicsChangeReply_eq]
    exact not_rejection (by rw [frameType_optFrame]; nofun) (by rw [frameType_optFrame]; nofun)

/-- On an active session a message changes nothing or is not rejected, unless it is an INIT. -/
theorem Outcome.untouched_or_accepted {m : MsgDecoded} {f : Frame} {now : UInt64} {s' : Server}
    (h : Outcome i m f now s s') (hact : (s.sessions i).phase = .active) (htype : m.type ≠ .init) :
    Untouched s s' ∨ Accepted i s s' := by
  cases h with
  | refused code _ => exact Or.inl (untouched_sendErr i s m code)
  | greeted _ hwait => exact absurd (hwait.symm.trans hact) (by decide)
  | turnedAway _ hinit _ _ => exact absurd hinit htype
  | joined hinit _ _ _ _ => exact absurd hinit htype
  | configured _ _ _ =>
    refine Or.inr (Accepted.trans (accepted_of_trace rfl) (accepted_send i _ ?_))
    rw [buildSetOptionReply_eq]
    exact not_rejection (by rw [frameType_optFrame]; nofun) (by rw [frameType_optFrame]; nofun)
  | echoed _ _ =>
    refine Or.inr (accepted_send i s (not_rejection ?_ ?_)) <;>
      rcases frameType_buildEchoReply f with h | h <;> rw [h] <;> simp
  | reported r _ _ =>
    have hacc : Accepted i s (s.emit (.accept i r)) := accepted_emit s id
    have hran := hacc.trans ((ranReport_within s i r m).accepted i)
    exact Or.inr ((hran.trans (accepted_of_trace rfl)).trans
      (accepted_send i _ (not_rejection_reportReply m _ _ r)))
  | replied _ _ hseq =>
    exact Or.inr ((handleVoteInfoReply_within s m hseq (inCluster_iff.mpr ⟨hact, rfl⟩)).accepted i)

/-- An INIT on an active session stores two fields and is rejected. -/
theorem handleInit_of_active (hact : (s.sessions i).phase = .active) (m : MsgDecoded)
    (now : UInt64) : s.handleInit i m now =
      (s.modify i fun x => { x with nodeId := m.nodeId, lastRingId := m.ringId }).send i
        (buildInitReply m.seqNumberSet m.seqNumber .unexpectedMessage m.supportedMessagesPresent
          m.supportedOptionsPresent s.maxRxFrame s.maxRxFrame) := by
  have hcode : s.initCode i m = .unexpectedMessage := by
    simp [initCode, initFields_of_active m hact]
  rw [handleInit_eq, hcode, if_neg (by decide), initStored_of_active m hact]
  rfl

theorem handleFrame_of_decode {type : MsgType} {frame : Frame} {m : MsgDecoded}
    (hdec : msgDecode type (frame.drop MSG_HEADER_LEN) = some m) (i : Slot) (s : Server)
    (now : UInt64) : s.handleFrame i type frame now =
      (s.emit (.recv i (s.sessions i).phase (s.sessions i).nodeId m)).handleMsg i m frame now := by
  rw [handleFrame, hdec]

theorem handleFrame_of_reinit (hact : (s.sessions i).phase = .active) {type : MsgType}
    {frame : Frame} {m : MsgDecoded}
    (hdec : msgDecode type (frame.drop MSG_HEADER_LEN) = some m) (htype : m.type = .init)
    (now : UInt64) : s.handleFrame i type frame now =
      ((s.emit (.recv i (s.sessions i).phase (s.sessions i).nodeId m)).modify i
        fun x => { x with nodeId := m.nodeId, lastRingId := m.ringId }).send i
        (buildInitReply m.seqNumberSet m.seqNumber .unexpectedMessage m.supportedMessagesPresent
          m.supportedOptionsPresent s.maxRxFrame s.maxRxFrame) := by
  have hinit : (s.emit (.recv i (s.sessions i).phase (s.sessions i).nodeId m)).handleMsg i m frame
      now = (s.emit (.recv i (s.sessions i).phase (s.sessions i).nodeId m)).handleInit i m now := by
    simp [handleMsg, hact, htype]
  have hact' : ((s.emit (.recv i (s.sessions i).phase (s.sessions i).nodeId m)).sessions i).phase =
      .active :=
    hact
  rw [handleFrame_of_decode hdec, hinit, handleInit_of_active hact', emit_maxRxFrame]

end Server

/-! ## An INIT on an active session -/

theorem reinit_rejected {s : Server} {i : Slot} (hact : (s.sessions i).phase = .active)
    {type : MsgType} {frame : Frame}
    {m : MsgDecoded} (hdec : msgDecode type (frame.drop MSG_HEADER_LEN) = some m)
    (htype : m.type = .init) (now : UInt64) : Rejected i s (s.handleFrame i type frame now) := by
  rw [Server.handleFrame_of_reinit hact hdec htype]
  exact ⟨[_, _], rfl, _, List.mem_cons_self, rfl, .initReply _ _ _ _ _ _ (by nofun)⟩

/-- Storing what is stored already is the only way it changes nothing. -/
theorem reinit_untouched_iff {s : Server} {i : Slot} (hact : (s.sessions i).phase = .active) {type : MsgType}
    {frame : Frame} {m : MsgDecoded} (hdec : msgDecode type (frame.drop MSG_HEADER_LEN) = some m) (htype : m.type = .init)
    (now : UInt64) :
    Untouched s (s.handleFrame i type frame now) ↔
      m.nodeId = (s.sessions i).nodeId ∧ m.ringId = (s.sessions i).lastRingId := by
  rw [Server.handleFrame_of_reinit hact hdec htype]
  constructor
  · rintro ⟨hsessions, -⟩
    have hi := congrFun hsessions i
    change (Server.modify s i fun x => { x with nodeId := m.nodeId, lastRingId := m.ringId }).sessions i = _ at hi
    rw [Server.modify_self] at hi
    exact ⟨congrArg Session.nodeId hi, congrArg Session.lastRingId hi⟩
  · rintro ⟨hid, hring⟩
    refine ⟨?_, rfl⟩
    change Function.update s.sessions i { s.sessions i with nodeId := m.nodeId, lastRingId := m.ringId } = s.sessions
    rw [hid, hring, Function.update_eq_self]

/-! ## Requests -/

/-- A rejected request changes nothing, if and only if it is not an INIT, or is one with the node id
and the ring id that are stored already: for every message of an active session that is answered
with a rejection. -/
theorem rejected_changes_nothing_iff {s : Server} {i : Slot} (hact : (s.sessions i).phase = .active)
    {type : MsgType}
    {frame : Frame} {m : MsgDecoded} (hdec : msgDecode type (frame.drop MSG_HEADER_LEN) = some m)
    (now : UInt64) (hrej : Rejected i s (s.handleFrame i type frame now)) :
    Untouched s (s.handleFrame i type frame now) ↔
      m.type ≠ .init ∨ m.nodeId = (s.sessions i).nodeId ∧ m.ringId = (s.sessions i).lastRingId := by
  by_cases htype : m.type = .init
  · rw [reinit_untouched_iff hact hdec htype]
    exact ⟨Or.inr, fun h => h.resolve_left (not_not.mpr htype)⟩
  · refine ⟨fun _ => Or.inl htype, fun _ => ?_⟩
    rw [Server.handleFrame_of_decode hdec] at hrej ⊢
    set t := s.emit (.recv i (s.sessions i).phase (s.sessions i).nodeId m)
    have hrecv : Accepted i s t := accepted_emit s id
    rcases (Server.handleMsg_outcome i m frame now t).untouched_or_accepted hact htype
      with hsame | hacc
    · exact ⟨hsame.sessions, hsame.clusters⟩
    · exact absurd hrej (hrecv.trans hacc).not_rejected

/-- Node 2 repeats its INIT. -/
theorem rejected_changes_nothing_repeated :
    Rejected 1 (run 32768 twoJoined)
    ((run 32768 twoJoined).handleFrame 1 .init (MockClient.init 3 2 {}) 1000) ∧
      Untouched (run 32768 twoJoined)
        ((run 32768 twoJoined).handleFrame 1 .init (MockClient.init 3 2 {}) 1000) := by
  obtain ⟨hact, hid, hring⟩ : (let x := (run 32768 twoJoined).sessions 1
      x.phase = .active ∧ x.nodeId = 2 ∧ x.lastRingId = {}) := by
    decide +kernel
  have hfields : (msgDecode .init ((MockClient.init 3 2 {}).drop MSG_HEADER_LEN)).map
      (fun m => (m.type, m.nodeId, m.ringId)) = some (.init, 2, {}) := by decide +kernel
  obtain ⟨m, hdec, hm⟩ := Option.map_eq_some_iff.mp hfields
  obtain ⟨htype, hid', hring'⟩ : m.type = .init ∧ m.nodeId = 2 ∧ m.ringId = {} := by simpa using hm
  have hrej := reinit_rejected hact hdec htype 1000
  exact ⟨hrej, (rejected_changes_nothing_iff hact hdec 1000 hrej).mpr
    (Or.inr ⟨hid'.trans hid.symm, hring'.trans hring.symm⟩)⟩

/-- Node 2 sends another INIT, with the id of node 1: it is rejected, and the id is stored. -/
theorem rejected_init_stores_nodeId :
    ((run 32768 twoJoined).sessions 1).phase = .active ∧
    (msgDecode .init ((MockClient.init 3 1 {}).drop MSG_HEADER_LEN)).isSome = true ∧
    Rejected 1 (run 32768 twoJoined)
    ((run 32768 twoJoined).handleFrame 1 .init (MockClient.init 3 1 {}) 1000) ∧
    ((run 32768 twoJoined).sessions 1).nodeId = 2 ∧
    (((run 32768 twoJoined).handleFrame 1 .init (MockClient.init 3 1 {}) 1000).sessions 1).nodeId
      = 1 ∧
    ¬Untouched (run 32768 twoJoined)
    ((run 32768 twoJoined).handleFrame 1 .init (MockClient.init 3 1 {}) 1000) := by
  obtain ⟨hact, hid, hstored⟩ : (let s := run 32768 twoJoined
      (s.sessions 1).phase = .active ∧ (s.sessions 1).nodeId = 2 ∧
      ((s.handleFrame 1 .init (MockClient.init 3 1 {}) 1000).sessions 1).nodeId = 1) := by
    decide +kernel
  have hfields : (msgDecode .init ((MockClient.init 3 1 {}).drop MSG_HEADER_LEN)).map
      (fun m => (m.type, m.nodeId)) = some (.init, 1) := by decide +kernel
  obtain ⟨m, hdec, hm⟩ := Option.map_eq_some_iff.mp hfields
  obtain ⟨htype, hid'⟩ : m.type = .init ∧ m.nodeId = 1 := by simpa using hm
  refine ⟨hact, by rw [hdec]; rfl, reinit_rejected hact hdec htype 1000, hid, hstored, fun h => ?_⟩
  have hsame := ((reinit_untouched_iff hact hdec htype 1000).mp h).1
  rw [hid, hid'] at hsame
  exact absurd hsame (by decide)

end Qnetd
