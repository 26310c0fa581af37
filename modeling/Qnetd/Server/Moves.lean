import Mathlib.Logic.Relation
import Qnetd.Server.Outcomes
import Qnetd.Server.Plumbing
import Qnetd.Wire.Codec

/-!
# The moves of a session

What one session can do to the server, said once. Every message handler is a sequence of moves of
the session the message came from, so an invariant of all runs is checked on the moves and never on
the handlers.

* `Session.Alike`, `Quiet` : a change no invariant can see: options, deadlines, buffers, and the
  fields of a session that is not active yet;
* `Move i` : the moves of session `i`; `Moves i` : sequences of them;
* `Outcome.moves` : every outcome of a message is a sequence of moves of its sender
  (`handleMsg_moves`).
-/

namespace Qnetd

open Relation (ReflTransGen)

/-! ## Quiet changes -/

/-- The sessions are the same to every invariant. What `handle_init` stores counts only from
admission on. -/
structure Session.Alike (x y : Session) : Prop where
  active : y.phase = .active ↔ x.phase = .active
  cluster : y.cluster = x.cluster
  configList : y.configList = x.configList
  membershipList : y.membershipList = x.membershipList
  ffState : y.ffState = x.ffState
  voteInfoSeq : y.voteInfoSeq = x.voteInfoSeq
  identity : x.phase = .active → y.clusterName = x.clusterName ∧ y.nodeId = x.nodeId ∧
    y.lastRingId = x.lastRingId ∧ y.tieBreaker = x.tieBreaker ∧ y.algorithm = x.algorithm

theorem Session.Alike.refl (x : Session) : Session.Alike x x :=
  ⟨Iff.rfl, rfl, rfl, rfl, rfl, rfl, fun _ => ⟨rfl, rfl, rfl, rfl, rfl⟩⟩

theorem Session.rescheduled_alike (now : UInt64) (x : Session) :
    Session.Alike x (x.rescheduled now) := by
  unfold Session.rescheduled
  split_ifs
  · exact ⟨Iff.rfl, rfl, rfl, rfl, rfl, rfl, fun _ => ⟨rfl, rfl, rfl, rfl, rfl⟩⟩
  · exact ⟨Iff.rfl, rfl, rfl, rfl, rfl, rfl, fun _ => ⟨rfl, rfl, rfl, rfl, rfl⟩⟩
  · exact Session.Alike.refl x

/-- An exchange with client `i` alone. -/
def Event.quiet (i : Slot) : Event → Prop
  | .send j f => j = i ∧ ReplyFrame f
  | .close j | .frame j _ | .recv j _ _ _ => j = i
  | _ => False

structure Quiet (i : Slot) (s s' : Server) : Prop where
  self : Session.Alike (s.sessions i) (s'.sessions i)
  others : ∀ j, j ≠ i → s'.sessions j = s.sessions j
  clusters : s'.clusters = s.clusters
  maxRxFrame : s'.maxRxFrame = s.maxRxFrame
  trace : ∃ new, s'.trace = new ++ s.trace ∧ ∀ e ∈ new, e.quiet i

namespace Server

theorem quiet_emit {i : Slot} (s : Server) {e : Event} (he : e.quiet i) : Quiet i s (s.emit e) :=
  ⟨.refl _, fun _ _ => rfl, rfl, rfl, [e], rfl, by simpa using he⟩

theorem quiet_send (i : Slot) (s : Server) {f : Frame} (hf : ReplyFrame f) :
    Quiet i s (s.send i f) :=
  quiet_emit s ⟨rfl, hf⟩

theorem quiet_sendErr (i : Slot) (s : Server) (m : MsgDecoded) (code : ReplyErrorCode) :
    Quiet i s (s.sendErr i m code) := quiet_send i s (.serverError _ _ code)

theorem quiet_modify (i : Slot) (s : Server) {f : Session → Session}
    (hf : Session.Alike (s.sessions i) (f (s.sessions i))) : Quiet i s (s.modify i f) :=
  ⟨by rw [modify_self]; exact hf, fun _ hj => modify_of_ne s f hj, rfl, rfl, [], rfl, by simp⟩

end Server

/-! ## Moves -/

inductive Move (i : Slot) : Server → Server → Prop
  | quiet {s s' : Server} : Quiet i s s' → Move i s s'
  | connect {s : Server} (now : UInt64) (peer : String) : (s.sessions i).phase = .free →
      Move i s ((s.modify i fun _ =>
        { phase := .waitPreinit, peer := peer, deadlineMs := now + PREACTIVE_TIMEOUT_MS }).emit
          (.connect i))
  /-- An INIT on an active session is refused, but its node id and ring id are stored. -/
  | reinit {s : Server} (m : MsgDecoded) : (s.sessions i).phase = .active → m.type = .init →
      .recv i .active (s.sessions i).nodeId m ∈ s.trace →
      Move i s (s.modify i fun x => { x with nodeId := m.nodeId, lastRingId := m.ringId })
  | join {s : Server} (now : UInt64) : (s.sessions i).phase ≠ .active →
      s.initCheckNewClient i = .noError → 0 ≤ (s.findOrCreateCluster (s.sessions i).clusterName).1 →
      Move i s ((s.findOrCreateCluster (s.sessions i).clusterName).2.enterCluster i
        (s.findOrCreateCluster (s.sessions i).clusterName).1 now)
  | report {s : Server} (r : Report) (m : MsgDecoded) : (s.sessions i).phase = .active →
      Server.Fits m (s.sessions i) r → Move i s (s.reported i r m)
  | reply {s : Server} (m : MsgDecoded) : (s.sessions i).phase = .active → m.seqNumberSet = true →
      Move i s (s.handleVoteInfoReply i m)
  | leave {s : Server} : Move i s ((s.leaveCluster i).reset i)

abbrev Moves (i : Slot) : Server → Server → Prop := ReflTransGen (Move i)

theorem Quiet.moves {i : Slot} {s s' : Server} (h : Quiet i s s') : Moves i s s' :=
  .single (.quiet h)

theorem Move.moves {i : Slot} {s s' : Server} (h : Move i s s') : Moves i s s' := .single h

namespace Server

/-! ## The handshake -/

theorem withInit_alike {x : Session} (y : Session) (h : x.phase ≠ .active) :
    Session.Alike x (withInit x y) :=
  ⟨Iff.rfl, rfl, rfl, rfl, rfl, rfl, fun h' => absurd h' h⟩

theorem initFields_alike (m : MsgDecoded) {x : Session} (h : x.phase ≠ .active) :
    Session.Alike x (initFields m x).2 := by
  rw [initFields_withInit]
  exact withInit_alike _ h

theorem quiet_initStored (i : Slot) (s : Server) (m : MsgDecoded)
    (h : (s.sessions i).phase ≠ .active) : Quiet i s (s.initStored i m) :=
  quiet_modify i s (initFields_alike m h)

theorem quiet_sendInitReply (i : Slot) (s : Server) (m : MsgDecoded) (code : ReplyErrorCode) :
    Quiet i s (s.sendInitReply i m code) :=
  quiet_send i s (.initReply _ _ _ _ _ _ _)

theorem optioned_alike (m : MsgDecoded) (now : UInt64) (x : Session) :
    Session.Alike x (optioned m now x) := by
  obtain ⟨hb, deadline, keep, h⟩ := optioned_eq m now x
  rw [h]
  exact ⟨Iff.rfl, rfl, rfl, rfl, rfl, rfl, fun _ => ⟨rfl, rfl, rfl, rfl, rfl⟩⟩

/-! ## Reports -/

theorem Reports.fits {m : MsgDecoded} {x : Session} {r : Report} (h : Reports m x r) :
    Fits m x r := by
  cases r with
  | list type =>
    obtain ⟨-, rfl, he⟩ := h
    exact fits_of_nodeListError he
  | heuristics => trivial

theorem noteReport_alike (s : Server) (i : Slot) (m : MsgDecoded) (v : Vote) {r : Report}
    {x y : Session} (hr : Reports m y r) (hcfg : x.configList = (s.sessions i).configList)
    (hmem : x.membershipList = (s.sessions i).membershipList)
    (hring : x.lastRingId = (s.sessions i).lastRingId) :
    Session.Alike (stored (s.reportView i m r) x) (noteReport m v r x) := by
  cases r with
  | heuristics => exact ⟨Iff.rfl, rfl, hcfg, hmem, rfl, rfl, fun _ => ⟨rfl, rfl, hring, rfl, rfl⟩⟩
  | list type =>
    obtain ⟨-, rfl, -⟩ := hr
    unfold noteReport storeNodeList noteVote stored reportView storedView
    cases h : m.nodeListType <;>
      exact ⟨Iff.rfl, rfl, by simp [hcfg], by simp [hmem], rfl, rfl,
        fun _ => ⟨rfl, rfl, by simp [hring], rfl, rfl⟩⟩

theorem replyFrame_reportReply (m : MsgDecoded) (ring : RingId) {v : Vote} (hv : v ≠ .ack)
    (r : Report) : ReplyFrame (reportReply m ring v r) := by
  cases r with
  | list type => exact .nodeListReply _ _ _ v hv
  | heuristics => exact .heuristicsChangeReply _ _ v hv

/-! ## Messages -/

theorem Outcome.moves {i : Slot} {m : MsgDecoded} {f : Frame} {now : UInt64} {s s' : Server}
    (h : Outcome i m f now s s')
    (hrecv : .recv i (s.sessions i).phase (s.sessions i).nodeId m ∈ s.trace) : Moves i s s' := by
  cases h with
  | refused code _ => exact (quiet_sendErr i s m code).moves
  | greeted htype hwait =>
    refine (quiet_modify i s ?_).moves.trans (quiet_send i _ (.preinitReply _ _ _ _)).moves
    refine ⟨?_, rfl, rfl, rfl, rfl, rfl, fun h => ?_⟩
    · simp [hwait]
    · rw [hwait] at h
      cases h
  | turnedAway code htype _ _ =>
    refine ReflTransGen.trans ?_ (quiet_sendInitReply i _ m code).moves
    by_cases hact : (s.sessions i).phase = .active
    · rw [hact] at hrecv
      rw [initStored_of_active m hact]
      exact (Move.reinit m hact htype hrecv).moves
    · exact (quiet_initStored i s m hact).moves
  | joined _ _ hfields hcheck hc =>
    have hact := not_active_of_initFields hfields
    have hjoin : Move i (s.initStored i m) ((s.initStored i m).admitted i now) :=
      .join now (by rw [initStored_phase]; exact hact) hcheck hc
    exact ((quiet_initStored i s m hact).moves.trans hjoin.moves).trans
      (quiet_sendInitReply i _ m _).moves
  | configured _ _ _ =>
    exact (quiet_modify i s (optioned_alike m now _)).moves.trans
      (quiet_send i _ (.setOptionReply _ _ _ _ _ _)).moves
  | echoed _ _ => exact (quiet_send i s (.echoReply f)).moves
  | reported r hact hr =>
    refine (Move.report r m hact hr.fits).moves.trans ?_
    have hsame := ranReport_sameButVotes s i r m
    refine Quiet.moves ⟨?_, fun j hj => ?_, rfl, rfl, [_], rfl,
      by simpa [Event.quiet] using replyFrame_reportReply m _ (reportVote_ne_ack s i r m) r⟩
    · simp only [Server.reported, answerReport, noted, send, emit_sessions, modify_self]
      exact noteReport_alike s i m _ hr (hsame.configList i) (hsame.membershipList i)
        (hsame.lastRingId i)
    · simp only [Server.reported, answerReport, noted, send, emit_sessions, modify_of_ne _ _ hj]
  | replied _ hact hseq => exact (Move.reply m hact hseq).moves

/-- A message is a sequence of moves of its sender. -/
theorem handleMsg_moves (i : Slot) (s : Server) (m : MsgDecoded) (frame : Frame) (now : UInt64)
    (hrecv : .recv i (s.sessions i).phase (s.sessions i).nodeId m ∈ s.trace) :
    Moves i s (s.handleMsg i m frame now) :=
  (handleMsg_outcome i m frame now s).moves hrecv

end Server

end Qnetd
