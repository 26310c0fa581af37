import Qnetd.Invariant.Replies
import Qnetd.Invariant.Rule

/-!
# The handshake, seen by the client

The phase of a session is not on the wire. A client infers it from what it is sent: a PREINIT_REPLY,
and later an INIT_REPLY without an error, take it on; errors leave it where it is; votes and the
replies to reports come only when it is active.

* `replyCode` : the error code of a reply, read with the iterator;
* `clientStep`, `clientNext` : what a client makes of one frame, `none` if it has no place for it;
  `clientPhase` : of all of them;
* `receivedBy` : the frames sent to a session since it connected;
* `Follows` : the frames sent lead the client from its old phase to its new one. Every outcome of a
  message does so;
* `client_knows_phase` : the client of a session is sent no frame it has no place for, and knows its
  phase.
-/

namespace Qnetd

/-! ## The client -/

/-- The step of a loop over the options that looks for the error code. -/
def readCode (it : TlvIterator) (code : Option UInt16) : Option (Option UInt16) :=
  if it.type = TlvOpt.replyErrorCode.code ∧ it.length = 2 then some (some (beGet16 it.data))
  else some code

/-- The error code of a frame, if it has one. -/
def replyCode (f : Frame) : Option UInt16 :=
  (optLoop readCode some ((f.drop MSG_HEADER_LEN).length + 1)
    (.ofPayload (f.drop MSG_HEADER_LEN)) none).join

theorem readCode_local : Local readCode := by
  intro it it' ht hl hd code
  unfold readCode
  rw [ht, hl]
  split_ifs with h
  · have htwo : 2 ≤ it.length.toNat := by
      rw [h.2]
      decide
    rw [reads_beGet16.congr hd htwo]
  · rfl

theorem replyCode_optFrame (type : MsgType) (l : List Opt) :
    replyCode (optFrame type l) =
      (l.foldlM (fun code o => readCode o.iterator code) none).join := by
  have hdrop : (optFrame type l).drop MSG_HEADER_LEN = optBytes l := by
    rw [optFrame, endFrame_drop]
    rfl
  obtain ⟨hreads, hl⟩ := TlvIterator.reads_options (List.append_nil (optBytes l)).symm
  obtain ⟨it', hend, left, hloop⟩ := optLoop_options readCode_local some l hreads hl
  have hlast : optLoop readCode some (left + 1) it' = some := by
    funext code
    simp [optLoop, TlvIterator.next_end hend]
  rw [replyCode, hdrop, hloop, hlast, Option.bind_fun_some]

/-- What a client in a phase makes of a frame of the type, with the error code. -/
def clientStep : Phase → MsgType → Option UInt16 → Option Phase
  | .waitPreinit, .serverError, _ => some .waitPreinit
  | .waitPreinit, .preinitReply, _ => some .waitInit
  | .waitInit, .serverError, _ => some .waitInit
  | .waitInit, .initReply, code => if code = some 0 then some .active else some .waitInit
  | .active, .serverError, _ | .active, .setOptionReply, _ | .active, .echoReply, _ | .active,
      .nodeListReply, _
  | .active, .heuristicsChangeReply, _ | .active, .voteInfo, _ => some .active
  | .active, .initReply, code => if code = some 0 then none else some .active
  | _, _, _ => none

def clientNext (p : Phase) (f : Frame) : Option Phase := clientStep p (frameType f) (replyCode f)

def clientPhase (l : List Frame) : Option Phase := l.foldlM clientNext .waitPreinit

theorem clientNext_ne_free {p q : Phase} {f : Frame} (h : clientNext p f = some q) : q ≠ .free := by
  rintro rfl
  unfold clientNext clientStep at h
  split at h
  all_goals first
    | cases h
    | split_ifs at h <;> cases h

theorem clientNext_of_active {q : Phase} {f : Frame} (h : clientNext .active f = some q) :
    q = .active := by
  unfold clientNext clientStep at h
  split at h
  all_goals first
    | contradiction
    | exact (Option.some.inj h).symm
    | split_ifs at h; exact (Option.some.inj h).symm

theorem clientNext_foldlM {P : Phase → Prop}
    (hstep : ∀ {p q : Phase} {f : Frame}, P p → clientNext p f = some q → P q)
    {p q : Phase} (hp : P p) {l : List Frame} (h : l.foldlM clientNext p = some q) : P q := by
  induction l generalizing p with
  | nil =>
    obtain rfl : p = q := Option.some.inj h
    exact hp
  | cons f l ih =>
    rw [List.foldlM_cons] at h
    obtain ⟨p', hp', hl⟩ := Option.bind_eq_some_iff.mp h
    exact ih (hstep hp hp') hl

/-! ## Replies to the client -/

section Replies

variable (seqSet : Bool) (seq : UInt32)

theorem clientNext_serverError {p : Phase} (hp : p ≠ .free) (code : ReplyErrorCode) :
    clientNext p (buildServerError seqSet seq code) = some p := by
  have htype : frameType (buildServerError seqSet seq code) = .serverError :=
    (Reply.serverError seqSet seq code).frameType_frame
  cases p with
  | free => exact absurd rfl hp
  | waitPreinit | waitInit | active =>
    rw [clientNext, htype]
    rfl

theorem clientNext_preinitReply (tls : TlsSupported) (certRequired : UInt8) :
    clientNext .waitPreinit (buildPreinitReply seqSet seq tls certRequired) = some .waitInit := by
  have htype : frameType (buildPreinitReply seqSet seq tls certRequired) = .preinitReply :=
    (Reply.preinit seqSet seq tls certRequired).frameType_frame
  rw [clientNext, htype]
  rfl

theorem replyCode_initReply (code : ReplyErrorCode) (messages options : Bool)
    (maxRequest maxReply : UInt32) :
    replyCode (buildInitReply seqSet seq code messages options maxRequest maxReply) =
      some code.code := by
  have hframe := (Reply.init seqSet seq code messages options maxRequest maxReply).frame_eq
  have hcode : beGet16 [(code.code >>> 8).toUInt8, code.code.toUInt8] = code.code :=
    beGet16_be code.code []
  change replyCode (Reply.init seqSet seq code messages options maxRequest maxReply).frame = _
  rw [hframe, replyCode_optFrame]
  have hopts : ((Reply.init seqSet seq code messages options maxRequest maxReply).opts).foldlM
      (fun c o => readCode o.iterator c) none =
        some (some (beGet16 [(code.code >>> 8).toUInt8, code.code.toUInt8])) := by
    cases seqSet <;> cases messages <;> cases options <;> rfl
  rw [hopts, hcode]
  rfl

theorem clientNext_initReply {p : Phase} (code : ReplyErrorCode) (messages options : Bool)
    (maxRequest maxReply : UInt32) :
    (p = .waitInit →
      clientNext p (buildInitReply seqSet seq code messages options maxRequest maxReply) =
      some (if code = .noError then .active else .waitInit)) ∧
    (p = .active → code ≠ .noError →
      clientNext p (buildInitReply seqSet seq code messages options maxRequest maxReply) =
        some .active) := by
  have htype : frameType (buildInitReply seqSet seq code messages options maxRequest maxReply) =
      .initReply :=
    (Reply.init seqSet seq code messages options maxRequest maxReply).frameType_frame
  have hzero : some code.code = some 0 ↔ code = .noError := by cases code <;> decide
  refine ⟨fun hp => ?_, fun hp hne => ?_⟩
  · rw [hp, clientNext, htype, replyCode_initReply]
    simp only [clientStep, hzero]
    split_ifs <;> rfl
  · rw [hp, clientNext, htype, replyCode_initReply]
    simp only [clientStep, hzero, if_neg hne]

end Replies

/-- Only the replies of the handshake have no place in an active session. -/
theorem Reply.clientNext_active (r : Reply) (hpre : r.type ≠ .preinitReply)
    (hinit : r.type ≠ .initReply) : clientNext .active r.frame = some .active := by
  rw [clientNext, r.frameType_frame]
  cases r with
  | preinit => exact absurd rfl hpre
  | init => exact absurd rfl hinit
  | serverError | setOption | nodeList | voteInfo | heuristicsChange => rfl

theorem clientNext_echoReply {f : Frame} {m : MsgDecoded} (hdec : decodeFrame f = some m)
    (htype : m.type = .echoRequest) : clientNext .active (buildEchoReply f) = some .active := by
  have hecho : frameType (buildEchoReply f) = .echoReply := by
    rcases (echoReply_answers hdec htype).type with h | h
    · rw [htype] at h
      exact (Option.some.inj h).symm
    · rcases frameType_buildEchoReply f with h' | h'
      · exact h'
      · rw [h] at h'
        cases h'
  rw [clientNext, hecho]
  rfl

/-! ## The frames of a session -/

def Event.connects (t : Slot) : Event → Bool
  | .connect j => j == t
  | _ => false

/-- The frames sent to session `t` since it connected. -/
def receivedBy (t : Slot) (tr : List Event) : List Frame :=
  History.collected (Event.connects t) (Event.framesTo t) tr

/-- The event connects nobody, and sends at most a vote, to a session of `act`. -/
def Event.mild (act : Slot → Prop) : Event → Prop
  | .connect _ | .send _ _ => False
  | .vote t _ => act t
  | _ => True

theorem receivedBy_cons {t : Slot} {e : Event} (h : e.connects t = false) (tr : List Event) :
    receivedBy t (e :: tr) = receivedBy t tr ++ e.framesTo t := History.collected_cons h _ _

/-- Votes leave a client in the phase that has a place for them. -/
theorem receivedBy_mild {t : Slot} {p : Phase} {act : Slot → Prop} (hact : act t → p = .active)
    {new : List Event} (hnew : ∀ e ∈ new, e.mild act) (tr : List Event) :
    ∃ l, receivedBy t (new ++ tr) = receivedBy t tr ++ l ∧ l.foldlM clientNext p = some p := by
  induction new with
  | nil => exact ⟨[], (List.append_nil _).symm, rfl⟩
  | cons e new ih =>
    obtain ⟨l, hl, hp⟩ := ih fun x hx => hnew x (List.mem_cons_of_mem e hx)
    have he : e.mild act := hnew e (List.mem_cons_self ..)
    have hconn : e.connects t = false := by
      cases e with
      | connect j => exact he.elim
      | _ => rfl
    rw [List.cons_append, receivedBy_cons hconn, hl, List.append_assoc]
    refine ⟨l ++ e.framesTo t, rfl, ?_⟩
    rw [List.foldlM_append, hp]
    cases e with
    | send j f => exact he.elim
    | vote j v =>
      by_cases hj : j = t
      · have hpa : p = .active := hact (hj ▸ he)
        have hvote :=
          Reply.clientNext_active (.voteInfo v.seq v.ring v.vote) (by simp [Reply.type])
            (by simp [Reply.type])
        have hone : (Event.vote j v).framesTo t = [v.frame] := if_pos hj
        rw [hone, hpa]
        simp only [Option.bind_eq_bind, Option.bind_some, List.foldlM_cons, List.foldlM_nil]
        exact congrArg (fun o : Option Phase => o.bind pure) hvote
      · have hnone : (Event.vote j v).framesTo t = [] := if_neg hj
        rw [hnone]
        rfl
    | _ => rfl

/-! ## Following -/

/-- The frames sent between the two servers lead each client from its phase to the new one, and
nobody connects. -/
structure Follows (s s' : Server) : Prop where
  free : ∀ t, (s.sessions t).phase = .free → (s'.sessions t).phase = .free
  live : ∀ t, (s.sessions t).phase ≠ .free →
    ∃ l, receivedBy t s'.trace = receivedBy t s.trace ++ l ∧
    l.foldlM clientNext (s.sessions t).phase = some (s'.sessions t).phase

namespace Follows

variable {s t u : Server} {i : Slot}

theorem trans (h₁ : Follows s t) (h₂ : Follows t u) : Follows s u := by
  refine ⟨fun j hj => h₂.free j (h₁.free j hj), fun j hj => ?_⟩
  obtain ⟨l₁, htr₁, hl₁⟩ := h₁.live j hj
  have hlive : (t.sessions j).phase ≠ .free :=
    clientNext_foldlM (fun _ => clientNext_ne_free) hj hl₁
  obtain ⟨l₂, htr₂, hl₂⟩ := h₂.live j hlive
  refine ⟨l₁ ++ l₂, by rw [htr₂, htr₁, List.append_assoc], ?_⟩
  rw [List.foldlM_append, hl₁]
  exact hl₂

theorem of_silent (hphase : ∀ j, (t.sessions j).phase = (s.sessions j).phase)
    (htr : t.trace = s.trace) : Follows s t :=
  ⟨fun j hj => (hphase j).trans hj,
    fun j _ => ⟨[], by rw [htr, List.append_nil], by rw [hphase j]; rfl⟩⟩

theorem of_mild (hphase : ∀ j, (t.sessions j).phase = (s.sessions j).phase) {new : List Event}
    (htr : t.trace = new ++ s.trace)
    (hnew : ∀ e ∈ new, e.mild fun j => (s.sessions j).phase = .active) : Follows s t := by
  refine ⟨fun j hj => (hphase j).trans hj, fun j _ => ?_⟩
  obtain ⟨l, hl, hp⟩ := receivedBy_mild (t := j) id hnew s.trace
  exact ⟨l, by rw [htr, hl], by rw [hphase j]; exact hp⟩

theorem emit (s : Server) {e : Event} (he : e.mild fun j => (s.sessions j).phase = .active) :
    Follows s (s.emit e) := by
  have htr : (s.emit e).trace = [e] ++ s.trace := rfl
  exact of_mild (fun _ => rfl) htr (by simpa using he)

theorem modify (s : Server) (i : Slot) {f : Session → Session} (hf : ∀ x, (f x).phase = x.phase) :
    Follows s (s.modify i f) := by
  refine of_silent (fun j => ?_) rfl
  rw [Server.modify_apply]
  split_ifs
  · exact hf _
  · rfl

theorem rescheduleDpd (s : Server) (i : Slot) (now : UInt64) :
    Follows s (s.rescheduleDpd i now) := by
  refine modify s i fun x => ?_
  obtain ⟨d, hd⟩ := Session.rescheduled_eq now x
  rw [hd]

/-- The algorithm votes on active sessions only. -/
theorem within {c : Int} (h : Server.Within c s t) : Follows s t := by
  obtain ⟨new, htr, hnew⟩ := h.trace
  refine of_mild (fun j => h.same.phase j) htr fun e he => ?_
  have hw := hnew e he
  cases e with
  | vote j v => exact (Server.inCluster_iff.mp hw.1).1
  | connect | send => exact hw.elim
  | _ => trivial

/-- A frame is sent to session `i`, which goes on to the phase its client has then. -/
theorem answer (f : Frame) (hrec : ∀ j, receivedBy j t.trace = receivedBy j s.trace)
    (hothers : ∀ j, j ≠ i → (t.sessions j).phase = (s.sessions j).phase)
    (hfree : (s.sessions i).phase = .free → (t.sessions i).phase = .free)
    (hnext : (s.sessions i).phase ≠ .free →
      clientNext (s.sessions i).phase f = some (t.sessions i).phase) :
    Follows s (t.send i f) := by
  have hsent : ∀ j, receivedBy j (t.send i f).trace =
      receivedBy j s.trace ++ if i = j then [f] else [] := fun j => by
    rw [← hrec j]
    exact receivedBy_cons rfl t.trace
  refine ⟨fun j hj => ?_, fun j hj => ⟨_, hsent j, ?_⟩⟩
  · by_cases hji : j = i
    · subst hji
      exact hfree hj
    · exact (hothers j hji).trans hj
  · by_cases hji : j = i
    · subst hji
      rw [if_pos rfl, List.foldlM_cons, hnext hj]
      rfl
    · rw [if_neg (Ne.symm hji)]
      exact congrArg some (hothers j hji).symm

theorem sendErr (s : Server) (i : Slot) (m : MsgDecoded) (code : ReplyErrorCode) :
    Follows s (s.sendErr i m code) :=
  answer _ (fun _ => rfl) (fun _ _ => rfl) id fun hlive => clientNext_serverError m.seqNumberSet
    m.seqNumber hlive code

theorem reply (hact : (s.sessions i).phase = .active) (r : Reply) (hpre : r.type ≠ .preinitReply)
    (hinit : r.type ≠ .initReply) : Follows s (s.send i r.frame) :=
  answer _ (fun _ => rfl) (fun _ _ => rfl) id fun _ => by rw [hact]; exact r.clientNext_active hpre hinit

theorem active (h : Follows s t) (hact : (s.sessions i).phase = .active) :
    (t.sessions i).phase = .active := by
  obtain ⟨l, -, hl⟩ := h.live i (by rw [hact]; decide)
  rw [hact] at hl
  exact clientNext_foldlM (P := fun p => p = .active) (fun hp hq => clientNext_of_active (hp ▸ hq))
    rfl hl

end Follows

namespace Server

variable {i : Slot} {s : Server} (m : MsgDecoded) (now : UInt64)

theorem initStored_phases (i : Slot) (s : Server) (j : Slot) :
    ((s.initStored i m).sessions j).phase = (s.sessions j).phase := by
  by_cases hj : j = i
  · rw [hj, initStored_phase]
  · rw [initStored, modify_of_ne _ _ hj]

theorem admitted_phase (i : Slot) (s : Server) :
    ((s.admitted i now).sessions i).phase = .active := by
  obtain ⟨c, hc⟩ := admitted_self s i now
  obtain ⟨d, hd⟩ := Session.rescheduled_eq now { s.sessions i with cluster := c, phase := .active }
  rw [hc, hd]

theorem receivedBy_admitted (i : Slot) (s : Server) (j : Slot) :
    receivedBy j (s.admitted i now).trace = receivedBy j s.trace := by
  obtain ⟨new, htr, hnew⟩ := admitted_trace s i now
  rw [htr]
  clear htr
  induction new with
  | nil => rfl
  | cons e new ih =>
    have hadmits := hnew e (List.mem_cons_self ..)
    have hsilent : e.connects j = false ∧ e.framesTo j = [] := by
      cases e with
      | join | phase => exact ⟨rfl, rfl⟩
      | _ => exact hadmits.elim
    rw [List.cons_append, receivedBy_cons hsilent.1, hsilent.2, List.append_nil]
    exact ih fun x hx => hnew x (List.mem_cons_of_mem e hx)

/-- An INIT that is turned away leaves the session and its client where they are. -/
theorem turnedAway_follows (hlive : (s.sessions i).phase ≠ .free)
    (hpre : (s.sessions i).phase ≠ .waitPreinit)
    {code : ReplyErrorCode} (hcode : code ≠ .noError) :
    Follows s ((s.initStored i m).sendInitReply i m code) := by
  have hphase := initStored_phases m i s
  refine .answer _ (fun _ => rfl) (fun j _ => hphase j) (fun h => absurd h hlive) fun _ => ?_
  rw [hphase]
  obtain ⟨hwait, hact⟩ :=
    clientNext_initReply m.seqNumberSet m.seqNumber (p := (s.sessions i).phase) code
    m.supportedMessagesPresent m.supportedOptionsPresent (s.initStored i m).maxRxFrame
      (s.initStored i m).maxRxFrame
  cases hp : (s.sessions i).phase with
  | free => exact absurd hp hlive
  | waitPreinit => exact absurd hp hpre
  | waitInit =>
    rw [hp, if_neg hcode] at hwait
    exact hwait rfl
  | active =>
    rw [hp] at hact
    exact hact rfl hcode

theorem joined_follows (hlive : (s.sessions i).phase ≠ .free)
    (hpre : (s.sessions i).phase ≠ .waitPreinit) (hact : (s.sessions i).phase ≠ .active) :
    Follows s (((s.initStored i m).admitted i now).sendInitReply i m .noError) := by
  have hwait : (s.sessions i).phase = .waitInit := by
    cases hp : (s.sessions i).phase with
    | free => exact absurd hp hlive
    | waitPreinit => exact absurd hp hpre
    | waitInit => rfl
    | active => exact absurd hp hact
  refine .answer _ (receivedBy_admitted now i _) (fun j hj => ?_) (fun h => absurd h hlive) fun _ =>
    ?_
  · rw [admitted_of_ne _ now hj, initStored_phases]
  · rw [hwait, admitted_phase]
    exact (clientNext_initReply m.seqNumberSet m.seqNumber .noError m.supportedMessagesPresent
      m.supportedOptionsPresent _ _).1 rfl

/-- The client makes of every answer what the server does. -/
theorem Outcome.follows {s' : Server} {f : Frame} {m : MsgDecoded} {now : UInt64} (h : Outcome i m f now s s')
    (hdec : decodeFrame f = some m) (hlive : (s.sessions i).phase ≠ .free) : Follows s s' := by
  cases h with
  | refused code _ => exact .sendErr s i m code
  | greeted _ hwait =>
    refine .answer _ (fun _ => rfl) (fun j hj => by rw [modify_of_ne _ _ hj]) (fun h => absurd h hlive) fun _ => ?_
    rw [hwait, modify_self]
    exact clientNext_preinitReply m.seqNumberSet m.seqNumber .unsupported 0
  | turnedAway code _ hpre hcode => exact turnedAway_follows m hlive hpre hcode
  | joined _ hpre hfields _ _ => exact joined_follows m now hlive hpre (not_active_of_initFields hfields)
  | configured _ hact _ =>
    have hphase : ∀ x, (optioned m now x).phase = x.phase := by
      intro x
      obtain ⟨hb, deadline, keep, heq⟩ := optioned_eq m now x
      rw [heq]
    have hstored := Follows.modify s i hphase
    exact hstored.trans (.reply (hstored.active hact) (.setOption m.seqNumberSet m.seqNumber m.heartbeatIntervalSet _
      m.keepActivePartitionTieBreakerSet _) (by simp [Reply.type]) (by simp [Reply.type]))
  | echoed htype hact =>
    exact .answer _ (fun _ => rfl) (fun _ _ => rfl) id fun _ => by rw [hact]; exact clientNext_echoReply hdec htype
  | reported r hact _ =>
    have hacc : Follows s (s.emit (.accept i r)) := .emit s trivial
    have hphase : ∀ x, (noteReport m (s.reportVote i r m) r x).phase = x.phase := by
      intro x
      obtain ⟨_, _, _, _, _, _, _, heq⟩ := noteReport_eq m (s.reportVote i r m) r x
      rw [heq]
      rfl
    have hnoted : Follows s (s.noted i r m) := (hacc.trans (.within (ranReport_within s i r m))).trans
      (.modify _ i hphase)
    refine hnoted.trans ?_
    cases r with
    | list type =>
      exact .reply (hnoted.active hact) (.nodeList m.seqNumber type _ _) (by simp [Reply.type]) (by simp [Reply.type])
    | heuristics =>
      exact .reply (hnoted.active hact) (.heuristicsChange m.seqNumberSet m.seqNumber _) (by simp [Reply.type])
        (by simp [Reply.type])
  | replied _ hact hseq => exact .within (handleVoteInfoReply_within s m hseq (inCluster_iff.mpr ⟨hact, rfl⟩))

end Server

/-! ## Runs -/

def Informed (s : Server) : Prop :=
  ∀ t, (s.sessions t).phase ≠ .free → clientPhase (receivedBy t s.trace) = some (s.sessions t).phase

namespace Informed

variable {s s' : Server} {i : Slot}

theorem follows (h : Informed s) (hs : Follows s s') : Informed s' := by
  intro t ht
  have hlive : (s.sessions t).phase ≠ .free := fun hfree => ht (hs.free t hfree)
  obtain ⟨l, htr, hl⟩ := hs.live t hlive
  rw [htr, clientPhase, List.foldlM_append, ← clientPhase, h t hlive]
  exact hl

theorem gone (h : Informed s) (htr : s'.trace = s.trace) (hself : (s'.sessions i).phase = .free)
    (hothers : ∀ j, j ≠ i → s'.sessions j = s.sessions j) : Informed s' := by
  intro t ht
  have hti : t ≠ i := by
    rintro rfl
    exact ht hself
  rw [htr, hothers t hti]
  rw [hothers t hti] at ht
  exact h t ht

theorem left (h : Informed s) (i : Slot) : Informed ((s.leaveCluster i).reset i) := by
  rcases Server.left_cases s i with heq | ⟨-, heq⟩
  · rw [heq]
    exact h.gone rfl (by rw [Server.reset, Server.modify_self]) fun j
      hj => by rw [Server.reset, Server.modify_of_ne _ _ hj]
  · rw [heq]
    have hleave : Follows s (s.emit (.leave i (s.sessions i).cluster)) := .emit s trivial
    have hleaving := h.follows (hleave.trans (.within (leaving_within i)))
    exact hleaving.gone (Server.removed_trace ..) (by rw [Server.removed_self]) fun j hj =>
      Server.removed_of_ne _ _ hj

theorem connect (h : Informed s) (now : UInt64) (peer : String) :
    Informed ((s.modify i fun _ =>
      { phase := .waitPreinit, peer := peer, deadlineMs := now + PREACTIVE_TIMEOUT_MS }).emit
        (.connect i)) := by
  intro t ht
  by_cases hti : t = i
  · subst hti
    have hconn : (Event.connect t).connects t = true := beq_self_eq_true t
    have hnew : receivedBy t (.connect t :: s.trace) = [] := History.collected_of_reset hconn _ _
    rw [Server.emit_trace, Server.modify_trace, hnew, Server.emit_sessions, Server.modify_self]
    rfl
  · have hconn : (Event.connect i).connects t = false := beq_eq_false_iff_ne.mpr (Ne.symm hti)
    have hold : receivedBy t (.connect i :: s.trace) = receivedBy t s.trace := by
      rw [receivedBy_cons hconn]
      exact List.append_nil _
    rw [Server.emit_sessions, Server.modify_of_ne _ _ hti] at ht ⊢
    rw [Server.emit_trace, Server.modify_trace, hold]
    exact h t ht

end Informed

theorem informed_rule (n : UInt32) : Rule n Informed where
  init := fun _ ht => absurd rfl ht
  plumbing _ h := h.follows (.of_silent (fun _ => rfl) rfl)
  connect now peer _ h := h.connect now peer
  reschedule i now h := h.follows (.rescheduleDpd _ i now)
  frame _ _ _ h := h.follows (.emit _ trivial)
  refuse i code h := h.follows (.sendErr _ i {} code)
  message {s i f m} now hlive _ hdec h := by
    have hrecv : Informed (s.emit (.recv i (s.sessions i).phase (s.sessions i).nodeId m)) :=
      h.follows (.emit s trivial)
    exact hrecv.follows ((Server.handleMsg_outcome i m f now _).follows hdec hlive)
  leave _ h := h.left _
  close _ h := h.follows (.emit _ trivial)

/-- A client knows its phase. After any calls, with any bytes, the phase of every live session is
the one its client arrives at from the frames it was sent since it connected: PREINIT_REPLY once,
then INIT_REPLY without an error once, errors at any time, an INIT_REPLY with an error only in
between or later, and votes and other replies only after both. In particular none of these frames
comes where the client has no place for it. -/
theorem client_knows_phase (n : UInt32) (calls : List Call) (t : Slot)
    (hlive : ((run n calls).sessions t).phase ≠ .free) :
    clientPhase (receivedBy t (run n calls).trace) = some ((run n calls).sessions t).phase :=
  (informed_rule n).run calls t hlive

/-- A node joins and sends its config. -/
def joinedAlone : List Call :=
  Rig.join 0 [116] 1 {} ++ Rig.feed 0 [MockClient.configList 3 .initialConfig [1]]

/-- It was sent three replies. -/
theorem client_knows_phase_joined :
    (receivedBy 0 (run 32768 joinedAlone).trace).length = 3 ∧
      clientPhase (receivedBy 0 (run 32768 joinedAlone).trace) = some .active := by
  have hrun : ((run 32768 joinedAlone).sessions 0).phase = .active ∧
      (receivedBy 0 (run 32768 joinedAlone).trace).length = 3 := by decide +kernel
  refine ⟨hrun.2, ?_⟩
  rw [client_knows_phase 32768 joinedAlone 0 (by rw [hrun.1]; decide), hrun.1]

end Qnetd
