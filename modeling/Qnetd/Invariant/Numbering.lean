import Qnetd.Invariant.Rule

/-!
# The votes of a connection

What the server notes about the votes it has sent a client, against the history: `vote_info_seq`
counts them, modulo `2^32`, and `last_ack_nack` is the last of them. A reply is compared with the
count, so it is to the last vote of its connection or it is not counted.

* `votesTo t` : the votes sent to session `t` since it connected; `lastVote`;
* `Booked` : the notes of every session, and the number of decisions, are those of the history. It
  keeps to the rule (`booked_rule`);
* `votes_numbered` : the votes of a connection are numbered from 1, and only a reply to the last of
  them counts: it answers the vote, and any other changes nothing.
-/

namespace Qnetd

open History (Always)

/-- The votes sent to session `t` since its connection was opened, oldest first. -/
def votesTo (t : Slot) : List Event → List VoteInfo
  | [] => []
  | .connect j :: tr => if j = t then [] else votesTo t tr
  | .vote j v :: tr => if j = t then votesTo t tr ++ [v] else votesTo t tr
  | _ :: tr => votesTo t tr

/-- The last vote of a list, `UNDEFINED` before the first. -/
def lastVote (l : List VoteInfo) : Vote := (l.getLast?.map VoteInfo.vote).getD .undefined

def Event.unnoted : Event → Bool
  | .vote .. | .connect _ | .reply .. | .decide _ => false
  | _ => true

def Event.decides : Event → Bool
  | .decide _ => true
  | _ => false

theorem votesTo_cons_unnoted {t : Slot} {e : Event} (he : e.unnoted = true) (tr : List Event) :
    votesTo t (e :: tr) = votesTo t tr := by
  cases e <;> first | rfl | cases he

theorem votesTo_append_unnoted {t : Slot} {new : List Event} (hnew : ∀ e ∈ new, e.unnoted = true)
    (tr : List Event) : votesTo t (new ++ tr) = votesTo t tr := by
  induction new with
  | nil => rfl
  | cons e new ih =>
    rw [List.cons_append, votesTo_cons_unnoted (hnew e (List.mem_cons_self ..))]
    exact ih fun x hx => hnew x (List.mem_cons_of_mem e hx)

theorem votesTo_pass {t : Slot} {l : List Slot} (hl : l.Nodup) (g : Slot → VoteInfo)
    (tr : List Event) : votesTo t ((l.map fun i => Event.vote i (g i)).reverse ++ tr) =
      votesTo t tr ++ if t ∈ l then [g t] else [] := by
  induction l using List.reverseRecOn with
  | nil => simp
  | append_singleton l i ih =>
    obtain ⟨hnd, -, hdis⟩ := List.nodup_append.mp hl
    have hi : i ∉ l := fun hm => hdis i hm i (by simp) rfl
    rw [List.map_append, List.reverse_append]
    change votesTo t (Event.vote i (g i) :: ((l.map fun i => Event.vote i (g i)).reverse ++ tr)) = _
    by_cases ht : i = t
    · subst ht
      rw [votesTo, if_pos rfl, ih hnd, if_neg hi, if_pos (by simp), List.append_nil]
    · rw [votesTo, if_neg ht, ih hnd]
      simp [Ne.symm ht]

/-! ## The notes -/

/-- The notes of a session are about the votes of the list. -/
structure Session.Tallies (x : Session) (l : List VoteInfo) : Prop where
  voteInfoSeq : x.voteInfoSeq = UInt32.ofNat l.length
  lastAckNack : x.lastAckNack = lastVote l

theorem Session.Tallies.voted {x : Session} {l : List VoteInfo} (h : x.Tallies l) {v : VoteInfo}
    {w : Vote} (hv : v.vote = w) : (x.voted w).Tallies (l ++ [v]) := by
  refine ⟨?_, ?_⟩
  · change x.voteInfoSeq + 1 = _
    rw [h.voteInfoSeq, List.length_append, List.length_singleton, UInt32.ofNat_add]
    rfl
  · change w = _
    rw [lastVote, List.getLast?_append_cons, List.getLast?_singleton]
    exact hv.symm

structure Session.SameNotes (x y : Session) : Prop where
  free : y.phase = .free ↔ x.phase = .free
  voteInfoSeq : y.voteInfoSeq = x.voteInfoSeq
  lastAckNack : y.lastAckNack = x.lastAckNack

theorem Session.SameNotes.refl (x : Session) : Session.SameNotes x x := ⟨Iff.rfl, rfl, rfl⟩

theorem Session.SameNotes.trans {x y z : Session} (h₁ : x.SameNotes y) (h₂ : y.SameNotes z) :
    x.SameNotes z :=
  ⟨h₂.free.trans h₁.free, h₂.voteInfoSeq.trans h₁.voteInfoSeq, h₂.lastAckNack.trans h₁.lastAckNack⟩

theorem Session.rescheduled_sameNotes (now : UInt64) (x : Session) :
    Session.SameNotes x (x.rescheduled now) := by
  obtain ⟨d, hd⟩ := Session.rescheduled_eq now x
  rw [hd]
  exact ⟨Iff.rfl, rfl, rfl⟩

/-- A vote has the number after those of its connection; a reply is compared with the last number.
-/
def Numbered : Event → List Event → Prop
  | .vote t v, past => v.seq = UInt32.ofNat ((votesTo t past).length + 1)
  | .reply t _ expected _ _, past => expected = UInt32.ofNat (votesTo t past).length
  | _, _ => True

theorem numbered_unnoted {e : Event} (he : e.unnoted = true) (past : List Event) :
    Numbered e past := by
  cases e <;> trivial

theorem numbered_pass {l : List Slot} (hl : l.Nodup) {g : Slot → VoteInfo} {tr : List Event}
    (hg : ∀ i ∈ l, (g i).seq = UInt32.ofNat ((votesTo i tr).length + 1)) (h : Always Numbered tr) :
    Always Numbered ((l.map fun i => Event.vote i (g i)).reverse ++ tr) := by
  induction l using List.reverseRecOn with
  | nil => exact h
  | append_singleton l i ih =>
    obtain ⟨hnd, -, hdis⟩ := List.nodup_append.mp hl
    have hi : i ∉ l := fun hm => hdis i hm i (by simp) rfl
    have hpast := ih hnd fun j hj => hg j (List.mem_append_left _ hj)
    have hlast : Numbered (.vote i (g i)) ((l.map fun i => Event.vote i (g i)).reverse ++ tr) := by
      change (g i).seq =
        UInt32.ofNat ((votesTo i ((l.map fun i => Event.vote i (g i)).reverse ++ tr)).length + 1)
      rw [votesTo_pass hnd, if_neg hi, List.append_nil]
      exact hg i (by simp)
    rw [List.map_append, List.reverse_append]
    exact hpast.cons hlast

/-! ## Changes without a note -/

/-- No vote was sent and no reply counted, and the notes are the same. -/
structure Unnoted (s s' : Server) : Prop where
  notes : ∀ t, Session.SameNotes (s.sessions t) (s'.sessions t)
  decisions : s'.decisions = s.decisions
  trace : ∃ new, s'.trace = new ++ s.trace ∧ ∀ e ∈ new, e.unnoted = true

namespace Unnoted

variable {s t : Server} {i : Slot}

theorem live (h : Unnoted s t) (hlive : (s.sessions i).phase ≠ .free) :
    (t.sessions i).phase ≠ .free :=
  fun hfree => hlive ((h.notes i).free.mp hfree)

theorem emit (s : Server) {e : Event} (he : e.unnoted = true) : Unnoted s (s.emit e) :=
  ⟨fun _ => .refl _, rfl, [e], rfl, by simpa using he⟩

theorem send (s : Server) (i : Slot) (f : Frame) : Unnoted s (s.send i f) := emit s rfl

theorem sendErr (s : Server) (i : Slot) (m : MsgDecoded) (code : ReplyErrorCode) :
    Unnoted s (s.sendErr i m code) :=
  emit s rfl

theorem modify (s : Server) {f : Session → Session}
    (hf : Session.SameNotes (s.sessions i) (f (s.sessions i))) : Unnoted s (s.modify i f) := by
  refine ⟨fun j => ?_, rfl, [], rfl, by simp⟩
  rw [Server.modify_apply]
  split_ifs with hj
  · rw [hj]
    exact hf
  · exact .refl _

theorem setState (s : Server) (c : Int) (st : FfClusterState) : Unnoted s (s.setState c st) :=
  ⟨fun _ => .refl _, rfl, [.phase c st], rfl, by simp [Event.unnoted]⟩

theorem rescheduleDpd (s : Server) (i : Slot) (now : UInt64) : Unnoted s (s.rescheduleDpd i now) :=
  modify s (Session.rescheduled_sameNotes now _)

end Unnoted

namespace Server

variable (i : Slot) (now : UInt64) (s : Server) (m : MsgDecoded)

theorem initFields_sameNotes (x : Session) : Session.SameNotes x (initFields m x).2 := by
  rw [initFields_withInit]
  generalize (initFields m x).2 = y
  exact ⟨Iff.rfl, rfl, rfl⟩

theorem initStored_unnoted : Unnoted s (s.initStored i m) := by
  unfold initStored
  exact .modify s (initFields_sameNotes m _)

theorem admitted_unnoted (hlive : (s.sessions i).phase ≠ .free) : Unnoted s (s.admitted i now) := by
  refine ⟨fun j => ?_, admitted_decisions s i now, ?_⟩
  · by_cases hj : j = i
    · subst hj
      obtain ⟨c, hc⟩ := admitted_self s j now
      have hjoin :
          Session.SameNotes (s.sessions j) { s.sessions j with cluster := c, phase := .active } :=
        ⟨by simp [hlive], rfl, rfl⟩
      rw [hc]
      exact hjoin.trans (Session.rescheduled_sameNotes now _)
    · rw [admitted_of_ne s now hj]
      exact .refl _
  · obtain ⟨new, htr, hnew⟩ := admitted_trace s i now
    refine ⟨new, htr, fun e he => ?_⟩
    have hadmits := hnew e he
    cases e with
    | vote | connect | reply | decide => exact hadmits.elim
    | _ => rfl

/-- The answer to a report carries no ACK and no NACK, so it is not noted as one. -/
theorem noteReport_unnoted {v : Vote} (hack : v ≠ .ack) (hnack : v ≠ .nack) (r : Report) :
    Unnoted s (s.modify i (noteReport m v r)) := by
  refine .modify s ?_
  obtain ⟨_, _, _, _, _, _, _, heq⟩ := noteReport_eq m v r (s.sessions i)
  rw [heq]
  exact ⟨Iff.rfl, rfl, if_neg (by simp [hack, hnack])⟩

end Server

/-! ## The notes of a run -/

structure Booked (s : Server) : Prop where
  tallies : ∀ t, (s.sessions t).phase ≠ .free → (s.sessions t).Tallies (votesTo t s.trace)
  numbered : Always Numbered s.trace
  decisions : s.decisions = UInt32.ofNat (s.trace.countP Event.decides)

namespace Booked

variable {s s' : Server} {i : Slot}

theorem unnoted (h : Booked s) (hs : Unnoted s s') : Booked s' := by
  obtain ⟨new, htr, hnew⟩ := hs.trace
  refine ⟨fun t ht => ?_, ?_, ?_⟩
  · have h0 := h.tallies t fun hfree => ht ((hs.notes t).free.mpr hfree)
    rw [htr, votesTo_append_unnoted hnew]
    exact ⟨(hs.notes t).voteInfoSeq.trans h0.voteInfoSeq,
      (hs.notes t).lastAckNack.trans h0.lastAckNack⟩
  · rw [htr]
    exact h.numbered.append_of_forall fun e he past => numbered_unnoted (hnew e he) past
  · have hnone : new.countP Event.decides = 0 := by
      rw [List.countP_eq_zero]
      intro e he hd
      have := hnew e he
      cases e <;> simp [Event.decides, Event.unnoted] at hd this
    rw [hs.decisions, htr, List.countP_append, hnone, Nat.zero_add]
    exact h.decisions

theorem setState (h : Booked s) (c : Int) (st : FfClusterState) : Booked (s.setState c st) :=
  h.unnoted (.setState s c st)

/-! ## The algorithm -/

theorem passed (h : Booked s) (tv : TriggerView) (sendAcks : Bool) :
    Booked (s.passed tv sendAcks) := by
  have hnd : (s.targets tv sendAcks).Nodup := (List.nodup_finRange _).filter _
  have hlive : ∀ t, s.target tv sendAcks t = true → (s.sessions t).phase ≠ .free := by
    intro t ht hfree
    have hin := Server.target_inCluster ht
    simp [Server.inCluster, hfree] at hin
  refine ⟨fun t ht => ?_, ?_, ?_⟩
  · rw [Server.passed_trace, votesTo_pass hnd]
    rw [Server.passed_sessions] at ht ⊢
    by_cases htar : s.target tv sendAcks t = true
    · rw [if_pos htar, if_pos (Server.mem_targets.mpr htar)]
      exact (h.tallies t (hlive t htar)).voted rfl
    · rw [if_neg htar] at ht ⊢
      rw [if_neg (mt Server.mem_targets.mp htar), List.append_nil]
      exact h.tallies t ht
  · rw [Server.passed_trace]
    refine numbered_pass hnd (fun i hi => ?_) h.numbered
    have hnote := (h.tallies i (hlive i (Server.mem_targets.mp hi))).voteInfoSeq
    change (s.sessions i).voteInfoSeq + 1 = _
    rw [hnote, UInt32.ofNat_add]
    rfl
  · have hnone :
        ((s.targets tv sendAcks).map fun i => Event.vote i (s.voteTo tv sendAcks i)).reverse.countP
        Event.decides = 0 := by
      simp [List.countP_eq_zero, Event.decides]
    rw [Server.passed_trace, List.countP_append, hnone, Nat.zero_add]
    exact h.decisions

theorem decided (h : Booked s) (tv : TriggerView) : Booked (s.decided tv) := by
  refine ⟨fun t ht => ?_, ?_, ?_⟩
  · have hvotes : votesTo t (s.decided tv).trace = votesTo t s.trace := by
      rw [Server.decided_trace]
      rfl
    have hsame : Session.SameNotes (s.sessions t) ((s.decided tv).sessions t) := by
      rw [Server.decided_sessions]
      split_ifs
      · exact ⟨Iff.rfl, rfl, rfl⟩
      · exact .refl _
    have h0 := h.tallies t fun hfree => ht (hsame.free.mpr hfree)
    rw [hvotes]
    exact ⟨hsame.voteInfoSeq.trans h0.voteInfoSeq, hsame.lastAckNack.trans h0.lastAckNack⟩
  · rw [Server.decided_trace]
    exact (h.numbered.cons trivial).cons trivial
  · have hcount : (s.decided tv).trace.countP Event.decides = s.trace.countP Event.decides + 1 := by
      rw [Server.decided_trace, List.countP_cons_of_pos rfl,
        List.countP_cons_of_neg Bool.false_ne_true]
    have hone : (s.decided tv).decisions = s.decisions + 1 := rfl
    rw [hone, hcount, h.decisions, UInt32.ofNat_add]
    rfl

theorem ffsplitVotes (h : Booked s) (tv : TriggerView) : Booked (s.ffsplitVotes tv) := by
  rcases Server.ffsplitVotes_cases s tv with ⟨-, hdo⟩ | ⟨-, -, hdo⟩ | ⟨-, -, hdo⟩
  · rw [hdo]
    exact (h.setState _ _).passed tv false
  · rw [hdo]
    exact ((h.setState _ _).setState _ _).passed tv true
  · rw [hdo]
    exact ((h.setState _ _).setState _ _).setState _ _

theorem ffsplitDo (h : Booked s) (tv : TriggerView) : Booked (s.ffsplitDo tv).2.2 := by
  rcases Server.ffsplitDo_server s tv with ⟨-, hdo⟩ | ⟨-, hdo⟩
  · rw [hdo]
    exact (h.setState _ _).unnoted (.emit _ rfl)
  · rw [hdo]
    exact (h.decided tv).ffsplitVotes tv

/-! ## Reports, replies and leaving -/

theorem ranReport (h : Booked s) (r : Report) (m : MsgDecoded) : Booked (s.ranReport i r m) := by
  unfold Server.ranReport
  split_ifs
  · exact (h.unnoted (.emit s rfl)).ffsplitDo _
  · exact h.unnoted (.emit s rfl)

theorem handleVoteInfoReply (h : Booked s) (hlive : (s.sessions i).phase ≠ .free) {m : MsgDecoded}
    (hset : m.seqNumberSet = true) : Booked (s.handleVoteInfoReply i m) := by
  -- the event records the number the reply is compared with
  have hevent : ∀ st ph, Booked (s.emit (.reply i m.seqNumber (s.sessions i).voteInfoSeq st ph)) :=
    fun st ph => ⟨h.tallies, h.numbered.cons (h.tallies i hlive).voteInfoSeq, h.decisions⟩
  have hans : Booked (s.answered i m.seqNumber) :=
    (hevent _ _).unnoted (.modify _ ⟨Iff.rfl, rfl, rfl⟩)
  rcases Server.handleVoteInfoReply_cases s i m hset rfl with
    ⟨-, hdo⟩ | ⟨-, ⟨hdo, -⟩ | ⟨-, -, -, hdo⟩ | ⟨-, -, -, hdo⟩ | ⟨-, -, hdo⟩⟩
  · rw [hdo]
    exact hevent _ _
  · rw [hdo]
    exact hans
  · rw [hdo]
    exact (hans.setState _ _).passed _ true
  · rw [hdo]
    exact (hans.setState _ _).setState _ _
  · rw [hdo]
    exact hans.setState _ _

theorem outcome {m : MsgDecoded} {f : Frame} {now : UInt64} (h : Booked s)
    (ho : Server.Outcome i m f now s s') (hlive : (s.sessions i).phase ≠ .free) : Booked s' := by
  have hstored := Server.initStored_unnoted i s m
  cases ho with
  | refused code _ => exact h.unnoted (.sendErr s i m code)
  | greeted _ hwait =>
    exact (h.unnoted (.modify s ⟨by simp [hwait], rfl, rfl⟩)).unnoted (.send _ i _)
  | turnedAway code _ _ _ => exact (h.unnoted hstored).unnoted (.send _ i _)
  | joined _ _ _ _ _ =>
    exact ((h.unnoted hstored).unnoted
      (Server.admitted_unnoted i now _ (hstored.live hlive))).unnoted (.send _ i _)
  | configured _ _ _ =>
    obtain ⟨hb, deadline, keep, heq⟩ := Server.optioned_eq m now (s.sessions i)
    exact (h.unnoted (.modify s (by rw [heq]; exact ⟨Iff.rfl, rfl, rfl⟩))).unnoted (.send _ i _)
  | echoed _ _ => exact h.unnoted (.send s i _)
  | reported r _ _ =>
    have hnote := Server.noteReport_unnoted i (s.ranReport i r m) m (s.reportVote_ne_ack i r m)
      (s.reportVote_ne_nack i r m) r
    exact ((h.ranReport r m).unnoted hnote).unnoted (.send _ i _)
  | replied _ _ hset => exact h.handleVoteInfoReply hlive hset

theorem gone (h : Booked s) (htr : s'.trace = s.trace) (hdec : s'.decisions = s.decisions)
    (hself : (s'.sessions i).phase = .free) (hothers : ∀ j, j ≠ i → s'.sessions j = s.sessions j) :
    Booked s' := by
  refine ⟨fun t ht => ?_, by rw [htr]; exact h.numbered, by rw [htr, hdec]; exact h.decisions⟩
  have hti : t ≠ i := by
    rintro rfl
    exact ht hself
  rw [htr, hothers t hti]
  rw [hothers t hti] at ht
  exact h.tallies t ht

theorem left (h : Booked s) : Booked ((s.leaveCluster i).reset i) := by
  rcases Server.left_cases s i with heq | ⟨-, heq⟩
  · rw [heq]
    exact h.gone rfl rfl (by rw [Server.reset, Server.modify_self]) fun j hj => by
      rw [Server.reset, Server.modify_of_ne _ _ hj]
  · rw [heq]
    have hleaving : Booked (s.leaving i) := (h.unnoted (.emit s rfl)).ffsplitDo _
    exact hleaving.gone (Server.removed_trace ..) rfl (by rw [Server.removed_self]) fun j hj =>
      Server.removed_of_ne _ _ hj

theorem connect (h : Booked s) (now : UInt64) (peer : String) :
    Booked ((s.modify i fun _ =>
      { phase := .waitPreinit, peer := peer, deadlineMs := now + PREACTIVE_TIMEOUT_MS }).emit
        (.connect i)) := by
  refine ⟨fun t ht => ?_, h.numbered.cons trivial, ?_⟩
  · by_cases hti : t = i
    · subst hti
      simp only [Server.emit_sessions, Server.modify_self, Server.emit_trace, votesTo, if_true]
      exact ⟨rfl, rfl⟩
    · simp only [Server.emit_sessions, Server.modify_of_ne _ _ hti, Server.emit_trace, votesTo,
        if_neg (Ne.symm hti)] at ht ⊢
      exact h.tallies t ht
  · rw [Server.emit_trace, List.countP_cons_of_neg Bool.false_ne_true]
    exact h.decisions

end Booked

theorem booked_rule (n : UInt32) : Rule n Booked where
  init := ⟨fun t ht => absurd rfl ht, Always.nil, rfl⟩
  plumbing p h := h.unnoted ⟨fun _ => ⟨Iff.rfl, rfl, rfl⟩, rfl, [], rfl, by simp⟩
  connect now peer _ h := h.connect now peer
  reschedule i now h := h.unnoted (.rescheduleDpd _ i now)
  frame i _ _ h := h.unnoted (.emit _ rfl)
  refuse i code h := h.unnoted (.sendErr _ i {} code)
  message {s i f m} now hlive _ _ h := by
    have hrecv : Booked (s.emit (.recv i (s.sessions i).phase (s.sessions i).nodeId m)) :=
      h.unnoted (.emit s rfl)
    exact hrecv.outcome (Server.handleMsg_outcome i m f now _) hlive
  leave _ h := h.left
  close i h := h.unnoted (.emit _ rfl)

theorem run_booked (n : UInt32) (calls : List Call) : Booked (run n calls) :=
  (booked_rule n).run calls

/-! ## The numbers -/

/-- The numbers of the votes of a connection are 1, 2, 3, ... -/
theorem seqs_of_numbered {tr : List Event} (h : Always Numbered tr) (t : Slot) :
    (votesTo t tr).map VoteInfo.seq = (List.range (votesTo t tr).length).map fun k =>
    UInt32.ofNat (k + 1) := by
  induction tr with
  | nil => rfl
  | cons e tr ih =>
    have ih := ih fun new a old htr => h (e :: new) a old (by rw [htr]; rfl)
    have he : Numbered e tr := h [] e tr rfl
    cases e with
    | connect j =>
      rw [votesTo]
      split_ifs
      · rfl
      · exact ih
    | vote j v =>
      rw [votesTo]
      split_ifs with hj
      · subst hj
        have hv : v.seq = UInt32.ofNat ((votesTo j tr).length + 1) := he
        rw [List.map_append, ih, List.length_append, List.length_singleton, List.range_succ,
          List.map_append, List.map_singleton, List.map_singleton, hv]
      · exact ih
    | _ => exact ih

theorem seq_of_getElem? {tr : List Event} (h : Always Numbered tr) {t : Slot} {j : Nat}
    {v : VoteInfo} (hv : (votesTo t tr)[j]? = some v) : v.seq = UInt32.ofNat (j + 1) := by
  obtain ⟨hj, -⟩ := List.getElem?_eq_some_iff.mp hv
  have hseqs := congrArg (fun l => l[j]?) (seqs_of_numbered h t)
  simp only [List.getElem?_map, hv, List.getElem?_range hj, Option.map_some,
    Option.some.injEq] at hseqs
  exact hseqs

/-- While the numbers have not wrapped, the vote with the number a reply is compared with is the
last. -/
theorem Booked.last_iff {s : Server} (h : Booked s) {t : Slot}
    (hlive : (s.sessions t).phase ≠ .free)
    (hfew : (votesTo t s.trace).length < 2 ^ 32) {j : Nat} {v : VoteInfo}
    (hv : (votesTo t s.trace)[j]? = some v) :
    v.seq = (s.sessions t).voteInfoSeq ↔ j + 1 = (votesTo t s.trace).length := by
  obtain ⟨hj, -⟩ := List.getElem?_eq_some_iff.mp hv
  rw [(h.tallies t hlive).voteInfoSeq, seq_of_getElem? h.numbered hv, ← UInt32.toNat_inj,
    UInt32.toNat_ofNat', UInt32.toNat_ofNat', Nat.mod_eq_of_lt hfew, Nat.mod_eq_of_lt (by omega)]

theorem Server.handleVoteInfoReply_answers (s : Server) (i : Slot) {m : MsgDecoded}
    (hset : m.seqNumberSet = true) (hseq : m.seqNumber = (s.sessions i).voteInfoSeq) :
    ((s.handleVoteInfoReply i m).sessions i).ffState = .waitingForChange := by
  have hself := s.answered_ffState_self i m.seqNumber
  rcases Server.handleVoteInfoReply_cases s i m hset rfl with
    ⟨hne, -⟩ | ⟨-, ⟨hdo, -⟩ | ⟨-, -, -, hdo⟩ | ⟨-, -, -, hdo⟩ | ⟨-, -, hdo⟩⟩
  · exact absurd hseq hne
  · rw [hdo]
    exact hself
  · rw [hdo, Server.passed_sessions]
    split_ifs
    · exact hself
    · exact hself
  · rw [hdo]
    exact hself
  · rw [hdo]
    exact hself

/-- The votes of a connection are numbered, and only a reply to the last one counts. In every run
the votes sent to a client since it connected have the numbers 1, 2, 3, ... modulo `2^32`. Take a
reply of an active session, in any state of a run, that carries the number of one of the votes the
session has been sent, while the numbers have not wrapped. If that vote was the last, the session
has answered: it waits for a change. If it was not, nothing changes and nothing is sent. -/
theorem votes_numbered (n : UInt32) :
    (∀ calls t, (votesTo t (run n calls).trace).map VoteInfo.seq =
      (List.range (votesTo t (run n calls).trace).length).map fun k => UInt32.ofNat (k + 1)) ∧
    ∀ s, Acted n s → ∀ t, (s.sessions t).phase = .active → (votesTo t s.trace).length < 2 ^ 32 →
      ∀ j v m, (votesTo t s.trace)[j]? = some v → m.seqNumberSet = true → m.seqNumber = v.seq →
      (j + 1 = (votesTo t s.trace).length →
        ((s.handleVoteInfoReply t m).sessions t).ffState = .waitingForChange) ∧
      (j + 1 ≠ (votesTo t s.trace).length →
        (s.handleVoteInfoReply t m).sessions = s.sessions ∧
        (s.handleVoteInfoReply t m).clusters = s.clusters ∧
        (s.handleVoteInfoReply t m).decisions = s.decisions ∧
        transportCalls (s.handleVoteInfoReply t m).trace = transportCalls s.trace) := by
  refine ⟨fun calls t => seqs_of_numbered (run_booked n calls).numbered t, ?_⟩
  intro s hs t hact hfew j v m hv hset hseq
  have hbook : Booked s := hs Booked (booked_rule n)
  have hlast := hbook.last_iff (by rw [hact]; decide) hfew hv
  rw [← hseq] at hlast
  refine ⟨fun hj => s.handleVoteInfoReply_answers t hset (hlast.mpr hj), fun hj => ?_⟩
  rcases Server.handleVoteInfoReply_cases s t m hset rfl with ⟨-, hdo⟩ | ⟨heq, -⟩
  · rw [hdo]
    exact ⟨rfl, rfl, rfl, rfl⟩
  · exact absurd (hlast.mp heq) hj

/-- A node is alone in its cluster, and reports its membership twice. -/
def twoReports : List Call :=
  Rig.join 0 [116] 1 {} ++ Rig.feed 0 [MockClient.configList 3 .initialConfig [1],
    MockClient.membership 4 ⟨1, 1⟩ [1], MockClient.membership 5 ⟨1, 2⟩ [1]]

/-- It has two ACKs to answer. A reply to the first changes nothing, one to the second counts. -/
theorem votes_numbered_twoReports :
    ((run 32768 twoReports).sessions 0).ffState = .sendingAck ∧
    ((run 32768 twoReports).handleVoteInfoReply 0
      { type := .voteInfoReply, seqNumberSet := true, seqNumber := 1 }).sessions =
        (run 32768 twoReports).sessions ∧
    (((run 32768 twoReports).handleVoteInfoReply 0
      { type := .voteInfoReply, seqNumberSet := true, seqNumber := 2 }).sessions 0).ffState =
        .waitingForChange := by
  have hrun : ((run 32768 twoReports).sessions 0).phase = .active ∧
      ((run 32768 twoReports).sessions 0).ffState = .sendingAck ∧
      (votesTo 0 (run 32768 twoReports).trace).map VoteInfo.seq = [1, 2] := by decide +kernel
  obtain ⟨hact, hstate, hseqs⟩ := hrun
  have hlen : (votesTo 0 (run 32768 twoReports).trace).length = 2 := by
    rw [← List.length_map VoteInfo.seq, hseqs]
    rfl
  have hvote : ∀ (j : Nat) (seq : UInt32), [1, 2][j]? = some seq →
      ∃ v : VoteInfo, (votesTo 0 (run 32768 twoReports).trace)[j]? = some v ∧ v.seq = seq := by
    intro j seq hj
    rw [← hseqs, List.getElem?_map, Option.map_eq_some_iff] at hj
    exact hj
  obtain ⟨v₁, hv₁, hseq₁⟩ := hvote 0 1 rfl
  obtain ⟨v₂, hv₂, hseq₂⟩ := hvote 1 2 rfl
  have heffect := (votes_numbered 32768).2 _ (run_acted 32768 twoReports) 0 hact
    (by rw [hlen]; decide)
  have hstale := (heffect 0 v₁ { type := .voteInfoReply, seqNumberSet := true, seqNumber := 1 }
    hv₁ rfl hseq₁.symm).2 (by rw [hlen]; decide)
  have hcounted := (heffect 1 v₂ { type := .voteInfoReply, seqNumberSet := true, seqNumber := 2 }
    hv₂ rfl hseq₂.symm).1 (by rw [hlen])
  exact ⟨hstate, hstale.1, hcounted⟩

end Qnetd
