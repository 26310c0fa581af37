import Qnetd.Invariant.Current

/-!
# Who holds the vote

A client may act on an ACK from the moment it is sent until a later NACK has been answered.
Decisions can follow each other while replies are under way, but the clients that may act on an ACK
all come from the winning partition of one decision.

* `HoldsAck t` : session `t` was sent an ACK in its cluster, and has not answered a NACK since;
* `Holding c` : the holders of cluster `c` belong to one decision, and the latest verdict, if it is
  a decision, knows them all; `Holding.decide`, `Holding.reply` : the two places where votes are
  sent;
* `Move.holding`, `run_holding`, `one_partition_holds` : at most one partition of a cluster holds
  the vote.
-/

namespace Qnetd

open History (last last_append_of_none Since)

/-! ## Holders -/

/-- Session `t` enters or leaves a cluster. -/
def Event.turnsOver (t : Slot) : Event → Prop
  | .join j _ | .leave j _ => j = t
  | _ => False

/-- Session `t` has been sent an ACK since it joined its cluster, and has not answered a NACK since
that ACK. -/
def HoldsAck (t : Slot) (tr : List Event) : Prop :=
  Since (fun e => e.ackTo t = true) (fun e => ¬e.turnsOver t) tr ∧ ¬Answered t tr

theorem Event.not_ackTo {t : Slot} {e : Event} (h : ¬e.renews t) : ¬e.ackTo t = true := by
  intro hack
  cases e with
  | vote j info =>
    simp only [Event.ackTo, Bool.and_eq_true, decide_eq_true_eq] at hack
    exact h hack
  | _ => cases hack

theorem HoldsAck.of_append {t : Slot} {new tr : List Event} (h : HoldsAck t (new ++ tr))
    (hnew : ∀ e ∈ new, ¬e.renews t) : HoldsAck t tr :=
  ⟨h.1.of_append fun e he => Event.not_ackTo (hnew e he), fun hans => h.2 (hans.append hnew)⟩

theorem HoldsAck.of_cons {t : Slot} {e : Event} {tr : List Event} (h : HoldsAck t (e :: tr))
    (he : ¬e.renews t) : HoldsAck t tr := @HoldsAck.of_append t [e] tr h (by simpa using he)

/-- Who has just joined or is leaving holds nothing. -/
theorem not_holdsAck_of_turnsOver {t : Slot} {e : Event} {tr : List Event} (he : e.turnsOver t) :
    ¬HoldsAck t (e :: tr) := by
  rintro ⟨hs, -⟩
  rcases History.since_cons.mp hs with hack | ⟨hno, -⟩
  · cases e with
    | join _ _ | leave _ _ => cases hack
    | _ => exact he.elim
  · exact hno he

/-- The holders of cluster `c` were put in the winning partition by one decision. -/
def OneDecision (c : Int) (s : Server) : Prop :=
  (∀ t, s.inCluster c t = true → ¬HoldsAck t s.trace) ∨
    ∃ d, .decide d ∈ s.trace ∧ d.cluster = c ∧ ∀ t, s.inCluster c t = true → HoldsAck t s.trace →
      ∃ v, d.voters t = some v ∧ v.state = .sendingAck

theorem OneDecision.of_shrinks {c : Int} {s s' : Server} (h : OneDecision c s)
    (htr : s.trace <:+ s'.trace)
    (hold : ∀ t, s'.inCluster c t = true → HoldsAck t s'.trace → s.inCluster c t = true ∧
      HoldsAck t s.trace) :
    OneDecision c s' := by
  rcases h with hno | ⟨d, hd, hc, hall⟩
  · exact Or.inl fun t hin ht => hno t (hold t hin ht).1 (hold t hin ht).2
  · exact Or.inr ⟨d, htr.subset hd, hc, fun t hin ht => hall t (hold t hin ht).1 (hold t hin ht).2⟩

structure Holding (c : Int) (s : Server) : Prop where
  one : OneDecision c s
  known : ∀ d, last (Event.verdictIn c) s.trace = some (some d) → ∀ t, s.inCluster c t = true →
    HoldsAck t s.trace →
    ∃ v, d.voters t = some v

theorem Holding.of_shrinks {c : Int} {s s' : Server} {new : List Event} (h : Holding c s)
    (htr : s'.trace = new ++ s.trace) (hverdict : ∀ e ∈ new, e.verdictIn c = none)
    (hold : ∀ t, s'.inCluster c t = true → HoldsAck t s'.trace → s.inCluster c t = true ∧
      HoldsAck t s.trace) :
    Holding c s' := by
  refine ⟨h.one.of_shrinks ⟨new, htr.symm⟩ hold, fun d hd t hin ht => ?_⟩
  rw [htr, last_append_of_none hverdict] at hd
  exact h.known d hd t (hold t hin ht).1 (hold t hin ht).2

theorem Holding.apart {c : Int} {s s' : Server} (ha : Apart c s s') (h : Holding c s) :
    Holding c s' := by
  obtain ⟨new, htr, hnew⟩ := ha.trace
  refine h.of_shrinks htr (fun e he => (hnew e he).verdictIn) fun t hin ht => ?_
  rw [ha.inCluster] at hin
  rw [htr] at ht
  exact ⟨hin, ht.of_append fun e he => (hnew e he).not_renews hin⟩

theorem Holding.join {i : Slot} {c : Int} {s s' : Server} (hj : Joined i c s s') (h : Holding c s) :
    Holding c s' := by
  obtain ⟨mid, htr, hmid⟩ : ∃ mid, s'.trace = .join i c :: (mid ++ s.trace) ∧
      ∀ e ∈ mid, ∃ st, e = Event.phase c st := by
    rcases hj.record with ⟨-, -, -, htr⟩ | ⟨-, -, -, htr⟩
    · exact ⟨[], htr, by simp⟩
    · exact ⟨[_], htr, by simp⟩
  have hphase : ∀ e ∈ mid, e.verdictIn c = none ∧ ∀ t, ¬e.renews t := by
    intro e he
    obtain ⟨st, rfl⟩ := hmid e he
    exact ⟨rfl, fun _ => id⟩
  refine @Holding.of_shrinks c s s' (.join i c :: mid) h htr (fun e he => ?_) fun t hin ht => ?_
  · rcases List.mem_cons.mp he with rfl | he
    · rfl
    · exact (hphase e he).1
  · rw [htr] at ht
    have hti : t ≠ i := by
      rintro rfl
      exact not_holdsAck_of_turnsOver (e := .join t c) rfl ht
    rw [hj.inCluster_of_ne hti] at hin
    exact ⟨hin, (ht.of_cons id).of_append fun e he => (hphase e he).2 t⟩

/-! ## Decisions -/

theorem passed_nacks_not_renews {s : Server} {tv : TriggerView} {t : Slot} {e : Event}
    (he : e ∈ ((s.targets tv false).map fun i => Event.vote i (s.voteTo tv false i)).reverse) :
    ¬e.renews t := by
  rw [List.mem_reverse, List.mem_map] at he
  obtain ⟨i, -, rfl⟩ := he
  rintro ⟨-, hack⟩
  cases hack

theorem passed_acks_not_renews {s : Server} {tv : TriggerView} {t : Slot}
    (ht : s.target tv true t = false) {e : Event}
    (he : e ∈ ((s.targets tv true).map fun i => Event.vote i (s.voteTo tv true i)).reverse) :
    ¬e.renews t := by
  rw [List.mem_reverse, List.mem_map] at he
  obtain ⟨i, hi, rfl⟩ := he
  rintro ⟨rfl, -⟩
  rw [Server.mem_targets.mp hi] at ht
  cases ht

/-- A pass of votes makes its targets holders, if it is one of ACKs, and nobody else. -/
theorem HoldsAck.of_passed {s : Server} {tv : TriggerView} {sendAcks : Bool} {t : Slot}
    (h : HoldsAck t (s.passed tv sendAcks).trace) :
    (sendAcks = true ∧ s.target tv sendAcks t = true) ∨ HoldsAck t s.trace := by
  rw [Server.passed_trace] at h
  cases sendAcks with
  | false => exact Or.inr (h.of_append fun e he => passed_nacks_not_renews he)
  | true =>
    cases ht : s.target tv true t with
    | true => exact Or.inl ⟨rfl, rfl⟩
    | false => exact Or.inr (h.of_append fun e he => passed_acks_not_renews ht he)

theorem HoldsAck.of_setState {s : Server} {c : Int} {st : FfClusterState} {t : Slot}
    (h : HoldsAck t (s.setState c st).trace) : HoldsAck t s.trace := by
  rw [Server.setState_trace] at h
  exact h.of_cons id

/-- The holders after the votes of a decision: those from before, or, when nobody was sent a NACK,
the new winners. -/
theorem HoldsAck.of_votes {s : Server} {tv : TriggerView} {t : Slot}
    (h : HoldsAck t (s.ffsplitVotes tv).trace) :
    HoldsAck t s.trace ∨ (s.targets tv false = [] ∧ s.target tv true t = true) := by
  rcases Server.ffsplitVotes_cases s tv with ⟨-, hv⟩ | ⟨hnil, -, hv⟩ | ⟨-, -, hv⟩
  · rw [hv] at h
    rcases h.of_passed with ⟨hf, -⟩ | h
    · cases hf
    · exact Or.inl h.of_setState
  · rw [hv] at h
    rcases h.of_passed with ⟨-, ht⟩ | h
    · exact Or.inr ⟨hnil, ht⟩
    · exact Or.inl h.of_setState.of_setState
  · rw [hv] at h
    exact Or.inl h.of_setState.of_setState.of_setState

theorem verdict_voter_of_member {s : Server} {tv : TriggerView} {t : Slot}
    (hin : s.inCluster (s.tvCluster tv) t = true)
    (hstay : ¬(tv.leaving = true ∧ t = tv.slot)) : ∃ v, (s.verdict tv).voters t = some v := by
  have ho : s.others tv t = true := by
    unfold Server.others
    rw [hin, Bool.true_and, Bool.not_eq_true', ← Bool.not_eq_true, Bool.and_eq_true,
      decide_eq_true_eq]
    exact hstay
  simp only [Server.verdict, ho, if_true]
  exact ⟨_, rfl⟩

/-- The holders after a decision are voters of it. Either they held the vote before, or nobody was
put outside. -/
theorem HoldsAck.of_decided {s : Server} {tv : TriggerView}
    (hleave : tv.leaving = true → ¬HoldsAck tv.slot s.trace) {t : Slot}
    (hin : s.inCluster (s.tvCluster tv) t = true)
    (ht : HoldsAck t ((s.decided tv).ffsplitVotes tv).trace) :
    (∃ v, (s.verdict tv).voters t = some v) ∧
    ((s.decided tv).targets tv false ≠ [] → HoldsAck t s.trace) := by
  rcases ht.of_votes with ht | ⟨hnil, ht⟩
  · rw [Server.decided_trace] at ht
    have hold : HoldsAck t s.trace := (ht.of_cons id).of_cons id
    refine ⟨verdict_voter_of_member hin ?_, fun _ => hold⟩
    rintro ⟨hl, rfl⟩
    exact hleave hl hold
  · have hwalk : s.inWalk tv t = true := by
      rw [← Server.inWalk_congr (Server.decided_sameButVotes s tv)]
      exact (Server.target_iff.mp ht).1
    obtain ⟨v, hv, -⟩ := Server.verdict_voter_of_walk hwalk
    exact ⟨⟨v, hv⟩, fun hne => absurd hnil hne⟩

/-- A decision leaves one partition holding the vote: it asks for the votes back first, unless
nobody is outside. The session that leaves holds nothing any more. -/
theorem Holding.decide {s : Server} {tv : TriggerView}
    (hleave : tv.leaving = true → ¬HoldsAck tv.slot s.trace)
    (hfair : ∀ d, .decide d ∈ (s.ffsplitDo tv).2.2.trace → Fair d)
    (h : Holding (s.tvCluster tv) s) : Holding (s.tvCluster tv) (s.ffsplitDo tv).2.2 := by
  have hin := Server.inCluster_congr (Server.ffsplitDo_sameButVotes s tv) (s.tvCluster tv)
  have hsuffix := (Server.ffsplitDo_within s tv).trace_suffix
  rcases Server.ffsplitDo_verdict s tv with ⟨hst, hlast⟩ | ⟨hst, hlast⟩
  · refine ⟨h.one.of_shrinks hsuffix fun t ht hold => ?_, fun d hd => ?_⟩
    · rcases Server.ffsplitDo_server s tv with ⟨-, hs⟩ | ⟨hst', -⟩
      · rw [hs] at hold
        rw [hin] at ht
        exact ⟨ht, HoldsAck.of_setState (hold.of_cons id)⟩
      · rw [hst] at hst'
        cases hst'
    · rw [hlast] at hd
      cases Option.some.inj hd
  · rcases Server.ffsplitDo_server s tv with ⟨hst', -⟩ | ⟨-, hs⟩
    · rw [hst] at hst'
      cases hst'
    · have hmem := (mem_of_decisionIn (decision_of_verdict hlast)).1
      have hf := hfair _ hmem
      rw [hs] at hin hsuffix hlast hmem ⊢
      refine ⟨?_, fun d hd t ht hold => ?_⟩
      · by_cases hnil : (s.decided tv).targets tv false = []
        · -- nobody is outside: the holders are the winners of this decision
          refine Or.inr ⟨s.verdict tv, hmem, rfl, fun t ht hold => ?_⟩
          rw [hin] at ht
          obtain ⟨⟨v, hv⟩, -⟩ := hold.of_decided hleave ht
          refine ⟨v, hv, (hf.votes t v hv).resolve_right fun hnack => ?_⟩
          obtain ⟨hin', hff⟩ := Server.verdict_ffState hv
          have hw := Server.decided_inWalk hin' (by rw [hff, hnack]; nofun)
          exact ffState_of_no_target (fun _ => hw) hnil (hff.trans hnack)
        · refine h.one.of_shrinks hsuffix fun t ht hold => ?_
          rw [hin] at ht
          exact ⟨ht, (hold.of_decided hleave ht).2 hnil⟩
      · rw [hlast] at hd
        cases hd
        rw [hin] at ht
        exact (hold.of_decided hleave ht).1

/-! ## Replies -/

theorem Holding.emit {c : Int} {s : Server} (h : Holding c s) {e : Event}
    (hv : e.verdictIn c = none) (hr : ∀ t, ¬e.renews t) : Holding c (s.emit e) :=
  @Holding.of_shrinks c s (s.emit e) [e] h rfl (by simpa using hv) fun t hin ht =>
    ⟨hin, ht.of_cons (hr t)⟩

theorem Holding.setState {c : Int} {s : Server} (h : Holding c s) (c' : Int) (st : FfClusterState) :
    Holding c (s.setState c' st) :=
  @Holding.of_shrinks c s (s.setState c' st) [_] h rfl (by simp [Event.verdictIn]) fun _ hin ht =>
    ⟨hin, ht.of_setState⟩

theorem Holding.answered {c : Int} {s : Server} (h : Holding c s) (i : Slot) (seq : UInt32) :
    Holding c (s.answered i seq) := by
  refine @Holding.of_shrinks c s _ [_] h (s.answered_trace i seq) (by simp [Event.verdictIn])
    fun t hin ht => ?_
  rw [Server.inCluster_congr (Server.answered_sameButVotes s i seq)] at hin
  rw [Server.answered_trace] at ht
  exact ⟨hin, ht.of_cons id⟩

/-- The ACKs of the decision in force, when everybody outside has answered: whoever still holds an
older ACK is a voter of the decision, and not one outside. -/
theorem Holding.released {c : Int} {d : Decision} {s : Server} (tv : TriggerView) (hfair : Fair d)
    (hd : .decide d ∈ s.trace) (hc : d.cluster = c) (hs : Standing c d s)
    (hno : ∀ t, s.inCluster c t = true → (s.sessions t).ffState ≠ .sendingNack) (h : Holding c s) :
    Holding c (s.passed tv true) := by
  have hin := Server.inCluster_congr (Server.passed_sameButVotes s tv true) c
  have hlast : last (Event.verdictIn c) (s.passed tv true).trace = some (some d) := by
    rw [Server.last_passed fun _ _ => rfl]
    exact hs.latest
  have hwinner : ∀ t, (s.passed tv true).inCluster c t = true →
      HoldsAck t (s.passed tv true).trace →
      ∃ v, d.voters t = some v ∧ v.state = .sendingAck := by
    intro t ht hold
    rw [hin] at ht
    rcases hold.of_passed with ⟨-, htarget⟩ | hold
    · have hff := (Server.target_iff.mp htarget).2
      obtain ⟨v, hv, hst⟩ := hs.waits t ht (by rw [hff]; nofun)
      exact ⟨v, hv, hst.trans hff⟩
    · obtain ⟨v, hv⟩ := h.known d hs.latest t ht hold
      refine ⟨v, hv, (hfair.votes t v hv).resolve_right fun hnack => ?_⟩
      exact hold.2 (hs.all_answered hno tv hv hnack).1
  refine ⟨Or.inr ⟨d, ?_, hc, hwinner⟩, fun d' hd' t ht hold => ?_⟩
  · rw [Server.passed_trace]
    exact List.mem_append_right _ hd
  · rw [hlast] at hd'
    cases hd'
    obtain ⟨v, hv, -⟩ := hwinner t ht hold
    exact ⟨v, hv⟩

theorem Holding.reply {i : Slot} {s : Server} {m : MsgDecoded}
    (hact : (s.sessions i).phase = .active)
    (hset : m.seqNumberSet = true) (hfair : ∀ d, .decide d ∈ s.trace → Fair d)
    (hf : InForce (s.sessions i).cluster s)
    (h : Holding (s.sessions i).cluster s) :
    Holding (s.sessions i).cluster (s.handleVoteInfoReply i m) := by
  set c := (s.sessions i).cluster with hc
  have ha := h.answered i m.seqNumber
  rcases Server.handleVoteInfoReply_cases s i m hset hc.symm with
    ⟨-, hs⟩ | ⟨hseq, ⟨hs, -, -⟩ | ⟨hst, hn, -, hs⟩ | ⟨-, -, -, hs⟩ | ⟨-, -, hs⟩⟩
  · rw [hs]
    exact h.emit rfl fun _ => id
  · rw [hs]
    exact ha
  · -- the last NACK is answered
    obtain ⟨d, hd⟩ := hf.standing (Or.inl hst)
    have hin : s.inCluster c i = true := Server.inCluster_iff.mpr ⟨hact, rfl⟩
    have hd' : Standing c d (s.answered i m.seqNumber) := by
      rw [hseq]
      exact hd.answer fun hff => (hf.round.nacks hst).2 i hin hff
    obtain ⟨hmem, hdc⟩ := mem_of_decisionIn (decision_of_verdict hd.latest)
    rw [hs]
    refine Holding.released _ (hfair d hmem) ?_ hdc (hd'.setState c .sendingAcks)
      (Server.ffsplitCountState_eq_zero.mp hn) (ha.setState c .sendingAcks)
    exact List.mem_cons_of_mem _ (List.mem_cons_of_mem _ hmem)
  · rw [hs]
    exact (ha.setState c .sendingAcks).setState c .waitingForChange
  · rw [hs]
    exact ha.setState c .waitingForChange

/-! ## Runs -/

theorem Holding.report {i : Slot} {s : Server} {r : Report} {m : MsgDecoded}
    (hfair : ∀ d, .decide d ∈ (s.reported i r m).trace → Fair d)
    (h : Holding (s.sessions i).cluster s) : Holding (s.sessions i).cluster (s.reported i r m) := by
  have hacc : Holding (s.sessions i).cluster (s.emit (.accept i r)) := h.emit rfl fun _ => id
  refine Holding.apart (s := s.ranReport i r m) (apart_modify _ _ i _ rfl rfl rfl rfl) ?_
  change ∀ d, .decide d ∈ (s.ranReport i r m).trace → Fair d at hfair
  unfold Server.ranReport at hfair ⊢
  split_ifs at hfair ⊢
  · have hd := @Holding.decide (s.emit (.accept i r)) (s.reportView i m r)
      (fun hl => absurd hl (by rw [reportView_leaving]; nofun)) hfair
    rw [Server.tvCluster, reportView_slot] at hd
    exact hd hacc
  · exact hacc

theorem Holding.leave {i : Slot} {s : Server}
    (hfair : ∀ d, .decide d ∈ ((s.leaving i).removed i (s.sessions i).cluster).trace → Fair d)
    (h : Holding (s.sessions i).cluster s) :
    Holding (s.sessions i).cluster ((s.leaving i).removed i (s.sessions i).cluster) := by
  have hleave : Holding (s.sessions i).cluster (s.emit (.leave i (s.sessions i).cluster)) :=
    h.emit rfl fun _ => id
  have hd : Holding (s.sessions i).cluster (s.leaving i) :=
    @Holding.decide (s.emit (.leave i (s.sessions i).cluster)) (s.storedView i true)
      (fun _ => not_holdsAck_of_turnsOver (e := .leave i (s.sessions i).cluster) rfl) hfair hleave
  refine @Holding.of_shrinks _ (s.leaving i) _ [] hd rfl (by simp) fun t hin ht => ⟨?_, ht⟩
  have hti : t ≠ i := by
    rintro rfl
    rw [Server.removed_inCluster_self] at hin
    cases hin
  rwa [Server.removed_inCluster_of_ne _ _ _ hti] at hin

end Qnetd
