import Qnetd.Invariant.Cluster

/-!
# Vote rounds

The state of a cluster is a summary of the states of its sessions: in SENDING_NACKS and SENDING_ACKS
somebody owes a reply, and in WAITING_FOR_CHANGE nobody does.

* `Owed t v seq` : the last vote sent to session `t` is `v` with the number `seq`, and no reply with
  that number has come since; `passed_owed` : a pass over the votes makes its targets owe a reply;
* `Round c` : the summary is right; `round_invariant` : it is an invariant of single clusters.
-/

namespace Qnetd

open History (Since)
open Server (passVote dueState)

/-! ## Owing a reply -/

/-- After the event, what session `t` owed for the number `seq` is no longer owed. -/
def Event.settles (t : Slot) (seq : UInt32) : Event → Prop
  | .vote j _ | .connect j => j = t
  | .reply j q _ _ _ => j = t ∧ q = seq
  | _ => False

/-- The event is the vote `v` to session `t`, with the number `seq`. -/
def Event.asks (t : Slot) (v : Vote) (seq : UInt32) : Event → Prop
  | .vote j info => j = t ∧ info.vote = v ∧ info.seq = seq
  | _ => False

def Owed (t : Slot) (v : Vote) (seq : UInt32) : List Event → Prop :=
  Since (Event.asks t v seq) fun e => ¬e.settles t seq

theorem Owed.append {t : Slot} {v : Vote} {seq : UInt32} {tr new : List Event} (h : Owed t v seq tr)
    (hnew : ∀ e ∈ new, ¬e.settles t seq) : Owed t v seq (new ++ tr) := Since.append h hnew

theorem Owed.cons {t : Slot} {v : Vote} {seq : UInt32} {tr : List Event} (h : Owed t v seq tr)
    {e : Event} (he : ¬e.settles t seq) : Owed t v seq (e :: tr) := Since.cons h he

theorem Event.apart.not_settles {c : Int} {mem : Slot → Bool} {e : Event} (h : e.apart c mem) {t : Slot}
    (ht : mem t = true) (seq : UInt32) : ¬e.settles t seq := by
  have hne : ∀ {j}, mem j = false → j ≠ t := by
    rintro j hj rfl
    rw [hj] at ht
    cases ht
  cases e with
  | vote j v => exact hne h.1
  | connect j => exact hne h
  | reply j _ _ _ _ => exact fun hs => hne h hs.1
  | send _ _ | close _ | frame _ _ | recv _ _ _ _ | join _ _ | leave _ _ | accept _ _ | phase _ _ | unstable _
  | decide _ => exact id

namespace Server

/-- Every target of a pass owes a reply to its vote. -/
theorem passed_owed (s : Server) (tv : TriggerView) (sendAcks : Bool) {i : Slot}
    (hi : s.target tv sendAcks i = true) :
    Owed i (passVote sendAcks) ((s.passed tv sendAcks).sessions i).voteInfoSeq
    (s.passed tv sendAcks).trace := by
  obtain ⟨done, rest, hsplit⟩ := List.append_of_mem (mem_targets.mpr hi)
  have hnd : (s.targets tv sendAcks).Nodup := (List.nodup_finRange _).filter _
  rw [hsplit] at hnd
  have hrest : i ∉ rest := (List.nodup_cons.mp (List.nodup_append.mp hnd).2.1).1
  have hseq : ((s.passed tv sendAcks).sessions i).voteInfoSeq = (s.sessions i).voteInfoSeq + 1 := by
    rw [passed_sessions, if_pos hi]
    rfl
  rw [passed_trace, hsplit, hseq, List.map_append, List.map_cons, List.reverse_append,
    List.reverse_cons, List.append_assoc, List.append_assoc]
  have hask : Event.asks i (passVote sendAcks) ((s.sessions i).voteInfoSeq + 1)
      (.vote i (s.voteTo tv sendAcks i)) := ⟨rfl, rfl, rfl⟩
  refine ⟨_, _, _, rfl, hask, fun e he => ?_⟩
  rw [List.mem_reverse, List.mem_map] at he
  obtain ⟨j, hj, rfl⟩ := he
  rintro rfl
  exact hrest hj

/-- A pass leaves everything else about a session as it was, the order of the states included. -/
theorem passed_target (s : Server) (tv : TriggerView) (sendAcks : Bool) {i : Slot}
    (hin : (s.passed tv sendAcks).inCluster (s.tvCluster tv) i = true)
    (hff : ((s.passed tv sendAcks).sessions i).ffState = dueState sendAcks)
    (hwalk : s.inCluster (s.tvCluster tv) i = true → (s.sessions i).ffState ≠ .waitingForChange →
      s.inWalk tv i = true) : s.target tv sendAcks i = true := by
  rw [passed_ffState] at hff
  rw [inCluster_congr (passed_sameButVotes s tv sendAcks)] at hin
  refine target_iff.mpr ⟨hwalk hin ?_, hff⟩
  rw [hff]
  cases sendAcks <;> exact nofun

/-- After the states are updated, only the sessions of the walk wait for a vote. -/
theorem decided_inWalk {s : Server} {tv : TriggerView} {i : Slot}
    (hin : s.inCluster (s.tvCluster tv) i = true)
    (hff : ((s.decided tv).sessions i).ffState ≠ .waitingForChange) :
    (s.decided tv).inWalk tv i = true := by
  rw [decided_sessions, if_pos hin] at hff
  rw [inWalk_congr (decided_sameButVotes s tv)]
  refine inWalk_iff.mpr ⟨hin, Bool.eq_false_iff.mpr fun hskip => ?_⟩
  refine hff ?_
  simp only [putState, hskip, if_true]

end Server

/-! ## The invariant -/

structure Round (c : Int) (s : Server) : Prop where
  idle : (s.clusters c).state = .waitingForChange → ∀ t, s.inCluster c t = true →
    (s.sessions t).ffState = .waitingForChange
  nacks : (s.clusters c).state = .sendingNacks →
    (∃ t, s.inCluster c t = true ∧ (s.sessions t).ffState = .sendingNack) ∧
    ∀ t, s.inCluster c t = true → (s.sessions t).ffState = .sendingNack →
      Owed t .nack (s.sessions t).voteInfoSeq s.trace
  acks : (s.clusters c).state = .sendingAcks →
    (∀ t, s.inCluster c t = true → (s.sessions t).ffState ≠ .sendingNack) ∧
    (∃ t, s.inCluster c t = true ∧ (s.sessions t).ffState = .sendingAck) ∧
    ∀ t, s.inCluster c t = true → (s.sessions t).ffState = .sendingAck →
      Owed t .ack (s.sessions t).voteInfoSeq s.trace

theorem Round.apart {c : Int} {s s' : Server} (ha : Apart c s s') (h : Round c s) : Round c s' := by
  obtain ⟨new, htr, hnew⟩ := ha.trace
  have howed : ∀ {t v}, s.inCluster c t = true → Owed t v (s.sessions t).voteInfoSeq s.trace →
      Owed t v (s'.sessions t).voteInfoSeq s'.trace := by
    intro t v ht ho
    rw [ha.voteInfoSeq t ht, htr]
    exact ho.append fun e he => (hnew e he).not_settles ht _
  refine ⟨fun hst t ht => ?_, fun hst => ?_, fun hst => ?_⟩
  · rw [ha.cluster] at hst
    rw [ha.inCluster] at ht
    rw [ha.ffState t ht]
    exact h.idle hst t ht
  · rw [ha.cluster] at hst
    obtain ⟨⟨t, ht, hff⟩, ho⟩ := h.nacks hst
    refine ⟨⟨t, (ha.inCluster t).trans ht, (ha.ffState t ht).trans hff⟩, fun t ht hff => ?_⟩
    rw [ha.inCluster] at ht
    rw [ha.ffState t ht] at hff
    exact howed ht (ho t ht hff)
  · rw [ha.cluster] at hst
    obtain ⟨hno, ⟨t, ht, hff⟩, ho⟩ := h.acks hst
    refine ⟨fun t ht => ?_, ⟨t, (ha.inCluster t).trans ht, (ha.ffState t ht).trans hff⟩,
      fun t ht hff => ?_⟩
    · rw [ha.inCluster] at ht
      rw [ha.ffState t ht]
      exact hno t ht
    · rw [ha.inCluster] at ht
      rw [ha.ffState t ht] at hff
      exact howed ht (ho t ht hff)

/-- A new member waits for a change, so it changes nothing about the round. -/
theorem Round.join {i : Slot} {c : Int} {s s' : Server} (ht : Table s)
    (hphase : (s.sessions i).phase ≠ .active)
    (hj : Joined i c s s') (h : Round c s) : Round c s' := by
  obtain ⟨d, hself⟩ := hj.self
  have hnew : (s'.sessions i).ffState = .waitingForChange := by
    rw [hself]
    exact (ht.idle i hphase).ffState
  have hout : s.inCluster c i = false := by
    rw [← Bool.not_eq_true, Server.inCluster_iff]
    exact fun h => hphase h.1
  -- the sessions that wait for a vote are the same
  have hold : ∀ {t}, s'.inCluster c t = true → (s'.sessions t).ffState ≠ .waitingForChange →
      s.inCluster c t = true ∧ s'.sessions t = s.sessions t := by
    intro t hin hff
    have hti : t ≠ i := by
      rintro rfl
      exact hff hnew
    rw [hj.inCluster_of_ne hti] at hin
    exact ⟨hin, hj.others t hti⟩
  have hkeep : ∀ {t}, s.inCluster c t = true → s'.inCluster c t = true ∧
      s'.sessions t = s.sessions t := by
    intro t hin
    have hti : t ≠ i := by
      rintro rfl
      rw [hout] at hin
      cases hin
    exact ⟨(hj.inCluster_of_ne hti c).trans hin, hj.others t hti⟩
  obtain ⟨new, htr, hquiet⟩ : ∃ new, s'.trace = new ++ s.trace ∧ ∀ e ∈ new, ∀ t seq,
      ¬e.settles t seq := by
    rcases hj.record with ⟨-, -, -, htr⟩ | ⟨-, -, -, htr⟩
    · exact ⟨[_], htr, by simp [Event.settles]⟩
    · exact ⟨[_, _], htr, by simp [Event.settles]⟩
  have howed : ∀ {t v}, Owed t v (s.sessions t).voteInfoSeq s.trace →
      Owed t v (s.sessions t).voteInfoSeq s'.trace := by
    intro t v ho
    rw [htr]
    exact ho.append fun e he => hquiet e he _ _
  rcases hj.record with ⟨-, -, hcl, -⟩ | ⟨h0, -, hcl, -⟩
  · have hstate : (s'.clusters c).state = (s.clusters c).state := by rw [hcl]
    refine ⟨fun hst t hin => ?_, fun hst => ?_, fun hst => ?_⟩
    · by_contra hff
      obtain ⟨hin', heq⟩ := hold hin hff
      rw [heq] at hff
      exact hff (h.idle (hstate.symm.trans hst) t hin')
    · obtain ⟨⟨t, hin, hff⟩, ho⟩ := h.nacks (hstate.symm.trans hst)
      refine ⟨⟨t, (hkeep hin).1, by rw [(hkeep hin).2, hff]⟩, fun t hin hff => ?_⟩
      obtain ⟨hin', heq⟩ := hold hin (by rw [hff]; nofun)
      rw [heq] at hff ⊢
      exact howed (ho t hin' hff)
    · obtain ⟨hno, ⟨t, hin, hff⟩, ho⟩ := h.acks (hstate.symm.trans hst)
      refine ⟨fun t hin hff => ?_, ⟨t, (hkeep hin).1, by rw [(hkeep hin).2, hff]⟩,
        fun t hin hff => ?_⟩
      · obtain ⟨hin', heq⟩ := hold hin (by rw [hff]; nofun)
        rw [heq] at hff
        exact hno t hin' hff
      · obtain ⟨hin', heq⟩ := hold hin (by rw [hff]; nofun)
        rw [heq] at hff ⊢
        exact howed (ho t hin' hff)
  · have hstate : (s'.clusters c).state = .waitingForChange := by rw [hcl]
    have hempty : ∀ t, s.inCluster c t = false := fun t => ht.not_inCluster (by rw [h0]) t
    refine ⟨fun _ t hin => ?_, fun hst => ?_, fun hst => ?_⟩
    · by_contra hff
      obtain ⟨hin', -⟩ := hold hin hff
      rw [hempty t] at hin'
      cases hin'
    · rw [hstate] at hst
      cases hst
    · rw [hstate] at hst
      cases hst

/-! ## Passes -/

theorem Round.of_nacks {t : Server} {tv : TriggerView}
    (hst : (t.clusters (t.tvCluster tv)).state = .sendingNacks)
    (hwalk : ∀ i, t.inCluster (t.tvCluster tv) i = true →
      (t.sessions i).ffState ≠ .waitingForChange →
      t.inWalk tv i = true) (hne : t.targets tv false ≠ []) :
    Round (t.tvCluster tv) (t.passed tv false) := by
  have hstate : ((t.passed tv false).clusters (t.tvCluster tv)).state = .sendingNacks := hst
  refine ⟨fun h => ?_, fun _ => ⟨?_, fun i hin hff => ?_⟩, fun h => ?_⟩
  · rw [hstate] at h
    cases h
  · obtain ⟨i, hi⟩ := List.exists_mem_of_ne_nil _ hne
    have ht := Server.mem_targets.mp hi
    refine ⟨i, ?_, ?_⟩
    · rw [Server.inCluster_congr (Server.passed_sameButVotes t tv false)]
      exact Server.target_inCluster ht
    · rw [Server.passed_ffState]
      exact (Server.target_iff.mp ht).2
  · exact Server.passed_owed t tv false (Server.passed_target t tv false hin hff (hwalk i))
  · rw [hstate] at h
    cases h

theorem Round.of_acks {t : Server} {tv : TriggerView}
    (hst : (t.clusters (t.tvCluster tv)).state = .sendingAcks)
    (hwalk : ∀ i, t.inCluster (t.tvCluster tv) i = true →
      (t.sessions i).ffState ≠ .waitingForChange → t.inWalk tv i = true)
    (hno : ∀ i, t.inCluster (t.tvCluster tv) i = true → (t.sessions i).ffState ≠ .sendingNack)
    (hne : t.targets tv true ≠ []) : Round (t.tvCluster tv) (t.passed tv true) := by
  have hstate : ((t.passed tv true).clusters (t.tvCluster tv)).state = .sendingAcks := hst
  refine ⟨fun h => ?_, fun h => ?_, fun _ => ⟨fun i hin => ?_, ?_, fun i hin hff => ?_⟩⟩
  · rw [hstate] at h
    cases h
  · rw [hstate] at h
    cases h
  · rw [Server.passed_ffState]
    rw [Server.inCluster_congr (Server.passed_sameButVotes t tv true)] at hin
    exact hno i hin
  · obtain ⟨i, hi⟩ := List.exists_mem_of_ne_nil _ hne
    have ht := Server.mem_targets.mp hi
    refine ⟨i, ?_, ?_⟩
    · rw [Server.inCluster_congr (Server.passed_sameButVotes t tv true)]
      exact Server.target_inCluster ht
    · rw [Server.passed_ffState]
      exact (Server.target_iff.mp ht).2
  · exact Server.passed_owed t tv true (Server.passed_target t tv true hin hff (hwalk i))

theorem Round.of_idle {c : Int} {s : Server} (hst : (s.clusters c).state = .waitingForChange)
    (hff : ∀ t, s.inCluster c t = true → (s.sessions t).ffState = .waitingForChange) :
    Round c s := by
  refine ⟨fun _ => hff, fun h => ?_, fun h => ?_⟩
  · rw [hst] at h
    cases h
  · rw [hst] at h
    cases h

theorem Round.of_unstable {c : Int} {s : Server}
    (hst : (s.clusters c).state = .waitingForStableMembership) : Round c s := by
  refine ⟨fun h => ?_, fun h => ?_, fun h => ?_⟩
  · rw [hst] at h
    cases h
  · rw [hst] at h
    cases h
  · rw [hst] at h
    cases h

theorem ffState_of_no_target {t : Server} {tv : TriggerView} {i : Slot} {sendAcks : Bool}
    (hwalk : (t.sessions i).ffState ≠ .waitingForChange → t.inWalk tv i = true)
    (hnil : t.targets tv sendAcks = []) : (t.sessions i).ffState ≠ dueState sendAcks := by
  intro hff
  have hno := Server.targets_eq_nil.mp hnil i
  have ht : t.target tv sendAcks i = true := by
    refine Server.target_iff.mpr ⟨hwalk ?_, hff⟩
    rw [hff]
    cases sendAcks <;> exact nofun
  rw [hno] at ht
  cases ht

/-- A decision starts a round of its own, whatever the round before. -/
theorem Round.decide (s : Server) (tv : TriggerView) :
    Round (s.tvCluster tv) (s.ffsplitDo tv).2.2 := by
  rcases Server.ffsplitDo_server s tv with ⟨-, h⟩ | ⟨-, h⟩
  · rw [h]
    exact Round.of_unstable (by simp)
  · set t := s.decided tv with ht
    have htv : t.tvCluster tv = s.tvCluster tv :=
      Server.tvCluster_congr (Server.decided_sameButVotes s tv) tv
    have hwalk : ∀ i, t.inCluster (t.tvCluster tv) i = true →
        (t.sessions i).ffState ≠ .waitingForChange → t.inWalk tv i = true := by
      intro i hin hff
      rw [htv, Server.inCluster_congr (Server.decided_sameButVotes s tv)] at hin
      exact Server.decided_inWalk hin hff
    rw [h, ← htv]
    rcases Server.ffsplitVotes_cases t tv with ⟨hne, hv⟩ | ⟨hnil, hne, hv⟩ | ⟨hnil, hnil', hv⟩
    · rw [hv]
      exact Round.of_nacks (t := t.setState (t.tvCluster tv) .sendingNacks) (by simp) hwalk hne
    · rw [hv]
      exact Round.of_acks
        (t := (t.setState (t.tvCluster tv) .sendingNacks).setState (t.tvCluster tv) .sendingAcks)
        (by simp) hwalk (fun i hin => ffState_of_no_target (hwalk i hin) hnil) hne
    · rw [hv]
      refine Round.of_idle (by simp) fun i hin => ?_
      have hn := ffState_of_no_target (hwalk i hin) hnil
      have ha := ffState_of_no_target (hwalk i hin) hnil'
      change (t.sessions i).ffState = .waitingForChange
      cases hff : (t.sessions i).ffState with
      | waitingForChange => rfl
      | sendingNack => exact absurd hff hn
      | sendingAck => exact absurd hff ha

/-! ## Leaving -/

theorem leaving_ffState (s : Server) {i : Slot} (hact : (s.sessions i).phase = .active) :
    ((s.leaving i).clusters (s.sessions i).cluster).state = .waitingForStableMembership ∨
      ((s.leaving i).sessions i).ffState = .waitingForChange := by
  set u := s.emit (.leave i (s.sessions i).cluster) with hu
  set tv := s.storedView i true with htv
  have hskip : u.skipInClusterWalk tv i = true := by
    simp [Server.skipInClusterWalk, htv, Server.storedView]
  have hin : u.inCluster (u.tvCluster tv) i = true := Server.inCluster_iff.mpr ⟨hact, rfl⟩
  rcases Server.ffsplitDo_server u tv with ⟨-, h⟩ | ⟨-, h⟩
  · refine Or.inl ?_
    change ((u.ffsplitDo tv).2.2.clusters (u.tvCluster tv)).state = _
    rw [h]
    simp
  · refine Or.inr ?_
    change ((u.ffsplitDo tv).2.2.sessions i).ffState = _
    have hd : ((u.decided tv).sessions i).ffState = .waitingForChange := by
      rw [Server.decided_sessions, if_pos hin]
      simp only [Server.putState, hskip, if_true]
    rw [h]
    rcases Server.ffsplitVotes_cases (u.decided tv) tv with ⟨-, hv⟩ | ⟨-, -, hv⟩ | ⟨-, -, hv⟩
    · rw [hv, Server.passed_ffState]
      exact hd
    · rw [hv, Server.passed_ffState]
      exact hd
    · rw [hv]
      exact hd

theorem Round.gone {i : Slot} {s : Server} (ht : Table s) (hact : (s.sessions i).phase = .active)
    (h : Round (s.sessions i).cluster (s.leaving i)) :
    Round (s.sessions i).cluster ((s.leaving i).removed i (s.sessions i).cluster) := by
  set c := (s.sessions i).cluster with hc
  set t := s.leaving i with htdef
  have hin : t.inCluster c i = true :=
    ((leaving_within i).inCluster c i).trans (Server.inCluster_iff.mpr ⟨hact, rfl⟩)
  have htab : Table (t.removed i c) := by
    have hm : Move i s ((s.leaveCluster i).reset i) := Move.leave
    have := hm.table ht
    rwa [Server.left_eq hact (ht.range i hact).1] at this
  have hcl := Server.removed_clusters_self t i c
  by_cases hle : (t.clusters c).members - 1 ≤ 0
  · -- the last member left, and the record is fresh
    rw [if_pos hle] at hcl
    refine Round.of_idle (by rw [hcl]) fun j hj => ?_
    rw [htab.not_inCluster (by rw [hcl]) j] at hj
    cases hj
  · rw [if_neg hle] at hcl
    have hstate : ((t.removed i c).clusters c).state = (t.clusters c).state := by rw [hcl]
    rcases leaving_ffState s hact with hst | hff
    · exact Round.of_unstable (hstate.trans hst)
    · have hstay : ∀ {j}, (t.removed i c).inCluster c j = true →
          j ≠ i ∧ t.inCluster c j = true := by
        intro j hj
        have hji : j ≠ i := by
          rintro rfl
          rw [Server.removed_inCluster_self] at hj
          cases hj
        exact ⟨hji, (Server.removed_inCluster_of_ne t c c hji).symm.trans hj⟩
      have hother : ∀ {j st}, (t.sessions j).ffState = st → st ≠ .waitingForChange → j ≠ i := by
        rintro j st rfl hne rfl
        exact hne hff
      refine ⟨fun hst j hj => ?_, fun hst => ⟨?_, fun j hj hs => ?_⟩,
        fun hst => ⟨fun j hj => ?_, ?_, fun j hj hs => ?_⟩⟩
      · obtain ⟨hji, hin'⟩ := hstay hj
        rw [Server.removed_of_ne t c hji]
        exact h.idle (hstate.symm.trans hst) j hin'
      · obtain ⟨⟨j, hin', hs⟩, -⟩ := h.nacks (hstate.symm.trans hst)
        have hji := hother hs nofun
        exact ⟨j, (Server.removed_inCluster_of_ne t c c hji).trans hin',
          by rw [Server.removed_of_ne t c hji, hs]⟩
      · obtain ⟨hji, hin'⟩ := hstay hj
        rw [Server.removed_of_ne t c hji] at hs ⊢
        exact (h.nacks (hstate.symm.trans hst)).2 j hin' hs
      · obtain ⟨hji, hin'⟩ := hstay hj
        rw [Server.removed_of_ne t c hji]
        exact (h.acks (hstate.symm.trans hst)).1 j hin'
      · obtain ⟨-, ⟨j, hin', hs⟩, -⟩ := h.acks (hstate.symm.trans hst)
        have hji := hother hs nofun
        exact ⟨j, (Server.removed_inCluster_of_ne t c c hji).trans hin',
          by rw [Server.removed_of_ne t c hji, hs]⟩
      · obtain ⟨hji, hin'⟩ := hstay hj
        rw [Server.removed_of_ne t c hji] at hs ⊢
        exact (h.acks (hstate.symm.trans hst)).2.2 j hin' hs

/-! ## Replies -/

theorem Server.answered_owed {s : Server} {i t : Slot} {v : Vote} (seq : UInt32) (hti : t ≠ i)
    (h : Owed t v (s.sessions t).voteInfoSeq s.trace) :
    Owed t v ((s.answered i seq).sessions t).voteInfoSeq (s.answered i seq).trace := by
  rw [Server.answered_of_ne s seq hti, Server.answered_trace]
  exact h.cons fun hs => hti hs.1.symm

theorem Server.answered_waits {s : Server} {i t : Slot} {seq : UInt32}
    (h : ((s.answered i seq).sessions t).ffState ≠ .waitingForChange) : t ≠ i := by
  rintro rfl
  exact h (Server.answered_ffState_self s t seq)

theorem Server.answered_still {s : Server} {i t : Slot} {seq : UInt32} {st : FfClientState}
    (hff : ((s.answered i seq).sessions t).ffState = st) (hne : st ≠ .waitingForChange) :
    t ≠ i ∧ (s.sessions t).ffState = st := by
  have hti : t ≠ i := Server.answered_waits (by rw [hff]; exact hne)
  rw [Server.answered_of_ne s seq hti] at hff
  exact ⟨hti, hff⟩

section Replies

variable {c : Int} {s : Server} {i : Slot} {seq : UInt32}

theorem Round.stale (hseq : seq ≠ (s.sessions i).voteInfoSeq) (st : FfClientState)
    (ph : FfClusterState) (h : Round c s) :
    Round c (s.emit (.reply i seq (s.sessions i).voteInfoSeq st ph)) := by
  have howed : ∀ {t v}, Owed t v (s.sessions t).voteInfoSeq s.trace →
      Owed t v (s.sessions t).voteInfoSeq
        (.reply i seq (s.sessions i).voteInfoSeq st ph :: s.trace) := by
    intro t v ho
    refine ho.cons ?_
    rintro ⟨rfl, hq⟩
    exact hseq hq
  refine ⟨h.idle, fun hst => ?_, fun hst => ?_⟩
  · obtain ⟨hex, ho⟩ := h.nacks hst
    exact ⟨hex, fun t ht hff => howed (ho t ht hff)⟩
  · obtain ⟨hno, hex, ho⟩ := h.acks hst
    exact ⟨hno, hex, fun t ht hff => howed (ho t ht hff)⟩

/-- The round goes on as long as somebody else waits. -/
theorem Round.answered
    (hn : (s.clusters c).state = .sendingNacks →
      (s.answered i seq).ffsplitCountState c .sendingNack ≠ 0)
    (hk : (s.clusters c).state = .sendingAcks →
      (s.answered i seq).ffsplitCountState c .sendingAck ≠ 0) (h : Round c s) :
    Round c (s.answered i seq) := by
  set a := s.answered i seq with ha
  have hin : ∀ t, a.inCluster c t = s.inCluster c t :=
    fun t => Server.inCluster_congr (Server.answered_sameButVotes s i seq) c t
  have hexists : ∀ {st}, a.ffsplitCountState c st ≠ 0 → ∃ t, a.inCluster c t = true ∧
      (a.sessions t).ffState = st := by
    intro st hcount
    by_contra hno
    rw [not_exists] at hno
    exact hcount (Server.ffsplitCountState_eq_zero.mpr fun t ht hff => hno t ⟨ht, hff⟩)
  refine ⟨fun hst t ht => ?_, fun hst => ⟨hexists (hn hst), fun t ht hff => ?_⟩,
    fun hst => ⟨fun t ht hff => ?_, hexists (hk hst), fun t ht hff => ?_⟩⟩
  · by_contra hff
    obtain ⟨-, hff'⟩ := Server.answered_still rfl hff
    exact hff (hff'.symm.trans (h.idle hst t ((hin t).symm.trans ht)))
  · obtain ⟨hti, hff⟩ := Server.answered_still hff nofun
    exact Server.answered_owed seq hti ((h.nacks hst).2 t ((hin t).symm.trans ht) hff)
  · obtain ⟨-, hff⟩ := Server.answered_still hff nofun
    exact (h.acks hst).1 t ((hin t).symm.trans ht) hff
  · obtain ⟨hti, hff⟩ := Server.answered_still hff nofun
    exact Server.answered_owed seq hti ((h.acks hst).2.2 t ((hin t).symm.trans ht) hff)

theorem waits_for_nothing {x : FfClientState} (hn : x ≠ .sendingNack) (hk : x ≠ .sendingAck) :
    x = .waitingForChange := by
  cases x with
  | waitingForChange => rfl
  | sendingNack => exact absurd rfl hn
  | sendingAck => exact absurd rfl hk

theorem Round.reply {m : MsgDecoded} (hset : m.seqNumberSet = true)
    (h : Round (s.sessions i).cluster s) :
    Round (s.sessions i).cluster (s.handleVoteInfoReply i m) := by
  set c := (s.sessions i).cluster with hc
  set a := s.answered i m.seqNumber with ha
  have hview : a.tvCluster (a.storedView i false) = c :=
    (Server.answered_sameButVotes s i m.seqNumber).cluster i
  have hwalk : ∀ t, a.inCluster c t = true → a.inWalk (a.storedView i false) t = true :=
    fun t ht => (Server.inWalk_storedView a hview t).trans ht
  rcases Server.handleVoteInfoReply_cases s i m hset hc.symm with
    ⟨hseq, hs⟩ | ⟨-, ⟨hs, hn, hk⟩ | ⟨hst, hn, hne, hs⟩ | ⟨hst, hn, hnil, hs⟩ | ⟨hst, hk, hs⟩⟩
  · rw [hs]
    exact h.stale hseq _ _
  · rw [hs]
    exact h.answered hn hk
  · -- the last NACK is answered, and the ACKs are released
    have hr : Round ((a.setState c .sendingAcks).tvCluster (a.storedView i false))
        ((a.setState c .sendingAcks).passed (a.storedView i false) true) := Round.of_acks
      (by rw [Server.setState_tvCluster, hview]; simp)
        (fun t ht _ => hwalk t (by rwa [Server.setState_tvCluster, hview] at ht))
      (fun t ht => Server.ffsplitCountState_eq_zero.mp hn t
        (by rwa [Server.setState_tvCluster, hview] at ht)) hne
    rw [Server.setState_tvCluster, hview] at hr
    rw [hs]
    exact hr
  · -- the last NACK is answered, and there is no ACK to send
    rw [hs]
    refine Round.of_idle (by rw [Server.setState_self]) fun t ht => ?_
    exact waits_for_nothing (Server.ffsplitCountState_eq_zero.mp hn t ht)
      (ffState_of_no_target (t := a) (i := t) (fun _ => hwalk t ht) hnil)
  · -- the last ACK is answered
    rw [hs]
    refine Round.of_idle (by rw [Server.setState_self]) fun t ht => ?_
    refine waits_for_nothing (fun hff => ?_) (Server.ffsplitCountState_eq_zero.mp hk t ht)
    obtain ⟨-, hff⟩ := Server.answered_still hff nofun
    have hin : s.inCluster c t = true :=
      (Server.inCluster_congr (Server.answered_sameButVotes s i m.seqNumber) c t).symm.trans ht
    exact (h.acks hst).1 t hin hff

end Replies

/-- The state of a cluster is a right summary of its sessions. -/
theorem round_invariant : ClusterInvariant Round where
  init _ _ := Round.of_idle rfl fun _ _ => rfl
  apart := Round.apart
  join := Round.join
  decide := fun _ _ _ => Round.decide _ _
  gone := Round.gone
  reply := fun _ _ => Round.reply

/-- Vote phase consistency. After any sequence of public calls, the server never waits for a reply
nobody owes. -/
theorem phase_matches_sessions (n : UInt32) (calls : List Call) (c : Int) :
    (((run n calls).clusters c).state = .waitingForChange →
      ∀ t, (run n calls).inCluster c t = true → ((run n calls).sessions t).ffState ≠ .sendingNack ∧
        ((run n calls).sessions t).ffState ≠ .sendingAck) ∧
    (((run n calls).clusters c).state = .sendingAcks →
      (∀ t, (run n calls).inCluster c t = true →
        ((run n calls).sessions t).ffState ≠ .sendingNack) ∧
      (∃ t, (run n calls).inCluster c t = true ∧ ((run n calls).sessions t).ffState = .sendingAck) ∧
      ∀ t, (run n calls).inCluster c t = true → ((run n calls).sessions t).ffState = .sendingAck →
        Owed t .ack ((run n calls).sessions t).voteInfoSeq (run n calls).trace) ∧
    (((run n calls).clusters c).state = .sendingNacks →
      (∃ t, (run n calls).inCluster c t = true ∧
        ((run n calls).sessions t).ffState = .sendingNack) ∧
      ∀ t, (run n calls).inCluster c t = true → ((run n calls).sessions t).ffState = .sendingNack →
        Owed t .nack ((run n calls).sessions t).voteInfoSeq (run n calls).trace) := by
  have h := round_invariant.run n calls c
  refine ⟨fun hst t ht => ?_, h.acks, h.nacks⟩
  have hff := h.idle hst t ht
  rw [hff]
  exact ⟨nofun, nofun⟩

end Qnetd
