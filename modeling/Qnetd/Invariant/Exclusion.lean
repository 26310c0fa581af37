import Qnetd.Invariant.Incoming

/-!
# Leaving sessions

`leave_cluster` runs the algorithm while the session that leaves is still in the table. Most walks
skip it, by its node id; `ffsplit_partition_stats` and the loop over the keep-active flags do not.

* `without` : the table with the slot of the session reset;
* `rankWithout`, `keepWithout` : the ranks and the flag with what the session adds taken off;
* `leaver_excluded` : a leaving session is excluded from the decision it triggers, exactly when the
  views are not stable, or no other session has its node id and what it adds does not change which
  list is on top.
-/

namespace Qnetd

open Relation (ReflTransGen)

namespace Server

/-- How often candidate `c` names the node of session `x` as a member of its partition. -/
def timesNamed (s : Server) (x : Slot) (c : Candidate) : Nat :=
  c.membership.nodes.countP fun n => n.nodeId = (s.sessions x).nodeId

/-- The rank of a partition without what session `x` adds for each time it is named. -/
def rankWithout (s : Server) (x : Slot) (c : Candidate) : Int ×ₗ Nat :=
  toLex (s.score c - (s.sessions x).lastHeuristics.points * s.timesNamed x c,
    s.clients c - s.timesNamed x c)

/-- The keep-active flag of the sessions other than `x`. -/
def keepWithout (s : Server) (x : Slot) : Bool :=
  !((List.finRange MAX_CLIENTS).any fun i =>
    s.others (s.storedView x true) i && !(s.sessions i).keepActivePartitionTb)

/-- The views are stable while session `x` leaves, and another session is skipped with it, or what
it adds to the ranks and to the flag puts another list on top. -/
def LeaverTips (s : Server) (x : Slot) : Prop :=
  s.ffsplitIsStable (s.storedView x true) = true ∧
    ((∃ y, s.others (s.storedView x true) y = true ∧
        (s.sessions y).nodeId = (s.sessions x).nodeId) ∨
      ∃ l, ¬(s.OnTop (s.storedView x true) s.rank (s.keepActiveTb (s.sessions x).cluster) l ↔
        s.OnTop (s.storedView x true) (s.rankWithout x) (s.keepWithout x) l))

/-- The slot of `x` has been reset, and `x` is no longer counted in its cluster. -/
def without (s : Server) (x : Slot) : Server := s.removed x (s.sessions x).cluster

section Stored

variable (s : Server) (i j : Slot) (leaving : Bool)

theorem effective_stored {α : Type} (f : Session → α) :
    (if !leaving && decide (j = i) then f (s.sessions i) else f (s.sessions j)) =
      f (s.sessions j) := by
  by_cases h : j = i
  · rw [h, ite_self]
  · simp [h]

theorem effConfig_storedView : s.effConfig (s.storedView i leaving) j = (s.sessions j).configList :=
  effective_stored s i j leaving Session.configList

theorem effMembership_storedView :
    s.effMembership (s.storedView i leaving) j = (s.sessions j).membershipList :=
  effective_stored s i j leaving Session.membershipList

theorem effRing_storedView : s.effRing (s.storedView i leaving) j = (s.sessions j).lastRingId :=
  effective_stored s i j leaving Session.lastRingId

theorem effHeuristics_storedView :
    s.effHeuristics (s.storedView i leaving) j = (s.sessions j).lastHeuristics :=
  effective_stored s i j leaving Session.lastHeuristics

end Stored

section Leaving

variable {s : Server} {x y : Slot}

theorem without_of_ne {j : Slot} (h : j ≠ x) : (s.without x).sessions j = s.sessions j :=
  removed_of_ne s _ h

theorem without_inCluster (c : Int) (j : Slot) :
    (s.without x).inCluster c j = (s.inCluster c j && !decide (j = x)) := by
  by_cases hj : j = x
  · subst hj
    rw [without, removed_inCluster_self]
    simp
  · rw [without, removed_inCluster_of_ne _ _ _ hj]
    simp [hj]

theorem others_leaving (j : Slot) :
    s.others (s.storedView x true) j = (s.inCluster (s.sessions x).cluster j && !decide (j = x)) :=
  rfl

theorem others_leaving_iff {j : Slot} : s.others (s.storedView x true) j = true ↔
    s.inCluster (s.sessions x).cluster j = true ∧ j ≠ x := by
  rw [others_leaving, Bool.and_eq_true, Bool.not_eq_true', decide_eq_false_iff_not]

theorem without_tvCluster (hy : s.others (s.storedView x true) y = true) (leaving : Bool) :
    (s.without x).tvCluster ((s.without x).storedView y leaving) = (s.sessions x).cluster := by
  obtain ⟨hin, hne⟩ := others_leaving_iff.mp hy
  change ((s.without x).sessions y).cluster = _
  rw [without_of_ne hne]
  exact (inCluster_iff.mp hin).2

theorem without_inWalk (hy : s.others (s.storedView x true) y = true) (j : Slot) :
    (s.without x).inWalk ((s.without x).storedView y false) j =
      s.others (s.storedView x true) j := by
  rw [inWalk, without_tvCluster hy, without_inCluster, others_leaving]
  exact Bool.and_true _

/-- A session that is walked while `x` leaves is not `x`, nor has it the node id of `x`. -/
theorem inWalk_leaving_iff {j : Slot} : s.inWalk (s.storedView x true) j = true ↔
    s.others (s.storedView x true) j = true ∧ (s.sessions j).nodeId ≠ (s.sessions x).nodeId := by
  rw [inWalk_iff, others_leaving_iff]
  have hskip : s.skipInClusterWalk (s.storedView x true) j =
      decide ((s.sessions j).nodeId = (s.sessions x).nodeId) := Bool.true_and _
  rw [hskip, decide_eq_false_iff_not]
  constructor
  · rintro ⟨hin, hne⟩
    refine ⟨⟨hin, ?_⟩, hne⟩
    rintro rfl
    exact hne rfl
  · rintro ⟨⟨hin, -⟩, hne⟩
    exact ⟨hin, hne⟩

theorem ne_of_inWalk {j : Slot} (h : s.inWalk (s.storedView x true) j = true) : j ≠ x :=
  (others_leaving_iff.mp (inWalk_leaving_iff.mp h).1).2

/-- What is stable without `x` is stable while `x` leaves: fewer views are compared. -/
theorem stable_of_without (hy : s.others (s.storedView x true) y = true)
    (hst : (s.without x).ffsplitIsStable ((s.without x).storedView y false) = true) :
    s.ffsplitIsStable (s.storedView x true) = true := by
  have hmem : ∀ {j}, j ∈ s.walk (s.storedView x true) →
      j ∈ (s.without x).walk ((s.without x).storedView y false) := by
    intro j hj
    rw [mem_walk, without_inWalk hy]
    exact (inWalk_leaving_iff.mp (mem_walk.mp hj)).1
  -- a node that is looked up while `x` leaves is looked up the same without `x`
  have hfind : ∀ {id j}, (s.walk (s.storedView x true)).find?
      (fun j => (s.sessions j).nodeId = id) = some j →
      ((s.without x).walk ((s.without x).storedView y false)).find?
        (fun j => ((s.without x).sessions j).nodeId = id) = some j := by
    intro id j hj
    have hjw := mem_walk.mp (List.mem_of_find?_eq_some hj)
    have hjid : (s.sessions j).nodeId = id := by simpa using List.find?_some hj
    rw [← hj, walk, walk, List.find?_filter, List.find?_filter]
    congr 1
    funext k
    rw [without_inWalk hy, Bool.eq_iff_iff]
    simp only [decide_eq_true_eq]
    by_cases hk : k = x
    · subst hk
      have hno : s.others (s.storedView k true) k = false := by
        rw [others_leaving]
        simp
      have hne := (inWalk_leaving_iff.mp hjw).2
      rw [hno]
      refine iff_of_false (fun h => Bool.false_ne_true h.1) fun h => ?_
      exact hne (hjid.trans h.2.symm)
    · rw [without_of_ne hk, inWalk_leaving_iff]
      have hne := (inWalk_leaving_iff.mp hjw).2
      constructor
      · rintro ⟨ho, hid⟩
        refine ⟨⟨ho, ?_⟩, hid⟩
        rw [hid, ← hjid]
        exact hne
      · rintro ⟨⟨ho, -⟩, hid⟩
        exact ⟨ho, hid⟩
  have heff : ∀ {j}, j ∈ s.walk (s.storedView x true) →
      (s.without x).sessions j = s.sessions j :=
    fun hj => without_of_ne (ne_of_inWalk (mem_walk.mp hj))
  simp only [ffsplitIsStable, Bool.and_eq_true, List.all_eq_true, effConfig_storedView,
    effMembership_storedView, effRing_storedView] at hst ⊢
  obtain ⟨hconfig, hmembers⟩ := hst
  refine ⟨fun i hi j hj => ?_, fun i hi n hn => ?_⟩
  · have h := hconfig i (hmem hi) j (hmem hj)
    rw [heff hi, heff hj] at h
    exact h
  · have h := hmembers i (hmem hi) n (by rw [heff hi]; exact hn)
    cases hj : (s.walk (s.storedView x true)).find? (fun j => (s.sessions j).nodeId = n.nodeId) with
    | none => rfl
    | some j =>
      simp only [hfind hj, heff hi, heff (List.mem_of_find?_eq_some hj)] at h
      exact h

variable (htwin : ∀ j, s.others (s.storedView x true) j = true →
    (s.sessions j).nodeId ≠ (s.sessions x).nodeId)

include htwin

theorem inWalk_of_no_twin (j : Slot) :
    s.inWalk (s.storedView x true) j = s.others (s.storedView x true) j := by
  rw [Bool.eq_iff_iff, inWalk_leaving_iff]
  exact and_iff_left_of_imp (htwin j)

theorem without_sameViews (hy : s.others (s.storedView x true) y = true) :
    SameViews s (s.without x) (s.storedView x true) ((s.without x).storedView y false) := by
  have hne : ∀ {j}, s.inWalk (s.storedView x true) j = true → j ≠ x := fun hj => ne_of_inWalk hj
  refine ⟨fun j => ?_, fun j hj => ?_, fun j hj => ?_, fun j hj => ?_, fun j hj => ?_,
    fun j hj => ?_, fun j hj => ?_⟩
  · rw [inWalk_of_no_twin htwin, without_inWalk hy]
  · rw [without_of_ne (hne hj)]
  · rw [without_of_ne (hne hj)]
  · rw [effConfig_storedView, effConfig_storedView, without_of_ne (hne hj)]
  · rw [effMembership_storedView, effMembership_storedView, without_of_ne (hne hj)]
  · rw [effRing_storedView, effRing_storedView, without_of_ne (hne hj)]
  · rw [effHeuristics_storedView, effHeuristics_storedView, without_of_ne (hne hj)]

theorem clientOf_leaver (hact : (s.sessions x).phase = .active) :
    s.clientOf (s.sessions x).cluster (s.sessions x).nodeId = some x ∧
      (s.without x).clientOf (s.sessions x).cluster (s.sessions x).nodeId = none := by
  constructor
  · obtain ⟨j, hj⟩ := Option.isSome_iff_exists.mp
      (clientOf_self (inCluster_iff.mpr ⟨hact, rfl⟩ : s.inCluster (s.sessions x).cluster x = true))
    have hfound := List.find?_some hj
    rw [Bool.and_eq_true, decide_eq_true_eq] at hfound
    by_cases hjx : j = x
    · rw [hj, hjx]
    · exact absurd hfound.2 (htwin j (others_leaving_iff.mpr ⟨hfound.1, hjx⟩))
  · refine List.find?_eq_none.mpr fun j _ hfound => ?_
    rw [without_inCluster, Bool.and_eq_true, Bool.and_eq_true, Bool.not_eq_true',
      decide_eq_false_iff_not, decide_eq_true_eq] at hfound
    obtain ⟨⟨hin, hjx⟩, hid⟩ := hfound
    rw [without_of_ne hjx] at hid
    exact htwin j (others_leaving_iff.mpr ⟨hin, hjx⟩) hid

omit htwin in
theorem without_clientOf (c : Int) {id : UInt32} (hid : id ≠ (s.sessions x).nodeId) :
    (s.without x).clientOf c id = s.clientOf c id := by
  unfold clientOf
  congr 1
  funext j
  rw [without_inCluster]
  by_cases hjx : j = x
  · subst hjx
    simp [Ne.symm hid]
  · rw [without_of_ne hjx]
    simp [hjx]

theorem without_counted (hact : (s.sessions x).phase = .active) {c : Candidate}
    (hc : s.Eligible (s.storedView x true) c) (n : NodeInfo) :
    if decide (n.nodeId = (s.sessions x).nodeId) then
      s.counted c n = some (s.sessions x).lastHeuristics ∧ (s.without x).counted c n = none
    else s.counted c n = (s.without x).counted c n := by
  have hne := ne_of_inWalk hc.1
  have hcl : (s.sessions c.slot).cluster = (s.sessions x).cluster :=
    (inCluster_iff.mp hc.inCluster).2
  unfold counted
  rw [without_of_ne hne, hcl]
  by_cases hn : n.nodeId = (s.sessions x).nodeId
  · obtain ⟨hself, hnone⟩ := clientOf_leaver htwin hact
    rw [hn, hself, hnone]
    simp [Ne.symm hne]
  · rw [decide_eq_false hn, if_neg Bool.false_ne_true, without_clientOf _ hn]
    refine Option.map_congr fun j hj => ?_
    have hjx : j ≠ x := by
      rintro rfl
      have hfound := List.find?_some hj
      rw [Bool.and_eq_true, decide_eq_true_eq] at hfound
      exact hn hfound.2.symm
    rw [without_of_ne hjx]

theorem without_sum (hact : (s.sessions x).phase = .active) {c : Candidate}
    (hc : s.Eligible (s.storedView x true) c) (w : Heuristics → Int) :
    ((s.heard c).map w).sum = (((s.without x).heard c).map w).sum +
      w (s.sessions x).lastHeuristics * s.timesNamed x c := by
  refine sum_filterMap_shift _ fun n _ => ?_
  have hcounted := without_counted htwin hact hc n
  by_cases hn : n.nodeId = (s.sessions x).nodeId
  · rw [decide_eq_true hn, if_pos rfl] at hcounted
    rw [hcounted.1, hcounted.2, decide_eq_true hn, if_pos rfl, Option.elim_some, Option.elim_none,
      Int.zero_add]
  · rw [decide_eq_false hn, if_neg Bool.false_ne_true] at hcounted
    rw [hcounted, decide_eq_false hn, if_neg Bool.false_ne_true, Int.add_zero]

theorem without_rank (hact : (s.sessions x).phase = .active) {c : Candidate}
    (hc : s.Eligible (s.storedView x true) c) : (s.without x).rank c = s.rankWithout x c := by
  have hscore := without_sum htwin hact hc Heuristics.points
  have hlen := without_sum htwin hact hc fun _ => 1
  have hone : ∀ l : List Heuristics, (l.map fun _ => (1 : Int)).sum = l.length := by simp
  rw [hone, hone, Int.one_mul] at hlen
  rw [rank, rankWithout, toLex_inj, Prod.mk.injEq, score, score, hscore, clients, clients]
  omega

omit htwin in
theorem without_keepActiveTb :
    (s.without x).keepActiveTb (s.sessions x).cluster = s.keepWithout x := by
  unfold keepActiveTb keepWithout
  congr 2
  funext j
  rw [without_inCluster, others_leaving]
  by_cases hjx : j = x
  · simp [hjx]
  · rw [without_of_ne hjx]

omit htwin in
theorem without_quoratePartition (ht : Table s) (hact : (s.sessions x).phase = .active)
    (hy : s.others (s.storedView x true) y = true) :
    ((s.without x).clusters (s.sessions x).cluster).quoratePartition =
      (s.clusters (s.sessions x).cluster).quoratePartition := by
  obtain ⟨hyin, hyx⟩ := others_leaving_iff.mp hy
  have hcard : 1 < (s.roster (s.sessions x).cluster).card :=
    Finset.one_lt_card.mpr
      ⟨x, mem_roster.mpr (inCluster_iff.mpr ⟨hact, rfl⟩), y, mem_roster.mpr hyin, Ne.symm hyx⟩
  have hmembers := ht.members (s.sessions x).cluster
  rw [without, removed_clusters_self, if_neg (by omega)]

/-- Without `x` the list that is on top without `x` is selected. -/
theorem without_select (ht : Table s) (hact : (s.sessions x).phase = .active)
    (hy : s.others (s.storedView x true) y = true) (l : NodeList) :
    (s.without x).ffsplitSelectPartition ((s.without x).storedView y false) = some l ↔
      s.OnTop (s.storedView x true) (s.rankWithout x) (s.keepWithout x) l := by
  refine (without_sameViews htwin hy).select_onTop ?_ (fun c hc => without_rank htwin hact hc) ?_ l
  · rw [without_tvCluster hy, without_quoratePartition ht hact hy]
    rfl
  · rw [without_tvCluster hy, without_keepActiveTb]

theorem without_putState (hy : s.others (s.storedView x true) y = true) (winner : Option NodeList)
    {j : Slot} (hj : s.others (s.storedView x true) j = true) :
    (s.without x).putState ((s.without x).storedView y false) winner j =
      s.putState (s.storedView x true) winner j := by
  have hwalk : s.inWalk (s.storedView x true) j = true := by
    rw [inWalk_of_no_twin htwin]
    exact hj
  have hviews := without_sameViews htwin hy
  rw [putState_of_walk hwalk, putState_of_walk ((hviews.walk j).trans hwalk),
    hviews.nodeId j hwalk]

end Leaving

/-- A pass over the votes sends the same frames where the sessions are in the same states and count
the same numbers. -/
theorem passFrames_congr {s s' : Server} {tv tv' : TriggerView} (h : SameViews s s' tv tv')
    (hff : ∀ i, s.inWalk tv i = true → (s'.sessions i).ffState = (s.sessions i).ffState)
    (hseq : ∀ i, s.inWalk tv i = true → (s'.sessions i).voteInfoSeq = (s.sessions i).voteInfoSeq)
    (sendAcks : Bool) :
    s'.targets tv' sendAcks = s.targets tv sendAcks ∧
    s'.passFrames tv' sendAcks = s.passFrames tv sendAcks := by
  have htargets : s'.targets tv' sendAcks = s.targets tv sendAcks := by
    refine List.filter_congr fun i _ => ?_
    unfold target
    rw [h.walk]
    cases hi : s.inWalk tv i with
    | false => rfl
    | true => rw [hff i hi]
  refine ⟨htargets, ?_⟩
  unfold passFrames
  rw [htargets]
  refine List.map_congr_left fun i hi => ?_
  have hi := (target_iff.mp (mem_targets.mp hi)).1
  simp only [VoteInfo.frame, voteTo, hseq i hi, h.ring i hi]

theorem ballots_congr {s s' : Server} {tv tv' : TriggerView} (h : SameViews s s' tv tv')
    (hff : ∀ i, s.inWalk tv i = true → (s'.sessions i).ffState = (s.sessions i).ffState)
    (hseq : ∀ i, s.inWalk tv i = true → (s'.sessions i).voteInfoSeq = (s.sessions i).voteInfoSeq) :
    s'.ballots tv' = s.ballots tv := by
  have hpass := passFrames_congr h hff hseq
  unfold ballots
  rw [(hpass false).1, (hpass _).2]

section Leaving

variable {s : Server} {x y : Slot} (htwin : ∀ j, s.others (s.storedView x true) j = true →
    (s.sessions j).nodeId ≠ (s.sessions x).nodeId)
  (hy : s.others (s.storedView x true) y = true)
  (hselect : (s.without x).ffsplitSelectPartition ((s.without x).storedView y false) =
    s.ffsplitSelectPartition (s.storedView x true))

include htwin hy hselect

theorem without_decided {j : Slot} (hj : s.others (s.storedView x true) j = true) :
    (((s.without x).decided ((s.without x).storedView y false)).sessions j) =
      (s.decided (s.storedView x true)).sessions j := by
  obtain ⟨hin, hjx⟩ := others_leaving_iff.mp hj
  have hin' : (s.without x).inCluster (s.sessions x).cluster j = true := by
    rw [without_inCluster, hin]
    simp [hjx]
  have htv : s.tvCluster (s.storedView x true) = (s.sessions x).cluster := rfl
  rw [decided_sessions, decided_sessions, without_tvCluster hy, if_pos hin', htv, if_pos hin,
    without_putState htwin hy _ hj, hselect, without_of_ne hjx]

theorem without_ballots :
    ((s.without x).decided ((s.without x).storedView y false)).ballots
        ((s.without x).storedView y false) =
      (s.decided (s.storedView x true)).ballots (s.storedView x true) := by
  have hsame : ∀ {j}, (s.decided (s.storedView x true)).inWalk (s.storedView x true) j = true →
      ((s.without x).decided ((s.without x).storedView y false)).sessions j =
        (s.decided (s.storedView x true)).sessions j := by
    intro j hj
    rw [inWalk_congr (decided_sameButVotes _ _), inWalk_of_no_twin htwin] at hj
    exact without_decided htwin hy hselect hj
  refine ballots_congr ?_ (fun j hj => by rw [hsame hj]) fun j hj => by rw [hsame hj]
  exact (without_sameViews htwin hy).of_sameButVotes (decided_sameButVotes _ _)
    (decided_sameButVotes _ _)

end Leaving

theorem leaveCluster_eq {s : Server} {x : Slot} (ht : Table s)
    (hact : (s.sessions x).phase = .active) :
    (∀ j, j ≠ x → (s.leaveCluster x).sessions j = (s.leaving x).sessions j) ∧
      (s.leaveCluster x).trace = (s.leaving x).trace := by
  have h := left_eq hact (ht.range x hact).1
  have htrace : ((s.leaveCluster x).reset x).trace =
      ((s.leaving x).removed x (s.sessions x).cluster).trace := by
    rw [h]
  refine ⟨fun j hj => ?_, htrace⟩
  have hj' := congrFun (congrArg Server.sessions h) j
  rw [reset, modify_of_ne _ _ hj, removed_of_ne _ _ hj] at hj'
  exact hj'

theorem decided_emit (s : Server) (e : Event) (tv : TriggerView) :
    ((s.emit e).decided tv).sessions = (s.decided tv).sessions := by
  funext i
  rw [decided_sessions, decided_sessions]
  rfl

theorem leaving_frames (s : Server) (x : Slot) :
    transportCalls (s.leaving x).trace = transportCalls s.trace ++
      if s.ffsplitIsStable (s.storedView x true) then (s.decided (s.storedView x true)).ballots
      (s.storedView x true) else [] := by
  have hsame : SameButVotes (s.decided (s.storedView x true))
      ((s.emit (.leave x (s.sessions x).cluster)).decided (s.storedView x true)) := by
    intro i
    rw [decided_emit]
  have hballots :=
    ballots_congr (hsame.sameViews (s.storedView x true)) (fun i _ => by rw [decided_emit])
    fun i _ => by rw [decided_emit]
  have hstable : (s.emit (.leave x (s.sessions x).cluster)).ffsplitIsStable (s.storedView x true) =
      s.ffsplitIsStable (s.storedView x true) := rfl
  rw [leaving, transportCalls_ffsplitDo, hballots, hstable, emit_trace, transportCalls,
    List.filterMap_cons_none rfl, transportCalls]

theorem leaving_states (s : Server) (x j : Slot) :
    ((s.leaving x).sessions j).ffState =
      if s.ffsplitIsStable (s.storedView x true) && s.inCluster (s.sessions x).cluster j then
        s.putState (s.storedView x true) (s.ffsplitSelectPartition (s.storedView x true)) j
      else (s.sessions j).ffState := by
  have hstable : (s.emit (.leave x (s.sessions x).cluster)).ffsplitIsStable (s.storedView x true) =
      s.ffsplitIsStable (s.storedView x true) := rfl
  cases hst : s.ffsplitIsStable (s.storedView x true) with
  | false =>
    rw [leaving, ffsplitDo_of_unstable (hstable.trans hst)]
    rfl
  | true =>
    rw [leaving, (ffsplitDo_of_stable (hstable.trans hst)).2, Bool.true_and]
    rfl

/-- The outcome of the decision on the leaving of `x` for the remaining sessions is that of the
decision triggered by `y` when the slot of `x` has been reset before: stable or not, the winner,
the states and the frames. -/
def Excluded (s : Server) (x y : Slot) : Prop :=
  (s.without x).ffsplitIsStable ((s.without x).storedView y false) =
      s.ffsplitIsStable (s.storedView x true) ∧
    (s.ffsplitIsStable (s.storedView x true) = true →
      (s.without x).ffsplitSelectPartition ((s.without x).storedView y false) =
        s.ffsplitSelectPartition (s.storedView x true)) ∧
    (∀ j, j ≠ x →
      (((s.without x).ffsplitDo ((s.without x).storedView y false)).2.2.sessions j).ffState =
        ((s.leaveCluster x).sessions j).ffState) ∧
    ∃ frames, transportCalls (s.leaveCluster x).trace = transportCalls s.trace ++ frames ∧
      transportCalls ((s.without x).ffsplitDo ((s.without x).storedView y false)).2.2.trace =
        transportCalls (s.without x).trace ++ frames

section Excluded

variable {s : Server} {x y : Slot}

theorem excluded_of_unstable (ht : Table s) (hact : (s.sessions x).phase = .active)
    (hy : s.others (s.storedView x true) y = true)
    (hst : s.ffsplitIsStable (s.storedView x true) = false) : s.Excluded x y := by
  have hst' : (s.without x).ffsplitIsStable ((s.without x).storedView y false) = false := by
    rw [Bool.eq_false_iff]
    intro hyes
    rw [stable_of_without hy hyes] at hst
    cases hst
  obtain ⟨hleft, htrace⟩ := leaveCluster_eq ht hact
  refine ⟨hst'.trans hst.symm, fun hyes => ?_, fun j hj => ?_, [], ?_, ?_⟩
  · rw [hst] at hyes
    cases hyes
  · rw [ffsplitDo_of_unstable hst', without_of_ne hj, hleft j hj, leaving_states, hst]
    rfl
  · rw [htrace, leaving_frames, hst]
    rfl
  · rw [transportCalls_ffsplitDo, hst']
    rfl

theorem excluded_of_select (ht : Table s) (hact : (s.sessions x).phase = .active)
    (hy : s.others (s.storedView x true) y = true)
    (htwin : ∀ j, s.others (s.storedView x true) j = true →
      (s.sessions j).nodeId ≠ (s.sessions x).nodeId)
    (hst : s.ffsplitIsStable (s.storedView x true) = true)
    (hselect : (s.without x).ffsplitSelectPartition ((s.without x).storedView y false) =
      s.ffsplitSelectPartition (s.storedView x true)) : s.Excluded x y := by
  have hstable := (without_sameViews htwin hy).isStable
  obtain ⟨hleft, htrace⟩ := leaveCluster_eq ht hact
  refine ⟨hstable, fun _ => hselect, fun j hj => ?_,
    (s.decided (s.storedView x true)).ballots (s.storedView x true), ?_, ?_⟩
  · rw [hleft j hj, leaving_states, hst, (ffsplitDo_of_stable (hstable.trans hst)).2,
      without_tvCluster hy, without_inCluster, without_of_ne hj, decide_eq_false hj,
      Bool.not_false, Bool.and_true, Bool.true_and]
    split_ifs with hin
    · rw [without_putState htwin hy _ (others_leaving_iff.mpr ⟨hin, hj⟩), hselect]
    · rfl
  · rw [htrace, leaving_frames, hst]
    rfl
  · rw [transportCalls_ffsplitDo, hstable, hst, without_ballots htwin hy hselect]
    rfl

/-- A session that is skipped with `x` is put in no state a decision of its own would put it in. -/
theorem not_excluded_of_twin (ht : Table s) (hact : (s.sessions x).phase = .active)
    (hy : s.others (s.storedView x true) y = true)
    (hst : s.ffsplitIsStable (s.storedView x true) = true) {z : Slot}
    (hz : s.others (s.storedView x true) z = true)
    (hid : (s.sessions z).nodeId = (s.sessions x).nodeId) : ¬s.Excluded x y := by
  rintro ⟨hstable, -, hstates, -⟩
  obtain ⟨hin, hzx⟩ := others_leaving_iff.mp hz
  have hput : ∀ w, s.putState (s.storedView x true) w z = .waitingForChange := by
    intro w
    have hskip : s.skipInClusterWalk (s.storedView x true) z = true := decide_eq_true hid
    unfold putState
    rw [hskip, if_pos rfl]
  have hwalk : (s.without x).inWalk ((s.without x).storedView y false) z = true :=
    (without_inWalk hy z).trans hz
  have hstate := hstates z hzx
  rw [(leaveCluster_eq ht hact).1 z hzx, leaving_states, hst, hin,
    (ffsplitDo_of_stable (hstable.trans hst)).2, if_pos (inCluster_of_inWalk hwalk),
    putState_of_walk hwalk, hput] at hstate
  simp only [Bool.and_self, if_true] at hstate
  split at hstate
  · cases hstate
  · split_ifs at hstate

end Excluded

end Server

/-- The states the runs go through, those between two moves of a call included. -/
def Visited (n : UInt32) (s : Server) : Prop := ReflTransGen Server.Step (Server.init n) s

theorem run_visited (n : UInt32) (calls : List Call) : Visited n (run n calls) :=
  (run_steps n calls).1

theorem Visited.table {n : UInt32} {s : Server} (h : Visited n s) : Table s := by
  induction h with
  | refl => exact table_init n
  | tail _ hstep ih =>
    obtain ⟨i, hm⟩ := hstep
    exact hm.table ih

/-- A leaving session is excluded from the decision it triggers, exactly when it tips nothing. In
every state of a run, when an active session leaves and another member of its cluster remains, the
remaining sessions are found stable or not, the winner is chosen, the states are set and the votes
are sent as when the slot had been reset before, with the remaining session as the trigger, if and
only if the views are not stable, or no remaining session has the node id of the one that leaves
and what it adds to the ranks and to the keep-active flag puts no other list on top. -/
theorem leaver_excluded (n : UInt32) (s : Server) (hv : Visited n s) (x : Slot)
    (hact : (s.sessions x).phase = .active) (y : Slot)
    (hy : s.others (s.storedView x true) y = true) : s.Excluded x y ↔ ¬s.LeaverTips x := by
  have ht := hv.table
  constructor
  · rintro hex ⟨hst, ⟨z, hz, hid⟩ | ⟨l, hdiff⟩⟩
    · exact Server.not_excluded_of_twin ht hact hy hst hz hid hex
    · have htwin : ∀ j, s.others (s.storedView x true) j = true →
          (s.sessions j).nodeId ≠ (s.sessions x).nodeId :=
        fun j hj hid => Server.not_excluded_of_twin ht hact hy hst hj hid hex
      have htop := Server.select_onTop s (s.storedView x true) l
      rw [← Server.without_select htwin ht hact hy, hex.2.1 hst] at hdiff
      exact hdiff htop.symm
  · intro h
    cases hst : s.ffsplitIsStable (s.storedView x true) with
    | false => exact Server.excluded_of_unstable ht hact hy hst
    | true =>
      have htwin : ∀ j, s.others (s.storedView x true) j = true →
          (s.sessions j).nodeId ≠ (s.sessions x).nodeId :=
        fun j hj hid => h ⟨hst, Or.inl ⟨j, hj, hid⟩⟩
      refine Server.excluded_of_select ht hact hy htwin hst (Option.ext fun l => ?_)
      have htop := Server.select_onTop s (s.storedView x true) l
      rw [Server.without_select htwin ht hact hy, htop]
      by_contra hdiff
      exact h ⟨hst, Or.inr ⟨l, fun hsame => hdiff hsame.symm⟩⟩

/-- Of four configured nodes three are connected: node 4, which sees node 3, in slot 0, and nodes
1 and 2, which see each other and node 3, in slots 1 and 2. -/
def majorityCalls : List Call :=
  Rig.join 0 [116] 4 {} ++ Rig.join 1 [116] 1 {} ++ Rig.join 2 [116] 2 {} ++
    ([0, 1, 2] : List Int).flatMap (fun slot =>
      Rig.feed slot [MockClient.configList 3 .initialConfig [1, 2, 3, 4]]) ++
    Rig.feed 0 [MockClient.membership 4 ⟨4, 1⟩ [4, 3]] ++
    ([1, 2] : List Int).flatMap (fun slot =>
      Rig.feed slot [MockClient.membership 4 ⟨1, 1⟩ [1, 2, 3]])

/-- Node 2 leaves. Node 1 replaces the half of node 4 unscored, so it does not matter that node 2
is counted. -/
theorem leaver_excluded_majority :
    (run 32768 majorityCalls).ffsplitIsStable ((run 32768 majorityCalls).storedView 2 true) = true ∧
      (run 32768 majorityCalls).Excluded 2 0 := by
  set s := run 32768 majorityCalls with hs
  have hrun : s.ffsplitIsStable (s.storedView 2 true) = true ∧
      (s.sessions 2).phase = .active ∧ s.others (s.storedView 2 true) 0 = true ∧
      (∀ y, s.others (s.storedView 2 true) y = true →
        (s.sessions y).nodeId ≠ (s.sessions 2).nodeId) ∧
      (Scan.scan (s.outranks (s.storedView 2 true) s.rank (s.keepActiveTb (s.sessions 2).cluster))
          (s.candidates (s.storedView 2 true))).map Candidate.membership =
        (Scan.scan (s.outranks (s.storedView 2 true) (s.rankWithout 2) (s.keepWithout 2))
          (s.candidates (s.storedView 2 true))).map Candidate.membership := by
    rw [hs]
    decide +kernel
  obtain ⟨hst, hact, hy, htwin, hscan⟩ := hrun
  refine ⟨hst, (leaver_excluded 32768 s (run_visited 32768 majorityCalls) 2 hact 0 hy).mpr ?_⟩
  rintro ⟨-, ⟨z, hz, hid⟩ | ⟨l, hdiff⟩⟩
  · exact htwin z hz hid
  · rw [← Server.scan_onTop, ← Server.scan_onTop, hscan] at hdiff
    exact hdiff Iff.rfl

/-- Node 4 leaves. It is still counted with node 3, whose partition wins; without it, the one of
node 1 would. -/
theorem leaver_tips_split :
    ((run 32768 evenCalls).sessions 1).phase = .active ∧
    (run 32768 evenCalls).others ((run 32768 evenCalls).storedView 1 true) 0 = true ∧
    (run 32768 evenCalls).ffsplitIsStable ((run 32768 evenCalls).storedView 1 true) = true ∧
    (run 32768 evenCalls).ffsplitSelectPartition ((run 32768 evenCalls).storedView 1 true) =
      some ⟨[{ nodeId := 3, state := .member }, { nodeId := 4, state := .member }]⟩ ∧
    ((run 32768 evenCalls).without 1).ffsplitSelectPartition
    (((run 32768 evenCalls).without 1).storedView 0 false) =
      some ⟨[{ nodeId := 1, state := .member }, { nodeId := 2, state := .member }]⟩ := by
  decide +kernel

end Qnetd
