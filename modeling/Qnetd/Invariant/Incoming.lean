import Qnetd.Invariant.Ranking

/-!
# Incoming views

A report is decided on while the session still stores the old view. `ffsplit_partition_stats` reads
the table past the trigger view: a partition of another session counts the trigger with the
heuristics that are stored.

* `rankFresh` : the ranks with the incoming heuristics in their place;
* `incoming_view_as_stored` : deciding on an incoming view is storing it and deciding, exactly when
  the ranks with the stored heuristics put the same list on top.
-/

namespace Qnetd

/-- What a sum gains when some elements are worth `k` more. -/
theorem sum_filterMap_shift {α β : Type} {f g : α → Option β} {w : β → Int} {q : α → Bool}
    {k : Int} : ∀ l : List α,
    (∀ n ∈ l, (f n).elim 0 w = (g n).elim 0 w + if q n then k else 0) →
      ((l.filterMap f).map w).sum = ((l.filterMap g).map w).sum + k * l.countP q
  | [], _ => by simp
  | n :: l, h => by
    have ih := sum_filterMap_shift l fun m hm => h m (List.mem_cons_of_mem _ hm)
    have hcons : ∀ f : α → Option β, (((n :: l).filterMap f).map w).sum =
        (f n).elim 0 w + ((l.filterMap f).map w).sum := by
      intro f
      cases hf : f n with
      | none => rw [List.filterMap_cons_none hf, Option.elim_none, Int.zero_add]
      | some b =>
        rw [List.filterMap_cons_some hf, List.map_cons, List.sum_cons, Option.elim_some]
    rw [hcons, hcons, ih, h n (List.mem_cons_self ..), List.countP_cons]
    split_ifs with hq
    · rw [Int.natCast_add, Int.mul_add]
      omega
    · rw [Nat.add_zero]
      omega

namespace Server

/-- How often the membership of `c` names the node of the trigger, as it is counted. -/
def timesCounted (s : Server) (tv : TriggerView) (c : Candidate) : Nat :=
  c.membership.nodes.countP fun n => s.clientOf (s.tvCluster tv) n.nodeId = some tv.slot

/-- The rank of a partition when the trigger counts everywhere with its incoming heuristics. -/
def rankFresh (s : Server) (tv : TriggerView) (c : Candidate) : Int ×ₗ Nat :=
  if c.slot = tv.slot then s.rank c
  else
    let gain := tv.heuristics.points - (s.sessions tv.slot).lastHeuristics.points
    toLex (s.score c + gain * s.timesCounted tv c, s.clients c)

/-- The views are stable, and with the stored heuristics of the trigger another list comes first
than with the incoming ones. -/
def StaleTips (s : Server) (tv : TriggerView) : Prop :=
  s.ffsplitIsStable tv = true ∧
    ∃ l, ¬(s.OnTop tv s.rank (s.keepActiveTb (s.tvCluster tv)) l ↔
      s.OnTop tv (s.rankFresh tv) (s.keepActiveTb (s.tvCluster tv)) l)

section Stored

variable {s : Server} {tv : TriggerView}

theorem stored_apply {α : Type} (f : Session → α) (hf : ∀ x, f (stored tv x) = f x) (s : Server)
    (i : Slot) : f ((s.modify tv.slot (stored tv)).sessions i) = f (s.sessions i) := by
  rw [modify_apply]
  split_ifs
  · exact hf _
  · rfl

theorem stored_inCluster (s : Server) (tv : TriggerView) (c : Int) (i : Slot) :
    (s.modify tv.slot (stored tv)).inCluster c i = s.inCluster c i :=
  stored_apply (fun x => decide (x.phase = .active) && decide (x.cluster = c)) (fun _ => rfl) s i

theorem stored_tvCluster (s : Server) (tv : TriggerView) :
    (s.modify tv.slot (stored tv)).tvCluster tv = s.tvCluster tv :=
  stored_apply Session.cluster (fun _ => rfl) s tv.slot

theorem stored_effective {α : Type} (f : Session → α) (a : α) (hl : tv.leaving = false) (s : Server)
    (i : Slot) :
    (if !tv.leaving && decide (i = tv.slot) then a else f
      ((s.modify tv.slot (stored tv)).sessions i)) =
      if !tv.leaving && decide (i = tv.slot) then a else f (s.sessions i) := by
  by_cases hi : i = tv.slot
  · simp [hi, hl]
  · rw [modify_of_ne _ _ hi]

/-- Storing the view of the trigger does not change the effective views. -/
theorem stored_sameViews (s : Server) (hl : tv.leaving = false) :
    SameViews s (s.modify tv.slot (stored tv)) tv tv where
  walk i := by simp only [inWalk, stored_tvCluster, stored_inCluster, skipInClusterWalk, hl,
    Bool.false_and]
  nodeId i _ := stored_apply Session.nodeId (fun _ => rfl) s i
  tieBreaker i _ := stored_apply Session.tieBreaker (fun _ => rfl) s i
  config i _ := stored_effective Session.configList tv.config hl s i
  membership i _ := stored_effective Session.membershipList tv.membership hl s i
  ring i _ := stored_effective Session.lastRingId tv.ringId hl s i
  heuristics i _ := stored_effective Session.lastHeuristics tv.heuristics hl s i

theorem stored_clientOf (c : Int) (id : UInt32) :
    (s.modify tv.slot (stored tv)).clientOf c id = s.clientOf c id := by
  simp only [clientOf, stored_inCluster, stored_apply Session.nodeId (fun _ => rfl)]

theorem stored_counted {c : Candidate} (hc : s.Eligible tv c) (n : NodeInfo) :
    (s.modify tv.slot (stored tv)).counted c n =
      (s.clientOf (s.tvCluster tv) n.nodeId).map fun i =>
        if i = c.slot then c.heuristics
        else if i = tv.slot then tv.heuristics else (s.sessions i).lastHeuristics := by
  have hcl : ((s.modify tv.slot (stored tv)).sessions c.slot).cluster = s.tvCluster tv :=
    (stored_apply Session.cluster (fun _ => rfl) s c.slot).trans (inCluster_iff.mp hc.inCluster).2
  unfold counted
  rw [hcl, stored_clientOf]
  refine Option.map_congr fun i _ => ?_
  by_cases hi : i = tv.slot
  · subst hi
    rw [modify_self, if_pos rfl]
    rfl
  · rw [modify_of_ne _ _ hi, if_neg hi]

theorem counted_of_eligible {c : Candidate} (hc : s.Eligible tv c) (n : NodeInfo) :
    s.counted c n = (s.clientOf (s.tvCluster tv) n.nodeId).map fun i =>
      if i = c.slot then c.heuristics else (s.sessions i).lastHeuristics := by
  rw [counted, (inCluster_iff.mp hc.inCluster).2]

theorem stored_clients {c : Candidate} (hc : s.Eligible tv c) :
    (s.modify tv.slot (stored tv)).clients c = s.clients c := by
  have hsome : ∀ n, ((s.modify tv.slot (stored tv)).counted c n).isSome =
      (s.counted c n).isSome := by
    intro n
    rw [stored_counted hc, counted_of_eligible hc, Option.isSome_map, Option.isSome_map]
  simp only [clients, heard, List.length_filterMap_eq_countP, hsome]

theorem stored_points {c : Candidate} (hc : s.Eligible tv c) (hslot : c.slot ≠ tv.slot)
    (n : NodeInfo) :
    ((s.modify tv.slot (stored tv)).counted c n).elim 0 Heuristics.points =
      (s.counted c n).elim 0 Heuristics.points +
        if decide (s.clientOf (s.tvCluster tv) n.nodeId = some tv.slot) then
          tv.heuristics.points - (s.sessions tv.slot).lastHeuristics.points
        else 0 := by
  rw [stored_counted hc, counted_of_eligible hc]
  cases hi : s.clientOf (s.tvCluster tv) n.nodeId with
  | none => simp
  | some i =>
    by_cases hit : i = tv.slot
    · subst hit
      simp only [Option.map_some, Option.elim_some, if_neg (Ne.symm hslot), if_true, decide_true]
      omega
    · simp [hit]

/-- A partition of another session gains what the heuristics of the trigger are worth more. -/
theorem stored_rank {c : Candidate} (hc : s.Eligible tv c) :
    (s.modify tv.slot (stored tv)).rank c = s.rankFresh tv c := by
  unfold rankFresh
  split_ifs with hslot
  · -- its own partition counts the trigger with the incoming heuristics already
    refine rank_congr (List.filterMap_congr fun n _ => ?_)
    rw [stored_counted hc, counted_of_eligible hc, hslot]
    refine Option.map_congr fun i _ => ?_
    split_ifs <;> rfl
  · have hscore := sum_filterMap_shift c.membership.nodes fun n _ => stored_points hc hslot n
    rw [rank, stored_clients hc, score, heard, hscore]
    rfl

theorem stored_keepActiveTb (c : Int) :
    (s.modify tv.slot (stored tv)).keepActiveTb c = s.keepActiveTb c := by
  simp only [Server.keepActiveTb, stored_inCluster,
    stored_apply Session.keepActivePartitionTb (fun _ => rfl)]

theorem stored_select (hl : tv.leaving = false) (l : NodeList) :
    (s.modify tv.slot (stored tv)).ffsplitSelectPartition tv = some l ↔
      s.OnTop tv (s.rankFresh tv) (s.keepActiveTb (s.tvCluster tv)) l := by
  refine (stored_sameViews s hl).select_onTop ?_ (fun c hc => stored_rank hc) ?_ l
  · rw [stored_tvCluster]
    rfl
  · rw [stored_tvCluster, stored_keepActiveTb]

theorem stored_storedView (hl : tv.leaving = false) :
    (s.modify tv.slot (stored tv)).storedView tv.slot false = tv := by
  unfold storedView
  rw [modify_self, ← hl]
  rfl

theorem stored_ffState (hl : tv.leaving = false)
    (h : s.ffsplitIsStable tv = true →
      (s.modify tv.slot (stored tv)).ffsplitSelectPartition tv =
    s.ffsplitSelectPartition tv) (j : Slot) :
    (((s.modify tv.slot (stored tv)).ffsplitDo tv).2.2.sessions j).ffState =
      ((s.ffsplitDo tv).2.2.sessions j).ffState := by
  have hstable := (stored_sameViews s hl).isStable
  have hff : ((s.modify tv.slot (stored tv)).sessions j).ffState = (s.sessions j).ffState :=
    stored_apply Session.ffState (fun _ => rfl) s j
  cases hst : s.ffsplitIsStable tv with
  | false => rw [ffsplitDo_of_unstable hst, ffsplitDo_of_unstable (hstable.trans hst), hff]
  | true =>
    rw [(ffsplitDo_of_stable hst).2, (ffsplitDo_of_stable (hstable.trans hst)).2,
      stored_tvCluster, stored_inCluster, hff, h hst]
    refine if_congr Iff.rfl ?_ rfl
    simp only [putState, skipInClusterWalk, hl, Bool.false_and,
      stored_apply Session.nodeId (fun _ => rfl)]

end Stored

theorem reportView_leaving (s : Server) (i : Slot) (m : MsgDecoded) (r : Report) :
    (s.reportView i m r).leaving = false := by
  cases r with
  | list type => cases type <;> rfl
  | heuristics => rfl

end Server

/-- The server with the view of the report stored, and nothing decided yet. -/
def Server.storedFirst (s : Server) (i : Slot) (m : MsgDecoded) (r : Report) : Server :=
  s.modify i (Server.stored (s.reportView i m r))

/-- Deciding on the incoming view is storing it and deciding, exactly when no stale read tips the
order. In every state, for every report of a session, the algorithm run on the session's view with
the report taken into account finds the views stable, chooses the winner and puts the sessions in
the states as it does when the view has been stored first, if and only if the stored heuristics of
the session put the same list on top as the reported ones. -/
theorem incoming_view_as_stored (s : Server) (i : Slot) (m : MsgDecoded) (r : Report) :
    ((s.storedFirst i m r).ffsplitIsStable ((s.storedFirst i m r).storedView i false) =
        s.ffsplitIsStable (s.reportView i m r) ∧
      (s.ffsplitIsStable (s.reportView i m r) = true →
        (s.storedFirst i m r).ffsplitSelectPartition ((s.storedFirst i m r).storedView i false) =
          s.ffsplitSelectPartition (s.reportView i m r)) ∧
      ∀ j, (((s.storedFirst i m r).ffsplitDo
          ((s.storedFirst i m r).storedView i false)).2.2.sessions j).ffState =
        ((s.ffsplitDo (s.reportView i m r)).2.2.sessions j).ffState) ↔
      ¬s.StaleTips (s.reportView i m r) := by
  have hl := s.reportView_leaving i m r
  have hslot : (s.reportView i m r).slot = i := reportView_slot s i m r
  unfold Server.storedFirst
  generalize s.reportView i m r = tv at hl hslot ⊢
  subst hslot
  rw [Server.stored_storedView hl]
  constructor
  · rintro ⟨-, hselect, -⟩ ⟨hst, l, hdiff⟩
    rw [← Server.select_onTop, ← Server.stored_select hl, hselect hst] at hdiff
    exact hdiff Iff.rfl
  · intro h
    have hselect : s.ffsplitIsStable tv = true →
        (s.modify tv.slot (Server.stored tv)).ffsplitSelectPartition tv =
          s.ffsplitSelectPartition tv := by
      intro hst
      refine Option.ext fun l => ?_
      rw [Server.stored_select hl, Server.select_onTop]
      by_contra hdiff
      exact h ⟨hst, l, fun hsame => hdiff hsame.symm⟩
    exact ⟨(Server.stored_sameViews s hl).isStable, hselect, Server.stored_ffState hl hselect⟩

/-- Of four configured nodes three are connected: nodes 3 and 4, which see each other, in slots 0
and 1, and node 1, which sees node 2 and has passed its heuristics, in slot 2. -/
def evenCalls : List Call :=
  Rig.join 0 [116] 3 {} ++ Rig.join 1 [116] 4 {} ++ Rig.join 2 [116] 1 {} ++
    ([0, 1, 2] : List Int).flatMap
      (fun slot => Rig.feed slot [MockClient.configList 3 .initialConfig [1, 2, 3, 4]]) ++
    Rig.feed 0 [MockClient.membership 4 ⟨3, 1⟩ [3, 4]] ++
      Rig.feed 1 [MockClient.membership 4 ⟨3, 1⟩ [3, 4]] ++
    Rig.feed 2 [MockClient.membership 4 ⟨1, 1⟩ [1, 2] .pass]

/-- A HEURISTICS_CHANGE to FAIL. -/
def failMsg : MsgDecoded :=
  { type := .heuristicsChange, seqNumberSet := true, seqNumber := 5, heuristics := .fail }

/-- Node 1 reports FAIL after PASS. Nobody else counts it, and its partition loses either way. -/
theorem incoming_view_as_stored_fail :
    ((run 32768 evenCalls).sessions 2).lastHeuristics = .pass ∧
    (run 32768 evenCalls).ffsplitIsStable
      ((run 32768 evenCalls).reportView 2 failMsg .heuristics) = true ∧
    ((run 32768 evenCalls).storedFirst 2 failMsg .heuristics).ffsplitSelectPartition
        (((run 32768 evenCalls).storedFirst 2 failMsg .heuristics).storedView 2 false) =
      (run 32768 evenCalls).ffsplitSelectPartition
        ((run 32768 evenCalls).reportView 2 failMsg .heuristics) := by
  have hrun : (let s := run 32768 evenCalls
      let tv := s.reportView 2 failMsg .heuristics
      (s.sessions 2).lastHeuristics = .pass ∧ s.ffsplitIsStable tv = true ∧
      (Scan.scan (s.outranks tv s.rank (s.keepActiveTb (s.tvCluster tv)))
          (s.candidates tv)).map Candidate.membership =
        (Scan.scan (s.outranks tv (s.rankFresh tv) (s.keepActiveTb (s.tvCluster tv)))
          (s.candidates tv)).map Candidate.membership) := by decide +kernel
  obtain ⟨hpass, hst, hscan⟩ := hrun
  refine ⟨hpass, hst, ((incoming_view_as_stored _ 2 failMsg .heuristics).mpr ?_).2.1 hst⟩
  rintro ⟨-, l, hdiff⟩
  rw [← Server.scan_onTop, ← Server.scan_onTop, hscan] at hdiff
  exact hdiff Iff.rfl

/-- Node 3 reports FAIL. Node 4 still counts it without the FAIL, and their partition wins; with the
report stored first it loses against the one of node 1. -/
theorem stale_heuristics_win :
    ((run 32768 evenCalls).sessions 0).phase = .active ∧
    Server.runs ((run 32768 evenCalls).sessions 0) .heuristics = true ∧
    (run 32768 evenCalls).ffsplitIsStable
      ((run 32768 evenCalls).reportView 0 failMsg .heuristics) = true ∧
    (run 32768 evenCalls).ffsplitSelectPartition
    ((run 32768 evenCalls).reportView 0 failMsg .heuristics) =
      some ⟨[{ nodeId := 3, state := .member }, { nodeId := 4, state := .member }]⟩ ∧
    ((run 32768 evenCalls).storedFirst 0 failMsg .heuristics).ffsplitSelectPartition
        (((run 32768 evenCalls).storedFirst 0 failMsg .heuristics).storedView 0 false) =
      some ⟨[{ nodeId := 1, state := .member }, { nodeId := 2, state := .member }]⟩ := by
  decide +kernel

end Qnetd
