import Mathlib.Algebra.Ring.Int.Defs
import Mathlib.Data.Prod.Lex
import Qnetd.Invariant.Decision
import Qnetd.Lib.Scan

/-!
# Choosing the partition

* `heard`, `ffsplitPartitionStats_eq` : the statistics of a partition count the heuristics heard
  from its connected clients;
* `Majority`, `Half`, `AtLeastHalf` : a candidate's share of its configured nodes.
  `ffsplitPartitionBetter` decides by the share alone unless it is exactly one half
  (`better_of_majority`, `better_of_minority`, `better_of_half_iff`);
* `ffsplitScan_eq` : the loop of `ffsplit_select_partition` is a scan of the eligible candidates;
* `ffsplitScan_eq_none_iff` : a partition is found exactly when one has half of the nodes.
-/

namespace Qnetd

/-! ## Shares -/

/-- Both lists are there, and the members are more than half of the configured nodes, or one half of
an even number. -/
def HoldsHalf (config members : NodeList) : Prop :=
  config.empty = false ∧ members.empty = false ∧
    (config.size < 2 * members.size ∨ (config.size % 2 = 0 ∧ 2 * members.size = config.size))

namespace Candidate

def Majority (c : Candidate) : Prop := c.config.size < 2 * c.membership.size

instance : DecidablePred Majority :=
  fun c => inferInstanceAs (Decidable (c.config.size < 2 * c.membership.size))

def Half (c : Candidate) : Prop := 2 * c.membership.size = c.config.size

instance : DecidablePred Half := fun c =>
  inferInstanceAs (Decidable (2 * c.membership.size = c.config.size))

def AtLeastHalf (c : Candidate) : Prop := c.config.size ≤ 2 * c.membership.size

instance : DecidablePred AtLeastHalf := fun c =>
  inferInstanceAs (Decidable (c.config.size ≤ 2 * c.membership.size))

theorem Half.not_majority {c : Candidate} (h : c.Half) : ¬c.Majority := by
  unfold Half at h
  unfold Majority
  omega

theorem atLeastHalf_iff {c : Candidate} : c.AtLeastHalf ↔ c.Majority ∨ c.Half := by
  unfold AtLeastHalf Majority Half
  omega

theorem holdsHalf_iff {c : Candidate} (hcfg : c.config.empty = false)
    (hmem : c.membership.empty = false) : HoldsHalf c.config c.membership ↔ c.AtLeastHalf := by
  unfold HoldsHalf AtLeastHalf
  constructor
  · rintro ⟨-, -, h⟩
    omega
  · intro h
    exact ⟨hcfg, hmem, by omega⟩

end Candidate

/-! ## Statistics -/

/-- One client more, with these heuristics. -/
def PartitionStats.tally (st : PartitionStats) (h : Heuristics) : PartitionStats where
  clients := st.clients + 1
  pass := if h = .pass then st.pass + 1 else st.pass
  fail := if h = .fail then st.fail + 1 else st.fail

/-- A client is worth one point, two with PASS and none with FAIL. -/
def Heuristics.points : Heuristics → Int
  | .undefined => 1
  | .pass => 2
  | .fail => 0

theorem sum_points : ∀ l : List Heuristics,
    (l.map Heuristics.points).sum = l.length + (l.count .pass - l.count .fail : Int)
  | [] => rfl
  | h :: l => by
    rw [List.map_cons, List.sum_cons, sum_points l]
    cases h <;> simp [Heuristics.points] <;> omega

namespace Server

/-- The heuristics `ffsplit_partition_stats` takes into account for a member, if it is connected. -/
def counted (s : Server) (c : Candidate) (n : NodeInfo) : Option Heuristics :=
  (s.clientOf (s.sessions c.slot).cluster n.nodeId).map fun i =>
    if i = c.slot then c.heuristics else (s.sessions i).lastHeuristics

def heard (s : Server) (c : Candidate) : List Heuristics :=
  c.membership.nodes.filterMap (s.counted c)

def clients (s : Server) (c : Candidate) : Nat := (s.heard c).length

def score (s : Server) (c : Candidate) : Int := ((s.heard c).map Heuristics.points).sum

theorem foldl_tally : ∀ (l : List Heuristics) (st : PartitionStats),
    l.foldl PartitionStats.tally st =
      { clients := st.clients + l.length, pass := st.pass + l.count .pass,
        fail := st.fail + l.count .fail }
  | [], st => rfl
  | h :: l, st => by
    rw [List.foldl_cons, foldl_tally l]
    cases h <;> simp [PartitionStats.tally] <;> omega

theorem ffsplitPartitionStats_eq (s : Server) (c : Candidate) :
    s.ffsplitPartitionStats (some c) =
      { clients := s.clients c, pass := (s.heard c).count .pass,
        fail := (s.heard c).count .fail } := by
  have hstats : s.ffsplitPartitionStats (some c) =
      (s.heard c).foldl PartitionStats.tally {} := by
    rw [heard, List.foldl_filterMap, ffsplitPartitionStats]
    congr 1
    funext st n
    unfold counted
    cases s.clientOf (s.sessions c.slot).cluster n.nodeId with
    | none => rfl
    | some i => rfl
  rw [hstats, foldl_tally, clients]
  simp

/-- The `score1` and `score2` of the source. -/
theorem score_eq (s : Server) (c : Candidate) :
    s.score c = s.clients c + ((s.heard c).count .pass - (s.heard c).count .fail : Int) := by
  rw [score, sum_points, clients]

theorem score_bounds (s : Server) (c : Candidate) :
    0 ≤ s.score c ∧ s.score c ≤ 2 * s.clients c := by
  have hpass : (s.heard c).count .pass ≤ (s.heard c).length := List.count_le_length
  have hfail : (s.heard c).count .fail ≤ (s.heard c).length := List.count_le_length
  rw [score_eq, clients]
  omega

theorem clientOf_self {s : Server} {i : Slot} {c : Int} (h : s.inCluster c i = true) :
    (s.clientOf c (s.sessions i).nodeId).isSome = true := by
  rw [clientOf, List.find?_isSome]
  exact ⟨i, List.mem_finRange i, by simp [h]⟩

theorem clients_pos {s : Server} {c : Candidate} {k : Int} (hin : s.inCluster k c.slot = true)
    (hown : (s.sessions c.slot).nodeId ∈ c.membership.ids) : 0 < s.clients c := by
  obtain ⟨n, hn, hid⟩ := NodeList.mem_ids.mp hown
  have hself := clientOf_self hin
  rw [← (inCluster_iff.mp hin).2, ← hid] at hself
  obtain ⟨i, hi⟩ := Option.isSome_iff_exists.mp hself
  have hc : s.counted c n =
      some (if i = c.slot then c.heuristics else (s.sessions i).lastHeuristics) := by
    simp [counted, hi]
  exact List.length_pos_of_mem (List.mem_filterMap.mpr ⟨n, hn, hc⟩)

/-! ## Comparing two candidates -/

/-- What decides between two halves first: the score, then the number of clients. -/
def rank (s : Server) (c : Candidate) : Int ×ₗ Nat := toLex (s.score c, s.clients c)

/-- What decides between two halves of equal rank. -/
def breaksTie (s : Server) (c₁ c₂ : Candidate) (prevQuorate : NodeList) (keepActiveTb : Bool) :
    Bool :=
  let in1 := (prevQuorate.find (s.sessions c₁.slot).nodeId).isSome
  let in2 := (prevQuorate.find (s.sessions c₂.slot).nodeId).isSome
  if keepActiveTb && in1 != in2 then in1 else s.ffsplitIsPreferredPartition c₁.slot c₁.config
    c₁.membership

section Better

variable (s : Server) {c₁ : Candidate} (c₂ : Option Candidate) (prevQuorate : NodeList)
  (keepActiveTb : Bool)

theorem better_of_majority (h : c₁.Majority) :
    s.ffsplitPartitionBetter c₁ c₂ prevQuorate keepActiveTb = true := by
  have hsize : c₁.membership.size > c₁.config.size / 2 := by
    unfold Candidate.Majority at h
    omega
  unfold ffsplitPartitionBetter
  rw [if_pos hsize, decide_eq_true hsize]
  exact ite_self _

theorem better_of_minority (h : ¬c₁.AtLeastHalf) :
    s.ffsplitPartitionBetter c₁ c₂ prevQuorate keepActiveTb = false := by
  unfold Candidate.AtLeastHalf at h
  unfold ffsplitPartitionBetter
  split_ifs with hodd hmore hless
  · rw [decide_eq_false_iff_not]
    omega
  · omega
  · rfl
  · omega

variable {s}

theorem better_of_half_iff (h : c₁.Half) (c₂ : Candidate) :
    s.ffsplitPartitionBetter c₁ (some c₂) prevQuorate keepActiveTb = true ↔
      s.rank c₂ < s.rank c₁ ∨
      (s.rank c₁ = s.rank c₂ ∧ s.breaksTie c₁ c₂ prevQuorate keepActiveTb = true) := by
  unfold Candidate.Half at h
  have heq : s.ffsplitPartitionBetter c₁ (some c₂) prevQuorate keepActiveTb =
      if s.score c₁ ≠ s.score c₂ then decide (s.score c₁ > s.score c₂)
      else if s.clients c₁ ≠ s.clients c₂ then decide (s.clients c₁ > s.clients c₂)
      else s.breaksTie c₁ c₂ prevQuorate keepActiveTb := by
    unfold ffsplitPartitionBetter
    rw [if_neg (by omega), if_neg (by omega), if_neg (by omega)]
    simp only [ffsplitPartitionStats_eq, ← score_eq]
    rfl
  rw [heq, rank, rank, Prod.Lex.toLex_lt_toLex, toLex_inj, Prod.mk.injEq]
  split_ifs with hscore hclients
  · rw [decide_eq_true_eq]
    omega
  · rw [decide_eq_true_eq]
    omega
  · rw [not_ne_iff] at hscore hclients
    simp [hscore, hclients]

/-- Against nothing, a half wins with a connected client, or as the preferred one. -/
theorem better_none_of_half_iff (h : c₁.Half) :
    s.ffsplitPartitionBetter c₁ none prevQuorate keepActiveTb = true ↔
      0 < s.clients c₁ ∨ s.ffsplitIsPreferredPartition c₁.slot c₁.config c₁.membership = true := by
  unfold Candidate.Half at h
  have heq : s.ffsplitPartitionBetter c₁ none prevQuorate keepActiveTb =
      if s.score c₁ ≠ 0 then decide (s.score c₁ > 0)
      else if s.clients c₁ ≠ 0 then decide (s.clients c₁ > 0)
      else s.ffsplitIsPreferredPartition c₁.slot c₁.config c₁.membership := by
    unfold ffsplitPartitionBetter
    rw [if_neg (by omega), if_neg (by omega), if_neg (by omega)]
    simp only [ffsplitPartitionStats_eq, ← score_eq]
    rfl
  obtain ⟨hnonneg, hzero⟩ := s.score_bounds c₁
  rw [heq]
  split_ifs with hscore hclients
  · rw [decide_eq_true_eq]
    exact iff_of_true (by omega) (Or.inl (by omega))
  · rw [decide_eq_true_eq]
    exact iff_of_true (by omega) (Or.inl (by omega))
  · rw [not_ne_iff] at hclients
    simp [hclients]

theorem better_none (h : c₁.AtLeastHalf) (hpos : 0 < s.clients c₁) :
    s.ffsplitPartitionBetter c₁ none prevQuorate keepActiveTb = true := by
  rcases Candidate.atLeastHalf_iff.mp h with h | h
  · exact better_of_majority s none prevQuorate keepActiveTb h
  · exact (better_none_of_half_iff prevQuorate keepActiveTb h).mpr (Or.inl hpos)

end Better

/-! ## The scan -/

def beats (s : Server) (tv : TriggerView) (c : Candidate) (best : Option Candidate) : Bool :=
  s.ffsplitPartitionBetter c best (s.clusters (s.tvCluster tv)).quoratePartition
    (s.keepActiveTb (s.tvCluster tv))

/-- The candidates the scan does not `continue` over, in the order of their slots. -/
def candidates (s : Server) (tv : TriggerView) : List Candidate :=
  ((s.walk tv).map (s.candidate tv)).filter fun c => !(c.config.empty || c.membership.empty)

theorem mem_candidates {s : Server} {tv : TriggerView} {c : Candidate} :
    c ∈ s.candidates tv ↔ s.Eligible tv c := by
  simp only [candidates, List.mem_filter, List.mem_map, mem_walk, Bool.not_eq_true',
    Bool.or_eq_false_iff]
  constructor
  · rintro ⟨⟨i, hi, rfl⟩, hcfg, hmem⟩
    exact ⟨hi, rfl, hcfg, hmem⟩
  · rintro ⟨hw, hc, hcfg, hmem⟩
    exact ⟨⟨c.slot, hw, hc.symm⟩, hcfg, hmem⟩

theorem ffsplitScan_eq (s : Server) (tv : TriggerView) :
    s.ffsplitScan tv = Scan.scan (s.beats tv) (s.candidates tv) := by
  rw [ffsplitScan, Scan.scan, candidates, List.foldl_filter, List.foldl_map]
  congr 1
  funext best i
  unfold ffsplitScanStep
  cases hskip : (s.candidate tv i).config.empty || (s.candidate tv i).membership.empty with
  | true => simp [hskip]
  | false =>
    simp only [hskip, Bool.not_false, if_true, Bool.false_eq_true, if_false]
    rfl

theorem ffsplitScan_atLeastHalf {s : Server} {tv : TriggerView} {c : Candidate}
    (h : s.ffsplitScan tv = some c) : s.Eligible tv c ∧ c.AtLeastHalf := by
  rw [ffsplitScan_eq] at h
  obtain ⟨hmem, best, htake⟩ := Scan.scan_taken h
  refine ⟨mem_candidates.mp hmem, ?_⟩
  by_contra hless
  rw [beats, better_of_minority s _ _ _ hless] at htake
  cases htake

/-- Every client with a membership list is in it. -/
def OwnListed (s : Server) (tv : TriggerView) : Prop :=
  ∀ c, s.Eligible tv c → (s.sessions c.slot).nodeId ∈ c.membership.ids

theorem Eligible.inCluster {s : Server} {tv : TriggerView} {c : Candidate} (h : s.Eligible tv c) :
    s.inCluster (s.tvCluster tv) c.slot = true := inCluster_of_inWalk h.1

/-- A partition is found exactly when one has half of the nodes. -/
theorem ffsplitScan_eq_none_iff {s : Server} {tv : TriggerView} (hown : s.OwnListed tv) :
    s.ffsplitScan tv = none ↔ ∀ c, s.Eligible tv c → ¬c.AtLeastHalf := by
  rw [ffsplitScan_eq, Scan.scan_eq_none]
  constructor
  · intro h c hc hhalf
    have htake :=
      better_none (s.clusters (s.tvCluster tv)).quoratePartition
        (s.keepActiveTb (s.tvCluster tv)) hhalf
      (clients_pos hc.inCluster (hown c hc))
    have hfalse := h c (mem_candidates.mpr hc)
    unfold beats at hfalse
    rw [htake] at hfalse
    cases hfalse
  · intro h c hc
    exact better_of_minority s _ _ _ (h c (mem_candidates.mp hc))

theorem Eligible.holdsHalf_iff {s : Server} {tv : TriggerView} {c : Candidate}
    (h : s.Eligible tv c) :
    HoldsHalf (s.effConfig tv c.slot) (s.effMembership tv c.slot) ↔ c.AtLeastHalf := by
  obtain ⟨-, hc, hcfg, hmem⟩ := h
  rw [← Candidate.holdsHalf_iff hcfg hmem, hc]
  rfl

/-- Nobody, exactly when no session holds half; otherwise the list of a session that does. -/
theorem ffsplitSelectPartition_spec {s : Server} {tv : TriggerView} (hown : s.OwnListed tv) :
    (s.ffsplitSelectPartition tv = none ↔
      ∀ i, s.inWalk tv i = true → ¬HoldsHalf (s.effConfig tv i) (s.effMembership tv i)) ∧
    ∀ l, s.ffsplitSelectPartition tv = some l →
      ∃ i, s.inWalk tv i = true ∧ HoldsHalf (s.effConfig tv i) (s.effMembership tv i) ∧
      l = s.effMembership tv i := by
  refine ⟨?_, fun l hl => ?_⟩
  · rw [ffsplitSelectPartition, Option.map_eq_none_iff, ffsplitScan_eq_none_iff hown]
    constructor
    · intro h i hi hhalf
      have he : s.Eligible tv (s.candidate tv i) := ⟨hi, rfl, hhalf.1, hhalf.2.1⟩
      exact h _ he (he.holdsHalf_iff.mp hhalf)
    · intro h c hc hhalf
      exact h c.slot hc.1 (hc.holdsHalf_iff.mpr hhalf)
  · obtain ⟨c, hc, rfl⟩ := Option.map_eq_some_iff.mp hl
    obtain ⟨he, hhalf⟩ := ffsplitScan_atLeastHalf hc
    refine ⟨c.slot, he.1, he.holdsHalf_iff.mpr hhalf, ?_⟩
    rw [he.2.1]
    rfl

theorem ownListed_of_identity {s : Server} (h : Identity s) {tv : TriggerView} (ht : s.Trigger tv) :
    s.OwnListed tv := by
  rintro c ⟨hw, hc, -, hmem⟩
  have hne : (s.viewOf tv c.slot).members.Nonempty := by
    rw [hc] at hmem
    exact NodeList.empty_eq_false.mp hmem
  have hown := proper_of_identity h ht c.slot hw hne
  rw [hc]
  exact hown

/-! ## Tables with the same views -/

/-- The two tables show the algorithm the same sessions with the same views. -/
structure SameViews (s s' : Server) (tv tv' : TriggerView) : Prop where
  walk : ∀ i, s'.inWalk tv' i = s.inWalk tv i
  nodeId : ∀ i, s.inWalk tv i = true → (s'.sessions i).nodeId = (s.sessions i).nodeId
  tieBreaker : ∀ i, s.inWalk tv i = true → (s'.sessions i).tieBreaker = (s.sessions i).tieBreaker
  config : ∀ i, s.inWalk tv i = true → s'.effConfig tv' i = s.effConfig tv i
  membership : ∀ i, s.inWalk tv i = true → s'.effMembership tv' i = s.effMembership tv i
  ring : ∀ i, s.inWalk tv i = true → s'.effRing tv' i = s.effRing tv i
  heuristics : ∀ i, s.inWalk tv i = true → s'.effHeuristics tv' i = s.effHeuristics tv i

section SameViews

variable {s s' : Server} {tv tv' : TriggerView}

theorem SameViews.walk_eq (h : SameViews s s' tv tv') : s'.walk tv' = s.walk tv := by
  unfold Server.walk
  rw [funext h.walk]

theorem SameViews.isStable (h : SameViews s s' tv tv') :
    s'.ffsplitIsStable tv' = s.ffsplitIsStable tv := by
  have hfind : ∀ id, (s.walk tv).find? (fun j => (s'.sessions j).nodeId = id) =
      (s.walk tv).find? (fun j => (s.sessions j).nodeId = id) := by
    intro id
    rw [← List.head?_filter, ← List.head?_filter, List.filter_congr fun j hj => ?_]
    rw [h.nodeId j (mem_walk.mp hj)]
  rw [Bool.eq_iff_iff]
  simp only [ffsplitIsStable, h.walk_eq, hfind, Bool.and_eq_true, List.all_eq_true, mem_walk]
  refine and_congr ?_ ?_
  · refine forall₂_congr fun i hi => forall₂_congr fun j hj => ?_
    rw [h.config i hi, h.config j hj]
  · refine forall₂_congr fun i hi => ?_
    rw [h.membership i hi]
    refine forall₂_congr fun n _ => ?_
    cases hj : (s.walk tv).find? (fun j => decide ((s.sessions j).nodeId = n.nodeId)) with
    | none => rfl
    | some j =>
      have hjw := mem_walk.mp (List.mem_of_find?_eq_some hj)
      simp only [h.ring i hi, h.ring j hjw, h.membership j hjw]

theorem SameViews.candidate (h : SameViews s s' tv tv') {i : Slot} (hi : s.inWalk tv i = true) :
    s'.candidate tv' i = s.candidate tv i := by
  simp only [Server.candidate, h.config i hi, h.membership i hi, h.heuristics i hi]

theorem SameViews.candidates (h : SameViews s s' tv tv') : s'.candidates tv' = s.candidates tv := by
  unfold Server.candidates
  rw [h.walk_eq, List.map_congr_left fun i hi => h.candidate (mem_walk.mp hi)]

theorem SameViews.eligible (h : SameViews s s' tv tv') {c : Candidate} :
    s'.Eligible tv' c ↔ s.Eligible tv c := by
  rw [← mem_candidates, h.candidates, mem_candidates]

theorem SameViews.preferred (h : SameViews s s' tv tv') {c : Candidate} (hc : s.Eligible tv c) :
    s'.ffsplitIsPreferredPartition c.slot c.config c.membership =
      s.ffsplitIsPreferredPartition c.slot c.config c.membership := by
  simp only [ffsplitIsPreferredPartition, h.tieBreaker c.slot hc.1]

/-- Only the comparisons of halves matter: if they agree, the same candidate is chosen. -/
theorem SameViews.scan (h : SameViews s s' tv tv')
    (hnone : ∀ c, s.Eligible tv c → c.Half → s'.beats tv' c none = s.beats tv c none)
    (hsome : ∀ c best, s.Eligible tv c → c.Half → s.Eligible tv best → best.AtLeastHalf →
      s'.beats tv' c (some best) = s.beats tv c (some best)) :
    s'.ffsplitScan tv' = s.ffsplitScan tv := by
  rw [ffsplitScan_eq, ffsplitScan_eq, h.candidates]
  refine (Scan.scan_congr fun c hc best hbest => ?_).symm
  by_cases hhalf : c.AtLeastHalf
  · rcases Candidate.atLeastHalf_iff.mp hhalf with hmaj | hhalf
    · rw [beats, beats, better_of_majority _ _ _ _ hmaj, better_of_majority _ _ _ _ hmaj]
    · cases best with
      | none => exact (hnone c (mem_candidates.mp hc) hhalf).symm
      | some y =>
        obtain ⟨hy, b, htake⟩ := hbest y rfl
        have hyhalf : y.AtLeastHalf := by
          by_contra hless
          rw [beats, better_of_minority s _ _ _ hless] at htake
          cases htake
        exact (hsome c y (mem_candidates.mp hc) hhalf (mem_candidates.mp hy) hyhalf).symm
  · rw [beats, beats, better_of_minority _ _ _ _ hhalf, better_of_minority _ _ _ _ hhalf]

end SameViews

theorem SameButVotes.sameViews {s s' : Server} (h : SameButVotes s s') (tv : TriggerView) :
    SameViews s s' tv tv :=
  ⟨inWalk_congr h tv, fun i _ => h.nodeId i, fun i _ => h.tieBreaker i,
    fun i _ => by simp only [effConfig, h.configList],
      fun i _ => by simp only [effMembership, h.membershipList],
    fun i _ => effRing_congr h tv i, fun i _ => by simp only [effHeuristics, h.lastHeuristics]⟩

theorem SameViews.of_sameButVotes {s s' t t' : Server} {tv tv' : TriggerView}
    (h : SameViews s s' tv tv')
    (h₁ : SameButVotes s t) (h₂ : SameButVotes s' t') : SameViews t t' tv tv' := by
  have ht := h₁.sameViews tv
  have ht' := h₂.sameViews tv'
  have hw : ∀ {i}, t.inWalk tv i = true → s.inWalk tv i = true :=
    fun hi => (ht.walk _).symm.trans hi
  have hw' : ∀ {i}, s.inWalk tv i = true → s'.inWalk tv' i = true := fun hi => (h.walk _).trans hi
  refine ⟨fun i => ?_, fun i hi => ?_, fun i hi => ?_, fun i hi => ?_, fun i hi => ?_,
    fun i hi => ?_, fun i hi => ?_⟩
  · rw [ht'.walk, h.walk, ht.walk]
  · rw [ht'.nodeId i (hw' (hw hi)), h.nodeId i (hw hi), ht.nodeId i (hw hi)]
  · rw [ht'.tieBreaker i (hw' (hw hi)), h.tieBreaker i (hw hi), ht.tieBreaker i (hw hi)]
  · rw [ht'.config i (hw' (hw hi)), h.config i (hw hi), ht.config i (hw hi)]
  · rw [ht'.membership i (hw' (hw hi)), h.membership i (hw hi), ht.membership i (hw hi)]
  · rw [ht'.ring i (hw' (hw hi)), h.ring i (hw hi), ht.ring i (hw hi)]
  · rw [ht'.heuristics i (hw' (hw hi)), h.heuristics i (hw hi), ht.heuristics i (hw hi)]

theorem SameButVotes.heard {s s' : Server} (h : SameButVotes s s') (c : Candidate) :
    s'.heard c = s.heard c := by
  have hcounted : s'.counted c = s.counted c := by
    funext n
    simp only [counted, clientOf, inCluster_congr h, h.cluster, h.nodeId, h.lastHeuristics]
  rw [Server.heard, hcounted, Server.heard]

theorem rank_congr {s s' : Server} {c : Candidate} (h : s'.heard c = s.heard c) :
    s'.rank c = s.rank c := by
  rw [rank, score, clients, h, rank, score, clients]

theorem better_some_congr {s s' : Server} {c₁ c₂ : Candidate} {prev prev' : NodeList}
    {keep keep' : Bool} (hhalf : c₁.Half)
    (hlt : s'.rank c₂ < s'.rank c₁ ↔ s.rank c₂ < s.rank c₁)
    (heq : s'.rank c₁ = s'.rank c₂ ↔ s.rank c₁ = s.rank c₂)
    (htie : s'.breaksTie c₁ c₂ prev' keep' = s.breaksTie c₁ c₂ prev keep) :
    s'.ffsplitPartitionBetter c₁ (some c₂) prev' keep' =
      s.ffsplitPartitionBetter c₁ (some c₂) prev keep := by
  rw [Bool.eq_iff_iff, better_of_half_iff _ _ hhalf, better_of_half_iff _ _ hhalf, hlt, heq, htie]

theorem better_none_congr {s s' : Server} {c : Candidate} {prev prev' : NodeList}
    {keep keep' : Bool} (hhalf : c.Half) (hheard : s'.heard c = s.heard c)
    (hpref : s'.ffsplitIsPreferredPartition c.slot c.config c.membership =
      s.ffsplitIsPreferredPartition c.slot c.config c.membership) :
    s'.ffsplitPartitionBetter c none prev' keep' = s.ffsplitPartitionBetter c none prev keep := by
  rw [Bool.eq_iff_iff, better_none_of_half_iff _ _ hhalf,
    better_none_of_half_iff _ _ hhalf, clients, hheard, clients, hpref]

theorem SameButVotes.keepActiveTb {s s' : Server} (h : SameButVotes s s') (c : Int) :
    s'.keepActiveTb c = s.keepActiveTb c := by
  simp only [Server.keepActiveTb, inCluster_congr h, h.keepActivePartitionTb]

end Server

/-! ## Runs -/

/-- A quorate partition is found exactly when one is eligible. In a run without INIT on active
sessions, for every trigger the selection returns nobody exactly when no session it walks holds half
of its configured nodes, and otherwise the effective membership list of a session that does. So does
every decision the run has taken. -/
theorem partition_found_iff_eligible (n : UInt32) (calls : List Call)
    (hno : NoReinit (run n calls).trace) : (∀ tv, (run n calls).Trigger tv →
      ((run n calls).ffsplitSelectPartition tv = none ↔ ∀ i, (run n calls).inWalk tv i = true →
        ¬HoldsHalf ((run n calls).effConfig tv i) ((run n calls).effMembership tv i)) ∧
      ∀ l, (run n calls).ffsplitSelectPartition tv = some l →
        ∃ i, (run n calls).inWalk tv i = true ∧
        HoldsHalf ((run n calls).effConfig tv i) ((run n calls).effMembership tv i) ∧
        l = (run n calls).effMembership tv i) ∧
    ∀ d, .decide d ∈ (run n calls).trace →
      (d.winner = none ↔ ∀ t v, d.voters t = some v → ¬HoldsHalf v.config v.membership) ∧
      ∀ w l, d.winner = some (w, l) → ∃ v, d.voters w = some v ∧ HoldsHalf v.config v.membership ∧
      l = v.membership := by
  refine ⟨fun tv ht => ?_, fun d hd => ?_⟩
  · exact Server.ffsplitSelectPartition_spec
      (Server.ownListed_of_identity (run_identity n calls hno.keepsId) ht)
  · obtain ⟨s, tv, rfl, -, hid⟩ := run_decision n calls hd
    obtain ⟨hid, ht⟩ := hid hno.keepsId
    have hspec := Server.ffsplitScan_eq_none_iff (Server.ownListed_of_identity hid ht)
    refine ⟨?_, fun w l hw => ?_⟩
    · rw [Server.verdict_winner_eq_none, hspec]
      constructor
      · intro h t v hv hhalf
        obtain ⟨ho, rfl⟩ := Server.verdict_voters hv
        have he : s.Eligible tv (s.candidate tv t) :=
          ⟨(Server.inWalk_eq_others hid ht t).trans ho, rfl, hhalf.1, hhalf.2.1⟩
        exact h _ he (he.holdsHalf_iff.mp hhalf)
      · intro h c hc hhalf
        obtain ⟨v, hv, hcfg, hmem⟩ := Server.verdict_voter_of_walk hc.1
        refine h c.slot v hv ?_
        rw [hcfg, hmem]
        exact hc.holdsHalf_iff.mpr hhalf
    · obtain ⟨c, hc, rfl, rfl⟩ := Server.verdict_winner hw
      obtain ⟨he, hhalf⟩ := Server.ffsplitScan_atLeastHalf hc
      obtain ⟨v, hv, hcfg, hmem⟩ := Server.verdict_voter_of_walk he.1
      refine ⟨v, hv, ?_, ?_⟩
      · rw [hcfg, hmem]
        exact he.holdsHalf_iff.mpr hhalf
      · rw [hmem, he.2.1]
        rfl

/-- Node 1 has lost node 2 and is alone with half of the nodes: it is not refused. -/
theorem partition_found_survivor :
    (run 32768 splitCalls).ffsplitSelectPartition
      ((run 32768 splitCalls).storedView 0 false) ≠ none := by
  have hrun : (∀ e ∈ (run 32768 splitCalls).trace, e.reinit = false) ∧
      (let s := run 32768 splitCalls
       let tv := s.storedView 0 false
       (s.sessions tv.slot).phase = .active ∧
       (tv.membership.find (s.sessions tv.slot).nodeId).isSome = true ∧ s.inWalk tv 0 = true ∧
       (s.effConfig tv 0).empty = false ∧ (s.effMembership tv 0).empty = false ∧
         (s.effConfig tv 0).size % 2 = 0 ∧
       2 * (s.effMembership tv 0).size = (s.effConfig tv 0).size) := by
    decide +kernel
  obtain ⟨hno, hact, hmem, hwalk, hc, hm, heven, hhalf⟩ := hrun
  intro hnone
  exact ((partition_found_iff_eligible 32768 splitCalls hno).1 _ ⟨hact, fun _ _ => hmem⟩).1.mp hnone
    0 hwalk ⟨hc, hm, Or.inr ⟨heven, hhalf⟩⟩

/-! ## Entries and nodes -/

theorem NodeList.card_ids_le (l : NodeList) : l.ids.card ≤ l.size := by
  unfold NodeList.ids NodeList.size
  exact (List.toFinset_card_le _).trans_eq (List.length_map _)

theorem NodeList.card_ids_of_nodup {l : NodeList} (h : (l.nodes.map NodeInfo.nodeId).Nodup) :
    l.ids.card = l.size := by
  unfold NodeList.ids NodeList.size
  rw [List.toFinset_card_of_nodup h, List.length_map]

/-- A winning list has half as many entries as the config list, and more than half when that number
is odd. When it repeats no node id and names configured nodes only, the same holds of the distinct
node ids. -/
theorem winner_holds_half (n : UInt32) (calls : List Call) (d : Decision)
    (hd : .decide d ∈ (run n calls).trace) (w : Slot) (l : NodeList) (hw : d.winner = some (w, l)) :
    ∃ v, d.voters w = some v ∧ v.membership = l ∧ v.config.size ≤ 2 * l.size ∧
      (v.config.size % 2 = 1 → v.config.size < 2 * l.size) ∧
      ((l.nodes.map NodeInfo.nodeId).Nodup → l.ids ⊆ v.config.ids →
        v.config.ids.card ≤ 2 * (l.ids ∩ v.config.ids).card ∧
        (v.config.ids.card % 2 = 1 → v.config.ids.card < 2 * (l.ids ∩ v.config.ids).card)) := by
  obtain ⟨s, tv, rfl, -, -⟩ := run_decision n calls hd
  obtain ⟨c, hc, rfl, rfl⟩ := Server.verdict_winner hw
  obtain ⟨he, hhalf⟩ := Server.ffsplitScan_atLeastHalf hc
  obtain ⟨v, hv, hcfg, hmem⟩ := Server.verdict_voter_of_walk he.1
  have hcfg' : v.config = c.config := by
    rw [hcfg, he.2.1]
    rfl
  have hmem' : v.membership = c.membership := by
    rw [hmem, he.2.1]
    rfl
  unfold Candidate.AtLeastHalf at hhalf
  refine ⟨v, hv, hmem', ?_, ?_, fun hnd hsub => ?_⟩
  · rw [hcfg']
    exact hhalf
  · rw [hcfg']
    omega
  · have hle := v.config.card_ids_le
    rw [Finset.inter_eq_left.mpr hsub, NodeList.card_ids_of_nodup hnd]
    rw [hcfg'] at hle ⊢
    omega

theorem winner_holds_half_split :
    ∃ d l v, .decide d ∈ (run 32768 splitCalls).trace ∧ d.winner = some (0, l) ∧
    d.voters 0 = some v ∧
      v.config.size ≤ 2 * l.size := by
  obtain ⟨d, l, hmem, hw⟩ := split_decided
  obtain ⟨v, hv, -, hsize, -⟩ := winner_holds_half 32768 splitCalls d hmem 0 l hw
  exact ⟨d, l, v, hmem, hw, hv, hsize⟩

/-- Node 1 of three configured nodes reports itself twice. -/
def repeatedCalls : List Call :=
  Rig.join 0 [116] 1 {} ++ Rig.feed 0 [MockClient.configList 3 .initialConfig [1, 2, 3],
    MockClient.membership 4 ⟨1, 1⟩ [1, 1]]

/-- Two entries of three configured ones are a majority, though they name one node. -/
theorem repeated_node_wins :
    ∃ d l v, .decide d ∈ (run 32768 repeatedCalls).trace ∧ d.winner = some (0, l) ∧
    d.voters 0 = some v ∧
      v.membership = l ∧ ¬v.config.ids.card ≤ 2 * (l.ids ∩ v.config.ids).card := by
  have hlast : (History.last (Event.decisionIn 0) (run 32768 repeatedCalls).trace).map
      (fun d => (d.winner, (d.voters 0).map fun v => (v.membership, v.config))) =
      some (some (0, ⟨[{ nodeId := 1, state := .member }, { nodeId := 1, state := .member }]⟩),
        some (⟨[{ nodeId := 1, state := .member }, { nodeId := 1, state := .member }]⟩,
          ⟨[{ nodeId := 1 }, { nodeId := 2 }, { nodeId := 3 }]⟩)) := by decide +kernel
  obtain ⟨d, hd, hval⟩ := Option.map_eq_some_iff.mp hlast
  obtain ⟨hw, hvote⟩ := Prod.mk.inj hval
  obtain ⟨v, hv, hlists⟩ := Option.map_eq_some_iff.mp hvote
  obtain ⟨hmem, hcfg⟩ := Prod.mk.inj hlists
  refine ⟨d, _, v, (mem_of_decisionIn hd).1, hw, hv, hmem, ?_⟩
  rw [hcfg]
  decide +kernel

end Qnetd
