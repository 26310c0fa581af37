import Mathlib.Data.Finset.Max
import Qnetd.Invariant.Selection

/-!
# The winner as a maximum

* `WellFormed` : tables whose effective views are what clients of a partitioned cluster report;
* `key` : the lexicographic order of score, clients, previous partition and tie-breaker;
* `outranks`, `contest` : `ffsplit_partition_better` as a comparison by that order, for any ranks,
  so that the scan is a contest; `key_le_of_scan` : between halves it finds a maximum;
* `Top`, `winner_of_top` : the winner is the partition of every session at the top of the order, so
  it does not depend on the order of the slots;
* `winner_again` : a decision repeated with its own winner as the previous partition has the same
  winner.
-/

namespace Qnetd

namespace Server

/-! ## Well-formed views -/

structure WellFormed (s : Server) (tv : TriggerView) : Prop where
  distinct : ∀ i j, s.inCluster (s.tvCluster tv) i = true → s.inCluster (s.tvCluster tv) j = true →
    (s.sessions i).nodeId = (s.sessions j).nodeId → i = j
  own : ∀ i, s.inWalk tv i = true → (s.effMembership tv i).empty = false →
    (s.sessions i).nodeId ∈ (s.effMembership tv i).ids
  nodupConfig : ∀ i, s.inWalk tv i = true → ((s.effConfig tv i).nodes.map NodeInfo.nodeId).Nodup
  nodupMembership : ∀ i, s.inWalk tv i = true →
    ((s.effMembership tv i).nodes.map NodeInfo.nodeId).Nodup
  contained : ∀ i, s.inWalk tv i = true → (s.effMembership tv i).ids ⊆ (s.effConfig tv i).ids
  partition : ∀ i j, s.inWalk tv i = true → s.inWalk tv j = true →
    (s.effMembership tv i).ids = (s.effMembership tv j).ids ∨
      Disjoint (s.effMembership tv i).ids (s.effMembership tv j).ids

section WellFormed

variable {s : Server} {tv : TriggerView}

theorem WellFormed.distinctIds (h : s.WellFormed tv) : s.DistinctIds tv := fun i j hi hj =>
  h.distinct i j (inCluster_of_inWalk hi) (inCluster_of_inWalk hj)

theorem WellFormed.ownListed (h : s.WellFormed tv) : s.OwnListed tv := by
  rintro c ⟨hw, hc, -, hmem⟩
  rw [hc] at hmem
  have hown := h.own c.slot hw hmem
  rw [hc]
  exact hown

/-- The sessions that hold half of the configured nodes. -/
def Holds (s : Server) (tv : TriggerView) (i : Slot) : Prop :=
  s.inWalk tv i = true ∧ HoldsHalf (s.effConfig tv i) (s.effMembership tv i)

theorem Holds.eligible {i : Slot} (h : s.Holds tv i) : s.Eligible tv (s.candidate tv i) :=
  ⟨h.1, rfl, h.2.1, h.2.2.1⟩

theorem Holds.atLeastHalf {i : Slot} (h : s.Holds tv i) : (s.candidate tv i).AtLeastHalf :=
  h.eligible.holdsHalf_iff.mp h.2

theorem Eligible.holds {c : Candidate} (h : s.Eligible tv c) (hhalf : c.AtLeastHalf) :
    s.Holds tv c.slot :=
  ⟨h.1, h.holdsHalf_iff.mpr hhalf⟩

theorem Eligible.membership {c : Candidate} (h : s.Eligible tv c) :
    c.membership = s.effMembership tv c.slot := by
  rw [h.2.1]
  rfl

theorem WellFormed.card (h : s.WellFormed tv) {i : Slot} (hi : s.inWalk tv i = true) :
    (s.effConfig tv i).ids.card = (s.effConfig tv i).size ∧
      (s.effMembership tv i).ids.card = (s.effMembership tv i).size :=
  ⟨NodeList.card_ids_of_nodup (h.nodupConfig i hi),
    NodeList.card_ids_of_nodup (h.nodupMembership i hi)⟩

theorem same_config (hst : s.ffsplitIsStable tv = true) (h : s.WellFormed tv) {i j : Slot}
    (hi : s.inWalk tv i = true)
    (hj : s.inWalk tv j = true) : (s.effConfig tv i).ids = (s.effConfig tv j).ids :=
  ((ffsplitIsStable_iff s tv h.distinctIds).mp hst).same_config hi hj

/-- Beside a majority there is no other partition to choose. -/
theorem Holds.same_of_majority (hst : s.ffsplitIsStable tv = true) (h : s.WellFormed tv)
    {i j : Slot} (hi : s.Holds tv i) (hmaj : (s.candidate tv i).Majority) (hj : s.Holds tv j) :
    (s.effMembership tv i).ids = (s.effMembership tv j).ids := by
  have hcfg := same_config hst h hi.1 hj.1
  obtain ⟨hci, hmi⟩ := h.card hi.1
  obtain ⟨hcj, hmj⟩ := h.card hj.1
  have hhalf : (s.effConfig tv j).size ≤ 2 * (s.effMembership tv j).size := hj.atLeastHalf
  have hmaj' : (s.effConfig tv i).size < 2 * (s.effMembership tv i).size := hmaj
  refine Views.eq_of_majority (h.contained i hi.1) ?_ (h.partition i j hi.1 hj.1) (by omega) ?_
  · rw [hcfg]
    exact h.contained j hj.1
  · rw [hcfg]
    omega

/-- Of two different halves, every configured node is in exactly one. -/
theorem Holds.mem_iff_of_ne (hst : s.ffsplitIsStable tv = true) (h : s.WellFormed tv) {i j : Slot}
    (hi : s.Holds tv i)
    (hj : s.Holds tv j) (hi' : (s.candidate tv i).Half) (hj' : (s.candidate tv j).Half)
    (hne : (s.effMembership tv i).ids ≠ (s.effMembership tv j).ids) {id : UInt32}
    (hid : id ∈ (s.effConfig tv i).ids) :
    id ∈ (s.effMembership tv i).ids ↔ id ∉ (s.effMembership tv j).ids := by
  have hcfg := same_config hst h hi.1 hj.1
  obtain ⟨hci, hmi⟩ := h.card hi.1
  obtain ⟨hcj, hmj⟩ := h.card hj.1
  have hi'' : 2 * (s.effMembership tv i).size = (s.effConfig tv i).size := hi'
  have hj'' : 2 * (s.effMembership tv j).size = (s.effConfig tv j).size := hj'
  have hdisj := (h.partition i j hi.1 hj.1).resolve_left hne
  refine Views.mem_half_iff (h.contained i hi.1) ?_ hdisj (by omega) ?_ hid
  · rw [hcfg]
    exact h.contained j hj.1
  · rw [hcfg]
    omega

end WellFormed

/-! ## The order -/

/-- The node `ffsplit_is_preferred_partition` looks for. -/
def preferredId (s : Server) (i : Slot) (cfg : NodeList) : UInt32 :=
  match (s.sessions i).tieBreaker.mode with
  | .lowest => cfg.nodes.foldl (fun p n => if n.nodeId < p then n.nodeId else p)
      (cfg.nodes.head?.getD {}).nodeId
  | .highest => cfg.nodes.foldl (fun p n => if n.nodeId > p then n.nodeId else p)
      (cfg.nodes.head?.getD {}).nodeId
  | .nodeId => (s.sessions i).tieBreaker.nodeId

theorem isPreferred_iff {s : Server} {i : Slot} {cfg mem : NodeList} :
    s.ffsplitIsPreferredPartition i cfg mem = true ↔ s.preferredId i cfg ∈ mem.ids :=
  NodeList.find_isSome

theorem isPreferred_eq (s : Server) (i : Slot) (cfg mem : NodeList) :
    s.ffsplitIsPreferredPartition i cfg mem = decide (s.preferredId i cfg ∈ mem.ids) := by
  rw [Bool.eq_iff_iff, isPreferred_iff, decide_eq_true_eq]

/-- The client is in the previous quorate partition, and every member wants that to count. -/
def inPrev (s : Server) (tv : TriggerView) (c : Candidate) : Bool :=
  s.keepActiveTb (s.tvCluster tv) &&
    ((s.clusters (s.tvCluster tv)).quoratePartition.find (s.sessions c.slot).nodeId).isSome

/-- Majority first, then score, clients, previous partition and tie-breaker. -/
def key (s : Server) (tv : TriggerView) (c : Candidate) :
    Bool ×ₗ (Int ×ₗ Nat) ×ₗ Bool ×ₗ Bool :=
  toLex (decide c.Majority, toLex (s.rank c,
    toLex (s.inPrev tv c, decide (s.preferredId c.slot c.config ∈ c.membership.ids))))

/-- A tie is broken by the previous partition and the tie-breaker, and for the later of two
candidates that are equal in both if they are preferred. -/
theorem tie_iff : ∀ k i₁ i₂ p₁ p₂ : Bool, (if k && i₁ != i₂ then i₁ else p₁) = true ↔
    toLex (k && i₂, p₂) < toLex (k && i₁, p₁) ∨
      toLex (k && i₂, p₂) = toLex (k && i₁, p₁) ∧ p₁ = true := by
  simp only [Prod.Lex.toLex_lt_toLex, toLex_inj, Prod.mk.injEq]
  decide

/-- `ffsplit_partition_better` with the ranks and the keep-active flag given. -/
def outranks (s : Server) (tv : TriggerView) (rank : Candidate → Int ×ₗ Nat) (keep : Bool)
    (c : Candidate) : Option Candidate → Bool
  | none => decide c.Majority ||
      (decide c.Half && (decide (toLex (0, 0) < rank c) ||
        decide (s.preferredId c.slot c.config ∈ c.membership.ids)))
  | some d => decide c.Majority ||
      (decide c.Half && (decide (rank d < rank c) || (decide (rank c = rank d) &&
        s.breaksTie c d (s.clusters (s.tvCluster tv)).quoratePartition keep)))

/-- What two halves are compared by. -/
def place (s : Server) (tv : TriggerView) (rank : Candidate → Int ×ₗ Nat) (keep : Bool)
    (c : Candidate) : (Int ×ₗ Nat) ×ₗ Bool ×ₗ Bool :=
  toLex (rank c, toLex
    (keep &&
      ((s.clusters (s.tvCluster tv)).quoratePartition.find (s.sessions c.slot).nodeId).isSome,
      decide (s.preferredId c.slot c.config ∈ c.membership.ids)))

section Contest

variable (s : Server) (tv : TriggerView) (rank : Candidate → Int ×ₗ Nat) (keep : Bool)

theorem outranks_of_minority {c : Candidate} (h : ¬c.AtLeastHalf) (best : Option Candidate) :
    s.outranks tv rank keep c best = false := by
  obtain ⟨hmaj, hhalf⟩ := not_or.mp (mt Candidate.atLeastHalf_iff.mpr h)
  cases best <;> simp [outranks, hmaj, hhalf]

theorem outranks_of_majority {c : Candidate} (h : c.Majority) (best : Option Candidate) :
    s.outranks tv rank keep c best = true := by
  cases best <;> simp [outranks, h]

theorem outranks_of_half {c : Candidate} (h : c.Half) (d : Candidate) :
    s.outranks tv rank keep c (some d) = true ↔
      s.place tv rank keep d < s.place tv rank keep c ∨
        s.place tv rank keep d = s.place tv rank keep c ∧
          s.preferredId c.slot c.config ∈ c.membership.ids := by
  have hmaj := h.not_majority
  have htie : s.breaksTie c d (s.clusters (s.tvCluster tv)).quoratePartition keep = true ↔ _ :=
    tie_iff keep _ _ _ (decide (s.preferredId d.slot d.config ∈ d.membership.ids))
  have hlt : s.place tv rank keep d < s.place tv rank keep c ↔ _ := Prod.Lex.toLex_lt_toLex
  have heq : s.place tv rank keep d = s.place tv rank keep c ↔ _ :=
    toLex_inj.trans Prod.mk_inj
  simp only [outranks, hmaj, h, decide_false, decide_true, Bool.false_or, Bool.true_and,
    Bool.or_eq_true, Bool.and_eq_true, decide_eq_true_eq]
  rw [htie, isPreferred_eq, hlt, heq, decide_eq_true_eq]
  constructor
  · rintro (hlt | ⟨heq, hlt | ⟨htop, hpref⟩⟩)
    · exact Or.inl (Or.inl hlt)
    · exact Or.inl (Or.inr ⟨heq.symm, hlt⟩)
    · exact Or.inr ⟨⟨heq.symm, htop⟩, hpref⟩
  · rintro ((hlt | ⟨heq, hlt⟩) | ⟨⟨heq, htop⟩, hpref⟩)
    · exact Or.inl hlt
    · exact Or.inr ⟨heq.symm, Or.inl hlt⟩
    · exact Or.inr ⟨heq.symm, Or.inr ⟨htop, hpref⟩⟩

theorem candidates_sorted : (s.candidates tv).Pairwise fun c d => c.slot < d.slot := by
  refine List.Pairwise.filter _ (List.pairwise_map.mpr ?_)
  exact List.Pairwise.filter _ (List.pairwise_lt_finRange MAX_CLIENTS)

theorem contest : Scan.Contest (s.outranks tv rank keep) (s.candidates tv) Candidate.slot
    Candidate.AtLeastHalf Candidate.Majority (s.place tv rank keep)
    (fun c => s.preferredId c.slot c.config ∈ c.membership.ids) where
  sorted := s.candidates_sorted tv
  admits c _ best htake := by
    by_contra hless
    rw [outranks_of_minority s tv rank keep hless] at htake
    cases htake
  replaces c _ hmaj := outranks_of_majority s tv rank keep hmaj
  follows c _ d _ hc hmaj _ :=
    outranks_of_half s tv rank keep ((Candidate.atLeastHalf_iff.mp hc).resolve_left hmaj) d

theorem beats_eq_outranks (c : Candidate) (best : Option Candidate) :
    s.beats tv c best = s.outranks tv s.rank (s.keepActiveTb (s.tvCluster tv)) c best := by
  by_cases hleast : c.AtLeastHalf
  · rcases Candidate.atLeastHalf_iff.mp hleast with hmaj | hhalf
    · rw [outranks_of_majority s tv _ _ hmaj, beats, better_of_majority _ _ _ _ hmaj]
    · have hmaj := hhalf.not_majority
      rw [Bool.eq_iff_iff, beats]
      cases best with
      | none =>
        have hbounds := s.score_bounds c
        rw [better_none_of_half_iff _ _ hhalf]
        simp only [outranks, hmaj, hhalf, decide_false, decide_true, Bool.false_or, Bool.true_and,
          Bool.or_eq_true, decide_eq_true_eq, isPreferred_eq, Server.rank,
          Prod.Lex.toLex_lt_toLex]
        refine or_congr_left ?_
        omega
      | some d =>
        rw [better_of_half_iff _ _ hhalf]
        simp [outranks, hmaj, hhalf]
  · rw [outranks_of_minority s tv _ _ hleast, beats, better_of_minority _ _ _ _ hleast]

theorem ffsplitScan_eq_outranks : s.ffsplitScan tv =
    Scan.scan (s.outranks tv s.rank (s.keepActiveTb (s.tvCluster tv))) (s.candidates tv) := by
  rw [ffsplitScan_eq]
  exact Scan.scan_congr fun c _ best _ => s.beats_eq_outranks tv c best

/-- The list of the session that comes first when the partitions have these ranks: better than
every scored session of an earlier slot, and none of a later slot is better. A session that has
a majority replaces whatever came before it unscored. -/
def OnTop (l : NodeList) : Prop :=
  ∃ c ∈ s.candidates tv, Scan.Tops (s.outranks tv rank keep) (s.candidates tv) Candidate.slot
    Candidate.AtLeastHalf Candidate.Majority c ∧ c.membership = l

theorem scan_onTop (l : NodeList) :
    (Scan.scan (s.outranks tv rank keep) (s.candidates tv)).map Candidate.membership = some l ↔
      s.OnTop tv rank keep l := by
  rw [Option.map_eq_some_iff]
  constructor
  · rintro ⟨c, hc, hl⟩
    have htop := (s.contest tv rank keep).scan_eq_some_iff.mp hc
    exact ⟨c, htop.1, htop, hl⟩
  · rintro ⟨c, -, htop, hl⟩
    exact ⟨c, (s.contest tv rank keep).scan_eq_some_iff.mpr htop, hl⟩

theorem select_onTop (l : NodeList) : s.ffsplitSelectPartition tv = some l ↔
    s.OnTop tv s.rank (s.keepActiveTb (s.tvCluster tv)) l := by
  rw [← scan_onTop, ← ffsplitScan_eq_outranks, ffsplitSelectPartition]

theorem SameViews.select_onTop {s s' : Server} {tv tv' : TriggerView}
    {rank : Candidate → Int ×ₗ Nat} {keep : Bool} (h : SameViews s s' tv tv')
    (hprev : (s'.clusters (s'.tvCluster tv')).quoratePartition =
      (s.clusters (s.tvCluster tv)).quoratePartition)
    (hrank : ∀ c, s.Eligible tv c → s'.rank c = rank c)
    (hkeep : s'.keepActiveTb (s'.tvCluster tv') = keep) (l : NodeList) :
    s'.ffsplitSelectPartition tv' = some l ↔ s.OnTop tv rank keep l := by
  have hpref : ∀ c, s.Eligible tv c →
      s'.preferredId c.slot c.config = s.preferredId c.slot c.config := by
    intro c hc
    simp only [preferredId, h.tieBreaker c.slot hc.1]
  rw [← Server.scan_onTop, ffsplitSelectPartition, ffsplitScan_eq_outranks, h.candidates]
  refine iff_of_eq (congrArg (fun o => Option.map Candidate.membership o = some l) ?_)
  refine Scan.scan_congr fun c hc best hbest => ?_
  have hc := mem_candidates.mp hc
  cases best with
  | none => simp only [outranks, hrank c hc, hpref c hc]
  | some d =>
    have hd := mem_candidates.mp (hbest d rfl).1
    simp only [outranks, breaksTie, isPreferred_eq, hrank c hc, hrank d hd, hpref c hc,
      h.nodeId c.slot hc.1, h.nodeId d.slot hd.1, hprev, hkeep]

end Contest

theorem key_le_of_scan {s : Server} {tv : TriggerView} (hown : s.OwnListed tv)
    (hno : ∀ c, s.Eligible tv c → ¬c.Majority) {c d : Candidate} (hc : s.ffsplitScan tv = some c)
    (hd : s.Eligible tv d) (hdhalf : d.AtLeastHalf) : s.key tv d ≤ s.key tv c := by
  have hcont := s.contest tv s.rank (s.keepActiveTb (s.tvCluster tv))
  have hopen : s.outranks tv s.rank (s.keepActiveTb (s.tvCluster tv)) d none = true := by
    rw [← beats_eq_outranks, beats]
    exact better_none _ _ hdhalf (clients_pos hd.inCluster (hown d hd))
  have hscored := fun y hy (_ : d.slot < y.slot) => hno y (mem_candidates.mp hy)
  have hle := hcont.le_of_tops (hcont.tops_of_scan ((s.ffsplitScan_eq_outranks tv).symm.trans hc))
    (mem_candidates.mpr hd)
    ⟨hdhalf, hscored, d, mem_candidates.mpr hd, le_rfl, hopen⟩
  rw [key, key, decide_eq_false (hno d hd),
    decide_eq_false (hno c (ffsplitScan_atLeastHalf hc).1), Prod.Lex.toLex_le_toLex]
  exact Or.inr ⟨rfl, hle⟩

/-! ## The tie-breaker -/

theorem least_id {κ : Type} [LinearOrder κ] (key : UInt32 → κ) {cfg : NodeList}
    (hne : cfg.empty = false) :
    cfg.nodes.foldl (fun p n => if key n.nodeId < key p then n.nodeId else p)
    (cfg.nodes.head?.getD {}).nodeId ∈ cfg.ids ∧
      ∀ id ∈ cfg.ids,
        key (cfg.nodes.foldl (fun p n => if key n.nodeId < key p then n.nodeId else p)
          (cfg.nodes.head?.getD {}).nodeId) ≤ key id := by
  obtain ⟨n, l, hl⟩ : ∃ n l, cfg.nodes = n :: l := by
    cases h : cfg.nodes with
    | nil => simp [NodeList.empty, h] at hne
    | cons n l => exact ⟨n, l, rfl⟩
  have hids : ∀ id, id ∈ cfg.ids ↔ id ∈ n.nodeId :: (cfg.nodes.map NodeInfo.nodeId) := by
    intro id
    simp [NodeList.ids, hl]
  have hleast := Scan.foldl_least key (cfg.nodes.map NodeInfo.nodeId) n.nodeId
  rw [List.foldl_map] at hleast
  simp only [hids]
  rw [hl] at hleast ⊢
  exact hleast

/-- The tie-breakers of the clients agree, and name a configured node. -/
structure TieBreakers (s : Server) (tv : TriggerView) : Prop where
  same : ∀ i j, s.inWalk tv i = true → s.inWalk tv j = true →
    (s.sessions i).tieBreaker.same (s.sessions j).tieBreaker = true
  configured : ∀ i, s.inWalk tv i = true → (s.sessions i).tieBreaker.mode = .nodeId →
    (s.sessions i).tieBreaker.nodeId ∈ (s.effConfig tv i).ids

section TieBreakers

variable {s : Server} {tv : TriggerView}

theorem preferredId_lowest {i : Slot} {cfg : NodeList}
    (hmode : (s.sessions i).tieBreaker.mode = .lowest) (hne : cfg.empty = false) :
    s.preferredId i cfg ∈ cfg.ids ∧ ∀ id ∈ cfg.ids, (s.preferredId i cfg).toNat ≤ id.toNat := by
  have h := least_id UInt32.toNat hne
  simp only [← UInt32.lt_iff_toNat_lt] at h
  unfold preferredId
  rw [hmode]
  exact h

theorem preferredId_highest {i : Slot} {cfg : NodeList}
    (hmode : (s.sessions i).tieBreaker.mode = .highest) (hne : cfg.empty = false) :
    s.preferredId i cfg ∈ cfg.ids ∧ ∀ id ∈ cfg.ids, id.toNat ≤ (s.preferredId i cfg).toNat := by
  have h := least_id (fun id => OrderDual.toDual id.toNat) hne
  simp only [OrderDual.toDual_lt_toDual, OrderDual.toDual_le_toDual, ← UInt32.lt_iff_toNat_lt] at h
  unfold preferredId
  rw [hmode]
  exact h

theorem TieBreakers.preferredId_mem (h : s.TieBreakers tv) {i : Slot} (hi : s.inWalk tv i = true)
    (hne : (s.effConfig tv i).empty = false) :
    s.preferredId i (s.effConfig tv i) ∈ (s.effConfig tv i).ids := by
  cases hmode : (s.sessions i).tieBreaker.mode with
  | lowest => exact (preferredId_lowest hmode hne).1
  | highest => exact (preferredId_highest hmode hne).1
  | nodeId =>
    unfold preferredId
    rw [hmode]
    exact h.configured i hi hmode

theorem TieBreakers.preferredId_eq (h : s.TieBreakers tv) {i j : Slot} (hi : s.inWalk tv i = true)
    (hj : s.inWalk tv j = true) (hni : (s.effConfig tv i).empty = false)
    (hnj : (s.effConfig tv j).empty = false)
    (hcfg : (s.effConfig tv i).ids = (s.effConfig tv j).ids) :
    s.preferredId i (s.effConfig tv i) = s.preferredId j (s.effConfig tv j) := by
  obtain ⟨hmode, hid⟩ := (TieBreaker.same_iff _ _).mp (h.same i j hi hj)
  cases hm : (s.sessions i).tieBreaker.mode with
  | lowest =>
    obtain ⟨himem, hile⟩ := preferredId_lowest hm hni
    obtain ⟨hjmem, hjle⟩ := preferredId_lowest (hmode ▸ hm) hnj
    exact UInt32.toNat_inj.mp (le_antisymm (hile _ (hcfg ▸ hjmem)) (hjle _ (hcfg ▸ himem)))
  | highest =>
    obtain ⟨himem, hile⟩ := preferredId_highest hm hni
    obtain ⟨hjmem, hjle⟩ := preferredId_highest (hmode ▸ hm) hnj
    exact UInt32.toNat_inj.mp (le_antisymm (hjle _ (hcfg ▸ himem)) (hile _ (hcfg ▸ hjmem)))
  | nodeId =>
    unfold preferredId
    rw [← hmode, hm]
    exact hid hm

end TieBreakers

/-! ## The top of the order -/

/-- The session holds half, and no session that does comes before it. -/
def Top (s : Server) (tv : TriggerView) (i : Slot) : Prop :=
  s.Holds tv i ∧ ∀ j, s.Holds tv j → s.key tv (s.candidate tv j) ≤ s.key tv (s.candidate tv i)

section Top

variable {s : Server} {tv : TriggerView}

theorem exists_top {i : Slot} (hi : s.Holds tv i) : ∃ j, s.Top tv j := by
  classical
  obtain ⟨j, hj, hmax⟩ := Finset.exists_max_image (Finset.univ.filter (s.Holds tv))
    (fun j => s.key tv (s.candidate tv j)) ⟨i, by simpa using hi⟩
  simp only [Finset.mem_filter, Finset.mem_univ, true_and] at hj hmax
  exact ⟨j, hj, hmax⟩

theorem no_majority (h : ¬∃ j, s.Holds tv j ∧ (s.candidate tv j).Majority) :
    ∀ c, s.Eligible tv c → ¬c.Majority := by
  intro c hc hm
  refine h ⟨c.slot, hc.holds (Candidate.atLeastHalf_iff.mpr (Or.inl hm)), ?_⟩
  rw [← hc.2.1]
  exact hm

/-- Two halves with the same key are the same partition: the tie-breaker node is in one of two
different ones. -/
theorem Holds.same_of_key (hst : s.ffsplitIsStable tv = true) (h : s.WellFormed tv)
    (htb : s.TieBreakers tv) {i j : Slot}
    (hi : s.Holds tv i) (hj : s.Holds tv j) (hi' : (s.candidate tv i).Half)
    (hj' : (s.candidate tv j).Half)
    (hkey : s.key tv (s.candidate tv i) = s.key tv (s.candidate tv j)) :
    (s.effMembership tv i).ids = (s.effMembership tv j).ids := by
  by_contra hne
  have hcfg := same_config hst h hi.1 hj.1
  have hpref : s.preferredId i (s.effConfig tv i) ∈ (s.effMembership tv i).ids ↔
      s.preferredId j (s.effConfig tv j) ∈ (s.effMembership tv j).ids := by
    simp only [key, toLex_inj, Prod.mk.injEq] at hkey
    exact decide_eq_decide.mp hkey.2.2.2
  rw [← htb.preferredId_eq hi.1 hj.1 hi.2.1 hj.2.1 hcfg,
    hi.mem_iff_of_ne hst h hj hi' hj' hne (htb.preferredId_mem hi.1 hi.2.1)] at hpref
  exact (iff_not_self hpref.symm).elim

/-- The winner is the partition of every session at the top. -/
theorem winner_of_top (hst : s.ffsplitIsStable tv = true) (h : s.WellFormed tv)
    (htb : s.TieBreakers tv) {c : Candidate}
    (hc : s.ffsplitScan tv = some c) {i : Slot} (htop : s.Top tv i) :
    c.membership.ids = (s.effMembership tv i).ids := by
  obtain ⟨he, hhalf⟩ := ffsplitScan_atLeastHalf hc
  have hwin := he.holds hhalf
  rw [he.membership]
  by_cases hmaj : ∃ j, s.Holds tv j ∧ (s.candidate tv j).Majority
  · obtain ⟨j, hj, hjmaj⟩ := hmaj
    rw [← hj.same_of_majority hst h hjmaj hwin, hj.same_of_majority hst h hjmaj htop.1]
  · -- all candidates are halves, and the scan finds a maximum of their keys
    have hno := no_majority hmaj
    have hisHalf : ∀ {j}, s.Holds tv j → (s.candidate tv j).Half := fun hj =>
      (Candidate.atLeastHalf_iff.mp hj.atLeastHalf).resolve_left (hno _ hj.eligible)
    have hle := key_le_of_scan h.ownListed hno hc htop.1.eligible htop.1.atLeastHalf
    rw [he.2.1] at hle
    exact hwin.same_of_key hst h htb htop.1 (hisHalf hwin) (hisHalf htop.1)
      (le_antisymm (htop.2 _ hwin) hle)

end Top

/-! ## Moving the sessions to other slots -/

/-- The session of slot `σ i` is moved to slot `i`. -/
def permute (s : Server) (σ : Equiv.Perm Slot) : Server := { s with sessions := s.sessions ∘ σ }

end Server

def TriggerView.permute (tv : TriggerView) (σ : Equiv.Perm Slot) : TriggerView :=
  { tv with slot := σ.symm tv.slot }

namespace Server

section Permute

variable (s : Server) (tv : TriggerView) (σ : Equiv.Perm Slot)

theorem permute_trigger : (s.permute σ).sessions (tv.permute σ).slot = s.sessions tv.slot :=
  congrArg s.sessions (σ.apply_symm_apply tv.slot)

theorem permute_tvCluster : (s.permute σ).tvCluster (tv.permute σ) = s.tvCluster tv := by
  rw [tvCluster, permute_trigger, tvCluster]

theorem permute_inWalk (i : Slot) : (s.permute σ).inWalk (tv.permute σ) i = s.inWalk tv (σ i) := by
  rw [inWalk, permute_tvCluster, skipInClusterWalk, permute_trigger]
  rfl

theorem permute_slot (i : Slot) : i = (tv.permute σ).slot ↔ σ i = tv.slot := σ.eq_symm_apply

theorem permute_candidate (i : Slot) :
    (s.permute σ).candidate (tv.permute σ) i = { s.candidate tv (σ i) with slot := i } := by
  simp only [candidate, effConfig, effMembership, effHeuristics, permute_slot]
  rfl

theorem permute_config (i : Slot) :
    (s.permute σ).effConfig (tv.permute σ) i = s.effConfig tv (σ i) :=
  congrArg Candidate.config (permute_candidate s tv σ i)

theorem permute_membership (i : Slot) :
    (s.permute σ).effMembership (tv.permute σ) i = s.effMembership tv (σ i) :=
  congrArg Candidate.membership (permute_candidate s tv σ i)

theorem permute_ring (i : Slot) : (s.permute σ).effRing (tv.permute σ) i = s.effRing tv (σ i) := by
  simp only [effRing, permute_slot]
  rfl

theorem permute_viewOf (i : Slot) : (s.permute σ).viewOf (tv.permute σ) i = s.viewOf tv (σ i) := by
  simp only [viewOf, permute_config, permute_membership, permute_ring]
  rfl

theorem permute_holds (i : Slot) : (s.permute σ).Holds (tv.permute σ) i ↔ s.Holds tv (σ i) := by
  rw [Holds, permute_inWalk, permute_config, permute_membership, Holds]

theorem permute_keepActiveTb (c : Int) : (s.permute σ).keepActiveTb c = s.keepActiveTb c := by
  unfold keepActiveTb
  congr 1
  rw [Bool.eq_iff_iff]
  simp only [List.any_eq_true, List.mem_finRange, true_and]
  exact (σ.surjective.exists
    (p := fun i => (s.inCluster c i && !(s.sessions i).keepActivePartitionTb) = true)).symm

variable {s tv}

/-- With distinct node ids, the client of a node does not depend on the order of the slots. -/
theorem clientOf_eq_some {c : Int} (hd : ∀ i j, s.inCluster c i = true → s.inCluster c j = true →
    (s.sessions i).nodeId = (s.sessions j).nodeId → i = j) {id : UInt32} {i : Slot} :
    s.clientOf c id = some i ↔ s.inCluster c i = true ∧ (s.sessions i).nodeId = id := by
  constructor
  · intro h
    have hi := List.find?_some h
    rw [Bool.and_eq_true, decide_eq_true_eq] at hi
    exact hi
  · rintro ⟨hin, rfl⟩
    obtain ⟨j, hj⟩ := Option.isSome_iff_exists.mp (clientOf_self hin)
    have hj' := List.find?_some hj
    rw [Bool.and_eq_true, decide_eq_true_eq] at hj'
    rw [hj, hd j i hj'.1 hin hj'.2]

theorem permute_clientOf (h : s.WellFormed tv) (id : UInt32) :
    (s.permute σ).clientOf (s.tvCluster tv) id = (s.clientOf (s.tvCluster tv) id).map σ.symm := by
  have hd : ∀ i j, (s.permute σ).inCluster (s.tvCluster tv) i = true →
      (s.permute σ).inCluster (s.tvCluster tv) j = true →
      ((s.permute σ).sessions i).nodeId = ((s.permute σ).sessions j).nodeId → i = j :=
    fun i j hi hj hid => σ.injective (h.distinct (σ i) (σ j) hi hj hid)
  ext i
  rw [clientOf_eq_some hd, Option.map_eq_some_iff]
  constructor
  · rintro ⟨hin, hid⟩
    exact ⟨σ i, (clientOf_eq_some h.distinct).mpr ⟨hin, hid⟩, σ.symm_apply_apply i⟩
  · rintro ⟨j, hj, rfl⟩
    obtain ⟨hin, hid⟩ := (clientOf_eq_some h.distinct).mp hj
    rw [← σ.apply_symm_apply j] at hin hid
    exact ⟨hin, hid⟩

theorem permute_heard (h : s.WellFormed tv) {i : Slot} (hi : s.inWalk tv (σ i) = true) :
    (s.permute σ).heard ((s.permute σ).candidate (tv.permute σ) i) =
      s.heard (s.candidate tv (σ i)) := by
  have hcl : (s.sessions (σ i)).cluster = s.tvCluster tv :=
    (inCluster_iff.mp (inCluster_of_inWalk hi)).2
  rw [permute_candidate]
  unfold heard
  refine List.filterMap_congr fun n _ => ?_
  have hclient := permute_clientOf σ h n.nodeId
  change ((s.permute σ).clientOf (s.sessions (σ i)).cluster n.nodeId).map _ =
    (s.clientOf (s.sessions (σ i)).cluster n.nodeId).map _
  rw [hcl, hclient, Option.map_map]
  refine congrArg (fun f => Option.map f _) (funext fun j => ?_)
  change (if σ.symm j = i then (s.candidate tv (σ i)).heuristics
    else (s.sessions (σ (σ.symm j))).lastHeuristics) = _
  simp only [σ.apply_symm_apply, Equiv.symm_apply_eq]
  rfl

theorem permute_key (h : s.WellFormed tv) {i : Slot} (hi : s.inWalk tv (σ i) = true) :
    (s.permute σ).key (tv.permute σ) ((s.permute σ).candidate (tv.permute σ) i) =
      s.key tv (s.candidate tv (σ i)) := by
  have hrank : (s.permute σ).rank ((s.permute σ).candidate (tv.permute σ) i) =
      s.rank (s.candidate tv (σ i)) := by
    rw [rank, score, clients, permute_heard σ h hi, rank, score, clients]
  unfold key
  rw [hrank, inPrev, permute_tvCluster, permute_keepActiveTb, permute_candidate]
  rfl

theorem permute_top (h : s.WellFormed tv) (i : Slot) :
    (s.permute σ).Top (tv.permute σ) i ↔ s.Top tv (σ i) := by
  unfold Top
  rw [permute_holds]
  refine and_congr_right fun hi => ?_
  rw [permute_key σ h hi.1]
  constructor
  · intro hmax j hj
    have hj' : s.Holds tv (σ (σ.symm j)) := by rwa [σ.apply_symm_apply]
    have hle := hmax (σ.symm j) ((permute_holds s tv σ _).mpr hj')
    rw [permute_key σ h hj'.1, σ.apply_symm_apply] at hle
    exact hle
  · intro hmax j hj
    have hj' := (permute_holds s tv σ j).mp hj
    rw [permute_key σ h hj'.1]
    exact hmax _ hj'

theorem permute_wellFormed (h : s.WellFormed tv) : (s.permute σ).WellFormed (tv.permute σ) := by
  constructor
  · intro i j hi hj hid
    rw [permute_tvCluster] at hi hj
    exact σ.injective (h.distinct (σ i) (σ j) hi hj hid)
  all_goals
    simp only [permute_inWalk, permute_config, permute_membership]
  · exact fun i => h.own (σ i)
  · exact fun i => h.nodupConfig (σ i)
  · exact fun i => h.nodupMembership (σ i)
  · exact fun i => h.contained (σ i)
  · exact fun i j => h.partition (σ i) (σ j)

theorem permute_tieBreakers (h : s.TieBreakers tv) : (s.permute σ).TieBreakers (tv.permute σ) := by
  constructor
  all_goals
    simp only [permute_inWalk, permute_config]
  · exact fun i j => h.same (σ i) (σ j)
  · exact fun i => h.configured (σ i)

theorem permute_isStable (h : s.WellFormed tv) (hst : s.ffsplitIsStable tv = true) :
    (s.permute σ).ffsplitIsStable (tv.permute σ) = true := by
  have hviews := (ffsplitIsStable_iff s tv h.distinctIds).mp hst
  rw [ffsplitIsStable_iff _ _ (permute_wellFormed σ h).distinctIds]
  constructor
  all_goals
    simp only [permute_inWalk, permute_viewOf]
  · exact fun i j => hviews.config (σ i) (σ j)
  · exact fun i j => hviews.members (σ i) (σ j)

end Permute

theorem select_top {s : Server} {tv : TriggerView} (hst : s.ffsplitIsStable tv = true)
    (h : s.WellFormed tv) (htb : s.TieBreakers tv) :
    (s.ffsplitSelectPartition tv = none ↔ ∀ i, ¬s.Holds tv i) ∧
      ∀ l, s.ffsplitSelectPartition tv = some l →
        (∃ i, s.Top tv i) ∧ ∀ i, s.Top tv i → l.ids = (s.effMembership tv i).ids := by
  obtain ⟨hnone, -⟩ := ffsplitSelectPartition_spec h.ownListed
  refine ⟨hnone.trans ⟨fun hno i hi => hno i hi.1 hi.2, fun hno i hi hhalf => hno i ⟨hi, hhalf⟩⟩,
    fun l hl => ?_⟩
  obtain ⟨c, hc, rfl⟩ := Option.map_eq_some_iff.mp hl
  obtain ⟨he, hhalf⟩ := ffsplitScan_atLeastHalf hc
  exact ⟨exists_top (he.holds hhalf), fun i hi => winner_of_top hst h htb hc hi⟩

end Server

/-- The winner does not depend on the order of the slots. On stable and well-formed views with
agreeing tie-breakers, for every assignment of the sessions to the slots the selection returns a
list with the same set of node ids, or nobody: nobody exactly when no session holds half, and
otherwise the partition of the sessions at the top of the order. -/
theorem winner_independent_of_slots (s : Server) (tv : TriggerView)
    (hst : s.ffsplitIsStable tv = true)
    (h : s.WellFormed tv) (htb : s.TieBreakers tv) (σ : Equiv.Perm Slot) :
    ((s.permute σ).ffsplitSelectPartition (tv.permute σ)).map NodeList.ids =
      (s.ffsplitSelectPartition tv).map NodeList.ids ∧
    (s.ffsplitSelectPartition tv = none ↔ ∀ i, ¬s.Holds tv i) ∧
    ∀ l, s.ffsplitSelectPartition tv = some l →
      (∃ i, s.Top tv i) ∧ ∀ i, s.Top tv i → l.ids = (s.effMembership tv i).ids := by
  obtain ⟨hnone, htop⟩ := Server.select_top hst h htb
  obtain ⟨hnone', htop'⟩ :=
    Server.select_top (Server.permute_isStable σ h hst) (Server.permute_wellFormed σ h)
    (Server.permute_tieBreakers σ htb)
  refine ⟨?_, hnone, htop⟩
  have hiff : (s.permute σ).ffsplitSelectPartition (tv.permute σ) = none ↔
      s.ffsplitSelectPartition tv = none := by
    rw [hnone, hnone']
    simp only [Server.permute_holds]
    exact (σ.surjective.forall (p := fun i => ¬s.Holds tv i)).symm
  cases hl : s.ffsplitSelectPartition tv with
  | none => rw [hiff.mpr hl]
  | some l =>
    cases hl' : (s.permute σ).ffsplitSelectPartition (tv.permute σ) with
    | none => rw [hiff.mp hl'] at hl; cases hl
    | some l' =>
      obtain ⟨⟨i, hi⟩, hids⟩ := htop l hl
      have hi' : s.Top tv (σ (σ.symm i)) := by rwa [σ.apply_symm_apply]
      have hids' := (htop' l' hl').2 _ ((Server.permute_top σ h _).mpr hi')
      rw [Server.permute_membership, σ.apply_symm_apply] at hids'
      rw [Option.map_some, Option.map_some, hids', hids i hi]

/-- A member of a cluster of two nodes that sees only itself. -/
def halfSession (id : UInt32) : Session where
  phase := .active
  cluster := 0
  nodeId := id
  configList := ⟨[{ nodeId := 1 }, { nodeId := 2 }]⟩
  membershipList := ⟨[{ nodeId := id }]⟩

/-- Both nodes are connected and each sees only itself. -/
def halvesTable : Server :=
  { Server.init 32768 with sessions := fun i =>
    if i = 0 then halfSession 1 else if i = 1 then halfSession 2 else {} }

theorem halvesTable_wellFormed : halvesTable.WellFormed (halvesTable.storedView 0 false) := by
  constructor <;> decide +kernel

theorem winner_independent_of_slots_halves :
    ((halvesTable.permute (Equiv.swap 0 1)).ffsplitSelectPartition
        ((halvesTable.storedView 0 false).permute (Equiv.swap 0 1))).map NodeList.ids =
      (halvesTable.ffsplitSelectPartition (halvesTable.storedView 0 false)).map NodeList.ids := by
  have htb : halvesTable.TieBreakers (halvesTable.storedView 0 false) := by
    constructor <;> decide +kernel
  exact (winner_independent_of_slots halvesTable _ (by decide +kernel) halvesTable_wellFormed htb
    (Equiv.swap 0 1)).1

/-! ## Deciding again -/

namespace Server

section Again

variable {s t : Server} {tv : TriggerView}

theorem rank_le_of_key_le {x y : Candidate} (hx : ¬x.Majority) (hy : ¬y.Majority)
    (h : s.key tv x ≤ s.key tv y) :
    s.rank x ≤ s.rank y ∧ (s.rank x = s.rank y → s.inPrev tv x ≤ s.inPrev tv y) := by
  rw [key, key, decide_eq_false hx, decide_eq_false hy, Prod.Lex.toLex_le_toLex,
    Prod.Lex.toLex_le_toLex, Prod.Lex.toLex_le_toLex] at h
  rcases h with h | ⟨-, h | ⟨heq, h⟩⟩
  · exact absurd h (lt_irrefl _)
  · exact ⟨le_of_lt h, fun heq => absurd heq (ne_of_lt h)⟩
  · refine ⟨le_of_eq heq, fun _ => ?_⟩
    rcases h with h | ⟨h, -⟩
    · exact le_of_lt h
    · exact le_of_eq h

/-- Halves only: with the first winner as the previous partition, the second scan cannot leave it.
-/
theorem scan_again_of_halves (hsame : SameButVotes s t) (h : s.WellFormed tv)
    (hno : ∀ c, s.Eligible tv c → ¬c.Majority)
    {c c' : Candidate} (hs : s.ffsplitScan tv = some c) (ht : t.ffsplitScan tv = some c')
    (hprev : (t.clusters (s.tvCluster tv)).quoratePartition = c.membership) :
    c'.membership.ids = c.membership.ids := by
  have hviews := hsame.sameViews tv
  have hcl := tvCluster_congr hsame tv
  have hkeep := hsame.keepActiveTb (s.tvCluster tv)
  have hrank : ∀ x, t.rank x = s.rank x := fun x => rank_congr (hsame.heard x)
  obtain ⟨he, hhalf⟩ := ffsplitScan_atLeastHalf hs
  obtain ⟨he', hhalf'⟩ := ffsplitScan_atLeastHalf ht
  cases hk : s.keepActiveTb (s.tvCluster tv) with
  | false =>
    -- the previous partition is not read, and the two scans are the same
    have hscan : t.ffsplitScan tv = s.ffsplitScan tv := by
      refine hviews.scan (fun x hx hhalf => ?_) (fun x y hx hhalf _ _ => ?_)
      · exact better_none_congr hhalf (hsame.heard x) (hviews.preferred hx)
      · unfold beats
        rw [hcl, hkeep, hk]
        refine better_some_congr hhalf ?_ ?_ (hviews.preferred hx)
        · rw [hrank, hrank]
        · rw [hrank, hrank]
    rw [hscan, hs] at ht
    rw [Option.some.inj ht]
  | true =>
    have hno' : ∀ x, t.Eligible tv x → ¬x.Majority := fun x hx => hno x (hviews.eligible.mp hx)
    have hown' : t.OwnListed tv := by
      intro x hx
      rw [hsame.nodeId]
      exact h.ownListed x (hviews.eligible.mp hx)
    have hle := key_le_of_scan h.ownListed hno hs (hviews.eligible.mp he') hhalf'
    have hle' := key_le_of_scan hown' hno' ht (hviews.eligible.mpr he) hhalf
    have hr := (rank_le_of_key_le (hno c' (hviews.eligible.mp he')) (hno c he) hle).1
    obtain ⟨hr', hin⟩ := rank_le_of_key_le (hno' c (hviews.eligible.mpr he)) (hno' c' he') hle'
    rw [hrank, hrank] at hr' hin
    have hin' := hin (le_antisymm hr' hr)
    -- the first winner's client is in the previous partition, so the second one's is too
    have hfind : (c.membership.find (s.sessions c.slot).nodeId).isSome = true :=
      NodeList.find_isSome.mpr (h.ownListed c he)
    rw [inPrev, inPrev, hcl, hkeep, hk, hprev, hsame.nodeId, hsame.nodeId, hfind, Bool.true_and,
      Bool.true_and] at hin'
    have hmem : (s.sessions c'.slot).nodeId ∈ c.membership.ids := by
      rw [← NodeList.find_isSome]
      exact top_le_iff.mp hin'
    have hmem' := h.ownListed c' (hviews.eligible.mp he')
    have hpart := h.partition c'.slot c.slot (hviews.eligible.mp he').1 he.1
    rw [← (hviews.eligible.mp he').membership, ← he.membership] at hpart
    exact hpart.resolve_right fun hdisj => Finset.disjoint_left.mp hdisj hmem' hmem

/-- The same winner again. -/
theorem winner_again (hsame : SameButVotes s t) (hst : s.ffsplitIsStable tv = true)
    (h : s.WellFormed tv)
    (hprev : (t.clusters (s.tvCluster tv)).quoratePartition =
    (s.ffsplitSelectPartition tv).getD {}) :
    (t.ffsplitSelectPartition tv).map NodeList.ids =
      (s.ffsplitSelectPartition tv).map NodeList.ids := by
  have hviews := hsame.sameViews tv
  have hown' : t.OwnListed tv := by
    intro x hx
    rw [hsame.nodeId]
    exact h.ownListed x (hviews.eligible.mp hx)
  have hnone : t.ffsplitScan tv = none ↔ s.ffsplitScan tv = none := by
    rw [ffsplitScan_eq_none_iff hown', ffsplitScan_eq_none_iff h.ownListed]
    simp only [hviews.eligible]
  rw [ffsplitSelectPartition, ffsplitSelectPartition]
  cases hs : s.ffsplitScan tv with
  | none => rw [hnone.mpr hs]
  | some c =>
    cases ht : t.ffsplitScan tv with
    | none => rw [hnone.mp ht] at hs; cases hs
    | some c' =>
      rw [ffsplitSelectPartition, hs] at hprev
      obtain ⟨he, hhalf⟩ := ffsplitScan_atLeastHalf hs
      obtain ⟨he', hhalf'⟩ := ffsplitScan_atLeastHalf ht
      refine congrArg some ?_
      by_cases hmaj : ∃ j, s.Holds tv j ∧ (s.candidate tv j).Majority
      · obtain ⟨j, hj, hjmaj⟩ := hmaj
        have hc := hj.same_of_majority hst h hjmaj (he.holds hhalf)
        have hc' := hj.same_of_majority hst h hjmaj ((hviews.eligible.mp he').holds hhalf')
        rw [← he.membership] at hc
        rw [← (hviews.eligible.mp he').membership] at hc'
        exact hc'.symm.trans hc
      · exact scan_again_of_halves hsame h (no_majority hmaj) hs ht hprev

theorem putState_again (hsame : SameButVotes s t) {w w' : Option NodeList}
    (hw : w'.map NodeList.ids = w.map NodeList.ids)
    (i : Slot) : t.putState tv w' i = s.putState tv w i := by
  unfold putState
  rw [skipInClusterWalk_congr hsame, hsame.nodeId]
  cases w with
  | none =>
    rw [Option.map_eq_none_iff.mp hw]
  | some l =>
    obtain ⟨l', rfl, hids⟩ := Option.map_eq_some_iff.mp hw
    have hnone : (l'.find (s.sessions i).nodeId).isNone =
        (l.find (s.sessions i).nodeId).isNone := by
      rw [Bool.eq_iff_iff, Option.isNone_iff_eq_none, Option.isNone_iff_eq_none,
        NodeList.find_eq_none, NodeList.find_eq_none, hids]
    simp only [hnone]

end Again

end Server

/-- No flapping. On stable and well-formed views, when a decision has stored its winner and nothing
but votes has changed since, deciding again with the same trigger view selects a list with the same
set of node ids, and puts every session of the cluster in the same state. -/
theorem no_flapping (s : Server) (tv : TriggerView) (hst : s.ffsplitIsStable tv = true)
    (h : s.WellFormed tv) (t : Server) (hsame : Server.SameButVotes (s.ffsplitDo tv).2.2 t)
    (hprev : (t.clusters (s.tvCluster tv)).quoratePartition =
      ((s.ffsplitDo tv).2.2.clusters (s.tvCluster tv)).quoratePartition) :
    (t.clusters (s.tvCluster tv)).quoratePartition = (s.ffsplitSelectPartition tv).getD {} ∧
    t.ffsplitIsStable tv = true ∧
    (t.ffsplitSelectPartition tv).map NodeList.ids =
      (s.ffsplitSelectPartition tv).map NodeList.ids ∧
    ∀ i, s.inCluster (s.tvCluster tv) i = true →
      ((t.ffsplitDo tv).2.2.sessions i).ffState = ((s.ffsplitDo tv).2.2.sessions i).ffState := by
  have hvotes := (Server.ffsplitDo_sameButVotes s tv).trans hsame
  obtain ⟨hq, hstates⟩ := Server.ffsplitDo_of_stable hst
  rw [hq] at hprev
  have hst' : t.ffsplitIsStable tv = true := by
    rw [(hvotes.sameViews tv).isStable]
    exact hst
  have hwin := Server.winner_again hvotes hst h hprev
  refine ⟨hprev, hst', hwin, fun i hi => ?_⟩
  rw [hstates, (Server.ffsplitDo_of_stable hst').2, Server.tvCluster_congr hvotes,
    Server.inCluster_congr hvotes, if_pos hi, if_pos hi]
  exact Server.putState_again hvotes hwin i

/-- Deciding twice in a row between two halves. -/
theorem no_flapping_halves :
    ((halvesTable.ffsplitDo (halvesTable.storedView 0 false)).2.2.ffsplitSelectPartition
        (halvesTable.storedView 0 false)).map NodeList.ids =
      (halvesTable.ffsplitSelectPartition (halvesTable.storedView 0 false)).map NodeList.ids :=
  (no_flapping halvesTable _ (by decide +kernel) halvesTable_wellFormed _
    (Server.SameButVotes.refl _) rfl).2.2.1

end Qnetd
