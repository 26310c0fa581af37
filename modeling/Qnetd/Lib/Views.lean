import Mathlib.Data.Finset.Card
import Mathlib.Tactic.Common

/-!
# Views of a partitioned group

Each participant of a group reports who it sees: its own id, the configured group, the members of
its partition and a label of that partition. The reports of a set of connected participants are
compared by inclusions only.

* `Stable` : the configurations include each other, and whoever sees a connected participant has a
  member list included in that participant's, under the same label;
* `Proper` : a participant that reports members is one of them;
* `Stable.same_partition` : one-sided inclusions are enough. If `i` sees the connected `j`, their
  members and labels are the same; `Stable.sees_iff` : seeing is having the same members;
* `eq_of_majority`, `mem_half_iff` : of the parts of a group that are equal or disjoint, only one
  can have a majority, and two different halves share out the group.
-/

namespace Views

structure View (α ρ : Type) where
  id : α
  config : Finset α
  members : Finset α
  label : ρ

variable {ι α ρ : Type} {view : ι → View α ρ} {C : ι → Prop}

/-- The reports of the connected participants `C` fit together. -/
structure Stable (view : ι → View α ρ) (C : ι → Prop) : Prop where
  config : ∀ i j, C i → C j → (view i).config ⊆ (view j).config
  members : ∀ i j, C i → C j → (view j).id ∈ (view i).members →
    (view i).label = (view j).label ∧ (view i).members ⊆ (view j).members

def Proper (view : ι → View α ρ) (C : ι → Prop) : Prop :=
  ∀ i, C i → (view i).members.Nonempty → (view i).id ∈ (view i).members

theorem Stable.same_config (h : Stable view C) {i j : ι} (hi : C i) (hj : C j) :
    (view i).config = (view j).config :=
  Finset.Subset.antisymm (h.config i j hi hj) (h.config j i hj hi)

theorem Stable.same_partition (h : Stable view C) (hp : Proper view C) {i j : ι} (hi : C i)
    (hj : C j) (hsees : (view j).id ∈ (view i).members) :
    (view i).members = (view j).members ∧ (view i).label = (view j).label := by
  obtain ⟨hlabel, hsub⟩ := h.members i j hi hj hsees
  -- `i` is in its own list, hence in the list of `j`, which gives the other inclusion
  have hi' : (view i).id ∈ (view j).members := hsub (hp i hi ⟨_, hsees⟩)
  exact ⟨Finset.Subset.antisymm hsub (h.members j i hj hi hi').2, hlabel⟩

theorem Stable.sees_iff (h : Stable view C) (hp : Proper view C) {i j : ι} (hi : C i) (hj : C j)
    (hne : (view i).members.Nonempty) :
    (view j).id ∈ (view i).members ↔ (view j).members = (view i).members := by
  constructor
  · intro hsees
    exact (h.same_partition hp hi hj hsees).1.symm
  · intro heq
    rw [← heq] at hne ⊢
    exact hp j hj hne

/-! ## Shares of a group -/

variable [DecidableEq α] {A B C : Finset α}

theorem eq_of_majority (hA : A ⊆ C) (hB : B ⊆ C) (hpart : A = B ∨ Disjoint A B)
    (ha : C.card < 2 * A.card) (hb : C.card ≤ 2 * B.card) : A = B := by
  rcases hpart with heq | hdisj
  · exact heq
  · have hunion : (A ∪ B).card ≤ C.card := Finset.card_le_card (Finset.union_subset hA hB)
    rw [Finset.card_union_of_disjoint hdisj] at hunion
    omega

theorem mem_half_iff (hA : A ⊆ C) (hB : B ⊆ C) (hdisj : Disjoint A B) (ha : 2 * A.card = C.card)
    (hb : 2 * B.card = C.card) {x : α} (hx : x ∈ C) : x ∈ A ↔ x ∉ B := by
  constructor
  · intro hxA hxB
    exact Finset.disjoint_left.mp hdisj hxA hxB
  · intro hxB
    have hcard : C.card ≤ (A ∪ B).card := by
      rw [Finset.card_union_of_disjoint hdisj]
      omega
    have hcover : A ∪ B = C := Finset.eq_of_subset_of_card_le (Finset.union_subset hA hB) hcard
    rw [← hcover] at hx
    exact (Finset.mem_union.mp hx).resolve_right hxB

end Views
