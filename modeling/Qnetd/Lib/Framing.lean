import Mathlib.Data.List.Basic

/-!
# Framed streams

A receiver takes complete frames off the front of its buffer and waits when there is none.

* `Format` : how long the first frame of a buffer is, if it is complete. A complete frame stays so
  when more arrives;
* `Format.split` : the complete frames of a buffer and what is left of it;
* `Format.split_append` : frames do not depend on where the stream was cut: to split the first part,
  and then what is left of it with the second, is to split the whole;
* `Format.split_part` : of a stream of whole frames a reader has the first ones.
-/

namespace Framing

structure Format (α : Type) where
  cut : List α → Option Nat
  pos : ∀ {b k}, cut b = some k → 0 < k
  le : ∀ {b k}, cut b = some k → k ≤ b.length
  stable : ∀ {b k}, cut b = some k → ∀ c, cut (b ++ c) = some k

namespace Format

variable {α : Type} (F : Format α)

def split (b : List α) : List (List α) × List α :=
  match _h : F.cut b with
  | none => ([], b)
  | some k => (b.take k :: (split (b.drop k)).1, (split (b.drop k)).2)
termination_by b.length
decreasing_by
  all_goals
    have := F.pos _h
    have := F.le _h
    rw [List.length_drop]
    omega

variable {F}

theorem split_of_none {b : List α} (h : F.cut b = none) : F.split b = ([], b) := by
  rw [split]
  split <;> simp_all

theorem split_of_some {b : List α} {k : Nat} (h : F.cut b = some k) :
    F.split b = (b.take k :: (F.split (b.drop k)).1, (F.split (b.drop k)).2) := by
  rw [split]
  split <;> simp_all

variable (F)

theorem induction {P : List α → Prop} (wait : ∀ b, F.cut b = none → P b)
    (take : ∀ b k, F.cut b = some k → P (b.drop k) → P b) (b : List α) : P b := by
  induction b using split.induct F with
  | case1 b h => exact wait b h
  | case2 b k h ih => exact take b k h ih

theorem split_flatten (b : List α) : (F.split b).1.flatten ++ (F.split b).2 = b := by
  induction b using F.induction with
  | wait b h => rw [split_of_none h]; rfl
  | take b k h ih =>
    rw [split_of_some h, List.flatten_cons, List.append_assoc, ih, List.take_append_drop]

theorem cut_rest (b : List α) : F.cut (F.split b).2 = none := by
  induction b using F.induction with
  | wait b h => rw [split_of_none h]; exact h
  | take b k h ih => rw [split_of_some h]; exact ih

theorem exists_cut_of_mem (b : List α) :
    ∀ f ∈ (F.split b).1, ∃ c, F.cut (f ++ c) = some f.length := by
  induction b using F.induction with
  | wait b h => rw [split_of_none h]; nofun
  | take b k h ih =>
    rw [split_of_some h]
    intro f hf
    rcases List.mem_cons.mp hf with rfl | hf
    · exact ⟨b.drop k, by rw [List.take_append_drop, List.length_take_of_le (F.le h), h]⟩
    · exact ih f hf

/-- Frames do not depend on where the stream was cut. -/
theorem split_append (a c : List α) :
    F.split (a ++ c) =
      ((F.split a).1 ++ (F.split ((F.split a).2 ++ c)).1, (F.split ((F.split a).2 ++ c)).2) := by
  induction a using F.induction with
  | wait a h => rw [split_of_none h]; rfl
  | take a k h ih =>
    rw [split_of_some (F.stable h c), split_of_some h, List.drop_append_of_le_length (F.le h),
      List.take_append_of_le_length (F.le h), ih]
    rfl

/-! ## Streams of whole frames -/

variable {F}

theorem split_whole {fs : List (List α)} (h : ∀ f ∈ fs, F.cut f = some f.length) :
    F.split fs.flatten = (fs, []) := by
  induction fs with
  | nil =>
    refine split_of_none ?_
    cases hcut : F.cut (List.flatten ([] : List (List α))) with
    | none => rfl
    | some k =>
      have hpos := F.pos hcut
      have hle := F.le hcut
      rw [List.flatten_nil, List.length_nil] at hle
      omega
  | cons f fs ih =>
    have hcut : F.cut (f ++ fs.flatten) = some f.length :=
      F.stable (h f (List.mem_cons_self ..)) fs.flatten
    rw [List.flatten_cons, split_of_some hcut, List.take_left, List.drop_left,
      ih fun g hg => h g (List.mem_cons_of_mem f hg)]

/-- What a reader has of a stream of whole frames: the first of them, in order, and a part of the
rest. -/
theorem split_part {fs : List (List α)} (h : ∀ f ∈ fs, F.cut f = some f.length) {b rest : List α}
    (hb : b ++ rest = fs.flatten) :
    ∃ later, fs = (F.split b).1 ++ later ∧ (F.split b).2 ++ rest = later.flatten := by
  have hall := split_whole h
  rw [← hb, split_append] at hall
  refine ⟨(F.split ((F.split b).2 ++ rest)).1, (congrArg Prod.fst hall).symm, ?_⟩
  have hflat := F.split_flatten ((F.split b).2 ++ rest)
  rw [congrArg Prod.snd hall, List.append_nil] at hflat
  exact hflat.symm

end Format

end Framing
