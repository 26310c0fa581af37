import Mathlib.Data.List.Induction
import Mathlib.Order.Lattice
import Mathlib.Tactic.Common

/-!
# Linear scans

A scan walks a list and keeps one element: each next element is compared with the one kept, or with
nothing, and replaces it or is dropped.

* `scan better l` : what is kept at the end; `scan_taken`, `scan_eq_none`;
* `Contest` : the comparison follows a key, except that some elements replace anything;
* `Scored`, `Tops` : what is still compared at the end of a scan, and the one of them at the top;
* `Contest.scan_eq_some_iff` : a scan of a contest ends with the element at the top;
* `foldl_least` : the plain loop for a least element;
* `scan_congr` : comparisons that agree on the elements a scan can keep give the same scan.
-/

namespace Scan

variable {α κ : Type} {better better' : α → Option α → Bool} {l : List α}

def step (better : α → Option α → Bool) (best : Option α) (x : α) : Option α :=
  if better x best then some x else best

def scan (better : α → Option α → Bool) (l : List α) : Option α := l.foldl (step better) none

theorem scan_concat (better : α → Option α → Bool) (l : List α) (x : α) :
    scan better (l ++ [x]) = if better x (scan better l) then some x else scan better l := by
  rw [scan, List.foldl_append]
  rfl

theorem scan_taken {x : α} (h : scan better l = some x) : x ∈ l ∧ ∃ best, better x best = true := by
  induction l using List.reverseRecOn with
  | nil => cases h
  | append_singleton l y ih =>
    rw [scan_concat] at h
    split_ifs at h with hy
    · obtain rfl := Option.some.inj h
      exact ⟨by simp, _, hy⟩
    · obtain ⟨hmem, htaken⟩ := ih h
      exact ⟨List.mem_append_left _ hmem, htaken⟩

theorem scan_eq_none : scan better l = none ↔ ∀ x ∈ l, better x none = false := by
  induction l using List.reverseRecOn with
  | nil => simp [scan]
  | append_singleton l y ih =>
    rw [scan_concat]
    constructor
    · intro h x hx
      split_ifs at h with hy
      rcases List.mem_append.mp hx with hx | hx
      · exact ih.mp h x hx
      · rw [List.mem_singleton.mp hx]
        rw [h] at hy
        exact Bool.eq_false_iff.mpr hy
    · intro h
      have hnone : scan better l = none := ih.mpr fun x hx => h x (List.mem_append_left _ hx)
      rw [hnone, h y (by simp)]
      rfl

/-! ## The element a scan ends with -/

section Contest

variable {ι : Type} [LinearOrder ι] [LinearOrder κ]

/-- The elements a scan still compares at its end: the admissible ones after which nothing with `M`
comes, from the first element on that was better than nothing. Elements come in the order of `pos`.
-/
def Scored (better : α → Option α → Bool) (l : List α) (pos : α → ι) (P M : α → Prop) (x : α) :
    Prop :=
  P x ∧ (∀ y ∈ l, pos x < pos y → ¬M y) ∧ ∃ y ∈ l, pos y ≤ pos x ∧ better y none = true

/-- Better than every scored element before it, and no scored element after it is better. -/
def Tops (better : α → Option α → Bool) (l : List α) (pos : α → ι) (P M : α → Prop) (x : α) :
    Prop :=
  x ∈ l ∧ Scored better l pos P M x ∧
    (∀ y ∈ l, Scored better l pos P M y → pos y < pos x → better x (some y) = true) ∧
    ∀ y ∈ l, Scored better l pos P M y → pos x < pos y → better y (some x) = false

/-- The comparison takes admissible elements only and takes those with `M` over anything. Every
other admissible element is taken over a smaller key, and over an equal one if it is `late`. -/
structure Contest (better : α → Option α → Bool) (l : List α) (pos : α → ι) (P M : α → Prop)
    (key : α → κ) (late : α → Prop) : Prop where
  sorted : l.Pairwise fun x y => pos x < pos y
  admits : ∀ x ∈ l, ∀ best, better x best = true → P x
  replaces : ∀ x ∈ l, M x → ∀ best, better x best = true
  follows : ∀ x ∈ l, ∀ y ∈ l, P x → ¬M x → P y →
    (better x (some y) = true ↔ key y < key x ∨ key y = key x ∧ late x)

variable {pos : α → ι} {P M : α → Prop} {key : α → κ} {late : α → Prop}

theorem Tops.unique {x y : α} (hpos : ∀ a ∈ l, ∀ b ∈ l, pos a = pos b → a = b)
    (hx : Tops better l pos P M x) (hy : Tops better l pos P M y) : x = y := by
  obtain ⟨hxl, hxs, hxb, hxa⟩ := hx
  obtain ⟨hyl, hys, hyb, hya⟩ := hy
  rcases lt_trichotomy (pos x) (pos y) with hlt | heq | hgt
  · have htrue := hyb x hxl hxs hlt
    rw [hxa y hyl hys hlt] at htrue
    cases htrue
  · exact hpos x hxl y hyl heq
  · have htrue := hxb y hyl hys hgt
    rw [hya x hxl hxs hgt] at htrue
    cases htrue

theorem Contest.of_append {l₁ l₂ : List α} (h : Contest better (l₁ ++ l₂) pos P M key late) :
    Contest better l₁ pos P M key late := by
  have hmem : ∀ {x}, x ∈ l₁ → x ∈ l₁ ++ l₂ := fun hx => List.mem_append_left _ hx
  exact ⟨(List.pairwise_append.mp h.sorted).1, fun x hx => h.admits x (hmem hx),
    fun x hx => h.replaces x (hmem hx), fun x hx y hy => h.follows x (hmem hx) y (hmem hy)⟩

theorem Contest.pos_inj (h : Contest better l pos P M key late) : ∀ a ∈ l, ∀ b ∈ l, pos a = pos b →
    a = b := by
  intro a ha b hb heq
  by_contra hne
  rcases List.pairwise_iff_getElem.mp h.sorted with hlt
  obtain ⟨i, hi, rfl⟩ := List.getElem_of_mem ha
  obtain ⟨j, hj, rfl⟩ := List.getElem_of_mem hb
  rcases lt_trichotomy i j with hij | rfl | hij
  · exact (hlt i j hi hj hij).ne heq
  · exact hne rfl
  · exact (hlt j i hj hi hij).ne' heq

section Concat

variable {z : α}

theorem Contest.lt_last (h : Contest better (l ++ [z]) pos P M key late) {y : α} (hy : y ∈ l) :
    pos y < pos z :=
  (List.pairwise_append.mp h.sorted).2.2 y hy z (by simp)

/-- After an element that replaces nothing, what was scored is scored still. -/
theorem Contest.scored_concat (h : Contest better (l ++ [z]) pos P M key late) (hz : ¬M z) {y : α}
    (hy : y ∈ l) : Scored better (l ++ [z]) pos P M y ↔ Scored better l pos P M y := by
  unfold Scored
  simp only [List.mem_append, List.mem_singleton]
  refine and_congr_right fun _ => and_congr ?_ ?_
  · constructor
    · intro hno w hw
      exact hno w (Or.inl hw)
    · rintro hno w (hw | rfl) hlt
      · exact hno w hw hlt
      · exact hz
  · constructor
    · rintro ⟨w, hw | rfl, hle, hopen⟩
      · exact ⟨w, hw, hle, hopen⟩
      · exact absurd (h.lt_last hy) (not_lt.mpr hle)
    · rintro ⟨w, hw, hle, hopen⟩
      exact ⟨w, Or.inl hw, hle, hopen⟩

theorem Contest.scored_last (h : Contest better (l ++ [z]) pos P M key late) :
    Scored better (l ++ [z]) pos P M z ↔ P z ∧ ∃ y ∈ l ++ [z], better y none = true := by
  unfold Scored
  refine and_congr_right fun _ => ?_
  have hle : ∀ y ∈ l ++ [z], pos y ≤ pos z := by
    intro y hy
    rcases List.mem_append.mp hy with hy | hy
    · exact (h.lt_last hy).le
    · rw [List.mem_singleton.mp hy]
  constructor
  · rintro ⟨-, y, hy, -, hopen⟩
    exact ⟨y, hy, hopen⟩
  · rintro ⟨y, hy, hopen⟩
    exact ⟨fun w hw hlt => absurd hlt (not_lt.mpr (hle w hw)), y, hy, hle y hy, hopen⟩

end Concat

theorem Contest.le_of_tops (h : Contest better l pos P M key late) {w : α}
    (hw : Tops better l pos P M w) {y : α}
    (hy : y ∈ l) (hys : Scored better l pos P M y) : key y ≤ key w := by
  obtain ⟨hwl, hws, hbefore, hafter⟩ := hw
  rcases lt_trichotomy (pos y) (pos w) with hlt | heq | hgt
  · -- an element with `M` has nothing scored before it
    have hwm : ¬M w := hys.2.1 w hwl hlt
    rcases (h.follows w hwl y hy hws.1 hwm hys.1).mp (hbefore y hy hys hlt) with hkey | ⟨hkey, -⟩
    · exact hkey.le
    · exact hkey.le
  · rw [h.pos_inj y hy w hwl heq]
  · have hym : ¬M y := hws.2.1 y hy hgt
    have hnot :=
      mt (h.follows y hy w hwl hys.1 hym hws.1).mpr (Bool.eq_false_iff.mp (hafter y hy hys hgt))
    rw [not_or] at hnot
    exact not_lt.mp hnot.1

theorem Contest.tops_of_scan (h : Contest better l pos P M key late) {x : α}
    (hx : scan better l = some x) : Tops better l pos P M x := by
  induction l using List.reverseRecOn generalizing x with
  | nil => cases hx
  | append_singleton l z ih =>
    have hz : z ∈ l ++ [z] := by simp
    rw [scan_concat] at hx
    split_ifs at hx with htake
    · obtain rfl := Option.some.inj hx
      have hpz := h.admits z hz _ htake
      have hopen : ∃ y ∈ l ++ [z], better y none = true := by
        cases hkept : scan better l with
        | none =>
          rw [hkept] at htake
          exact ⟨z, hz, htake⟩
        | some w =>
          obtain ⟨y, hy, -, hy'⟩ := (ih h.of_append hkept).2.1.2.2
          exact ⟨y, List.mem_append_left _ hy, hy'⟩
      refine ⟨hz, h.scored_last.mpr ⟨hpz, hopen⟩, fun y hy hys hlt => ?_, fun y hy _ hgt => ?_⟩
      · have hyl : y ∈ l := by
          rcases List.mem_append.mp hy with hy | hy
          · exact hy
          · rw [List.mem_singleton.mp hy] at hlt
            exact absurd hlt (lt_irrefl _)
        have hzm : ¬M z := hys.2.1 z hz hlt
        have hys' := (h.scored_concat hzm hyl).mp hys
        cases hkept : scan better l with
        | none =>
          obtain ⟨w, hw, -, hwopen⟩ := hys'.2.2
          rw [scan_eq_none.mp hkept w hw] at hwopen
          cases hwopen
        | some w =>
          -- `z` is better than what was kept, which is at the top of what was scored before
          have hw := ih h.of_append hkept
          rw [hkept] at htake
          have hle := h.of_append.le_of_tops hw hyl hys'
          have hwl := List.mem_append_left [z] hw.1
          rcases (h.follows z hz w hwl hpz hzm hw.2.1.1).mp htake with hkey | ⟨hkey, hlate⟩
          · exact (h.follows z hz y hy hpz hzm hys.1).mpr (Or.inl (hle.trans_lt hkey))
          · refine (h.follows z hz y hy hpz hzm hys.1).mpr ?_
            rcases hle.lt_or_eq with hlt' | heq
            · exact Or.inl (hkey ▸ hlt')
            · exact Or.inr ⟨heq.trans hkey, hlate⟩
      · rcases List.mem_append.mp hy with hy | hy
        · exact absurd (h.lt_last hy) hgt.not_gt
        · rw [List.mem_singleton.mp hy] at hgt
          exact absurd hgt (lt_irrefl _)
    · have hzm : ¬M z := fun hm => htake (h.replaces z hz hm _)
      have hw := ih h.of_append hx
      obtain ⟨hwl, hws, hbefore, hafter⟩ := hw
      refine ⟨List.mem_append_left _ hwl, (h.scored_concat hzm hwl).mpr hws, fun y hy hys hlt => ?_,
        fun y hy hys hgt => ?_⟩
      · rcases List.mem_append.mp hy with hy | hy
        · exact hbefore y hy ((h.scored_concat hzm hy).mp hys) hlt
        · rw [List.mem_singleton.mp hy] at hlt
          exact absurd (h.lt_last hwl) hlt.not_gt
      · rcases List.mem_append.mp hy with hy | hy
        · exact hafter y hy ((h.scored_concat hzm hy).mp hys) hgt
        · rw [List.mem_singleton.mp hy, ← hx]
          exact Bool.eq_false_iff.mpr htake

/-- A scan of a contest ends with the element at the top. -/
theorem Contest.scan_eq_some_iff (h : Contest better l pos P M key late) {x : α} :
    scan better l = some x ↔ Tops better l pos P M x := by
  constructor
  · exact h.tops_of_scan
  · intro hx
    cases hkept : scan better l with
    | none =>
      obtain ⟨y, hy, -, hopen⟩ := hx.2.1.2.2
      rw [scan_eq_none.mp hkept y hy] at hopen
      cases hopen
    | some w => rw [(h.tops_of_scan hkept).unique h.pos_inj hx]

end Contest

/-! ## Least elements -/

theorem foldl_least [LinearOrder κ] (key : α → κ) : ∀ (l : List α) (a : α),
    l.foldl (fun p x => if key x < key p then x else p) a ∈ a :: l ∧
      ∀ x ∈ a :: l, key (l.foldl (fun p x => if key x < key p then x else p) a) ≤ key x
  | [], a => ⟨by simp, by simp⟩
  | y :: l, a => by
    rw [List.foldl_cons]
    obtain ⟨hmem, hle⟩ := foldl_least key l (if key y < key a then y else a)
    generalize l.foldl (fun p x => if key x < key p then x else p)
        (if key y < key a then y else a) = m at hmem hle ⊢
    have hstart := hle _ (List.mem_cons_self ..)
    split_ifs at hmem hle hstart with hya
    · refine ⟨List.mem_cons_of_mem _ hmem, fun x hx => ?_⟩
      rcases List.mem_cons.mp hx with rfl | hx
      · exact le_trans hstart (le_of_lt hya)
      · exact hle x hx
    · refine ⟨?_, fun x hx => ?_⟩
      · rcases List.mem_cons.mp hmem with rfl | hmem
        · exact List.mem_cons_self ..
        · exact List.mem_cons_of_mem _ (List.mem_cons_of_mem _ hmem)
      · rcases List.mem_cons.mp hx with rfl | hx
        · exact hstart
        · rcases List.mem_cons.mp hx with rfl | hx
          · exact le_trans hstart (not_lt.mp hya)
          · exact hle x (List.mem_cons_of_mem _ hx)

/-! ## Scans that agree -/

theorem scan_congr (h : ∀ x ∈ l, ∀ best, (∀ y, best = some y → y ∈ l ∧ ∃ b, better y b = true) →
    better x best = better' x best) : scan better l = scan better' l := by
  induction l using List.reverseRecOn with
  | nil => rfl
  | append_singleton l z ih =>
    have hsub : ∀ {y}, y ∈ l → y ∈ l ++ [z] := fun hy => List.mem_append_left _ hy
    have hl : scan better l = scan better' l := ih fun x hx best hbest =>
      h x (hsub hx) best fun y hy => ⟨hsub (hbest y hy).1, (hbest y hy).2⟩
    have hkept :=
      h z (by simp) (scan better l) fun y hy => ⟨hsub (scan_taken hy).1, (scan_taken hy).2⟩
    rw [scan_concat, scan_concat, hkept, hl]

end Scan
