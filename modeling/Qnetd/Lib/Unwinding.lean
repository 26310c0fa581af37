import Mathlib.Data.List.Basic

/-!
# Unwinding

A machine whose inputs come from several parties. What one party observes does not depend on the
others if its own inputs keep any two states that look the same to it in step, and the inputs of the
others do not change what a state looks like.

* `purge`, `heard` : the inputs of the party alone, and all it observes, along a run;
* `Along` : something holds of every input of a run; `Unwinds` : the two conditions, for one input
  each;
* `purge_heard` : the run without the inputs of the others is observed the same.
-/

namespace Unwinding

variable {S I O : Type} {step : S → I → S} {own : S → I → Bool} {obs : S → I → List O}
  {ok : S → I → Prop} {R : S → S → Prop}

/-- The inputs that are the party's own when they come. -/
def purge (step : S → I → S) (own : S → I → Bool) : S → List I → List I
  | _, [] => []
  | s, i :: l => if own s i then i :: purge step own (step s i) l else purge step own (step s i) l

def heard (step : S → I → S) (obs : S → I → List O) : S → List I → List O
  | _, [] => []
  | s, i :: l => obs s i ++ heard step obs (step s i) l

def Along (step : S → I → S) (ok : S → I → Prop) : S → List I → Prop
  | _, [] => True
  | s, i :: l => ok s i ∧ Along step ok (step s i) l

/-- `R` is kept in step by the own inputs, and ignored by the others. -/
structure Unwinds (step : S → I → S) (own : S → I → Bool) (obs : S → I → List O) (ok : S → I → Prop)
    (R : S → S → Prop) : Prop where
  inStep : ∀ {s s' i}, R s s' → ok s i → own s i = true → obs s' i = obs s i ∧
    R (step s i) (step s' i)
  ignored : ∀ {s s' i}, R s s' → ok s i → own s i = false → obs s i = [] ∧ R (step s i) s'

/-- The others make no difference. -/
theorem purge_heard (h : Unwinds step own obs ok R) (l : List I) {s s' : S} (hR : R s s')
    (hok : Along step ok s l) :
    heard step obs s' (purge step own s l) = heard step obs s l ∧
    R (l.foldl step s) ((purge step own s l).foldl step s') := by
  induction l generalizing s s' with
  | nil => exact ⟨rfl, hR⟩
  | cons i l ih =>
    obtain ⟨hi, hl⟩ := hok
    cases hown : own s i with
    | true =>
      obtain ⟨hobs, hR'⟩ := h.inStep hR hi hown
      obtain ⟨hheard, hend⟩ := ih hR' hl
      simp only [purge, hown, if_true, heard, List.foldl_cons]
      exact ⟨by rw [hobs, hheard], hend⟩
    | false =>
      obtain ⟨hobs, hR'⟩ := h.ignored hR hi hown
      obtain ⟨hheard, hend⟩ := ih hR' hl
      simp only [purge, hown, Bool.false_eq_true, if_false, heard, List.foldl_cons]
      exact ⟨by rw [hobs, hheard, List.nil_append], hend⟩

end Unwinding
