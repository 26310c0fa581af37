import Mathlib.Data.List.Nodup
import Mathlib.Data.List.Perm.Basic
import Qnetd.Lib.History

/-!
# Handing a grant over

An arbiter moves a grant from one group of parties to another in two phases: it revokes the grant of
the losers and waits for their answers, and only then grants it to the winners.

* `Round` : the state of a handover; `settle`, `answer` : what a decision and an answer make of it,
  with what the arbiter tells the parties. `answer` takes the party off both lists, whatever it was
  asked;
* `answers_pending`, `answers_revoking`, `answers_granting` : the answers of all losers, in any
  order, release exactly one grant for each winner, and the answers of all winners end the round;
* `Arbiter`, `Input`, `Arbiter.step` : the handover as a machine that reads a history and checks
  that everything it says is said, in order, and nothing else; `after_tells`.
-/

namespace Handover

variable {α : Type} [DecidableEq α]

/-! ## Rounds -/

inductive Round (α : Type) where
  /-- Nothing is under way. -/
  | idle
  /-- There is no decision to act on. -/
  | unsettled
  /-- The losers have been told and have not answered; the winners wait for them. -/
  | revoking (losers winners : List α)
  /-- The winners have been told and have not answered. -/
  | granting (winners : List α)
  deriving DecidableEq

/-- Tell the winners. Each thing said is a party and whether it is granted. -/
def grant (winners : List α) : Round α × List (α × Bool) :=
  if winners = [] then (.idle, []) else (.granting winners, winners.map fun a => (a, true))

/-- A decision, whatever the round before. -/
def settle (losers winners : List α) : Round α × List (α × Bool) :=
  if losers = [] then grant winners else (.revoking losers winners, losers.map fun a => (a, false))

/-- Party `a` answers. -/
def answer (a : α) : Round α → Round α × List (α × Bool)
  | .revoking losers winners =>
    if losers.filter (· ≠ a) = [] then grant (winners.filter (· ≠ a))
    else (.revoking (losers.filter (· ≠ a)) (winners.filter (· ≠ a)), [])
  | .granting winners =>
    if winners.filter (· ≠ a) = [] then (.idle, []) else (.granting (winners.filter (· ≠ a)), [])
  | r => (r, [])

/-- The answers of several parties, one after the other, and everything said meanwhile. -/
def answers : List α → Round α → Round α × List (α × Bool)
  | [], r => (r, [])
  | a :: l, r => ((answers l (answer a r).1).1, (answer a r).2 ++ (answers l (answer a r).1).2)

section Answers

variable {a : α} {l losers winners : List α}

theorem filter_ne_of_notMem (h : a ∉ l) : l.filter (· ≠ a) = l := by
  rw [List.filter_eq_self]
  intro b hb
  rw [decide_eq_true_eq]
  rintro rfl
  exact h hb

theorem perm_filter_of_cons (h : (a :: l).Perm winners) (hn : winners.Nodup) :
    l.Perm (winners.filter (· ≠ a)) := by
  have ha : a ∉ l := (List.nodup_cons.mp (h.nodup_iff.mpr hn)).1
  have hf := h.filter (· ≠ a)
  rwa [List.filter_cons_of_neg (by simp), filter_ne_of_notMem ha] at hf

/-- The answers of all winners, in any order, end the round. -/
theorem answers_granting (h : l.Perm winners) (hn : winners.Nodup) (hne : winners ≠ []) :
    answers l (.granting winners) = (.idle, []) := by
  induction l generalizing winners with
  | nil => exact absurd (List.nil_perm.mp h) hne
  | cons a l ih =>
    have hl := perm_filter_of_cons h hn
    by_cases hnil : winners.filter (· ≠ a) = []
    · rw [hnil, List.perm_nil] at hl
      subst hl
      simp only [answers, answer, if_pos hnil, List.append_nil]
    · simp only [answers, answer, if_neg hnil, List.nil_append]
      rw [ih hl (hn.filter _) hnil]

theorem answers_pending (hdis : ∀ a ∈ l, a ∉ winners) (hne : losers.filter (· ∉ l) ≠ []) :
    answers l (.revoking losers winners) = (.revoking (losers.filter (· ∉ l)) winners, []) := by
  induction l generalizing losers with
  | nil => simp [answers]
  | cons a l ih =>
    have hrest : losers.filter (· ∉ a :: l) = (losers.filter (· ≠ a)).filter (· ∉ l) := by
      rw [List.filter_filter]
      refine List.filter_congr fun b _ => ?_
      simp [Bool.and_comm]
    have hsome : losers.filter (· ≠ a) ≠ [] := by
      intro hnil
      rw [hrest, hnil] at hne
      exact hne rfl
    -- the party that answers is no winner
    have hwin : winners.filter (· ≠ a) = winners := filter_ne_of_notMem (hdis a List.mem_cons_self)
    rw [hrest] at hne ⊢
    simp only [answers, answer, if_neg hsome, hwin, List.nil_append]
    rw [ih (fun b hb => hdis b (List.mem_cons_of_mem a hb)) hne]

/-- The answers of all losers, in any order, release the grants of the winners, and nothing is said
before the last. -/
theorem answers_revoking (h : (l ++ [a]).Perm losers) (hn : losers.Nodup)
    (hdis : ∀ b ∈ losers, b ∉ winners) :
    answers l (.revoking losers winners) = (.revoking [a] winners, []) ∧
    answer a (.revoking [a] winners) = grant winners := by
  have hlast : losers.filter (· ∉ l) = [a] := by
    have ha : a ∉ l := by
      have hnd := h.nodup_iff.mpr hn
      exact fun hmem => (List.disjoint_of_nodup_append hnd) hmem List.mem_cons_self
    have hself : (l ++ [a]).filter (· ∉ l) = [a] := by
      rw [List.filter_append, List.filter_eq_nil_iff.mpr (by simp), List.nil_append]
      simp [ha]
    have hp := h.filter (· ∉ l)
    rw [hself] at hp
    exact List.perm_singleton.mp hp.symm
  have hwin : winners.filter (· ≠ a) = winners := filter_ne_of_notMem (hdis a (h.subset (by simp)))
  constructor
  · have hdis' : ∀ b ∈ l, b ∉ winners := fun b hb => hdis b (h.subset (List.mem_append_left _ hb))
    rw [answers_pending hdis' (by rw [hlast]; exact List.cons_ne_nil _ _), hlast]
  · simp only [answer, hwin]
    exact if_pos (by simp)

end Answers

/-! ## The machine -/

inductive Input (α : Type) where
  | join (a : α)
  | leave (a : α)
  | settle (losers winners : List α)
  | unsettle
  | answer (a : α)
  /-- The arbiter is heard to tell party `a` whether it is granted, `none` for anything else. -/
  | tell (a : α) (granted : Option Bool)

structure Arbiter (α : Type) where
  members : α → Bool
  round : Round α
  /-- What is decided and not said yet. -/
  due : List (α × Bool)

/-- The next state, `none` when something else is said than is due, or something is due that was not
said. The answer of a party that is no member is not for this arbiter. -/
def Arbiter.step : Input α → Arbiter α → Option (Arbiter α)
  | .join a, s => some { s with members := Function.update s.members a true }
  | .leave a, s => some { s with members := Function.update s.members a false }
  | .settle losers winners, s =>
    if s.due = [] then
      some { s with round := (settle losers winners).1, due := (settle losers winners).2 }
    else none
  | .unsettle, s => if s.due = [] then some { s with round := .unsettled } else none
  | .answer a, s =>
    if s.members a then
      if s.due = [] then some { s with round := (answer a s.round).1, due := (answer a s.round).2 }
      else none
    else some s
  | .tell a granted, s =>
    match s.due with
    | [] => none
    | (b, g) :: due => if a = b ∧ granted = some g then some { s with due := due } else none

theorem after_tells (s : Arbiter α) (said rest : List (α × Bool)) (h : s.due = said ++ rest) :
    History.after Arbiter.step s ((said.map fun p => Input.tell p.1 (some p.2)).reverse) =
      some { s with due := rest } := by
  induction said generalizing s with
  | nil =>
    cases s
    simp only [List.nil_append] at h
    subst h
    rfl
  | cons p said ih =>
    have hstep : Arbiter.step (.tell p.1 (some p.2)) s = some { s with due := said ++ rest } := by
      simp [Arbiter.step, h]
    rw [List.map_cons, List.reverse_cons, History.after_append]
    change Option.bind (Arbiter.step (.tell p.1 (some p.2)) s) _ = _
    rw [hstep]
    exact ih { s with due := said ++ rest } rfl

end Handover
