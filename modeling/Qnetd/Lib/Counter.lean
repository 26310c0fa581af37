import Mathlib.Data.Nat.Basic
import Mathlib.Tactic.Common

/-!
# Counters that wrap

A counter is read modulo `m`. A reader that is not away for as long as the counter takes to come
round can follow it: a reading below the last one means that it has wrapped, once.

* `read` : one reading; `value` : the count it stands for;
* `At m u` : the reader has followed the counter to `u`; `At.read` : the next reading follows it on.
-/

/-- What has been counted in full rounds, and the last reading. -/
structure Counter where
  rounds : Nat
  last : Nat

namespace Counter

def read (m : Nat) (c : Counter) (r : Nat) : Counter :=
  ⟨if r < c.last then c.rounds + m else c.rounds, r⟩

def value (c : Counter) : Nat := c.rounds + c.last

/-- The reader has followed the counter to `u`. -/
structure At (m u : Nat) (c : Counter) : Prop where
  rounds : c.rounds = m * (u / m)
  last : c.last = u % m

theorem At.value {m u : Nat} {c : Counter} (h : c.At m u) : c.value = u := by
  rw [Counter.value, h.rounds, h.last, Nat.div_add_mod]

/-- The counter has moved on, by less than a round. -/
def Near (m u v : Nat) : Prop := u ≤ v ∧ v - u < m

theorem At.read {m u v : Nat} {c : Counter} (h : c.At m u) (hnear : Near m u v) :
    (c.read m (v % m)).At m v := by
  obtain ⟨hle, hlt⟩ := hnear
  have hm : 0 < m := by omega
  have hu := Nat.div_add_mod u m
  have hv := Nat.div_add_mod v m
  have hua := Nat.mod_lt u hm
  have hva := Nat.mod_lt v hm
  -- less than a round later, the number of full rounds is the same or one more
  have hstep : v / m = u / m ∨ v / m = u / m + 1 := by
    have hmono : u / m ≤ v / m := Nat.div_le_div_right hle
    have hnext : v / m ≤ (u + m) / m := Nat.div_le_div_right (by omega)
    rw [Nat.add_div_right u hm] at hnext
    omega
  refine ⟨?_, rfl⟩
  rw [Counter.read, h.rounds, h.last]
  rcases hstep with hsame | hwrap
  · rw [hsame] at hv ⊢
    exact if_neg (by omega)
  · rw [hwrap, Nat.mul_succ] at hv ⊢
    exact if_pos (by omega)

end Counter
