import Mathlib.Algebra.Group.Nat.Defs
import Qnetd.Component.Steps
import Qnetd.Lib.Counter

/-!
# The clock

`now_ms_` extends the 32-bit `millis()`, which wraps every 49.7 days, to 64 bits.

* `counter` : the two fields of the clock as a reader of a counter modulo `2 ^ 32`; `nowMs_at` : a
  call of `now_ms_` follows the uptime on;
* `clock` : the results of successive calls; `times` : the results in the iterations of the loop.
  Nothing else writes the two fields (`loop_ticking`), so that they are the same;
* `nowMs_exact` : the results are the true uptimes, through any number of wraps.
-/

namespace Qnetd

open Counter (Near)

namespace QnetdComponent

/-! ## Readings -/

def counter (c : QnetdComponent) : Counter := ⟨c.millisHigh.toNat, c.lastMillis.toNat⟩

/-- As long as 64 bits hold the rounds, a call of `now_ms_` is a reading. -/
theorem nowMs_counter {c : QnetdComponent} {millis : UInt32}
    (hlt : (c.counter.read (2 ^ 32) millis.toNat).rounds < 2 ^ 64) :
    (c.nowMs millis).2.counter = c.counter.read (2 ^ 32) millis.toNat := by
  by_cases hwrap : millis < c.lastMillis
  · have hrounds : (c.counter.read (2 ^ 32) millis.toNat).rounds = c.millisHigh.toNat + 2 ^ 32 :=
      if_pos (UInt32.lt_iff_toNat_lt.mp hwrap)
    have hhigh : (c.nowMs millis).2.millisHigh = c.millisHigh + 0x100000000 := if_pos hwrap
    have hround : (0x100000000 : UInt64).toNat = 2 ^ 32 := by decide
    rw [hrounds] at hlt
    rw [counter, hhigh, UInt64.toNat_add, hround, Nat.mod_eq_of_lt hlt, ← hrounds]
    rfl
  · have hrounds : (c.counter.read (2 ^ 32) millis.toNat).rounds = c.millisHigh.toNat :=
      if_neg (mt UInt32.lt_iff_toNat_lt.mpr hwrap)
    have hhigh : (c.nowMs millis).2.millisHigh = c.millisHigh := if_neg hwrap
    rw [counter, hhigh, ← hrounds]
    rfl

/-- The high part is a multiple of `2 ^ 32`, so that the OR is a sum. -/
theorem nowMs_value {c : QnetdComponent} {millis : UInt32} {q : Nat}
    (hq : (c.nowMs millis).2.counter.rounds = 2 ^ 32 * q) :
    (c.nowMs millis).1.toNat = (c.nowMs millis).2.counter.value := by
  have hor : (c.nowMs millis).1.toNat = (c.nowMs millis).2.counter.rounds ||| millis.toNat := by
    rw [← UInt32.toNat_toUInt64]
    exact UInt64.toNat_or _ _
  rw [hor, Counter.value, hq, ← Nat.two_pow_add_eq_or_of_lt millis.toNat_lt]
  rfl

/-- A call of `now_ms_` follows the uptime on. -/
theorem nowMs_at {c : QnetdComponent} {u v : Nat} (h : c.counter.At (2 ^ 32) u)
    (hnear : Near (2 ^ 32) u v) (hv : v < 2 ^ 64) :
    (c.nowMs (.ofNat v)).2.counter.At (2 ^ 32) v ∧ (c.nowMs (.ofNat v)).1.toNat = v := by
  have hread := h.read hnear
  rw [← show (UInt32.ofNat v).toNat = v % 2 ^ 32 from UInt32.toNat_ofNat] at hread
  have hfits : (c.counter.read (2 ^ 32) (UInt32.ofNat v).toNat).rounds < 2 ^ 64 := by
    rw [hread.rounds]
    exact lt_of_le_of_lt (Nat.mul_div_le v (2 ^ 32)) hv
  rw [← nowMs_counter hfits] at hread
  exact ⟨hread, (nowMs_value hread.rounds).trans hread.value⟩

/-- The results of successive calls of `now_ms_`. -/
def clock : QnetdComponent → List UInt32 → List UInt64
  | _, [] => []
  | c, millis :: rest => (c.nowMs millis).1 :: (c.nowMs millis).2.clock rest

theorem clock_eq : ∀ {us : List Nat} {u : Nat} {c : QnetdComponent}, c.counter.At (2 ^ 32) u →
    (u :: us).IsChain (Near (2 ^ 32)) → (∀ v ∈ us, v < 2 ^ 64) →
    (c.clock (us.map .ofNat)).map UInt64.toNat = us
  | [], _, _, _, _, _ => rfl
  | v :: us, u, c, h, hchain, hbound => by
    obtain ⟨hnear, hrest⟩ := List.isChain_cons_cons.mp hchain
    obtain ⟨hat, hv⟩ := nowMs_at h hnear (hbound v (List.mem_cons_self ..))
    rw [List.map_cons, clock, List.map_cons, hv,
      clock_eq hat hrest fun x hx => hbound x (List.mem_cons_of_mem v hx)]

/-! ## The loop -/

/-- The fields of the clock, and whether the loop runs at all. -/
def ticking (c : QnetdComponent) : UInt32 × UInt64 × Bool := (c.lastMillis, c.millisHigh, c.failed)

theorem nowMs_congr {c c' : QnetdComponent} (h : c'.ticking = c.ticking) (millis : UInt32) :
    (c'.nowMs millis).1 = (c.nowMs millis).1 ∧
    (c'.nowMs millis).2.ticking = (c.nowMs millis).2.ticking := by
  have hlast : c'.lastMillis = c.lastMillis := congrArg Prod.fst h
  have hhigh : c'.millisHigh = c.millisHigh := congrArg (Prod.fst ∘ Prod.snd) h
  have hfailed : c'.failed = c.failed := congrArg (Prod.snd ∘ Prod.snd) h
  simp only [nowMs, ticking, hlast, hhigh, hfailed, and_self]

theorem clock_congr : ∀ {c c' : QnetdComponent}, c'.ticking = c.ticking →
    ∀ ms, c'.clock ms = c.clock ms
  | _, _, _, [] => rfl
  | c, c', h, millis :: ms => by
    obtain ⟨hnow, hnext⟩ := nowMs_congr h millis
    rw [clock, clock, hnow, clock_congr hnext ms]

section Ticking

variable (w : Writes) (c : QnetdComponent) (i : Slot)

theorem write_ticking (sock : Socket) (data : Bytes) :
    (c.write w i sock data).2.ticking = c.ticking := by
  unfold write
  cases w c.writes data.length <;> rfl

theorem sendFrame_ticking (f : Frame) : (c.sendFrame w i f).ticking = c.ticking := by
  unfold sendFrame
  cases (c.conns i).sock with
  | none => rfl
  | some sock =>
    have hw := write_ticking w c i sock f
    simp only
    generalize c.write w i sock f = r at hw ⊢
    obtain ⟨r, c'⟩ := r
    split_ifs
    · rfl
    · cases r with
      | wrote n =>
        simp only
        split_ifs <;> exact hw
      | wouldBlock | failed => exact hw
    · rfl

theorem flush_ticking (sock : Socket) : (c.flush w i sock).ticking = c.ticking := by
  unfold flush
  split_ifs
  · rfl
  · have hw := write_ticking w c i sock (c.conns i).tx
    generalize c.write w i sock (c.conns i).tx = r at hw ⊢
    obtain ⟨r, c'⟩ := r
    cases r <;> exact hw

theorem deliver_ticking (e : Event) : (c.deliver w e).ticking = c.ticking := by
  unfold deliver
  cases e.call with
  | none => rfl
  | some k =>
    cases k with
    | sendFrame j f => exact sendFrame_ticking w _ j f
    | closeConnection j => rfl

end Ticking

theorem step_ticking {w : Writes} {c c' : QnetdComponent} (h : LoopStep w c c') :
    c'.ticking = c.ticking := by
  cases h with
  | deliver e => exact deliver_ticking w c e
  | flush hsock hused => exact flush_ticking w c _ _
  | _ => rfl

theorem steps_ticking {w : Writes} {c c' : QnetdComponent}
    (h : Relation.ReflTransGen (LoopStep w) c c') : c'.ticking = c.ticking := by
  induction h with
  | refl => rfl
  | tail _ hstep ih => exact (step_ticking hstep).trans ih

/-- An iteration calls `now_ms_` once, and nothing else in it writes the clock. -/
theorem loop_ticking (w : Writes) {c : QnetdComponent} (hc : c.failed = false) (it : Iteration) :
    (c.loop w it).ticking = (c.nowMs it.millis).2.ticking := by
  rcases loop_steps w c it with ⟨hfailed, -⟩ | ⟨-, hsteps⟩
  · rw [hc] at hfailed
    cases hfailed
  · exact steps_ticking hsteps

/-- The time each iteration of the loop works with. A failed component returns before it reads the
clock. -/
def times (w : Writes) : QnetdComponent → List Iteration → List UInt64
  | _, [] => []
  | c, it :: its => if c.failed then [] else (c.nowMs it.millis).1 :: times w (c.loop w it) its

theorem times_eq_clock (w : Writes) :
    ∀ (its : List Iteration) {c : QnetdComponent}, c.failed = false →
    times w c its = c.clock (its.map Iteration.millis)
  | [], _, _ => rfl
  | it :: its, c, hc => by
    have hticking := loop_ticking w hc it
    have hfailed : (c.loop w it).failed = false :=
      (congrArg (Prod.snd ∘ Prod.snd) hticking :).trans hc
    rw [times, if_neg (by rw [hc]; nofun), times_eq_clock w its hfailed, List.map_cons, clock,
      clock_congr hticking]

end QnetdComponent

/-! ## Uptimes -/

/-- The 64-bit clock survives every wrap. Where `millis()` is the uptime modulo `2 ^ 32`, the
results of `now_ms_` are the uptimes, if the first is below `2 ^ 32` and each is less than that
after the one before it. So are the times the loop works with. -/
theorem nowMs_exact (us : List Nat) (hfirst : ∀ u ∈ us.head?, u < 2 ^ 32)
    (hnear : us.IsChain fun u v => u ≤ v ∧ v - u < 2 ^ 32) (hbound : ∀ u ∈ us, u < 2 ^ 64)
    (listening : Bool) :
    ((QnetdComponent.setup listening).clock (us.map .ofNat)).map UInt64.toNat = us ∧
    ((QnetdComponent.setup listening).clock (us.map .ofNat)).Pairwise (· ≤ ·) ∧
    ∀ (w : Writes) (its : List Iteration), its.map Iteration.millis = us.map .ofNat →
      ((QnetdComponent.setup true).times w its).map UInt64.toNat = us := by
  have hat : ∀ b, (QnetdComponent.setup b).counter.At (2 ^ 32) 0 := fun _ => ⟨rfl, rfl⟩
  have hchain : (0 :: us).IsChain (Near (2 ^ 32)) := by
    cases us with
    | nil => exact .singleton 0
    | cons u us => exact .cons_cons ⟨Nat.zero_le u, hfirst u rfl⟩ hnear
  have hclock : ∀ b, ((QnetdComponent.setup b).clock (us.map .ofNat)).map UInt64.toNat = us :=
    fun b =>
    QnetdComponent.clock_eq (hat b) hchain hbound
  refine ⟨hclock listening, ?_, fun w its hits => ?_⟩
  · have hmono : us.Pairwise (· ≤ ·) := List.isChain_iff_pairwise.mp (hnear.imp fun _ _ h => h.1)
    rw [← hclock listening, List.pairwise_map] at hmono
    exact hmono.imp UInt64.le_iff_toNat_le.mpr
  · rw [QnetdComponent.times_eq_clock w its rfl, hits]
    exact hclock true

/-- Uptimes around the second wrap. -/
theorem nowMs_exact_wraps :
    ((QnetdComponent.setup true).clock
      ([4294967295, 4294967296, 8589934591, 8589934592].map .ofNat)).map UInt64.toNat =
        [4294967295, 4294967296, 8589934591, 8589934592] :=
  (nowMs_exact [4294967295, 4294967296, 8589934591, 8589934592] (by decide) (by simp)
    (by decide) true).1

end Qnetd
