import Mathlib.Data.List.Basic

/-!
# Outboxes

A queue in front of a receiver that takes as many items at a time as it likes, none included. What
has gone out and what waits add up to what was pushed, in order.

* `push`, `take` : items are added at the end, and the receiver takes the first `k`;
* `total_push`, `total_take` : taking moves nothing but the border between what is out and what
  waits;
* `out_take_prefix` : what has gone out is the beginning of what was pushed.
-/

/-- What has gone out, and what waits. -/
structure Outbox (α : Type) where
  out : List α
  queue : List α

namespace Outbox

variable {α : Type}

def total (b : Outbox α) : List α := b.out ++ b.queue

def push (b : Outbox α) (items : List α) : Outbox α := { b with queue := b.queue ++ items }

def take (b : Outbox α) (k : Nat) : Outbox α := ⟨b.out ++ b.queue.take k, b.queue.drop k⟩

theorem total_push (b : Outbox α) (items : List α) : (b.push items).total = b.total ++ items :=
  (List.append_assoc b.out b.queue items).symm

theorem total_take (b : Outbox α) (k : Nat) : (b.take k).total = b.total := by
  rw [total, take, List.append_assoc, List.take_append_drop, total]

theorem out_take_prefix (b : Outbox α) (k : Nat) : (b.take k).out <+: b.total :=
  (List.prefix_append_right_inj b.out).mpr (List.take_prefix k b.queue)

theorem take_zero (b : Outbox α) : b.take 0 = b := by
  rw [take, List.take_zero, List.append_nil, List.drop_zero]

end Outbox
