import Mathlib.Logic.Relation
import Qnetd.Component.Loop

/-!
# The steps of the loop

What an iteration does, cut twice. The acts are what one turn of one of its loops does; the steps of
which the acts are made show the server's events one by one.

* `Act`, `Acts` : a socket is accepted, flushed, read or dropped, or the server ticks;
* `loop_acts` : after reading the clock an iteration is a sequence of acts;
* `run_rule` : what holds after `setup` and is kept by the clock and by every act, holds in a run;
* `LoopStep`, `loop_steps` : an iteration in small steps.
-/

namespace Qnetd

open Relation (ReflTransGen)

/-! ## Acts -/

/-- An act of the loop, with the socket it accepts. -/
inductive Act (w : Writes) : QnetdComponent → List Socket → QnetdComponent → Prop
  | accept (c : QnetdComponent) (now : UInt64) (a : Socket × String) :
      Act w c [a.1] (c.acceptOne w now a)
  | flush {c : QnetdComponent} {i : Slot} {sock : Socket} : (c.conns i).sock = some sock →
      (c.conns i).used = true → Act w c [] (c.flush w i sock)
  | fed {c : QnetdComponent} {i : Slot} {sock : Socket} (data : Bytes) (now : UInt64) :
      (c.conns i).sock = some sock →
      Act w c [] ((c.note (.fed i sock data)).call w (.onData i data now))
  | lost {c : QnetdComponent} {i : Slot} (now : UInt64) : (c.conns i).used = true →
      Act w c [] (c.dropConn w now i)
  | tick (c : QnetdComponent) (now : UInt64) : Act w c [] (c.call w (.tick now))

/-- A sequence of acts, with the sockets accepted in order. -/
inductive Acts (w : Writes) : QnetdComponent → List Socket → QnetdComponent → Prop
  | refl (c : QnetdComponent) : Acts w c [] c
  | tail {c c' c'' : QnetdComponent} {l l' : List Socket} :
      Acts w c l c' → Act w c' l' c'' → Acts w c (l ++ l') c''

theorem Act.acts {w : Writes} {c c' : QnetdComponent} {l : List Socket} (h : Act w c l c') :
    Acts w c l c' := .tail (.refl c) h

theorem Acts.trans {w : Writes} {c c' c'' : QnetdComponent} {l l' : List Socket}
    (h₁ : Acts w c l c') (h₂ : Acts w c' l' c'') : Acts w c (l ++ l') c'' := by
  induction h₂ with
  | refl => rwa [List.append_nil]
  | tail _ hact ih =>
    rw [← List.append_assoc]
    exact .tail ih hact

theorem Acts.keeps {w : Writes} {P : QnetdComponent → Prop}
    (hact : ∀ {c c' l}, Act w c l c' → P c → P c') {c c' : QnetdComponent} {l : List Socket}
    (h : Acts w c l c') (hc : P c) : P c' := by
  induction h with
  | refl => exact hc
  | tail _ h ih => exact hact h ih

namespace QnetdComponent

variable (w : Writes)

theorem readLoop_acts (now : UInt64) (i : Slot) : ∀ (rs : List ReadResult) (c : QnetdComponent),
    Acts w c [] (readLoop w now i rs c)
  | [], c => .refl c
  | r :: rs, c => by
    unfold readLoop
    cases hsock : (c.conns i).sock with
    | none => exact .refl c
    | some sock =>
      simp only
      split_ifs with hused
      · exact .refl c
      rw [Bool.not_eq_false] at hused
      cases r with
      | data b => exact (Act.fed b.1 now hsock).acts.trans (readLoop_acts now i rs _)
      | eof => exact (Act.lost now hused).acts
      | wouldBlock => exact .refl c
      | failed => exact (Act.lost now hused).acts

theorem service_acts (now : UInt64) (reads : Slot → List ReadResult) (c : QnetdComponent)
    (i : Slot) : Acts w c [] (c.service w now reads i) := by
  unfold service
  cases hsock : (c.conns i).sock with
  | none => exact .refl c
  | some sock =>
    simp only
    split_ifs with hused
    · exact .refl c
    · rw [Bool.not_eq_false] at hused
      exact (Act.flush hsock hused).acts.trans (readLoop_acts w now i (reads i) _)

theorem foldl_accept_acts (now : UInt64) : ∀ (l : List (Socket × String)) (c : QnetdComponent),
    Acts w c (l.map Prod.fst) (l.foldl (acceptOne w now) c)
  | [], c => .refl c
  | a :: l, c => (Act.accept c now a).acts.trans (foldl_accept_acts now l _)

theorem foldl_service_acts (now : UInt64) (reads : Slot → List ReadResult) :
    ∀ (l : List Slot) (c : QnetdComponent), Acts w c [] (l.foldl (service w now reads) c)
  | [], c => .refl c
  | i :: l, c => (service_acts w now reads c i).trans (foldl_service_acts now reads l _)

/-- After reading the clock an iteration is a sequence of acts. A failed component does nothing. -/
theorem loop_acts (c : QnetdComponent) (it : Iteration) :
    (c.failed = true ∧ c.loop w it = c) ∨
      (c.failed = false ∧
        Acts w (c.nowMs it.millis).2 (it.accepted.map Prod.fst) (c.loop w it)) := by
  unfold loop
  cases c.failed with
  | true => exact Or.inl ⟨rfl, rfl⟩
  | false =>
    refine Or.inr ⟨rfl, ?_⟩
    generalize c.nowMs it.millis = r
    obtain ⟨now, c'⟩ := r
    have haccept := foldl_accept_acts w now it.accepted c'
    have hservice := foldl_service_acts w now it.reads (List.finRange MAX_CLIENTS)
      (it.accepted.foldl (acceptOne w now) c')
    simpa using (haccept.trans hservice).trans (Act.tick _ now).acts

theorem run_concat (listening : Bool) (its : List Iteration) (it : Iteration) :
    run w listening (its ++ [it]) = (run w listening its).loop w it := List.foldl_concat ..

/-- What holds after `setup` and is kept by the clock and by every act, holds after every
iteration. -/
theorem run_rule {P : QnetdComponent → Prop} (listening : Bool) (hsetup : P (setup listening))
    (hclock : ∀ c millis, P c → P (c.nowMs millis).2)
    (hact : ∀ {c c' l}, Act w c l c' → P c → P c') (its : List Iteration) :
    P (run w listening its) := by
  induction its using List.reverseRecOn with
  | nil => exact hsetup
  | append_singleton its it ih =>
    rw [run_concat]
    rcases loop_acts w (run w listening its) it with ⟨-, hloop⟩ | ⟨-, hacts⟩
    · rw [hloop]
      exact ih
    · exact hacts.keeps hact (hclock _ it.millis ih)

end QnetdComponent

/-! ## Small steps -/

/-- Bytes are read, or a socket is refused. -/
def LoopEvent.outside : LoopEvent → Bool
  | .fed _ _ _ | .refused _ => true
  | _ => false

def QnetdComponent.attach (c : QnetdComponent) (i : Slot) (sock : Socket) : QnetdComponent :=
  (c.setConn i { sock := some sock, tx := [], used := true }).note (.accepted i sock)

inductive LoopStep (w : Writes) : QnetdComponent → QnetdComponent → Prop
  | server (c : QnetdComponent) (k : Call) : LoopStep w c { c with server := c.server.call k }
  | deliver (c : QnetdComponent) (e : Event) : LoopStep w c (c.deliver w e)
  | attach (c : QnetdComponent) (i : Slot) (sock : Socket) : LoopStep w c (c.attach i sock)
  | flush {c : QnetdComponent} {i : Slot} {sock : Socket} : (c.conns i).sock = some sock →
      (c.conns i).used = true → LoopStep w c (c.flush w i sock)
  | drop (c : QnetdComponent) (i : Slot) :
      LoopStep w c ((c.closeConnection i).note (.lost i))
  | outside (c : QnetdComponent) {e : LoopEvent} : e.outside = true → LoopStep w c (c.note e)

theorem QnetdComponent.call_loopSteps (w : Writes) (c : QnetdComponent) (k : Call) :
    ReflTransGen (LoopStep w) c (c.call w k) := by
  have hdeliver : ∀ (es : List Event) (c : QnetdComponent),
      ReflTransGen (LoopStep w) c (es.foldl (deliver w) c) := by
    intro es
    induction es with
    | nil => exact fun _ => .refl
    | cons e es ih => exact fun c => .head (.deliver c e) (ih _)
  exact .head (.server c k) (hdeliver _ _)

theorem Act.loopSteps {w : Writes} {c c' : QnetdComponent} {l : List Socket} (h : Act w c l c') :
    ReflTransGen (LoopStep w) c c' := by
  cases h with
  | accept now a =>
    refine (c.call_loopSteps w (.onConnect now a.2)).trans ?_
    simp only [QnetdComponent.acceptOne]
    split_ifs
    · exact .single (.attach _ _ _)
    · exact .single (.outside _ rfl)
  | flush hsock hused => exact .single (.flush hsock hused)
  | fed data now hsock => exact .head (.outside c rfl) (QnetdComponent.call_loopSteps w _ _)
  | lost now hused => exact .head (.drop c _) (QnetdComponent.call_loopSteps w _ _)
  | tick now => exact c.call_loopSteps w _

theorem QnetdComponent.loop_steps (w : Writes) (c : QnetdComponent) (it : Iteration) :
    (c.failed = true ∧ c.loop w it = c) ∨
      (c.failed = false ∧ ReflTransGen (LoopStep w) (c.nowMs it.millis).2 (c.loop w it)) := by
  rcases loop_acts w c it with h | ⟨hfailed, hacts⟩
  · exact Or.inl h
  · exact Or.inr ⟨hfailed, hacts.keeps (fun hact hsteps => hsteps.trans hact.loopSteps) .refl⟩

end Qnetd
