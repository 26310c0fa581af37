import Mathlib.Data.List.Basic
import Mathlib.Tactic.Common

/-!
# Histories

A history is a list of events, newest first, so that the past of an event is the tail behind it.

* `grown_trans` : a history that grows twice by events with a property has grown by such events;
* `Since P Q tr` : an event with `P` happened, and every event after it satisfies `Q`; `since_cons`,
  `Since.mono`, `Since.append`, `Since.of_append`;
* `Always P tr` : every event of the history satisfied `P` together with its own past;
  `Always.cons`, `Always.append`;
* `last p tr` : the value of the newest event on which `p` is defined; `last_iff_since`;
  `eq_of_nodup`;
* `after step start tr` : the state of a machine that has seen the history, if every event was
  enabled when it happened; `after_append`, `after_always`;
* `collected p f tr` : what the events after the newest one with `p` yield; `collected_of_reset`,
  `collected_cons`.
-/

namespace History

variable {α β : Type}

/-! ## Growth -/

theorem grown_trans {P : α → Prop} {tr₀ tr₁ tr₂ : List α}
    (h₁ : ∃ new, tr₁ = new ++ tr₀ ∧ ∀ e ∈ new, P e)
    (h₂ : ∃ new, tr₂ = new ++ tr₁ ∧ ∀ e ∈ new, P e) : ∃ new, tr₂ = new ++ tr₀ ∧ ∀ e ∈ new, P e := by
  obtain ⟨n₁, rfl, he₁⟩ := h₁
  obtain ⟨n₂, rfl, he₂⟩ := h₂
  exact ⟨n₂ ++ n₁, (List.append_assoc n₂ n₁ tr₀).symm, List.forall_mem_append.mpr ⟨he₂, he₁⟩⟩

/-! ## Since -/

/-- An event with `P` happened, and every event after it satisfies `Q`. -/
def Since (P Q : α → Prop) (tr : List α) : Prop :=
  ∃ new e old, tr = new ++ e :: old ∧ P e ∧ ∀ x ∈ new, Q x

theorem Since.here {P Q : α → Prop} {e : α} {tr : List α} (he : P e) : Since P Q (e :: tr) :=
  ⟨[], e, tr, rfl, he, by simp⟩

theorem Since.append {P Q : α → Prop} {tr new : List α} (h : Since P Q tr) (hq : ∀ e ∈ new, Q e) :
    Since P Q (new ++ tr) := by
  obtain ⟨mid, e, old, rfl, he, hmid⟩ := h
  exact ⟨new ++ mid, e, old, by rw [List.append_assoc], he, List.forall_mem_append.mpr ⟨hq, hmid⟩⟩

theorem Since.cons {P Q : α → Prop} {tr : List α} {e : α} (h : Since P Q tr) (hq : Q e) :
    Since P Q (e :: tr) :=
  @Since.append α P Q tr [e] h (by simpa using hq)

theorem since_cons {P Q : α → Prop} {e : α} {tr : List α} :
    Since P Q (e :: tr) ↔ P e ∨ (Q e ∧ Since P Q tr) := by
  constructor
  · rintro ⟨new, a, old, htr, ha, hnew⟩
    cases new with
    | nil =>
      obtain ⟨rfl, rfl⟩ := List.cons_eq_cons.mp htr
      exact Or.inl ha
    | cons b new =>
      obtain ⟨rfl, rfl⟩ := List.cons_eq_cons.mp htr
      exact Or.inr ⟨hnew _ (by simp), new, a, old, rfl, ha, fun x hx => hnew x (by simp [hx])⟩
  · rintro (he | ⟨hq, h⟩)
    · exact .here he
    · exact h.cons hq

theorem Since.mono {P P' Q Q' : α → Prop} {tr : List α} (h : Since P Q tr) (hP : ∀ e, P e → P' e)
    (hQ : ∀ e, Q e → Q' e) : Since P' Q' tr := by
  obtain ⟨new, e, old, htr, he, hnew⟩ := h
  exact ⟨new, e, old, htr, hP e he, fun x hx => hQ x (hnew x hx)⟩

theorem Since.of_append {P Q : α → Prop} {tr new : List α} (h : Since P Q (new ++ tr))
    (hP : ∀ e ∈ new, ¬P e) : Since P Q tr := by
  induction new with
  | nil => exact h
  | cons e new ih =>
    rcases since_cons.mp h with he | ⟨-, h⟩
    · exact absurd he (hP e (List.mem_cons_self ..))
    · exact ih h fun x hx => hP x (List.mem_cons_of_mem e hx)

theorem Since.exists_mem {P Q : α → Prop} {tr : List α} (h : Since P Q tr) : ∃ e ∈ tr, P e := by
  obtain ⟨new, e, old, rfl, he, -⟩ := h
  exact ⟨e, by simp, he⟩

/-! ## Always -/

/-- Every event satisfied `P` together with its past. -/
def Always (P : α → List α → Prop) (tr : List α) : Prop :=
  ∀ new e old, tr = new ++ e :: old → P e old

theorem Always.nil {P : α → List α → Prop} : Always P [] := by
  rintro (_ | ⟨a, new⟩) e old h <;> cases h

theorem Always.cons {P : α → List α → Prop} {e : α} {tr : List α} (he : P e tr) (h : Always P tr) :
    Always P (e :: tr) := by
  rintro (_ | ⟨b, new⟩) a old htr
  · obtain ⟨rfl, rfl⟩ := List.cons_eq_cons.mp htr
    exact he
  · exact h new a old (List.cons_eq_cons.mp htr).2

theorem Always.append {P : α → List α → Prop} {tr : List α} (h : Always P tr) :
    ∀ {new : List α}, (∀ newer e older, new = newer ++ e :: older → P e (older ++ tr)) →
    Always P (new ++ tr)
  | [], _ => h
  | e :: new, hP =>
    .cons (hP [] e new rfl)
      (h.append fun newer a older hn => hP (e :: newer) a older (by rw [hn]; rfl))

theorem Always.append_of_forall {P : α → List α → Prop} {tr new : List α} (h : Always P tr)
    (hP : ∀ e ∈ new, ∀ past, P e past) : Always P (new ++ tr) :=
  h.append fun newer e older hn => hP e (by rw [hn]; simp) _

/-! ## The last value -/

/-- The value of the newest event on which `p` is defined. -/
def last (p : α → Option β) (tr : List α) : Option β := tr.findSome? p

theorem last_iff_since {p : α → Option β} {tr : List α} {b : β} :
    last p tr = some b ↔ Since (fun e => p e = some b) (fun e => p e = none) tr := by
  induction tr with
  | nil => simp [last, Since]
  | cons e tr ih =>
    rw [last, List.findSome?_cons, since_cons, ← ih]
    cases h : p e with
    | none => simp [last]
    | some a => simp

theorem last_append_of_none {p : α → Option β} {tr new : List α} (h : ∀ e ∈ new, p e = none) :
    last p (new ++ tr) = last p tr := by
  induction new with
  | nil => rfl
  | cons e new ih =>
    rw [List.cons_append, last, List.findSome?_cons, h e (by simp)]
    exact ih fun x hx => h x (by simp [hx])

/-- A value that occurs once belongs to one event, at one moment. -/
theorem eq_of_nodup {p : α → Option β} {tr a a' b b' : List α} {x x' : α} {v : β}
    (hn : (tr.filterMap p).Nodup)
    (h : tr = a ++ x :: b) (h' : tr = a' ++ x' :: b') (hx : p x = some v) (hx' : p x' = some v) :
    a = a' ∧ x = x' ∧ b = b' := by
  -- two events with the value, one in the past of the other
  have htwice : ∀ {a m b : List α} {x x' : α}, p x = some v → p x' = some v →
      tr ≠ a ++ x :: (m ++ x' :: b) := by
    rintro a m b x x' hx hx' rfl
    rw [List.filterMap_append, List.nodup_append] at hn
    obtain ⟨-, hn, -⟩ := hn
    rw [List.filterMap_cons_some hx, List.nodup_cons] at hn
    refine hn.1 (List.mem_filterMap.mpr ⟨x', by simp, hx'⟩)
  rcases List.append_eq_append_iff.mp (h.symm.trans h') with ⟨m, ha, hb⟩ | ⟨m, ha, hb⟩
  · cases m with
    | nil =>
      obtain ⟨rfl, rfl⟩ := List.cons_eq_cons.mp hb
      exact ⟨by simpa using ha.symm, rfl, rfl⟩
    | cons y m =>
      obtain ⟨rfl, rfl⟩ := List.cons_eq_cons.mp hb
      exact absurd h (htwice hx hx')
  · cases m with
    | nil =>
      obtain ⟨rfl, rfl⟩ := List.cons_eq_cons.mp hb
      exact ⟨by simpa using ha, rfl, rfl⟩
    | cons y m =>
      obtain ⟨rfl, rfl⟩ := List.cons_eq_cons.mp hb
      exact absurd h' (htwice hx' hx)

/-! ## Machines -/

section Machine

variable {σ : Type} {step : α → σ → Option σ} {start : σ}

/-- The state after the history, `none` if some event was not enabled when it happened. -/
def after (step : α → σ → Option σ) (start : σ) : List α → Option σ
  | [] => some start
  | e :: tr => (after step start tr).bind (step e)

theorem after_append (new tr : List α) :
    after step start (new ++ tr) = (after step start tr).bind fun st => after step st new := by
  induction new with
  | nil => simp [after]
  | cons e new ih =>
    rw [List.cons_append, after, ih, Option.bind_assoc]
    rfl

theorem after_append_of_eq {new tr : List α} {st : σ} (h : after step start tr = some st) :
    after step start (new ++ tr) = after step st new := by
  rw [after_append, h, Option.bind_some]

theorem after_of_fixed {new : List α} (h : ∀ e ∈ new, step e start = some start) :
    after step start new = some start := by
  induction new with
  | nil => rfl
  | cons e new ih =>
    rw [after, ih fun x hx => h x (List.mem_cons_of_mem e hx), Option.bind_some,
      h e (List.mem_cons_self ..)]

theorem after_always {tr : List α} {st : σ} (h : after step start tr = some st) :
    Always (fun e past => ∃ a b, after step start past = some a ∧ step e a = some b) tr := by
  intro new e old htr
  rw [htr, after_append] at h
  obtain ⟨b, hb, -⟩ := Option.bind_eq_some_iff.mp h
  obtain ⟨a, ha, hab⟩ := Option.bind_eq_some_iff.mp hb
  exact ⟨a, b, ha, hab⟩

end Machine

/-! ## Collecting -/

/-- What the events yield that came after the newest one with `p`, oldest first. -/
def collected (p : α → Bool) (f : α → List β) : List α → List β
  | [] => []
  | e :: tr => if p e then [] else collected p f tr ++ f e

theorem collected_of_reset {p : α → Bool} {e : α} (h : p e = true) (f : α → List β) (tr : List α) :
    collected p f (e :: tr) = [] := if_pos h

theorem collected_cons {p : α → Bool} {e : α} (h : p e = false) (f : α → List β) (tr : List α) :
    collected p f (e :: tr) = collected p f tr ++ f e := if_neg (by rw [h]; nofun)

theorem exists_of_mem_collected {p : α → Bool} {f : α → List β} {x : β} {tr : List α}
    (h : x ∈ collected p f tr) :
    ∃ e ∈ tr, x ∈ f e := by
  induction tr with
  | nil => cases h
  | cons e tr ih =>
    unfold collected at h
    split_ifs at h
    · cases h
    · rcases List.mem_append.mp h with h | h
      · obtain ⟨e', he', hx⟩ := ih h
        exact ⟨e', List.mem_cons_of_mem e he', hx⟩
      · exact ⟨e, List.mem_cons_self .., h⟩

end History
