import Qnetd.Host.Client
import Qnetd.Invariant.Heartbeats
import Qnetd.Invariant.Isolation
import Qnetd.Invariant.Lifetime

/-!
# Deadlines

Dead-peer detection: which sessions `tick` finds silent, and when.

* `Closes`, `tick_closes` : `tick` closes the sessions that are due, each once, and moves no other
  deadline;
* `lastHeard` : the time of the last `on_connect` or `on_data` of a slot along a run;
* `Punctual`, `run_punctual` : every live session has the deadline that follows from the time it was
  last heard;
* `deadlines_exact`, `silent_handshake_closed` : what that means for a silent session, active or in
  its handshake.
-/

namespace Qnetd

/-! ## Closing -/

def TransportCall.closes : TransportCall → Option Slot
  | .closeConnection i => some i
  | .sendFrame _ _ => none

/-- The sessions of `l` are closed, each with one call and in this order. Of the others only what
votes write changes. -/
structure Closes (l : List Slot) (s s' : Server) : Prop where
  free : ∀ i ∈ l, (s'.sessions i).phase = .free
  kept : ∀ i, i ∉ l → (s'.sessions i).sansVotes = (s.sessions i).sansVotes
  calls : ∃ new, transportCalls s'.trace = transportCalls s.trace ++ new ∧
    new.filterMap TransportCall.closes = l

namespace Closes

variable {l l' : List Slot} {s t u : Server}

theorem refl (s : Server) : Closes [] s s :=
  ⟨nofun, fun _ _ => rfl, [], (List.append_nil _).symm, rfl⟩

theorem phase (h : Closes l s t) {i : Slot} (hi : i ∉ l) :
    (t.sessions i).phase = (s.sessions i).phase :=
  (congrArg Session.phase (h.kept i hi) :)

theorem deadlineMs (h : Closes l s t) {i : Slot} (hi : i ∉ l) :
    (t.sessions i).deadlineMs = (s.sessions i).deadlineMs :=
  (congrArg Session.deadlineMs (h.kept i hi) :)

theorem trans (h₁ : Closes l s t) (h₂ : Closes l' t u) : Closes (l ++ l') s u := by
  refine ⟨fun i hi => ?_, fun i hi => ?_, ?_⟩
  · by_cases hi' : i ∈ l'
    · exact h₂.free i hi'
    · rw [h₂.phase hi']
      exact h₁.free i ((List.mem_append.mp hi).resolve_right hi')
  · obtain ⟨h, h'⟩ := not_or.mp (mt List.mem_append.mpr hi)
    exact (h₂.kept i h').trans (h₁.kept i h)
  · obtain ⟨new₁, hc₁, hl₁⟩ := h₁.calls
    obtain ⟨new₂, hc₂, hl₂⟩ := h₂.calls
    exact ⟨new₁ ++ new₂, by rw [hc₂, hc₁, List.append_assoc],
      by rw [List.filterMap_append, hl₁, hl₂]⟩

end Closes

namespace Server

theorem filterMap_closes_frameTo (sent : List (Slot × Frame)) :
    (sent.map frameTo).filterMap TransportCall.closes = [] := by
  induction sent with
  | nil => rfl
  | cons p sent ih => exact ih

theorem leaveCluster_calls (s : Server) (i : Slot) :
    ∃ new, transportCalls (s.leaveCluster i).trace = transportCalls s.trace ++ new ∧
      new.filterMap TransportCall.closes = [] := by
  rcases leaveCluster_sent s i with h | ⟨c, sent, h, -⟩
  · exact ⟨[], by rw [h, List.append_nil], rfl⟩
  · exact ⟨sent.map frameTo, h.calls, filterMap_closes_frameTo sent⟩

/-- A disconnect closes the session and no other. -/
theorem disconnectClient_closes {s : Server} {i : Slot} (hs : Quiescent s) (ht : Table s)
    (hfree : (s.sessions i).phase ≠ .free) : Closes [i] s (s.disconnectClient i) := by
  obtain ⟨-, new, hiso⟩ := Moves.isolated (disconnectClient_moves i hs).1 ht
  refine ⟨fun j hj => ?_, fun j hj => hiso.votes j fun h => hj (by simp [h]), ?_⟩
  · rw [List.mem_singleton.mp hj]
    exact disconnectClient_free i hs
  · set t : Server := { s.modify i (fun x => { x with scheduleDisconnect := true }) with
      processing := true, pendingClose := [] } with hdef
    obtain ⟨sent, hcalls, hnone⟩ := leaveCluster_calls t i
    refine ⟨sent ++ [.closeConnection i], ?_, by rw [List.filterMap_append, hnone]; rfl⟩
    have htrace : transportCalls (s.disconnectClient i).trace =
        transportCalls (t.leaveCluster i).trace ++ [.closeConnection i] := by
      rw [disconnectClient_eq i hs hfree hdef]
      exact List.reverse_cons
    rw [htrace, hcalls, List.append_assoc]
    rfl

/-- The session is live and its deadline has come. -/
def due (s : Server) (now : UInt64) (i : Slot) : Bool :=
  (s.sessions i).phase ≠ .free ∧ (s.sessions i).deadlineMs ≠ 0 ∧ (s.sessions i).deadlineMs ≤ now

theorem tickSlot_of_quiescent {s : Server} (hs : Quiescent s) (now : UInt64) (i : Slot) :
    tickSlot now s i = if s.due now i then s.disconnectClient i else s := by
  simp only [tickSlot, due, hs.scheduleDisconnect i]
  split_ifs <;> grind

theorem tickSlot_closes {s : Server} (hs : Quiescent s) (ht : Table s) (now : UInt64) (i : Slot) :
    Closes ([i].filter (s.due now)) s (tickSlot now s i) ∧ Quiescent (tickSlot now s i) ∧
    Table (tickSlot now s i) := by
  rw [tickSlot_of_quiescent hs]
  split_ifs with hdue
  · obtain ⟨hm, hq⟩ := disconnectClient_moves i hs
    rw [List.filter_cons_of_pos hdue]
    exact ⟨disconnectClient_closes hs ht (of_decide_eq_true hdue).1, hq, (Moves.isolated hm ht).1⟩
  · rw [List.filter_cons_of_neg hdue]
    exact ⟨.refl s, hs, ht⟩

/-- `tick` closes the sessions that are due, each once, although the sessions it has yet to look at
are sent the votes of those it closes. -/
theorem tick_closes {s : Server} (hs : Quiescent s) (ht : Table s) (now : UInt64) :
    Closes ((List.finRange MAX_CLIENTS).filter (s.due now)) s (s.tick now) := by
  have hfold : ∀ (l : List Slot), l.Nodup → ∀ {t : Server}, Quiescent t → Table t →
      Closes (l.filter (t.due now)) t (l.foldl (tickSlot now) t) := by
    intro l
    induction l with
    | nil => exact fun _ t _ _ => .refl t
    | cons i l ih =>
      intro hl t hq htab
      obtain ⟨hi, hl⟩ := List.nodup_cons.mp hl
      obtain ⟨hc, hq', htab'⟩ := tickSlot_closes hq htab now i
      -- the iteration is about slot i alone, so what is due among the rest stays due
      have hdue : l.filter ((tickSlot now t i).due now) = l.filter (t.due now) := by
        refine List.filter_congr fun j hj => ?_
        have hne : j ∉ [i].filter (t.due now) := fun hmem => by
          rw [List.mem_singleton.mp (List.mem_of_mem_filter hmem)] at hj
          exact hi hj
        rw [due, due, hc.phase hne, hc.deadlineMs hne]
      have hrest := ih hl hq' htab'
      rw [hdue] at hrest
      have hall := hc.trans hrest
      rw [← List.filter_append] at hall
      exact hall
  exact hfold _ (List.nodup_finRange _) hs ht

end Server

/-! ## The time a session was last heard -/

def Call.time : Call → UInt64
  | .onConnect now _ | .onData _ _ now | .onDisconnected _ now | .tick now => now

/-- The time of the call, if it connects slot `i` or brings its data. -/
def Server.hears (s : Server) (i : Slot) : Call → Option UInt64
  | .onConnect now peer => if (s.onConnect now peer).1 = (i : Int) then some now else none
  | .onData slot _ now => if slot = (i : Int) then some now else none
  | .onDisconnected _ _ | .tick _ => none

/-- The server after the call, and the time slot `i` was last heard. -/
def Server.callHearing (i : Slot) (p : Server × Option UInt64) (k : Call) :
    Server × Option UInt64 :=
  (p.1.call k, (p.1.hears i k).or p.2)

/-- The time of the last `on_connect` or `on_data` of slot `i` along the run. -/
def lastHeard (n : UInt32) (calls : List Call) (i : Slot) : Option UInt64 :=
  (calls.foldl (Server.callHearing i) (Server.init n, none)).2

theorem foldl_callHearing_fst (n : UInt32) (calls : List Call) (i : Slot) :
    (calls.foldl (Server.callHearing i) (Server.init n, none)).1 = run n calls := by
  induction calls using List.reverseRecOn with
  | nil => rfl
  | append_singleton calls k ih =>
    rw [run_concat, ← ih, List.foldl_append]
    rfl

theorem lastHeard_concat (n : UInt32) (calls : List Call) (k : Call) (i : Slot) :
    lastHeard n (calls ++ [k]) i = ((run n calls).hears i k).or (lastHeard n calls i) := by
  rw [lastHeard, List.foldl_append, ← foldl_callHearing_fst n calls i]
  rfl

theorem hears_time {s : Server} {i : Slot} {k : Call} {t : UInt64} (h : s.hears i k = some t) :
    t = k.time := by
  cases k with
  | onConnect now peer | onData slot data now =>
    rw [Server.hears, Option.ite_none_right_eq_some, Option.some.injEq] at h
    exact h.2.symm
  | onDisconnected _ _ | tick _ => cases h

theorem lastHeard_time {n : UInt32} {calls : List Call} {i : Slot} {t : UInt64}
    (h : lastHeard n calls i = some t) :
    ∃ k ∈ calls, t = k.time := by
  induction calls using List.reverseRecOn with
  | nil => cases h
  | append_singleton calls k ih =>
    rw [lastHeard_concat, Option.or_eq_some_iff] at h
    rcases h with h | ⟨-, h⟩
    · exact ⟨k, by simp, hears_time h⟩
    · obtain ⟨k', hk, ht⟩ := ih h
      exact ⟨k', List.mem_append_left _ hk, ht⟩

/-- The session was last heard at `t`. -/
structure Session.Heard (t : UInt64) (x : Session) : Prop where
  timely : x.Timely t
  beating : x.Beating

theorem Session.Heard.of_sansVotes {t : UInt64} {x y : Session} (h : x.Heard t)
    (hy : y.sansVotes = x.sansVotes) : y.Heard t := by
  have hp : y.phase = x.phase := (congrArg Session.phase hy :)
  have hb : y.heartbeatMs = x.heartbeatMs := (congrArg Session.heartbeatMs hy :)
  exact ⟨h.timely.congr hp hb (congrArg Session.deadlineMs hy :), h.beating.congr hp hb⟩

/-- Every live session has the deadline that follows from the time it was last heard. -/
def Punctual (last : Slot → Option UInt64) (s : Server) : Prop :=
  ∀ i, (s.sessions i).phase ≠ .free → ∃ t, last i = some t ∧ (s.sessions i).Heard t

namespace Punctual

variable {last : Slot → Option UInt64} {s s' : Server}

/-- A session in which only votes have changed, or that has gone. -/
theorem keep (h : Punctual last s) {i : Slot} (hfree : (s'.sessions i).phase ≠ .free)
    (hkept : (s'.sessions i).sansVotes = (s.sessions i).sansVotes) :
    ∃ t, last i = some t ∧ (s'.sessions i).Heard t := by
  have hp : (s'.sessions i).phase = (s.sessions i).phase := (congrArg Session.phase hkept :)
  obtain ⟨t, ht, hx⟩ := h i (hp ▸ hfree)
  exact ⟨t, ht, hx.of_sansVotes hkept⟩

theorem onConnect (h : Punctual last s) (now : UInt64) (peer : String) :
    Punctual (fun i => (s.hears i (.onConnect now peer)).or (last i)) (s.onConnect now peer).2 := by
  intro i hfree
  simp only [Server.hears]
  cases hf : (List.finRange MAX_CLIENTS).find? (fun i => (s.sessions i).phase = .free) with
  | none =>
    have hdo : s.onConnect now peer = (-1, s) := by simp only [Server.onConnect, hf]
    rw [hdo] at hfree ⊢
    rw [if_neg (by omega)]
    exact h.keep hfree rfl
  | some j =>
    have hdo : s.onConnect now peer = ((j : Int), (s.modify j fun _ =>
        { phase := .waitPreinit, peer := peer, deadlineMs := now + PREACTIVE_TIMEOUT_MS }).emit
          (.connect j)) := by
      simp only [Server.onConnect, hf]
    rw [hdo] at hfree ⊢
    by_cases hij : i = j
    · subst hij
      refine ⟨now, by simp, ?_⟩
      rw [Server.emit_sessions, Server.modify_self]
      exact ⟨⟨nofun, nofun, fun _ => rfl⟩, Session.beating_of_not_active nofun⟩
    · have hval : (i : Nat) ≠ j := fun heq => hij (Fin.ext heq)
      rw [if_neg (by omega)]
      refine h.keep hfree ?_
      rw [Server.emit_sessions, Server.modify_of_ne _ _ hij]

theorem onData (h : Punctual last s) (hs : Quiescent s) (ht : Table s) (slot : Int) (data : Bytes)
    (now : UInt64) :
    Punctual (fun i => (s.hears i (.onData slot data now)).or (last i))
    (s.onData slot data now) := by
  intro i hfree
  simp only [Server.hears]
  by_cases hslot : slot = (i : Int)
  · subst hslot
    rw [if_pos rfl]
    refine ⟨now, rfl, ?_⟩
    by_cases hocc : (s.sessions i).phase = .free
    · rw [onData_of_free hocc] at hfree
      exact absurd hocc hfree
    · -- the heartbeat must have been in range before, since the data may leave it alone
      obtain ⟨_, -, hx⟩ := h i hocc
      obtain ⟨htimely, hbeat⟩ := (onData_timely hs hocc hx.beating data).resolve_left hfree
      exact ⟨htimely, hbeat⟩
  · rw [if_neg hslot]
    refine h.keep hfree ?_
    rcases Server.slot_cases slot with ⟨j, rfl⟩ | ⟨-, hout⟩
    · obtain ⟨-, new, hiso⟩ := Moves.isolated (Server.onData_moves j data now hs).1 ht
      exact hiso.votes i fun heq => hslot (by rw [heq])
    · rw [(hout s).1]

theorem onDisconnected (h : Punctual last s) (hs : Quiescent s) (ht : Table s) (slot : Int) :
    Punctual last (s.onDisconnected slot) := by
  intro i hfree
  rcases Server.slot_cases slot with ⟨j, rfl⟩ | ⟨-, hout⟩
  · obtain ⟨-, new, hiso⟩ := Moves.isolated (Server.onDisconnected_moves j hs).1 ht
    by_cases hij : i = j
    · subst hij
      exact absurd (Server.onDisconnected_free i hs) hfree
    · exact h.keep hfree (hiso.votes i hij)
  · rw [(hout s).2] at hfree ⊢
    exact h.keep hfree rfl

theorem tick (h : Punctual last s) (hs : Quiescent s) (ht : Table s) (now : UInt64) :
    Punctual last (s.tick now) := by
  intro i hfree
  have hc := Server.tick_closes hs ht now
  exact h.keep hfree (hc.kept i fun hi => hfree (hc.free i hi))

end Punctual

/-- Along every run the deadlines are those of the last time each session was heard. -/
theorem run_punctual (n : UInt32) (calls : List Call) :
    Punctual (lastHeard n calls) (run n calls) := by
  induction calls using List.reverseRecOn with
  | nil => exact fun i hfree => absurd rfl hfree
  | append_singleton calls k ih =>
    have hs := (run_steps n calls).2
    have ht := run_table n calls
    rw [run_concat, show lastHeard n (calls ++ [k]) =
      _ from funext fun i => lastHeard_concat n calls k i]
    cases k with
    | onConnect now peer => exact ih.onConnect now peer
    | onData slot data now => exact ih.onData hs ht slot data now
    | onDisconnected slot now => exact ih.onDisconnected hs ht slot
    | tick now => exact ih.tick hs ht now

/-! ## Dead-peer detection -/

/-- For how many milliseconds the session may be silent. -/
def Session.patience (x : Session) : Nat :=
  if x.phase = .active then 3 * x.heartbeatMs.toNat / 2 else PREACTIVE_TIMEOUT_MS.toNat

theorem Session.Heard.heartbeat_range {t : UInt64} {x : Session} (h : x.Heard t)
    (hact : x.phase = .active) : 1000 ≤ x.heartbeatMs.toNat ∧ x.heartbeatMs.toNat ≤ 120000 := by
  obtain ⟨hmin, hmax⟩ := h.beating hact
  exact ⟨UInt32.le_iff_toNat_le.mp hmin, UInt32.le_iff_toNat_le.mp hmax⟩

theorem Session.Heard.patience_range {t : UInt64} {x : Session} (h : x.Heard t) :
    0 < x.patience ∧ x.patience ≤ 180000 := by
  unfold Session.patience
  split_ifs with hact
  · have hrange := h.heartbeat_range hact
    omega
  · decide

/-- As long as the addition does not overflow, the deadline is the end of the session's patience. -/
theorem Session.Heard.deadline_toNat {t : UInt64} {x : Session} (h : x.Heard t)
    (hsum : t.toNat + x.patience < 2 ^ 64) : x.deadlineMs.toNat = t.toNat + x.patience := by
  unfold Session.patience at hsum ⊢
  by_cases hact : x.phase = .active
  · have hrange := h.heartbeat_range hact
    have hpos : x.heartbeatMs > 0 :=
      UInt32.lt_iff_toNat_lt.mpr (Nat.lt_of_lt_of_le (by decide) hrange.1)
    rw [if_pos hact] at hsum ⊢
    have hprod : 3 * x.heartbeatMs.toNat % 2 ^ 64 = 3 * x.heartbeatMs.toNat :=
      Nat.mod_eq_of_lt (by omega)
    rw [h.timely.active hact hpos, UInt64.toNat_add, UInt64.toNat_div, UInt64.toNat_mul,
      UInt32.toNat_toUInt64]
    change (t.toNat + 3 * x.heartbeatMs.toNat % 2 ^ 64 / 2) % 2 ^ 64 = _
    rw [hprod, Nat.mod_eq_of_lt hsum]
  · rw [if_neg hact] at hsum ⊢
    rw [h.timely.waiting hact, UInt64.toNat_add, Nat.mod_eq_of_lt hsum]

/-- The session has been silent for as long as it may be. -/
def overdue (n : UInt32) (calls : List Call) (now : UInt64) (i : Slot) : Bool :=
  ((run n calls).sessions i).phase ≠ .free ∧
    (lastHeard n calls i).any fun t => t.toNat + ((run n calls).sessions i).patience ≤ now.toNat

theorem due_of_silent {s : Server} {i : Slot} {t now : UInt64} (h : (s.sessions i).Heard t)
    (hlate : t.toNat + (s.sessions i).patience ≤ now.toNat) : s.due now i = true := by
  have hdead := h.deadline_toNat (lt_of_le_of_lt hlate now.toNat_lt)
  have hpos := h.patience_range.1
  refine decide_eq_true ⟨h.timely.live, fun hzero => ?_, UInt64.le_iff_toNat_le.mpr (by omega)⟩
  rw [hzero, UInt64.toNat_zero] at hdead
  omega

theorem run_deadline {n : UInt32} {calls : List Call} {i : Slot} {t : UInt64}
    (htimes : ∀ k ∈ calls, k.time.toNat < 2 ^ 63) (hlast : lastHeard n calls i = some t)
    (h : ((run n calls).sessions i).Heard t) :
    ((run n calls).sessions i).deadlineMs.toNat =
      t.toNat + ((run n calls).sessions i).patience := by
  obtain ⟨k, hk, rfl⟩ := lastHeard_time hlast
  have htime := htimes k hk
  have hmax := h.patience_range.2
  exact h.deadline_toNat (by omega)

theorem due_eq_overdue {n : UInt32} {calls : List Call}
    (htimes : ∀ k ∈ calls, k.time.toNat < 2 ^ 63) (now : UInt64)
    (i : Slot) : (run n calls).due now i = overdue n calls now i := by
  by_cases hfree : ((run n calls).sessions i).phase = .free
  · simp [Server.due, overdue, hfree]
  · obtain ⟨t, hlast, h⟩ := run_punctual n calls i hfree
    have hdead := run_deadline htimes hlast h
    have hpos := h.patience_range.1
    have hzero : ((run n calls).sessions i).deadlineMs ≠ 0 := fun hzero => by
      rw [hzero, UInt64.toNat_zero] at hdead
      omega
    simp [Server.due, overdue, hfree, hlast, hzero, UInt64.le_iff_toNat_le, hdead]

/-- Dead-peer detection is exact. A live session's deadline is the time it was last heard and its
patience, and `tick` closes the sessions that have been silent so long, each once, without moving
another's deadline. The times of the calls may come in any order. -/
theorem deadlines_exact (n : UInt32) (calls : List Call)
    (htimes : ∀ k ∈ calls, k.time.toNat < 2 ^ 63) :
    (∀ i, ((run n calls).sessions i).phase ≠ .free → ∃ t, lastHeard n calls i = some t ∧
      ((run n calls).sessions i).deadlineMs.toNat = t.toNat + ((run n calls).sessions i).patience ∧
      (((run n calls).sessions i).phase = .active →
        1000 ≤ ((run n calls).sessions i).heartbeatMs.toNat ∧
          ((run n calls).sessions i).heartbeatMs.toNat ≤ 120000)) ∧
    ∀ now, Closes ((List.finRange MAX_CLIENTS).filter (overdue n calls now)) (run n calls)
    ((run n calls).tick now) ∧
      ∀ i, overdue n calls now i = false →
        (((run n calls).tick now).sessions i).deadlineMs =
          ((run n calls).sessions i).deadlineMs := by
  refine ⟨fun i hfree => ?_, fun now => ?_⟩
  · obtain ⟨t, hlast, h⟩ := run_punctual n calls i hfree
    exact ⟨t, hlast, run_deadline htimes hlast h, h.heartbeat_range⟩
  · have hc := Server.tick_closes (run_steps n calls).2 (run_table n calls) now
    rw [show (run n calls).due now =
      overdue n calls now from funext (due_eq_overdue htimes now)] at hc
    refine ⟨hc, fun i hi => hc.deadlineMs fun hmem => ?_⟩
    rw [(List.mem_filter.mp hmem).2] at hi
    cases hi

/-- Two sessions, of which the second has stopped after its handshake. -/
def halfSilent : List Call :=
  Rig.join 0 [97] 1 ⟨1, 1⟩ ++ Rig.join 1 [97] 2 ⟨1, 1⟩ ++ [.onData 0 [] 9000]

theorem deadlines_exact_halfSilent :
    (∀ k ∈ halfSilent, k.time.toNat < 2 ^ 63) ∧
    (∃ t, lastHeard 32768 halfSilent 0 = some t ∧
      ((run 32768 halfSilent).sessions 0).deadlineMs.toNat =
        t.toNat + ((run 32768 halfSilent).sessions 0).patience) ∧
    (List.finRange MAX_CLIENTS).filter (overdue 32768 halfSilent 13000) = [1] ∧
    Closes [1] (run 32768 halfSilent) ((run 32768 halfSilent).tick 13000) := by
  have htimes : ∀ k ∈ halfSilent, k.time.toNat < 2 ^ 63 := by decide +kernel
  have hrun : ((run 32768 halfSilent).sessions 0).phase ≠ .free ∧
      (List.finRange MAX_CLIENTS).filter (overdue 32768 halfSilent 13000) = [1] := by decide +kernel
  obtain ⟨hdead, htick⟩ := deadlines_exact 32768 halfSilent htimes
  obtain ⟨t, hlast, ht, -⟩ := hdead 0 hrun.1
  exact ⟨htimes, ⟨t, hlast, ht⟩, hrun.2, hrun.2 ▸ (htick 13000).1⟩

/-! ## The handshake -/

/-- A session that connects and sends a byte of its first frame when most of the timeout is over. -/
def drip : List Call := [.onConnect 1000 "test-peer", .onData 0 [0] 20000, .tick 31000]

/-- A handshake that drips is not capped: data moves the deadline of a session that is not active,
too. -/
theorem dripping_handshake_stays :
    (drip.map Call.time).Pairwise (· ≤ ·) ∧ ((Server.init 32768).onConnect 1000 "test-peer").1 = 0 ∧
      31000 ≥ 1000 + PREACTIVE_TIMEOUT_MS ∧ ((run 32768 drip).sessions 0).phase = .waitPreinit := by
  decide +kernel

/-- A silent handshake is capped. After `tick` a session that is still in its handshake was heard
less than `PREACTIVE_TIMEOUT_MS` ago, whatever it has sent. -/
theorem silent_handshake_closed (n : UInt32) (calls : List Call) (now : UInt64) (i : Slot)
    (hwait : ((run n (calls ++ [.tick now])).sessions i).phase = .waitPreinit ∨
      ((run n (calls ++ [.tick now])).sessions i).phase = .waitInit) :
    ∃ t, lastHeard n calls i = some t ∧ now.toNat < t.toNat + PREACTIVE_TIMEOUT_MS.toNat := by
  rw [run_concat] at hwait
  have hc := Server.tick_closes (run_steps n calls).2 (run_table n calls) now
  have hopen : i ∉ (List.finRange MAX_CLIENTS).filter ((run n calls).due now) := fun hmem => by
    rcases hwait with h | h <;>
    · rw [Server.call, hc.free i hmem] at h
      cases h
  rw [Server.call, hc.phase hopen] at hwait
  have hlive : ((run n calls).sessions i).phase ≠ .free ∧
      ((run n calls).sessions i).phase ≠ .active := by
    rcases hwait with h | h <;>
    · rw [h]
      decide
  obtain ⟨t, hlast, h⟩ := run_punctual n calls i hlive.1
  refine ⟨t, hlast, ?_⟩
  by_contra hlate
  have hpatience : ((run n calls).sessions i).patience = PREACTIVE_TIMEOUT_MS.toNat :=
    if_neg hlive.2
  have hdue : (run n calls).due now i = true := due_of_silent h (by omega)
  exact hopen (List.mem_filter.mpr ⟨List.mem_finRange i, hdue⟩)

theorem silent_handshake_closed_drip :
    ∃ t, lastHeard 32768 (drip.take 2) 0 = some t ∧
    (31000 : UInt64).toNat < t.toNat + PREACTIVE_TIMEOUT_MS.toNat :=
  silent_handshake_closed 32768 (drip.take 2) 31000 0 (Or.inl (by decide +kernel))

end Qnetd
