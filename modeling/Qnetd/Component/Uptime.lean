import Qnetd.Component.Clock
import Qnetd.Component.Refine
import Qnetd.Invariant.Deadlines

/-!
# Dead peers, by the uptime

The clock of the component, its loop and the deadlines of the server put together. The server only
sees the times that `now_ms_` makes of a 32-bit counter; that they add up to dead-peer detection by
the uptime, however often the counter has wrapped, is a property of the three.

* `loopCalls_time`, `runCalls_time` : every call of an iteration has the time of the iteration;
* `callsBeforeTick` : the calls of an iteration before its `tick`;
* `dead_peers_closed` : an iteration closes the peers that have been silent too long by the uptime,
  and leaves none.
-/

namespace Qnetd

namespace QnetdComponent

variable {w : Writes}

/-! ## The times of the calls -/

theorem readCalls_time {now : UInt64} {i : Slot} : ∀ {rs : List ReadResult} {c : QnetdComponent},
    ∀ k ∈ readCalls w now i rs c, k.time = now
  | [], _, _, hk => by cases hk
  | r :: rs, c, k, hk => by
    unfold readCalls at hk
    split at hk
    · cases hk
    · split_ifs at hk
      · cases hk
      · cases r with
        | data b =>
          rcases List.mem_cons.mp hk with rfl | hk
          · rfl
          · exact readCalls_time k hk
        | eof | failed =>
          obtain rfl := List.mem_singleton.mp hk
          rfl
        | wouldBlock => cases hk

theorem serviceCalls_time {now : UInt64} {reads : Slot → List ReadResult} {c : QnetdComponent}
    {i : Slot} :
    ∀ k ∈ c.serviceCalls w now reads i, k.time = now := by
  intro k hk
  unfold serviceCalls at hk
  split at hk
  · cases hk
  · split_ifs at hk
    · cases hk
    · exact readCalls_time k hk

theorem servicesCalls_time {now : UInt64} {reads : Slot → List ReadResult} :
    ∀ {l : List Slot} {c : QnetdComponent},
    ∀ k ∈ servicesCalls w now reads l c, k.time = now
  | [], _, _, hk => by cases hk
  | i :: l, c, k, hk => by
    rcases List.mem_append.mp hk with hk | hk
    · exact serviceCalls_time k hk
    · exact servicesCalls_time k hk

/-- The calls of an iteration before its `tick`. -/
def callsBeforeTick (w : Writes) (c : QnetdComponent) (it : Iteration) : List Call :=
  it.accepted.map (fun a => Call.onConnect (c.nowMs it.millis).1 a.2) ++
    servicesCalls w (c.nowMs it.millis).1 it.reads (List.finRange MAX_CLIENTS)
      (it.accepted.foldl (acceptOne w (c.nowMs it.millis).1) (c.nowMs it.millis).2)

theorem loopCalls_eq {c : QnetdComponent} (hc : c.failed = false) (it : Iteration) :
    c.loopCalls w it = c.callsBeforeTick w it ++ [.tick (c.nowMs it.millis).1] := by
  rw [loopCalls, if_neg (by rw [hc]; decide)]
  rfl

theorem loopCalls_time {c : QnetdComponent} (hc : c.failed = false) {it : Iteration} :
    ∀ k ∈ c.loopCalls w it, k.time = (c.nowMs it.millis).1 := by
  intro k hk
  rw [loopCalls_eq hc, callsBeforeTick, List.append_assoc] at hk
  rcases List.mem_append.mp hk with hk | hk
  · obtain ⟨a, -, rfl⟩ := List.mem_map.mp hk
    rfl
  · rcases List.mem_append.mp hk with hk | hk
    · exact servicesCalls_time k hk
    · obtain rfl := List.mem_singleton.mp hk
      rfl

theorem loop_failed {c : QnetdComponent} (hc : c.failed = false) (it : Iteration) :
    (c.loop w it).failed = false :=
  (congrArg (Prod.snd ∘ Prod.snd) (loop_ticking w hc it) :).trans hc

/-- Every call has the time of its iteration. -/
theorem runCalls_time : ∀ {its : List Iteration} {c : QnetdComponent}, c.failed = false →
    ∀ k ∈ runCalls w its c, k.time ∈ c.times w its
  | [], _, _, _, hk => by cases hk
  | it :: its, c, hc, k, hk => by
    rw [times, if_neg (by rw [hc]; decide)]
    rcases List.mem_append.mp hk with hk | hk
    · rw [loopCalls_time hc k hk]
      exact List.mem_cons_self ..
    · exact List.mem_cons_of_mem _ (runCalls_time (loop_failed hc it) k hk)

theorem foldl_loop_failed {its : List Iteration} {c : QnetdComponent} (hc : c.failed = false) :
    (its.foldl (loop w) c).failed = false := by
  induction its generalizing c with
  | nil => exact hc
  | cons it its ih => exact ih (loop_failed hc it)

theorem runCalls_append (its its' : List Iteration) (c : QnetdComponent) :
    runCalls w (its ++ its') c = runCalls w its c ++ runCalls w its' (its.foldl (loop w) c) := by
  induction its generalizing c with
  | nil => rfl
  | cons it its ih =>
    rw [List.cons_append, runCalls, ih, runCalls, List.append_assoc, List.foldl_cons]

theorem times_append {its its' : List Iteration} {c : QnetdComponent} (hc : c.failed = false) :
    c.times w (its ++ its') = c.times w its ++ (its.foldl (loop w) c).times w its' := by
  induction its generalizing c with
  | nil => rfl
  | cons it its ih =>
    rw [List.cons_append, times, if_neg (by rw [hc]; decide), ih (loop_failed hc it), times,
      if_neg (by rw [hc]; decide)]
    rfl

/-! ## The iterations of a run -/

section Run

variable (w : Writes) (its : List Iteration) (it : Iteration)

theorem run_failed : (run w true its).failed = false := foldl_loop_failed rfl

theorem times_concat :
    (setup true).times w (its ++ [it]) =
      (setup true).times w its ++ [((run w true its).nowMs it.millis).1] := by
  have hlast : (run w true its).times w [it] = [((run w true its).nowMs it.millis).1] := by
    rw [times, if_neg (by rw [run_failed]; decide)]
    rfl
  rw [times_append rfl, ← hlast]
  rfl

theorem runCalls_concat :
    runCalls w (its ++ [it]) (setup true) =
      runCalls w its (setup true) ++ (run w true its).callsBeforeTick w it ++
      [.tick ((run w true its).nowMs it.millis).1] := by
  have hlast : runCalls w [it] (run w true its) =
      (run w true its).callsBeforeTick w it ++ [.tick ((run w true its).nowMs it.millis).1] := by
    rw [← loopCalls_eq (run_failed w its) it]
    exact List.append_nil _
  rw [runCalls_append, List.append_assoc, ← hlast]
  rfl

/-- The times of the iterations are the uptimes, where `millis()` is the uptime modulo `2^32`. -/
theorem times_uptime {us : List Nat} (hmillis : its.map Iteration.millis = us.map .ofNat)
    (hfirst : ∀ u ∈ us.head?, u < 2 ^ 32) (hnear : us.IsChain fun u v => u ≤ v ∧ v - u < 2 ^ 32)
    (hbound : ∀ u ∈ us, u < 2 ^ 64) : ((setup true).times w its).map UInt64.toNat = us := by
  rw [times_eq_clock w its rfl, hmillis]
  refine clock_eq (u := 0) ⟨rfl, rfl⟩ ?_ hbound
  cases us with
  | nil => exact .singleton 0
  | cons u us => exact .cons_cons ⟨Nat.zero_le u, hfirst u rfl⟩ hnear

theorem live_of_used {i : Slot} (h : ((run w true its).conns i).used = true) :
    ((run w true its).server.sessions i).phase ≠ .free := by
  have hagrees := run_agrees w true its
  exact fun hfree => (hagrees.tracks.used i).mp h (Server.life_eq_idle.mpr hfree)

end Run

end QnetdComponent

/-! ## Silence by the uptime -/

/-- The uptime at which slot `i` was last heard. -/
def heardAt (calls : List Call) (i : Slot) : Option Nat :=
  (lastHeard 32768 calls i).map UInt64.toNat

theorem heardAt_mem {calls : List Call} {us : List Nat} (htimes : ∀ k ∈ calls, k.time.toNat ∈ us)
    {i : Slot} {v : Nat} (h : heardAt calls i = some v) : v ∈ us := by
  obtain ⟨t, hlast, rfl⟩ := Option.map_eq_some_iff.mp h
  obtain ⟨k, hk, rfl⟩ := lastHeard_time hlast
  exact htimes k hk

theorem overdue_iff {calls : List Call} {now : UInt64} {i : Slot} :
    overdue 32768 calls now i = true ↔ ((run 32768 calls).sessions i).phase ≠ .free ∧
      ∃ v, heardAt calls i = some v ∧ v + ((run 32768 calls).sessions i).patience ≤ now.toNat := by
  simp only [overdue, decide_eq_true_eq, Option.any_eq_true, heardAt, Option.map_eq_some_iff]
  constructor
  · rintro ⟨hlive, t, hlast, hle⟩
    exact ⟨hlive, t.toNat, ⟨t, hlast, rfl⟩, hle⟩
  · rintro ⟨hlive, v, ⟨t, hlast, rfl⟩, hle⟩
    exact ⟨hlive, t, hlast, hle⟩

theorem Closes.patience {l : List Slot} {s t : Server} (h : Closes l s t) {i : Slot} (hi : i ∉ l) :
    (t.sessions i).patience = (s.sessions i).patience := by
  have hbeat : (t.sessions i).heartbeatMs = (s.sessions i).heartbeatMs :=
    (congrArg Session.heartbeatMs (h.kept i hi) :)
  rw [Session.patience, Session.patience, h.phase hi, hbeat]

/-- What the next tick of the clock does, where the clock reads the uptime. -/
theorem tick_by_uptime {calls : List Call} {us : List Nat} (now : UInt64)
    (htimes : ∀ k ∈ calls, k.time.toNat ∈ us) (hbound : ∀ v ∈ us, v < 2 ^ 63) :
    (∃ closed, Closes closed (run 32768 calls) (run 32768 (calls ++ [.tick now])) ∧
      ∀ i, i ∈ closed ↔ ((run 32768 calls).sessions i).phase ≠ .free ∧
        ∃ v ∈ us, heardAt calls i = some v ∧
          v + ((run 32768 calls).sessions i).patience ≤ now.toNat) ∧
    ∀ i, ((run 32768 (calls ++ [.tick now])).sessions i).phase ≠ .free →
      ∃ v ∈ us, heardAt (calls ++ [.tick now]) i = some v ∧
        now.toNat < v + ((run 32768 (calls ++ [.tick now])).sessions i).patience := by
  have hcloses := Server.tick_closes (run_steps 32768 calls).2 (run_table 32768 calls) now
  rw [show (run 32768 calls).due now = overdue 32768 calls now from
    funext (due_eq_overdue (fun k hk => hbound _ (htimes k hk)) now)] at hcloses
  have hrun : run 32768 (calls ++ [.tick now]) = (run 32768 calls).tick now :=
    run_concat 32768 calls (.tick now)
  rw [hrun]
  refine ⟨⟨_, hcloses, fun i => ?_⟩, fun i hlive => ?_⟩
  · rw [List.mem_filter, overdue_iff]
    constructor
    · rintro ⟨-, hlive, v, hv, hle⟩
      exact ⟨hlive, v, heardAt_mem htimes hv, hv, hle⟩
    · rintro ⟨hlive, v, -, hv, hle⟩
      exact ⟨List.mem_finRange i, hlive, v, hv, hle⟩
  · have hopen : i ∉ (List.finRange MAX_CLIENTS).filter (overdue 32768 calls now) :=
      fun hmem => hlive (hcloses.free i hmem)
    have hlive' : ((run 32768 calls).sessions i).phase ≠ .free := hcloses.phase hopen ▸ hlive
    obtain ⟨t, hlast, -⟩ := run_punctual 32768 calls i hlive'
    have hheard : heardAt calls i = some t.toNat := by rw [heardAt, hlast, Option.map_some]
    have hsame : heardAt (calls ++ [.tick now]) i = heardAt calls i := by
      have hnone : (run 32768 calls).hears i (.tick now) = none := rfl
      rw [heardAt, heardAt, lastHeard_concat, hnone, Option.none_or]
    refine ⟨t.toNat, heardAt_mem htimes hheard, hsame.trans hheard, ?_⟩
    rw [hcloses.patience hopen]
    by_contra hle
    exact hopen
      (List.mem_filter.mpr
      ⟨List.mem_finRange i, overdue_iff.mpr ⟨hlive', _, hheard, not_lt.mp hle⟩⟩)

/-- Dead peers are found by the uptime. Let `us` and then `u` be the uptimes of the iterations, the
first below `2^32` and each less than that after the one before. However often `millis()` has
wrapped, the last `tick` closes the connections that were last heard so long ago, by the uptime, as
their patience lasts, and no other. Every connection that is then open was heard within its
patience. -/
theorem dead_peers_closed (w : Writes) (its : List Iteration) (it : Iteration) (us : List Nat) (u : Nat)
    (hmillis : (its ++ [it]).map Iteration.millis = (us ++ [u]).map .ofNat)
    (hfirst : ∀ v ∈ (us ++ [u]).head?, v < 2 ^ 32)
    (hnear : (us ++ [u]).IsChain fun u v => u ≤ v ∧ v - u < 2 ^ 32) (hbound : ∀ v ∈ us ++ [u], v < 2 ^ 63) :
    let calls := QnetdComponent.runCalls w its (.setup true) ++ (QnetdComponent.run w true its).callsBeforeTick w it
    let c := QnetdComponent.run w true (its ++ [it])
    (∃ closed, Closes closed (run 32768 calls) c.server ∧
      ∀ i, i ∈ closed ↔ ((run 32768 calls).sessions i).phase ≠ .free ∧
        ∃ v ∈ us ++ [u], heardAt calls i = some v ∧ v + ((run 32768 calls).sessions i).patience ≤ u) ∧
    ∀ i, (c.conns i).used = true →
      ∃ v ∈ us ++ [u], heardAt (calls ++ [.tick (.ofNat u)]) i = some v ∧ u < v + (c.server.sessions i).patience := by
  dsimp only
  have huptimes := QnetdComponent.times_uptime w (its ++ [it]) hmillis hfirst hnear
    fun v hv => (hbound v hv).trans (by decide)
  have hserver := QnetdComponent.run_server w true (its ++ [it])
  rw [QnetdComponent.runCalls_concat] at hserver
  -- every call of the run has one of the uptimes, and the last of them is that of the tick
  have htimes : ∀ k ∈ QnetdComponent.runCalls w (its ++ [it]) (.setup true), k.time.toNat ∈ us ++ [u] := by
    intro k hk
    rw [← huptimes]
    exact List.mem_map_of_mem (QnetdComponent.runCalls_time rfl k hk)
  have hnow : ((QnetdComponent.run w true its).nowMs it.millis).1.toNat = u := by
    rw [QnetdComponent.times_concat, List.map_append] at huptimes
    exact List.singleton_inj.mp (List.append_inj' huptimes rfl).2
  have hofNat : UInt64.ofNat u = ((QnetdComponent.run w true its).nowMs it.millis).1 := by
    rw [← hnow, UInt64.ofNat_toNat]
  rw [QnetdComponent.runCalls_concat] at htimes
  obtain ⟨hclosed, hopen⟩ := tick_by_uptime ((QnetdComponent.run w true its).nowMs it.millis).1
    (fun k hk => htimes k (List.mem_append_left _ hk)) hbound
  rw [hnow] at hclosed hopen
  rw [hserver, hofNat]
  exact ⟨hclosed, fun i hused => hopen i (hserver ▸ QnetdComponent.live_of_used w _ hused)⟩

/-- A peer that connects just before the counter wraps and says nothing, and another that connects
when its time is up. -/
def silentAcrossWrap : List Iteration :=
  [⟨4294967290, [(7, "a")], fun _ => []⟩, ⟨29994, [(8, "b")], fun _ => []⟩]

theorem dead_peers_closed_wraps :
    let c := QnetdComponent.run (fun _ _ => .wouldBlock) true silentAcrossWrap
    (c.conns 0).used = false ∧ ∃ v ∈ [4294967290, 4294997290],
      heardAt ([.onConnect 4294967290 "a", .tick 4294967290, .onConnect 4294997290 "b", .tick 4294997290]) 1 = some v ∧
        4294997290 < v + (c.server.sessions 1).patience := by
  have hrun : (let c := QnetdComponent.run (fun _ _ => .wouldBlock) true silentAcrossWrap
      (c.conns 0).used = false ∧ (c.conns 1).used = true) := by decide +kernel
  obtain ⟨-, hopen⟩ := dead_peers_closed (fun _ _ => .wouldBlock) [⟨4294967290, [(7, "a")], fun _ => []⟩]
    ⟨29994, [(8, "b")], fun _ => []⟩ [4294967290] 4294997290 rfl (by decide) (by simp) (by decide)
  exact ⟨hrun.1, hopen 1 hrun.2⟩

end Qnetd
