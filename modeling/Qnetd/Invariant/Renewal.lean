import Qnetd.Host.Client
import Qnetd.Invariant.Delivery
import Qnetd.Server.Rebase

/-!
# An empty server starts over

A session that goes takes everything it left with it: its slot is as new, and so is its cluster when
it was the last member.

* `Cleared` : a free slot holds nothing, no buffer and no field of an earlier session; `run_cleared`
  : it is so after every call;
* `run_of_free` : when nobody is connected, the server is a new one on top of what it has counted
  and sent;
* `empty_server_starts_over` : from then on it does what a new server would.
-/

namespace Qnetd

/-- A free slot holds nothing of an earlier session. -/
def Cleared (s : Server) : Prop := ∀ i, (s.sessions i).phase = .free → s.sessions i = {}

theorem onData_cleared {i : Slot} {s : Server} (hs : Quiescent s)
    (hlive : (s.sessions i).phase ≠ .free) (data : Bytes)
    (now : UInt64) (hfree : ((s.onData i data now).sessions i).phase = .free) :
    (s.onData i data now).sessions i = {} := by
  have hr : Reading i now (s.opened i now) := hs.opened hlive
  have hu := (hr.consumed ((s.sessions i).rx ++ data)).1
  rw [onData_eq hs hlive data hr fun _ => rfl] at hfree ⊢
  unfold Server.delivered at hfree ⊢
  by_cases hc :
    (((s.opened i now).consumed i now ((s.sessions i).rx ++ data)).sessions i).scheduleDisconnect =
    true
  · rw [if_pos hc]
    exact hu.drainCloses_cleared hc
  · rw [if_neg hc] at hfree
    change ((Server.withRx _ i _).sessions i).phase = .free at hfree
    rw [Server.withRx_self] at hfree
    exact absurd hfree hu.timely.live

/-! ## Free slots -/

namespace Cleared

variable {i : Slot} {s s' : Server}

theorem moves (h : Cleared s) (ht : Table s) (hm : Moves i s s')
    (hself : (s'.sessions i).phase = .free → s'.sessions i = {}) : Cleared s' := by
  intro j hj
  by_cases hji : j = i
  · subst hji
    exact hself hj
  · obtain ⟨-, new, hiso⟩ := Moves.isolated hm ht
    have hphase : (s'.sessions j).phase = (s.sessions j).phase :=
      (congrArg Session.phase (hiso.votes j hji) :)
    have hfree : (s.sessions j).phase = .free := hphase.symm.trans hj
    have hsame : s'.sessions j = s.sessions j :=
      hiso.sessions j hji fun c _ => by simp [Server.inCluster, hfree]
    rw [hsame]
    exact h j hfree

theorem onConnect (h : Cleared s) (now : UInt64) (peer : String) :
    Cleared (s.onConnect now peer).2 := by
  unfold Server.onConnect
  split
  · exact h
  · next i _ =>
    intro j hj
    simp only [Server.emit_sessions, Server.modify_apply] at hj ⊢
    split_ifs at hj ⊢ with hji
    exact h j hj

theorem onData (h : Cleared s) (hs : Quiescent s) (ht : Table s) (i : Slot) (data : Bytes)
    (now : UInt64) : Cleared (s.onData i data now) := by
  by_cases hlive : (s.sessions i).phase = .free
  · rw [onData_of_free hlive]
    exact h
  · exact h.moves ht (Server.onData_moves i data now hs).1 (onData_cleared hs hlive data now)

theorem onDisconnected (h : Cleared s) (hs : Quiescent s) (ht : Table s) (i : Slot) :
    Cleared (s.onDisconnected i) := by
  by_cases hlive : (s.sessions i).phase = .free
  · rw [Server.onDisconnected_slot, if_pos hlive]
    exact h
  · rw [Server.onDisconnected_slot, if_neg hlive]
    exact h.moves ht (Server.dropClient_turn i hs).1 fun _ => Server.dropClient_cleared hs

theorem tickSlot (h : Cleared s) (hs : Quiescent s) (ht : Table s) (now : UInt64) (i : Slot) :
    Cleared (s.tickSlot now i) ∧ Quiescent (s.tickSlot now i) ∧ Table (s.tickSlot now i) := by
  simp only [Server.tickSlot]
  split_ifs with hskip
  · exact ⟨h, hs, ht⟩
  · obtain ⟨hm, hq⟩ := Server.disconnectClient_moves i hs
    have hlive : (s.sessions i).phase ≠ .free := fun hfree => hskip (Or.inl hfree)
    exact ⟨h.moves ht hm fun _ => Server.disconnectClient_cleared hs hlive, hq,
      (Moves.isolated hm ht).1⟩
  · exact ⟨h, hs, ht⟩

theorem foldl_tickSlot (now : UInt64) (l : List Slot) (h : Cleared s) (hs : Quiescent s)
    (ht : Table s) : Cleared (l.foldl (Server.tickSlot now) s) := by
  induction l generalizing s with
  | nil => exact h
  | cons i l ih =>
    obtain ⟨h', hs', ht'⟩ := h.tickSlot hs ht now i
    exact ih h' hs' ht'

theorem call (h : Cleared s) (hs : Quiescent s) (ht : Table s) (k : Call) : Cleared (s.call k) := by
  cases k with
  | onConnect now peer => exact h.onConnect now peer
  | onData slot data now =>
    rcases Server.slot_cases slot with ⟨i, rfl⟩ | ⟨-, hout⟩
    · exact h.onData hs ht i data now
    · rw [Server.call, (hout s).1]
      exact h
  | onDisconnected slot now =>
    rcases Server.slot_cases slot with ⟨i, rfl⟩ | ⟨-, hout⟩
    · exact h.onDisconnected hs ht i
    · rw [Server.call, (hout s).2]
      exact h
  | tick now => exact h.foldl_tickSlot now _ hs ht

end Cleared

theorem run_cleared (n : UInt32) (calls : List Call) : Cleared (run n calls) := by
  induction calls using List.reverseRecOn with
  | nil => exact fun _ _ => rfl
  | append_singleton calls k ih =>
    rw [run_concat]
    exact ih.call (run_steps n calls).2 (run_table n calls) k

/-! ## Nobody is connected -/

theorem Table.clusters_of_free {s : Server} (h : Table s)
    (hfree : ∀ i, (s.sessions i).phase = .free) (c : Int) : s.clusters c = {} := by
  have hroster : s.roster c = ∅ := by
    ext i
    simp [Server.mem_roster, Server.inCluster, hfree i]
  have hmembers : (s.clusters c).members = 0 := by
    rw [h.members c, hroster]
    rfl
  refine h.unused c (Bool.eq_false_iff.mpr fun hused => ?_)
  have hpos := (h.used_iff c).mp hused
  omega

/-- When nobody is connected, the server is a new one, on top of what it has counted and sent. -/
theorem run_of_free {n : UInt32} {calls : List Call}
    (hfree : ∀ i, ((run n calls).sessions i).phase = .free) :
    run n calls = (Server.init n).rebase (run n calls).decisions (run n calls).trace := by
  have hsessions : (run n calls).sessions = fun _ => {} :=
    funext fun i => run_cleared n calls i (hfree i)
  have hclusters : (run n calls).clusters = fun _ => {} :=
    funext ((run_table n calls).clusters_of_free hfree)
  have hmax := run_maxRxFrame n calls
  have hq := (run_steps n calls).2
  generalize run n calls = s at hsessions hclusters hmax hq
  obtain ⟨max, sessions, clusters, pendingClose, processing, decisions, trace⟩ := s
  obtain ⟨hp, hpending, -⟩ := hq
  simp only at hsessions hclusters hmax hp hpending
  subst hsessions hclusters hmax hp hpending
  simp [Server.rebase, Server.init]

theorem run_append_of_free {n : UInt32} {calls : List Call}
    (hfree : ∀ i, ((run n calls).sessions i).phase = .free) (later : List Call) :
    run n (calls ++ later) = (run n later).rebase (run n calls).decisions (run n calls).trace := by
  calc run n (calls ++ later)
      = later.foldl Server.call (run n calls) := List.foldl_append
    _ = later.foldl Server.call ((Server.init n).rebase (run n calls).decisions
      (run n calls).trace) :=
        congrArg (later.foldl Server.call) (run_of_free hfree)
    _ = (run n later).rebase (run n calls).decisions (run n calls).trace :=
      Server.foldl_call_rebase _ _ later _

/-- An empty server starts over. When every slot is free after some calls, whatever they were, the
calls that follow do what they would on a new server: the sessions and the clusters are those of a
new server, the transport is handed the same frames and closes in the same order, and as many
decisions are added to the count. -/
theorem empty_server_starts_over (n : UInt32) (calls later : List Call)
    (hfree : ∀ i, ((run n calls).sessions i).phase = .free) :
    (run n (calls ++ later)).sessions = (run n later).sessions ∧
    (run n (calls ++ later)).clusters = (run n later).clusters ∧
    (run n (calls ++ later)).decisions = (run n calls).decisions + (run n later).decisions ∧
    transportCalls (run n (calls ++ later)).trace =
      transportCalls (run n calls).trace ++ transportCalls (run n later).trace := by
  rw [run_append_of_free hfree later]
  refine ⟨rfl, rfl, rfl, ?_⟩
  rw [Server.rebase, transportCalls, List.filterMap_append, List.reverse_append]
  rfl

/-- A node joins, reports its lists and goes. -/
def cameAndWent : List Call :=
  Rig.join 0 [116] 1 {} ++
    Rig.feed 0 [MockClient.configList 3 .initialConfig [1], MockClient.membership 4 {} [1]] ++
    [.onDisconnected 0 2000]

/-- When it comes again, the transport is handed the same once more. -/
theorem empty_server_starts_over_cameAndWent :
    0 < (run 32768 cameAndWent).decisions ∧
      transportCalls (run 32768 (cameAndWent ++ cameAndWent)).trace =
        transportCalls (run 32768 cameAndWent).trace ++ transportCalls
        (run 32768 cameAndWent).trace := by
  have hrun : 0 < (run 32768 cameAndWent).decisions ∧
      ∀ i, ((run 32768 cameAndWent).sessions i).phase = .free := by
    decide +kernel
  exact ⟨hrun.1, (empty_server_starts_over 32768 cameAndWent cameAndWent hrun.2).2.2.2⟩

end Qnetd
