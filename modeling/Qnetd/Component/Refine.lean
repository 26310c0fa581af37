import Qnetd.Component.Slots

/-!
# The component runs the server

The loop of the component seen from the server: the calls an iteration makes, and that the server it
holds is the one these calls lead to. What holds of every run of the server thus holds of the server
in the component, and what the component has noted of the server's events is the server's history.

* `readCalls`, `serviceCalls`, `loopCalls` : the calls that a connection and an iteration make, in
  the order of the loop; `runCalls` : those of some iterations;
* `run_server` : the server of the component has run these calls;
* `run_coreEvents` : the events of the server in the component's history are the server's own.
-/

namespace Qnetd

namespace QnetdComponent

/-! ## The calls -/

def readCalls (w : Writes) (now : UInt64) (i : Slot) : List ReadResult → QnetdComponent → List Call
  | [], _ => []
  | r :: rs, c =>
    match (c.conns i).sock with
    | none => []
    | some sock =>
      if (c.conns i).used = false then []
      else
        match r with
        | .data b =>
          .onData i b now ::
            readCalls w now i rs ((c.note (.fed i sock b)).call w (.onData i b now))
        | .eof => [.onDisconnected i now]
        | .wouldBlock => []
        | .failed => [.onDisconnected i now]

/-- The calls of the loop over the connections, for one of them. -/
def serviceCalls (w : Writes) (now : UInt64) (reads : Slot → List ReadResult) (c : QnetdComponent)
    (i : Slot) : List Call :=
  match (c.conns i).sock with
  | none => []
  | some sock =>
      if (c.conns i).used = false then [] else readCalls w now i (reads i) (c.flush w i sock)

/-- The calls of the loop over the connections of the list. -/
def servicesCalls (w : Writes) (now : UInt64) (reads : Slot → List ReadResult) :
    List Slot → QnetdComponent → List Call
  | [], _ => []
  | i :: l,
      c => c.serviceCalls w now reads i ++ servicesCalls w now reads l (c.service w now reads i)

def loopCalls (w : Writes) (c : QnetdComponent) (it : Iteration) : List Call :=
  if c.failed then []
  else
    let (now, c) := c.nowMs it.millis
    it.accepted.map (fun a => Call.onConnect now a.2) ++
      servicesCalls w now it.reads (List.finRange MAX_CLIENTS)
        (it.accepted.foldl (acceptOne w now) c) ++ [.tick now]

def runCalls (w : Writes) : List Iteration → QnetdComponent → List Call
  | [], _ => []
  | it :: its, c => c.loopCalls w it ++ runCalls w its (c.loop w it)

/-! ## The server -/

variable (w : Writes)

theorem call_server (c : QnetdComponent) (k : Call) : (c.call w k).server = c.server.call k :=
  (call_carried w c k).server

theorem acceptOne_server (now : UInt64) (c : QnetdComponent) (a : Socket × String) :
    (c.acceptOne w now a).server = c.server.call (.onConnect now a.2) := by
  simp only [acceptOne]
  split_ifs
  · exact call_server w c _
  · exact call_server w c _

theorem foldl_acceptOne_server (now : UInt64) (l : List (Socket × String)) (c : QnetdComponent) :
    (l.foldl (acceptOne w now) c).server =
      (l.map fun a => Call.onConnect now a.2).foldl Server.call c.server := by
  induction l generalizing c with
  | nil => rfl
  | cons a l ih => rw [List.foldl_cons, ih, acceptOne_server, List.map_cons, List.foldl_cons]

theorem dropConn_server (now : UInt64) (c : QnetdComponent) (i : Slot) :
    (c.dropConn w now i).server = c.server.call (.onDisconnected i now) := call_server w _ _

theorem readLoop_server (now : UInt64) (i : Slot) (rs : List ReadResult) (c : QnetdComponent) :
    (readLoop w now i rs c).server = (readCalls w now i rs c).foldl Server.call c.server := by
  induction rs generalizing c with
  | nil => rfl
  | cons r rs ih =>
    unfold readLoop readCalls
    cases (c.conns i).sock with
    | none => rfl
    | some sock =>
      dsimp only
      split_ifs
      · rfl
      · cases r with
        | data b =>
          dsimp only
          rw [ih, List.foldl_cons, call_server]
          rfl
        | eof => exact dropConn_server w now c i
        | wouldBlock => rfl
        | failed => exact dropConn_server w now c i

theorem service_server (now : UInt64) (reads : Slot → List ReadResult) (c : QnetdComponent)
    (i : Slot) :
    (c.service w now reads i).server =
      (c.serviceCalls w now reads i).foldl Server.call c.server := by
  unfold service serviceCalls
  cases (c.conns i).sock with
  | none => rfl
  | some sock =>
    dsimp only
    split_ifs
    · rfl
    · rw [readLoop_server, (flush_carried w c i sock).server]

theorem foldl_service_server (now : UInt64) (reads : Slot → List ReadResult) (l : List Slot)
    (c : QnetdComponent) :
    (l.foldl (service w now reads) c).server =
      (servicesCalls w now reads l c).foldl Server.call c.server := by
  induction l generalizing c with
  | nil => rfl
  | cons i l ih => rw [List.foldl_cons, ih, service_server, servicesCalls, List.foldl_append]

theorem loop_server (c : QnetdComponent) (it : Iteration) :
    (c.loop w it).server = (c.loopCalls w it).foldl Server.call c.server := by
  unfold loop loopCalls
  split_ifs
  · rfl
  · have hclock : (c.nowMs it.millis).2.server = c.server := rfl
    dsimp only
    rw [call_server, foldl_service_server, foldl_acceptOne_server, List.foldl_append,
      List.foldl_append, hclock, List.foldl_cons, List.foldl_nil]

/-- The server of the component has run the calls of the loop. -/
theorem run_server (listening : Bool) (its : List Iteration) :
    (run w listening its).server = Qnetd.run 32768 (runCalls w its (setup listening)) := by
  have hfold : ∀ (its : List Iteration) (c : QnetdComponent),
      (its.foldl (loop w) c).server = (runCalls w its c).foldl Server.call c.server := by
    intro its
    induction its with
    | nil => exact fun _ => rfl
    | cons it its ih =>
      intro c
      rw [List.foldl_cons, ih, loop_server, runCalls, List.foldl_append]
  exact hfold its (setup listening)

/-! ## The events of the server -/

/-- The events of the server that the component has noted. -/
def coreEvents (c : QnetdComponent) : List Event := c.trace.filterMap LoopEvent.core?

theorem call_coreEvents {c : QnetdComponent} {k : Call} (hq : Quiescent c.server)
    (h : c.coreEvents = c.server.trace) : (c.call w k).coreEvents = (c.call w k).server.trace := by
  obtain ⟨new, hnew⟩ := Server.call_suffix k hq
  obtain ⟨added, htr, hcore, -⟩ := (call_carried w c k).trace
  rw [call_server, ← hnew, coreEvents, htr, List.filterMap_append, hcore,
    Server.newEvents_eq hnew.symm]
  exact congrArg (new ++ ·) h

end QnetdComponent

theorem Act.coreEvents {w : Writes} {c c' : QnetdComponent} {socks : List Socket}
    (h : Act w c socks c') (hc : Agrees c)
    (hev : c.coreEvents = c.server.trace) : c'.coreEvents = c'.server.trace := by
  cases h with
  | @flush i sock hsock hused =>
    have hcarry := c.flush_carried w i sock
    obtain ⟨added, htr, hcore, -⟩ := hcarry.trace
    rw [hcarry.server, QnetdComponent.coreEvents, htr, List.filterMap_append, hcore,
      List.nil_append]
    exact hev
  | fed data now hsock => exact QnetdComponent.call_coreEvents w hc.quiescent hev
  | lost now hused => exact QnetdComponent.call_coreEvents w hc.quiescent hev
  | tick now => exact QnetdComponent.call_coreEvents w hc.quiescent hev
  | accept now a =>
    have hcall := QnetdComponent.call_coreEvents w (k := .onConnect now a.2) hc.quiescent hev
    simp only [QnetdComponent.acceptOne]
    split_ifs
    · exact hcall
    · exact hcall

/-- The component has noted every event of the server, in order. -/
theorem run_coreEvents (w : Writes) (listening : Bool) (its : List Iteration) :
    (QnetdComponent.run w listening its).coreEvents =
      (QnetdComponent.run w listening its).server.trace := by
  have hrun :=
    QnetdComponent.run_rule w (P := fun c => Agrees c ∧ c.coreEvents = c.server.trace) listening
    ⟨QnetdComponent.setup_agrees listening, rfl⟩
    (fun _ _ h => ⟨h.1.clock _, h.2⟩)
    (fun hact h => ⟨hact.agrees h.1, hact.coreEvents h.1 h.2⟩) its
  exact hrun.2

end Qnetd
