import Qnetd.Server.Handlers

/-!
# The public calls

`on_connect`, `on_data`, `on_disconnected` and `tick`, and the runs of the server made of them.
-/

namespace Qnetd

namespace Server

/-- The slot given to the connection, `-1` when the table is full, and the server after it. -/
def onConnect (s : Server) (now : UInt64) (peer : String) : Int × Server :=
  match (List.finRange MAX_CLIENTS).find? (fun i => (s.sessions i).phase = .free) with
  | none => (-1, s)
  | some i =>
    let s := s.modify i fun _ =>
      { phase := .waitPreinit, peer := peer, deadlineMs := now + PREACTIVE_TIMEOUT_MS }
    (i, s.emit (.connect i))

/-- The body of `on_disconnected` on a live slot. -/
def dropClient (s : Server) (slot : Slot) : Server :=
  let wasProcessing := s.processing
  let s := { s with processing := true }
  let s := (s.leaveCluster slot).reset slot
  let s := { s with processing := wasProcessing }
  if wasProcessing then s else s.drainCloses

def onDisconnected (s : Server) (slot : Int) : Server :=
  if h : 0 ≤ slot ∧ slot < MAX_CLIENTS then
    let i : Slot := ⟨slot.toNat, by omega⟩
    if (s.sessions i).phase = .free then s else s.dropClient i
  else s

/-- The loop of `on_data`: every iteration takes a frame of at least six bytes off the buffer, or
stops. -/
def onDataLoop : Nat → Server → Slot → UInt64 → Server
  | 0, s, _, _ => s
  | fuel + 1, s, slot, now =>
    let x := s.sessions slot
    if x.phase = .free ∨ x.scheduleDisconnect then s
    else if x.rx.length < MSG_HEADER_LEN then s
    else
      let type := beGet16 x.rx
      let plen := (beGet32 (x.rx.drop 2)).toNat
      if plen > s.maxRxFrame.toNat then (s.sendErr slot {} .messageTooLong).disconnectClient slot
      else if x.rx.length < MSG_HEADER_LEN + plen then s
      else
        let frame := x.rx.take (MSG_HEADER_LEN + plen)
        let s := (s.emit (.frame slot frame)).handleFrame slot (MsgType.ofCode type) frame now
        let s := s.modify slot fun x => { x with rx := x.rx.drop (MSG_HEADER_LEN + plen) }
        onDataLoop fuel s slot now

/-- `on_data` on a live slot. -/
def feed (s : Server) (slot : Slot) (data : Bytes) (now : UInt64) : Server :=
  let s := s.modify slot fun x => { x with rx := x.rx ++ data }
  let s := s.rescheduleDpd slot now
  let s := onDataLoop (s.sessions slot).rx.length { s with processing := true } slot now
  drainCloses { s with processing := false }

def onData (s : Server) (slot : Int) (data : Bytes) (now : UInt64) : Server :=
  if h : 0 ≤ slot ∧ slot < MAX_CLIENTS then
    let i : Slot := ⟨slot.toNat, by omega⟩
    if (s.sessions i).phase = .free ∨ (s.sessions i).scheduleDisconnect then s
    else s.feed i data now
  else s

/-- One iteration of `tick`. -/
def tickSlot (now : UInt64) (s : Server) (i : Slot) : Server :=
  let x := s.sessions i
  if x.phase = .free ∨ x.deadlineMs = 0 ∨ x.scheduleDisconnect then s
  else if now ≥ x.deadlineMs then s.disconnectClient i
  else s

def tick (s : Server) (now : UInt64) : Server := (List.finRange MAX_CLIENTS).foldl (tickSlot now) s

end Server

/-! ## Runs -/

inductive Call where
  | onConnect (now : UInt64) (peer : String)
  | onData (slot : Int) (data : Bytes) (now : UInt64)
  | onDisconnected (slot : Int) (now : UInt64)
  | tick (now : UInt64)

def Server.call (s : Server) : Call → Server
  | .onConnect now peer => (s.onConnect now peer).2
  | .onData slot data now => s.onData slot data now
  | .onDisconnected slot _ => s.onDisconnected slot
  | .tick now => s.tick now

def Server.newEvents (s : Server) (k : Call) : List Event :=
  (s.call k).trace.take ((s.call k).trace.length - s.trace.length)

theorem Server.newEvents_eq {s : Server} {k : Call} {new : List Event}
    (h : (s.call k).trace = new ++ s.trace) : s.newEvents k = new := by
  rw [newEvents, h, List.length_append, Nat.add_sub_cancel, List.take_left]

/-- The server after a sequence of public calls. -/
def run (maxRxFrame : UInt32) (calls : List Call) : Server :=
  calls.foldl Server.call (Server.init maxRxFrame)

end Qnetd
