import Qnetd.Server.Calls

/-!
# The component

`QnetdComponent` of `qnetd_component.cpp`: the sockets of the eight slots, and the loop that moves
bytes between them and the server. The socket layer is outside, so what `accept`, `read`, `write`
and `millis` return is an input.

* `WriteResult`, `ReadResult`, `Iteration` : the results of the system calls, within what the calls
  can return;
* `Conn`, `QnetdComponent` : the connection table next to the server, and the history of the
  component;
* `sendFrame`, `closeConnection` : the transport that the server calls back;
* `call` : a public call of the server. What it calls back returns nothing to it and does not call
  the server, so that it can run after the call, in the order of the calls;
* `loop` : accept, then flush and read each connection, then `tick`; `run` : the iterations from
  `setup` on.
-/

namespace Qnetd

/-! ## The socket layer -/

/-- The identity of a socket object. -/
abbrev Socket := Nat

/-- What `write` returns for `len` bytes. -/
inductive WriteResult (len : Nat) where
  | wrote (n : Fin (len + 1))
  /-- EWOULDBLOCK or EAGAIN. -/
  | wouldBlock
  | failed

/-- The result of each `write` of a run, by its number. -/
abbrev Writes := Nat → (len : Nat) → WriteResult len

abbrev READ_BUF_LEN : Nat := 512

/-- What `read` returns. -/
inductive ReadResult where
  | data (bytes : {b : Bytes // b ≠ [] ∧ b.length ≤ READ_BUF_LEN})
  /-- Zero: orderly shutdown by the peer. -/
  | eof
  /-- EWOULDBLOCK or EAGAIN. -/
  | wouldBlock
  | failed

/-- What the calls of one iteration return: `millis`, the sockets accepted with their peers, and
what is read from each slot, where a read past the list would block. -/
structure Iteration where
  millis : UInt32
  accepted : List (Socket × String)
  reads : Slot → List ReadResult

/-! ## The state -/

structure Conn where
  sock : Option Socket := none
  tx : Bytes := []
  used : Bool := false
  deriving DecidableEq

inductive LoopEvent where
  /-- A socket was attached to the slot that `on_connect` gave it. -/
  | accepted (slot : Slot) (sock : Socket)
  /-- There was no slot for it. -/
  | refused (sock : Socket)
  /-- Bytes read from the socket are passed to `on_data`. -/
  | fed (slot : Slot) (sock : Socket) (data : Bytes)
  /-- The connection is gone, and `on_disconnected` is called. -/
  | lost (slot : Slot)
  /-- `write` accepted these bytes. -/
  | wrote (slot : Slot) (sock : Socket) (data : Bytes)
  /-- An event of the server. -/
  | core (e : Event)

/-- `writes` is the number of calls of `write` so far, `trace` the history, newest first. -/
structure QnetdComponent where
  server : Server
  conns : Slot → Conn
  failed : Bool
  lastMillis : UInt32
  millisHigh : UInt64
  writes : Nat
  trace : List LoopEvent

namespace QnetdComponent

/-- `setup`; the component is marked failed when it cannot listen. -/
def setup (listening : Bool) : QnetdComponent where
  server := Server.init 32768
  conns := fun _ => {}
  failed := !listening
  lastMillis := 0
  millisHigh := 0
  writes := 0
  trace := []

def note (c : QnetdComponent) (e : LoopEvent) : QnetdComponent := { c with trace := e :: c.trace }

def setConn (c : QnetdComponent) (i : Slot) (k : Conn) : QnetdComponent :=
  { c with conns := Function.update c.conns i k }

/-- The 32-bit `millis()` extended to 64 bits. -/
def nowMs (c : QnetdComponent) (millis : UInt32) : UInt64 × QnetdComponent :=
  let high := if millis < c.lastMillis then c.millisHigh + 0x100000000 else c.millisHigh
  (high ||| millis.toUInt64, { c with millisHigh := high, lastMillis := millis })

/-! ## The transport -/

/-- `c.sock->write(data, len)`. -/
def write (w : Writes) (c : QnetdComponent) (i : Slot) (sock : Socket) (data : Bytes) :
    WriteResult data.length × QnetdComponent :=
  let r := w c.writes data.length
  let c := { c with writes := c.writes + 1 }
  match r with
  | .wrote n => (.wrote n, c.note (.wrote i sock (data.take n)))
  | .wouldBlock => (.wouldBlock, c)
  | .failed => (.failed, c)

/-- `c.tx.insert(c.tx.end(), ...)`. -/
def queue (c : QnetdComponent) (i : Slot) (data : Bytes) : QnetdComponent :=
  c.setConn i { c.conns i with tx := (c.conns i).tx ++ data }

def sendFrame (w : Writes) (c : QnetdComponent) (slot : Slot) (data : Frame) : QnetdComponent :=
  match (c.conns slot).sock with
  | none => c
  | some sock =>
    if (c.conns slot).used = false then c
    else if (c.conns slot).tx = [] then
      match c.write w slot sock data with
      | (.wrote n, c) => if n < data.length then c.queue slot (data.drop n) else c
      | (.wouldBlock, c) => c.queue slot data
      -- the read path will notice the broken socket
      | (.failed, c) => c
    else c.queue slot data

def closeConnection (c : QnetdComponent) (slot : Slot) : QnetdComponent := c.setConn slot {}

/-- What an event of the server does to the transport. -/
def deliver (w : Writes) (c : QnetdComponent) (e : Event) : QnetdComponent :=
  let c := c.note (.core e)
  match e.call with
  | some (.sendFrame i f) => c.sendFrame w i f
  | some (.closeConnection i) => c.closeConnection i
  | none => c

/-- A call of the server, and what it calls back. -/
def call (w : Writes) (c : QnetdComponent) (k : Call) : QnetdComponent :=
  (c.server.newEvents k).reverse.foldl (deliver w) { c with server := c.server.call k }

/-! ## The loop -/

/-- The body of the accept loop. `on_connect` returns a slot, or -1 when there is none. -/
def acceptOne (w : Writes) (now : UInt64) (c : QnetdComponent) (a : Socket × String) :
    QnetdComponent :=
  let slot := (c.server.onConnect now a.2).1
  let c := c.call w (.onConnect now a.2)
  if h : 0 ≤ slot ∧ slot < MAX_CLIENTS then
    let i : Slot := ⟨slot.toNat, by omega⟩
    (c.setConn i { sock := some a.1, tx := [], used := true }).note (.accepted i a.1)
  else c.note (.refused a.1)

/-- Flush queued tx. -/
def flush (w : Writes) (c : QnetdComponent) (i : Slot) (sock : Socket) : QnetdComponent :=
  if (c.conns i).tx = [] then c
  else
    match c.write w i sock (c.conns i).tx with
    | (.wrote n, c) => c.setConn i { c.conns i with tx := (c.conns i).tx.drop n }
    | (_, c) => c

/-- The peer has closed, or the socket is broken. -/
def dropConn (w : Writes) (now : UInt64) (c : QnetdComponent) (i : Slot) : QnetdComponent :=
  ((c.closeConnection i).note (.lost i)).call w (.onDisconnected i now)

/-- The read loop of one connection. -/
def readLoop (w : Writes) (now : UInt64) (i : Slot) : List ReadResult → QnetdComponent →
    QnetdComponent
  | [], c => c
  | r :: rs, c =>
    match (c.conns i).sock with
    | none => c
    | some sock =>
      if (c.conns i).used = false then c
      else
        match r with
        | .data b => readLoop w now i rs ((c.note (.fed i sock b)).call w (.onData i b now))
        | .eof => c.dropConn w now i
        | .wouldBlock => c
        | .failed => c.dropConn w now i

/-- The body of the loop over the connections. -/
def service (w : Writes) (now : UInt64) (reads : Slot → List ReadResult) (c : QnetdComponent)
    (i : Slot) : QnetdComponent :=
  match (c.conns i).sock with
  | none => c
  | some sock =>
      if (c.conns i).used = false then c else readLoop w now i (reads i) (c.flush w i sock)

def loop (w : Writes) (c : QnetdComponent) (it : Iteration) : QnetdComponent :=
  if c.failed then c
  else
    let (now, c) := c.nowMs it.millis
    let c := it.accepted.foldl (acceptOne w now) c
    let c := (List.finRange MAX_CLIENTS).foldl (service w now it.reads) c
    c.call w (.tick now)

/-- The component after some iterations of its loop. -/
def run (w : Writes) (listening : Bool) (its : List Iteration) : QnetdComponent :=
  its.foldl (loop w) (setup listening)

end QnetdComponent

end Qnetd
