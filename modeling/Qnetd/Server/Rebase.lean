import Qnetd.Server.Plumbing
import Qnetd.Server.Calls

/-!
# What the server only writes

The number of decisions and the history are written and never read: a server that starts with other
ones does the same and adds the same to them. The handlers are blind to them; the calls read the
buffers, but not these.

* `call_rebase` : a public call on another past;
* `foldl_call_rebase` : calls on a server with another past do what they would do without it, on top
  of that past.
-/

namespace Qnetd

namespace Server

section Updates

variable (s : Server) (d : UInt32) (tr : List Event)

theorem emit_rebase (e : Event) : (s.rebase d tr).emit e = (s.emit e).rebase d tr := rfl

theorem modify_rebase (i : Slot) (f : Session → Session) :
    (s.rebase d tr).modify i f = (s.modify i f).rebase d tr := rfl

theorem sendErr_rebase (i : Slot) (m : MsgDecoded) (code : ReplyErrorCode) :
    (s.rebase d tr).sendErr i m code = (s.sendErr i m code).rebase d tr := rfl

theorem leaveCluster_rebase (i : Slot) :
    (s.rebase d tr).leaveCluster i = (s.leaveCluster i).rebase d tr :=
  (leaveCluster_blind i).rebase s d tr

/-! ## Closing -/

theorem drainLoop_rebase (fuel : Nat) (s : Server) :
    drainLoop fuel (s.rebase d tr) = (drainLoop fuel s).rebase d tr := by
  induction fuel generalizing s with
  | zero => rfl
  | succ fuel ih =>
    have hpending : (s.rebase d tr).pendingClose = s.pendingClose := rfl
    simp only [drainLoop, hpending]
    split
    · rfl
    · next slot hlast =>
      set t := { s with pendingClose := s.pendingClose.dropLast }
      have ht : ({ s.rebase d tr with pendingClose := s.pendingClose.dropLast } : Server) =
          t.rebase d tr :=
        rfl
      have hx : (s.rebase d tr).sessions slot = s.sessions slot := rfl
      have hclose : (((t.rebase d tr).leaveCluster slot).reset slot).emit (.close slot) =
          (((t.leaveCluster slot).reset slot).emit (.close slot)).rebase d tr := by
        rw [leaveCluster_rebase, reset, modify_rebase, emit_rebase, reset]
      rw [ht, hx, hclose, ih, ih]
      split_ifs <;> rfl

theorem drainCloses_rebase : (s.rebase d tr).drainCloses = s.drainCloses.rebase d tr := by
  have hdo : (s.rebase d tr).drainCloses =
      { drainLoop s.pendingClose.length (({ s with processing := true } : Server).rebase d tr) with
        processing := false } := rfl
  rw [hdo, drainLoop_rebase]
  rfl

theorem disconnectClient_rebase (i : Slot) :
    (s.rebase d tr).disconnectClient i = (s.disconnectClient i).rebase d tr := by
  have hx : (s.rebase d tr).sessions i = s.sessions i := rfl
  set t :=
    { s.modify i (fun x => { x with scheduleDisconnect := true })
      with pendingClose := s.pendingClose ++ [i] } with ht
  have hdo :
      s.disconnectClient i =
        if (s.sessions i).phase = .free ∨ (s.sessions i).scheduleDisconnect then s else
          if t.processing then t else t.drainCloses := rfl
  have hdo' : (s.rebase d tr).disconnectClient i =
      if (s.sessions i).phase = .free ∨ (s.sessions i).scheduleDisconnect then s.rebase d tr else
        if t.processing then t.rebase d tr else (t.rebase d tr).drainCloses := rfl
  rw [hdo, hdo', drainCloses_rebase]
  split_ifs <;> rfl

/-! ## The public calls -/

theorem handleFrame_rebase (i : Slot) (type : MsgType) (f : Frame) (now : UInt64) :
    (s.rebase d tr).handleFrame i type f now = (s.handleFrame i type f now).rebase d tr := by
  unfold handleFrame
  split
  · rw [sendErr_rebase, disconnectClient_rebase]
  · exact (handleMsg_blind i _ f now).rebase (s.emit _) d tr

theorem onConnect_rebase (now : UInt64) (peer : String) :
    (s.rebase d tr).onConnect now peer =
      ((s.onConnect now peer).1, (s.onConnect now peer).2.rebase d tr) := by
  have hx : (s.rebase d tr).sessions = s.sessions := rfl
  simp only [onConnect, hx]
  split <;> rfl

theorem dropClient_rebase (i : Slot) :
    (s.rebase d tr).dropClient i = (s.dropClient i).rebase d tr := by
  have hleave := leaveCluster_rebase { s with processing := true } d tr i
  have hopen : ({ s.rebase d tr with processing := true } : Server) =
      ({ s with processing := true } : Server).rebase d tr := rfl
  have hback : ∀ (t : Server) (b : Bool), ({ t.rebase d tr with processing := b } : Server) =
      ({ t with processing := b } : Server).rebase d tr := fun _ _ => rfl
  have hp : (s.rebase d tr).processing = s.processing := rfl
  simp only [dropClient, hopen, hleave, reset, modify_rebase, hback, hp, drainCloses_rebase]
  split_ifs <;> rfl

theorem onDataLoop_rebase (fuel : Nat) (s : Server) (i : Slot) (now : UInt64) :
    onDataLoop fuel (s.rebase d tr) i now = (onDataLoop fuel s i now).rebase d tr := by
  induction fuel generalizing s with
  | zero => rfl
  | succ fuel ih =>
    have hx : (s.rebase d tr).sessions i = s.sessions i := rfl
    have hmax : (s.rebase d tr).maxRxFrame = s.maxRxFrame := rfl
    simp only [onDataLoop, hx, hmax, sendErr_rebase, disconnectClient_rebase, emit_rebase,
      handleFrame_rebase, modify_rebase, ih]
    split_ifs <;> rfl

theorem feed_rebase (i : Slot) (data : Bytes) (now : UInt64) :
    (s.rebase d tr).feed i data now = (s.feed i data now).rebase d tr := by
  set t := (s.modify i fun x => { x with rx := x.rx ++ data }).rescheduleDpd i now with ht
  have hopen : (s.rebase d tr).feed i data now =
      drainCloses
        { onDataLoop (t.sessions i).rx.length
        (({ t with processing := true } : Server).rebase d tr) i now with
        processing := false } := rfl
  have hback : ∀ u : Server, ({ u.rebase d tr with processing := false } : Server) =
      ({ u with processing := false } : Server).rebase d tr := fun _ => rfl
  rw [hopen, onDataLoop_rebase, hback, drainCloses_rebase]
  rfl

theorem tickSlot_rebase (now : UInt64) (i : Slot) :
    (s.rebase d tr).tickSlot now i = (s.tickSlot now i).rebase d tr := by
  have hx : (s.rebase d tr).sessions i = s.sessions i := rfl
  simp only [tickSlot, hx, disconnectClient_rebase]
  split_ifs <;> rfl

theorem foldl_tickSlot_rebase (now : UInt64) (l : List Slot) (s : Server) :
    l.foldl (tickSlot now) (s.rebase d tr) = (l.foldl (tickSlot now) s).rebase d tr := by
  induction l generalizing s with
  | nil => rfl
  | cons i l ih => rw [List.foldl_cons, List.foldl_cons, tickSlot_rebase, ih]

/-- A public call adds the same to any past. -/
theorem call_rebase (k : Call) : (s.rebase d tr).call k = (s.call k).rebase d tr := by
  have hx : (s.rebase d tr).sessions = s.sessions := rfl
  cases k with
  | onConnect now peer => rw [call, onConnect_rebase, call]
  | onData slot data now =>
    simp only [call, onData, hx, feed_rebase]
    split_ifs <;> rfl
  | onDisconnected slot now =>
    simp only [call, onDisconnected, hx, dropClient_rebase]
    split_ifs <;> rfl
  | tick now => exact foldl_tickSlot_rebase d tr now _ s

/-- So does a sequence of calls. -/
theorem foldl_call_rebase (calls : List Call) (s : Server) :
    calls.foldl call (s.rebase d tr) = (calls.foldl call s).rebase d tr := by
  induction calls generalizing s with
  | nil => rfl
  | cons k calls ih => rw [List.foldl_cons, List.foldl_cons, call_rebase, ih]

end Updates

end Server

end Qnetd
