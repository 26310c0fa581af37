import Qnetd.Host.Client
import Qnetd.Invariant.Reading

/-!
# One message a call

A client that waits for the answers sends one message at a time, and the server then reads it in one
call, from an empty buffer. Such a call comes to the handler of the message.

* `Server.received` : the server when the message has been read; `Complete` : a buffer that is one
  frame of at most the size the server reads;
* `onData_message` : `on_data` with one message is its handler, with the deadline of the session set
  before.
-/

namespace Qnetd

open Framing (Format)

/-- The bytes of one frame, as long as its header says, of at most `max` payload bytes. -/
structure Complete (max : UInt32) (f : Frame) : Prop where
  length : f.length = MSG_HEADER_LEN + payloadLen f
  fits : payloadLen f ≤ max.toNat

theorem Complete.cut {max : UInt32} {f : Frame} (h : Complete max f) :
    (frameFormat max).cut f = some f.length := by
  have h0 : ¬f.length < MSG_HEADER_LEN := by
    have := h.length
    omega
  have h1 : ¬payloadLen f > max.toNat := not_lt.mpr h.fits
  have h2 : ¬f.length < MSG_HEADER_LEN + payloadLen f := by
    have := h.length
    omega
  exact (((if_neg h0).trans (if_neg h1)).trans (if_neg h2)).trans (congrArg some h.length.symm)

theorem Complete.split {max : UInt32} {f : Frame} (h : Complete max f) :
    (frameFormat max).split f = ([f], []) := by
  have hnil : (frameFormat max).split [] = ([], []) := Format.split_of_none rfl
  rw [Format.split_of_some h.cut, List.take_length, List.drop_length, hnil]

theorem optFrame_complete {max : UInt32} (type : MsgType) {l : List Opt}
    (h : (optBytes l).length ≤ max.toNat) : Complete max (optFrame type l) := by
  set len := UInt32.ofNat (optBytes l).length with hlen
  have hlt : len.toNat = (optBytes l).length := by
    rw [hlen, UInt32.toNat_ofNat']
    exact Nat.mod_eq_of_lt (h.trans_lt max.toNat_lt)
  have hbytes : (optFrame type l).drop 2 =
      (len >>> 24).toUInt8 :: (len >>> 16).toUInt8 :: (len >>> 8).toUInt8 :: len.toUInt8 ::
        optBytes l := rfl
  have hpay : payloadLen (optFrame type l) = (optBytes l).length := by
    rw [payloadLen, hbytes, beGet32_be, hlt]
  refine ⟨?_, hpay.trans_le h⟩
  rw [hpay, optFrame, endFrame, List.length_set, List.length_set, List.length_set, List.length_set,
    List.length_append]
  rfl

namespace Server

/-- The server when it has read message `m` of frame `f` from session `i`. -/
def received (s : Server) (i : Slot) (now : UInt64) (f : Frame) (m : MsgDecoded) : Server :=
  ((s.rescheduleDpd i now).emit (.frame i f)).emit
    (.recv i (s.sessions i).phase (s.sessions i).nodeId m)

theorem received_quiet (s : Server) (i : Slot) (now : UInt64) (f : Frame) (m : MsgDecoded) :
    Quiet i s (s.received i now f m) := by
  have hself : (s.received i now f m).sessions i = (s.sessions i).rescheduled now :=
    modify_self _ _ _
  refine ⟨?_, fun j hj => modify_of_ne s _ hj, rfl, rfl,
    [.recv i (s.sessions i).phase (s.sessions i).nodeId m, .frame i f], rfl, ?_⟩
  · rw [hself]
    exact Session.rescheduled_alike now _
  · simp [Event.quiet]

/-- A call with one message is its handler. -/
theorem onData_message {s : Server} {i : Slot} (hs : Quiescent s) (hfree : (s.sessions i).phase ≠ .free)
    (hrx : (s.sessions i).rx = []) {f : Frame} (hf : Complete s.maxRxFrame f) {m : MsgDecoded}
    (hdec : decodeFrame f = some m) (now : UInt64) :
    s.onData i f now = (s.received i now f m).handleMsg i m f now := by
  set t := s.opened i now with ht
  set u := ((t.emit (.frame i f)).emit (.recv i (s.sessions i).phase (s.sessions i).nodeId m)).handleMsg i m f now with hu
  have hread : Reading i now t := hs.opened hfree
  have hphase : (t.sessions i).phase = (s.sessions i).phase ∧ (t.sessions i).nodeId = (s.sessions i).nodeId := by
    obtain ⟨d, hd⟩ := Session.rescheduled_eq now (s.sessions i)
    rw [show t.sessions i = (s.sessions i).rescheduled now from modify_self _ _ _, hd]
    exact ⟨rfl, rfl⟩
  have hplumb : u.plumbing = { s.plumbing with processing := true } := by
    rw [hu, (handleMsg_blind i m f now).plumbing]
    exact congrArg (fun p : Plumbing => { p with processing := true }) ((rescheduleDpd_blind i now).plumbing s)
  have hopen : (t.sessions i).scheduleDisconnect = false :=
    (congrFun (congrArg Plumbing.scheduleDisconnect ((rescheduleDpd_blind i now).plumbing s)) i).trans
      (hs.scheduleDisconnect i)
  have hconsumed : t.consumed i now f = u := by
    have hsplit : (frameFormat t.maxRxFrame).split f = ([f], []) := hf.split
    have hfit : ¬payloadLen f > t.maxRxFrame.toNat := not_lt.mpr hf.fits
    have hmsg : msgDecode (MsgType.ofCode (beGet16 f)) (f.drop MSG_HEADER_LEN) = some m := hdec
    rw [consumed, hsplit, List.foldl_cons, List.foldl_nil, consume, hopen, if_neg Bool.false_ne_true, if_neg hfit,
      handleFrame, hmsg]
    change ((t.emit (.frame i f)).emit (.recv i (t.sessions i).phase (t.sessions i).nodeId m)).handleMsg i m f now = u
    rw [hphase.1, hphase.2]
  have hclosed : (u.sessions i).scheduleDisconnect = false :=
    (congrFun (congrArg Plumbing.scheduleDisconnect hplumb) i).trans (hs.scheduleDisconnect i)
  -- what is left of the call is the plumbing the server had before
  have hback : { u.plumbing with rx := Function.update u.plumbing.rx i [], processing := false } = s.plumbing := by
    rw [hplumb, ← hrx]
    change { s.plumbing with rx := Function.update s.plumbing.rx i (s.plumbing.rx i), processing := false } = s.plumbing
    rw [Function.update_eq_self, ← hs.processing]
    rfl
  have hrest : ((frameFormat t.maxRxFrame).split f).2 = [] := congrArg Prod.snd hf.split
  calc s.onData i f now
      = t.delivered i now f := by rw [onData_eq hs hfree f hread fun _ => rfl, hrx, List.nil_append]
    _ = { u.withRx i [] with processing := false } := by
      rw [delivered, hconsumed, hclosed, if_neg Bool.false_ne_true, hrest]
    _ = u.overlay { u.plumbing with rx := Function.update u.plumbing.rx i [], processing := false } := by
      rw [withRx_eq_overlay]
      rfl
    _ = u.overlay s.plumbing := by rw [hback]
    _ = (s.received i now f m).handleMsg i m f now := by
      rw [hu, ← (handleMsg_blind i m f now).overlay]
      change ((((s.rescheduleDpd i now).overlay s.plumbing).emit _).emit _).handleMsg i m f now = _
      rw [← (rescheduleDpd_blind i now).overlay, overlay_plumbing]
      rfl

end Server

end Qnetd
