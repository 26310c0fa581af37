import Qnetd.Invariant.Identity
import Qnetd.Lib.Framing

/-!
# Reading a stream

`on_data` as a receiver of framed data. The buffer is set apart from the rest of the server, and
what the loop does is a fold over the frames of the buffer.

* `frameFormat` : the frames; `Server.withRx` : the server with another buffer. A handler does not
  see the buffer (`handleFrame_withRx`);
* `Session.Timely`, `Handled` : a handler leaves the deadline where `reschedule_dpd` would put it at
  that time, and takes no frame itself;
* `consume`, `onDataLoop_eq` : the loop hands the frames of the buffer over, one after the other,
  until the session is to be closed;
* `onData_append` : two deliveries at the same time are one.
-/

namespace Qnetd

open Framing (Format)

/-! ## Frames -/

/-- The length of the payload a header announces. -/
def payloadLen (b : Bytes) : Nat := (beGet32 (b.drop 2)).toNat

theorem payloadLen_congr {b c : Bytes} (h : c.take MSG_HEADER_LEN = b.take MSG_HEADER_LEN) :
    payloadLen c = payloadLen b := by
  have hread : beGet32 (c.drop 2) = beGet32 (b.drop 2) :=
    (reads_drop (k := 2) reads_beGet32).congr h le_rfl
  rw [payloadLen, payloadLen, hread]

theorem payloadLen_append {b : Bytes} (h : MSG_HEADER_LEN ≤ b.length) (c : Bytes) :
    payloadLen (b ++ c) = payloadLen b :=
  payloadLen_congr (List.take_append_of_le_length h)

theorem payloadLen_take (b : Bytes) {k : Nat} (h : MSG_HEADER_LEN ≤ k) :
    payloadLen (b.take k) = payloadLen b :=
  payloadLen_congr (by rw [List.take_take, Nat.min_eq_left h])

theorem beGet16_take (b : Bytes) {k : Nat} (h : MSG_HEADER_LEN ≤ k) :
    beGet16 (b.take k) = beGet16 b :=
  reads_beGet16.congr (l := k) (by rw [List.take_take, min_self]) (le_trans (by decide) h)

/-- The frames `on_data` takes off the buffer. A header that announces too long a payload counts as
one by itself: the session is closed there. -/
def frameFormat (max : UInt32) : Format UInt8 where
  cut b :=
    if b.length < MSG_HEADER_LEN then none
    else if payloadLen b > max.toNat then some MSG_HEADER_LEN
    else if b.length < MSG_HEADER_LEN + payloadLen b then none
    else some (MSG_HEADER_LEN + payloadLen b)
  pos {b k} h := by
    unfold MSG_HEADER_LEN at h
    split_ifs at h <;> injection h <;> omega
  le {b k} h := by
    unfold MSG_HEADER_LEN at h
    split_ifs at h <;> injection h <;> omega
  stable {b k} h c := by
    by_cases h0 : b.length < MSG_HEADER_LEN
    · rw [if_pos h0] at h
      cases h
    · rw [if_neg h0] at h
      rw [payloadLen_append (not_lt.mp h0), if_neg (by rw [List.length_append]; omega)]
      split_ifs at h ⊢ with h1 h2 h3
      · exact h
      · rw [List.length_append] at h2
        omega
      · exact h

theorem frameFormat_cut_none {max : UInt32} {b : Bytes} (h : (frameFormat max).cut b = none) :
    b.length < MSG_HEADER_LEN ∨
    (payloadLen b ≤ max.toNat ∧ b.length < MSG_HEADER_LEN + payloadLen b) := by
  simp only [frameFormat] at h
  split_ifs at h with h0 h1 h2
  · exact Or.inl h0
  · exact Or.inr ⟨not_lt.mp h1, h2⟩

namespace Server

/-! ## The buffer -/

def withRx (s : Server) (i : Slot) (b : Bytes) : Server := s.modify i fun x => { x with rx := b }

@[simp] theorem withRx_self (s : Server) (i : Slot) (b : Bytes) :
    (s.withRx i b).sessions i = { s.sessions i with rx := b } := modify_self _ _ _

@[simp] theorem withRx_withRx (s : Server) (i : Slot) (b c : Bytes) :
    (s.withRx i b).withRx i c = s.withRx i c := by
  simp [withRx, modify]

theorem withRx_drop (s : Server) (i : Slot) (b : Bytes) (k : Nat) :
    ((s.withRx i b).modify i fun x => { x with rx := x.rx.drop k }) = s.withRx i (b.drop k) := by
  simp [withRx, modify]

theorem withRx_eq_overlay (s : Server) (i : Slot) (b : Bytes) :
    s.withRx i b = s.overlay { s.plumbing with rx := Function.update s.plumbing.rx i b } := by
  simp only [withRx, modify, overlay, plumbing, Server.mk.injEq, true_and, and_true]
  funext j
  by_cases hj : j = i
  · subst hj
    simp [Session.overlay]
  · simp [Session.overlay, hj]

theorem Blind.withRx {f : Server → Server} (hf : Blind f) (s : Server) (i : Slot) (b : Bytes) :
    f (s.withRx i b) = (f s).withRx i b := by
  rw [withRx_eq_overlay, withRx_eq_overlay, hf.overlay, hf.plumbing]

theorem handleMsg_withRx (s : Server) (i j : Slot) (b : Bytes) (m : MsgDecoded) (frame : Frame)
    (now : UInt64) :
    (s.withRx i b).handleMsg j m frame now = (s.handleMsg j m frame now).withRx i b :=
  (handleMsg_blind j m frame now).withRx s i b

theorem leaveCluster_withRx (s : Server) (i j : Slot) (b : Bytes) :
    (s.withRx i b).leaveCluster j = (s.leaveCluster j).withRx i b :=
  (leaveCluster_blind j).withRx s i b

theorem rescheduleDpd_withRx (s : Server) (i j : Slot) (b : Bytes) (now : UInt64) :
    (s.withRx i b).rescheduleDpd j now = (s.rescheduleDpd j now).withRx i b :=
  (rescheduleDpd_blind j now).withRx s i b

theorem reset_withRx (s : Server) (i : Slot) (b : Bytes) : (s.withRx i b).reset i = s.reset i := by
  simp [withRx, reset, modify]

/-- While data is being processed a close is only noted. -/
theorem disconnectClient_withRx {s : Server} (hp : s.processing = true) (i : Slot) (b : Bytes) :
    (s.withRx i b).disconnectClient i = (s.disconnectClient i).withRx i b := by
  have hp' : (s.withRx i b).processing = true := hp
  simp only [disconnectClient, withRx_self, modify_processing, hp, hp', if_true]
  split_ifs
  · rfl
  · simp [withRx, modify]

theorem handleFrame_withRx {s : Server} (hp : s.processing = true) (i : Slot) (b : Bytes)
    (type : MsgType) (frame : Frame) (now : UInt64) :
    (s.withRx i b).handleFrame i type frame now = (s.handleFrame i type frame now).withRx i b := by
  unfold handleFrame
  cases msgDecode type (frame.drop MSG_HEADER_LEN) with
  | none => exact disconnectClient_withRx (s := s.sendErr i {} .errorDecodingMsg) hp i b
  | some m =>
    simp only [withRx_self]
    exact handleMsg_withRx (s.emit (.recv i (s.sessions i).phase (s.sessions i).nodeId m)) i
      i b m frame now

end Server

/-! ## Deadlines -/

/-- The session is live, and its deadline is the one `reschedule_dpd` gives it now. -/
structure Session.Timely (now : UInt64) (x : Session) : Prop where
  live : x.phase ≠ .free
  active : x.phase = .active → x.heartbeatMs > 0 →
    x.deadlineMs = now + 3 * x.heartbeatMs.toUInt64 / 2
  waiting : x.phase ≠ .active → x.deadlineMs = now + PREACTIVE_TIMEOUT_MS

theorem Session.Timely.rescheduled {now : UInt64} {x : Session} (h : x.Timely now) :
    x.rescheduled now = x := by
  unfold Session.rescheduled
  split_ifs with h1 h2
  · rw [← h.active h1.1 h1.2]
  · rw [← h.waiting h2.2]
  · rfl

theorem Session.rescheduled_timely (now : UInt64) {x : Session} (h : x.phase ≠ .free) :
    (x.rescheduled now).Timely now := by
  unfold Session.rescheduled
  split_ifs with h1 h2
  · exact ⟨h, fun _ _ => rfl, fun ha => absurd h1.1 ha⟩
  · exact ⟨h, fun ha _ => absurd ha h2.2, fun _ => rfl⟩
  · have hact : x.phase = .active := by
      by_contra ha
      exact h2 ⟨h, ha⟩
    exact ⟨h, fun _ hb => absurd ⟨hact, hb⟩ h1, fun ha => absurd hact ha⟩

theorem Session.Timely.congr {now : UInt64} {x y : Session} (h : x.Timely now)
    (hp : y.phase = x.phase)
    (hb : y.heartbeatMs = x.heartbeatMs) (hd : y.deadlineMs = x.deadlineMs) : y.Timely now :=
  ⟨hp ▸ h.live, by rw [hp, hb, hd]; exact h.active, by rw [hp, hd]; exact h.waiting⟩

/-- The connection of slot `i` is opened, or a frame taken from its buffer. -/
def Event.receives (i : Slot) : Event → Bool
  | .connect j | .frame j _ => j = i
  | _ => false

/-- What a handler may do to the session it works for, besides what it is for. -/
structure Handled (i : Slot) (now : UInt64) (s s' : Server) : Prop where
  timely : (s.sessions i).Timely now → (s'.sessions i).Timely now
  trace : ∃ new, s'.trace = new ++ s.trace ∧ ∀ e ∈ new, e.receives i = false

namespace Handled

variable {i : Slot} {now : UInt64} {s t u : Server}

theorem trans (h₁ : Handled i now s t) (h₂ : Handled i now t u) : Handled i now s u :=
  ⟨h₂.timely ∘ h₁.timely, History.grown_trans h₁.trace h₂.trace⟩

theorem emit (s : Server) {e : Event} (he : e.receives i = false) : Handled i now s (s.emit e) :=
  ⟨id, [e], rfl, by simpa using he⟩

theorem modify (s : Server) {f : Session → Session}
    (hf : (s.sessions i).Timely now → (f (s.sessions i)).Timely now) :
    Handled i now s (s.modify i f) :=
  ⟨by rw [Server.modify_self]; exact hf, [], rfl, by simp⟩

theorem sendErr (s : Server) (m : MsgDecoded) (code : ReplyErrorCode) :
    Handled i now s (s.sendErr i m code) :=
  emit s rfl

theorem send (s : Server) (f : Frame) : Handled i now s (s.send i f) := emit s rfl

end Handled

theorem Server.Within.handled {c : Int} {s s' : Server} (h : Server.Within c s s') (i : Slot)
    (now : UInt64) : Handled i now s s' := by
  obtain ⟨new, htr, hnew⟩ := h.trace
  refine ⟨fun hx => hx.congr (h.same.phase i) (congrArg Session.heartbeatMs (h.same i) :)
    (congrArg Session.deadlineMs (h.same i) :), new, htr, fun e he => ?_⟩
  have hw := hnew e he
  cases e with
  | connect _ | frame _ _ => exact hw.elim
  | _ => rfl

namespace Server

variable (i : Slot) (now : UInt64) (s : Server) (m : MsgDecoded)

/-- `handle_init` stores the heartbeat only while the deadline does not depend on it. -/
theorem initFields_timely {x : Session} (hx : x.Timely now) : (initFields m x).2.Timely now := by
  by_cases hphase : x.phase = .active
  · rw [initFields_of_active m hphase]
    exact ⟨hx.live, hx.active, hx.waiting⟩
  · rw [initFields_withInit]
    generalize (initFields m x).2 = y
    exact ⟨hx.live, fun hact => absurd hact hphase, hx.waiting⟩

theorem optioned_timely {x : Session} (hx : x.Timely now) : (optioned m now x).Timely now := by
  have hbeat : (if m.heartbeatIntervalSet then
      { x with heartbeatMs := m.heartbeatInterval }.rescheduled now else x).Timely now := by
    split_ifs
    · exact Session.rescheduled_timely now hx.live
    · exact hx
  unfold optioned
  by_cases hkeep : m.keepActivePartitionTieBreakerSet = true
  · rw [if_pos hkeep]
    exact hbeat.congr rfl rfl rfl
  · rw [if_neg hkeep]
    exact hbeat

theorem initStored_handled : Handled i now s (s.initStored i m) := by
  unfold initStored
  exact .modify s (initFields_timely now m)

theorem admitted_handled : Handled i now s (s.admitted i now) := by
  refine ⟨fun _ => ?_, ?_⟩
  · obtain ⟨c, hc⟩ := admitted_self s i now
    rw [hc]
    exact Session.rescheduled_timely now nofun
  · obtain ⟨new, htr, hnew⟩ := admitted_trace s i now
    refine ⟨new, htr, fun e he => ?_⟩
    have hadmits := hnew e he
    cases e with
    | connect _ | frame _ _ => exact hadmits.elim
    | _ => rfl

/-- A message leaves the session live and its deadline up to date, and takes no frame. -/
theorem Outcome.handled {i : Slot} {now : UInt64} {s s' : Server} {m : MsgDecoded} {f : Frame}
    (h : Outcome i m f now s s') : Handled i now s s' := by
  cases h with
  | refused code _ => exact .sendErr s m code
  | greeted _ hwait =>
    refine (Handled.modify s
      fun hx => ⟨by nofun, by nofun, fun _ => hx.waiting ?_⟩).trans (.send _ _)
    rw [hwait]
    nofun
  | turnedAway code _ _ _ => exact (initStored_handled i now s m).trans (.send _ _)
  | joined _ _ _ _ _ =>
    exact ((initStored_handled i now s m).trans
      (admitted_handled i now (s.initStored i m))).trans (.send _ _)
  | configured _ _ _ => exact (Handled.modify s (optioned_timely now m)).trans (.send _ _)
  | echoed _ _ => exact .send s _
  | reported r _ _ =>
    have hacc : Handled i now s (s.emit (.accept i r)) := .emit s rfl
    have hnote : ∀ x, Session.Timely now x →
        (noteReport m (s.reportVote i r m) r x).Timely now := by
      intro x hx
      obtain ⟨_, _, _, _, _, _, _, heq⟩ := noteReport_eq m (s.reportVote i r m) r x
      rw [heq]
      exact hx.congr rfl rfl rfl
    exact ((hacc.trans ((ranReport_within s i r m).handled i now)).trans
      (.modify _ (hnote _))).trans (.send _ _)
  | replied _ hact hseq =>
    exact (handleVoteInfoReply_within s m hseq (inCluster_iff.mpr ⟨hact, rfl⟩)).handled i now

theorem handleMsg_handled (frame : Frame) : Handled i now s (s.handleMsg i m frame now) :=
  (handleMsg_outcome i m frame now s).handled

end Server

/-! ## The limit -/

theorem Move.maxRxFrame {i : Slot} {s s' : Server} (hm : Move i s s') :
    s'.maxRxFrame = s.maxRxFrame := by
  cases hm with
  | quiet hq => exact hq.maxRxFrame
  | connect now peer hfree => rfl
  | reinit m hact htype hrecv => rfl
  | join now hphase hcheck hc =>
    have henter : ∀ (t : Server) (c : Int), (t.enterCluster i c now).maxRxFrame = t.maxRxFrame := by
      intro t c
      simp only [Server.enterCluster]
      split_ifs <;> rfl
    rw [henter]
    rcases Server.findOrCreateCluster_cases s (s.sessions i).clusterName
      with ⟨c, -, -, -, h⟩ | ⟨c, -, -, -, h⟩ | h
    · rw [h]
    · rw [h]
      rfl
    · rw [h]
  | report r m hact hfits => exact (ranReport_within s i r m).maxRxFrame
  | reply m hact hset =>
    exact (Server.handleVoteInfoReply_within s m hset
      (Server.inCluster_iff.mpr ⟨hact, rfl⟩)).maxRxFrame
  | leave =>
    by_cases hc : (s.sessions i).phase ≠ .active ∨ (s.sessions i).cluster < 0
    · have hno : s.leaveCluster i = s := by simp only [Server.leaveCluster, if_pos hc]
      rw [hno]
      rfl
    · rw [not_or, not_not, not_lt] at hc
      rw [Server.left_eq hc.1 hc.2]
      exact (leaving_within i).maxRxFrame

theorem Moves.maxRxFrame {i : Slot} {s s' : Server} (hm : Moves i s s') :
    s'.maxRxFrame = s.maxRxFrame := by
  induction hm with
  | refl => rfl
  | tail _ hstep ih => exact hstep.maxRxFrame.trans ih

theorem run_maxRxFrame (n : UInt32) (calls : List Call) : (run n calls).maxRxFrame = n := by
  have hsteps := (run_steps n calls).1
  generalize run n calls = s at hsteps
  induction hsteps with
  | refl => rfl
  | tail _ hstep ih =>
    obtain ⟨i, hm⟩ := hstep
    exact hm.maxRxFrame.trans ih

/-! ## The loop -/

/-- Data of session `i` is being processed. -/
structure Reading (i : Slot) (now : UInt64) (s : Server) : Prop where
  processing : s.processing = true
  queue : Queue i s
  timely : (s.sessions i).Timely now

namespace Server

/-- What `on_data` does with a frame it takes off the buffer. -/
def consume (i : Slot) (now : UInt64) (s : Server) (f : Bytes) : Server :=
  if (s.sessions i).scheduleDisconnect then s
  else if payloadLen f > s.maxRxFrame.toNat then (s.sendErr i {} .messageTooLong).disconnectClient i
  else (s.emit (.frame i f)).handleFrame i (MsgType.ofCode (beGet16 f)) f now

/-- The server when the frames of the buffer `b` are handed over. -/
def consumed (i : Slot) (now : UInt64) (s : Server) (b : Bytes) : Server :=
  ((frameFormat s.maxRxFrame).split b).1.foldl (consume i now) s

end Server

section Loop

variable {i : Slot} {now : UInt64} {s : Server}

theorem foldl_consume_of_closed (h : (s.sessions i).scheduleDisconnect = true) (l : List Bytes) :
    l.foldl (Server.consume i now) s = s := by
  induction l with
  | nil => rfl
  | cons f l ih =>
    rw [List.foldl_cons, Server.consume, if_pos h]
    exact ih

theorem Reading.disconnectClient (h : Reading i now s)
    (hi : (s.sessions i).scheduleDisconnect = false) :
    Reading i now (s.disconnectClient i) ∧ Moves i s (s.disconnectClient i) ∧
      ((s.disconnectClient i).sessions i).scheduleDisconnect = true := by
  obtain ⟨hm, hp, hq⟩ := Server.disconnectClient_turn i h.processing h.queue h.timely.live hi
  have hself : (s.disconnectClient i).sessions i =
      { s.sessions i with scheduleDisconnect := true } := by
    rw [Server.disconnectClient_of_processing i h.processing h.queue h.timely.live hi]
    exact Server.modify_self s i fun x => { x with scheduleDisconnect := true }
  refine ⟨⟨hp, hq, ?_⟩, hm, ?_⟩
  · rw [hself]
    exact h.timely.congr rfl rfl rfl
  · rw [hself]

theorem Reading.emit (h : Reading i now s) (e : Event) : Reading i now (s.emit e) :=
  ⟨h.processing, h.queue, h.timely⟩

theorem Reading.sendErr (h : Reading i now s) (m : MsgDecoded) (code : ReplyErrorCode) :
    Reading i now (s.sendErr i m code) := h.emit _

theorem Reading.handled (h : Reading i now s) (hi : (s.sessions i).scheduleDisconnect = false)
    (type : MsgType) (frame : Frame) : Handled i now s (s.handleFrame i type frame now) := by
  unfold Server.handleFrame
  cases msgDecode type (frame.drop MSG_HEADER_LEN) with
  | none =>
    have herr := h.sendErr {} .errorDecodingMsg
    have htrace : ((s.sendErr i {} .errorDecodingMsg).disconnectClient i).trace =
        [.send i (buildServerError false 0 .errorDecodingMsg)] ++ s.trace := by
      rw [Server.disconnectClient_of_processing i herr.processing herr.queue herr.timely.live hi]
      rfl
    exact ⟨fun _ => (herr.disconnectClient hi).1.timely, _, htrace, by simp [Event.receives]⟩
  | some m => exact (Handled.emit s rfl).trans (Server.handleMsg_handled i now _ m frame)

theorem Reading.handleFrame (h : Reading i now s) (hi : (s.sessions i).scheduleDisconnect = false)
    (type : MsgType)
    (frame : Frame) :
    Reading i now (s.handleFrame i type frame now) ∧
    Moves i s (s.handleFrame i type frame now) := by
  obtain ⟨hm, hp, hq⟩ :=
    Server.handleFrame_turn i type frame now h.processing h.queue h.timely.live hi
  exact ⟨⟨hp, hq, (h.handled hi type frame).timely h.timely⟩, hm⟩

theorem Reading.consume (h : Reading i now s) (f : Bytes) :
    Reading i now (s.consume i now f) ∧ Moves i s (s.consume i now f) := by
  unfold Server.consume
  split_ifs with h0 h1
  · exact ⟨h, .refl⟩
  · rw [Bool.not_eq_true] at h0
    obtain ⟨hr, hm, -⟩ := (h.sendErr {} .messageTooLong).disconnectClient h0
    exact ⟨hr, (Server.quiet_sendErr i s {} _).moves.trans hm⟩
  · rw [Bool.not_eq_true] at h0
    have htake : Quiet i s (s.emit (.frame i f)) := Server.quiet_emit s rfl
    obtain ⟨hr, hm⟩ := (h.emit (.frame i f)).handleFrame h0 (MsgType.ofCode (beGet16 f)) f
    exact ⟨hr, htake.moves.trans hm⟩

theorem Reading.foldl_consume (h : Reading i now s) (l : List Bytes) :
    Reading i now (l.foldl (Server.consume i now) s) ∧
    Moves i s (l.foldl (Server.consume i now) s) := by
  induction l generalizing s with
  | nil => exact ⟨h, .refl⟩
  | cons f l ih =>
    obtain ⟨hr, hm⟩ := h.consume f
    obtain ⟨hr', hm'⟩ := ih hr
    exact ⟨hr', hm.trans hm'⟩

theorem Reading.consumed_of_cut (h : Reading i now s) {b : Bytes} {k : Nat}
    (hcut : (frameFormat s.maxRxFrame).cut b = some k) :
    s.consumed i now b = (s.consume i now (b.take k)).consumed i now (b.drop k) := by
  rw [Server.consumed, Format.split_of_some hcut, List.foldl_cons, Server.consumed,
    Moves.maxRxFrame (h.consume _).2]

theorem Reading.consumed_of_tooLong (h : Reading i now s)
    (hi : (s.sessions i).scheduleDisconnect = false) {b : Bytes}
    (h0 : ¬b.length < MSG_HEADER_LEN) (h1 : payloadLen b > s.maxRxFrame.toNat) :
    s.consumed i now b = (s.sendErr i {} .messageTooLong).disconnectClient i := by
  have hcut : (frameFormat s.maxRxFrame).cut b = some MSG_HEADER_LEN :=
    (if_neg h0).trans (if_pos h1)
  have hdo : s.consume i now (b.take MSG_HEADER_LEN) =
      (s.sendErr i {} .messageTooLong).disconnectClient i := by
    rw [Server.consume, if_neg (by rw [hi]; nofun), payloadLen_take b le_rfl, if_pos h1]
  rw [h.consumed_of_cut hcut, hdo]
  exact foldl_consume_of_closed ((h.sendErr {} .messageTooLong).disconnectClient hi).2.2 _

theorem consume_of_frame (hi : (s.sessions i).scheduleDisconnect = false) {b : Bytes}
    (h1 : ¬payloadLen b > s.maxRxFrame.toNat) :
    s.consume i now (b.take (MSG_HEADER_LEN + payloadLen b)) =
      (s.emit (.frame i (b.take (MSG_HEADER_LEN + payloadLen b)))).handleFrame i
      (MsgType.ofCode (beGet16 b))
        (b.take (MSG_HEADER_LEN + payloadLen b)) now := by
  have hle : MSG_HEADER_LEN ≤ MSG_HEADER_LEN + payloadLen b := Nat.le_add_right _ _
  rw [Server.consume, if_neg (by rw [hi]; nofun), payloadLen_take b hle, if_neg h1,
    beGet16_take b hle]

/-- The loop of `on_data` hands over the frames of the buffer. What is left in the buffer of a
session that is to be closed does not matter. -/
theorem onDataLoop_eq (fuel : Nat) (b : Bytes) (hfuel : b.length ≤ fuel) (h : Reading i now s) :
    ∃ rest, Server.onDataLoop fuel (s.withRx i b) i now = (s.consumed i now b).withRx i rest ∧
      (((s.consumed i now b).sessions i).scheduleDisconnect = false →
        rest = ((frameFormat s.maxRxFrame).split b).2) := by
  -- when nothing is taken off, the buffer stays
  have hwait : ∀ {s : Server} {b : Bytes}, (frameFormat s.maxRxFrame).cut b = none →
      ∃ rest, s.withRx i b = (s.consumed i now b).withRx i rest ∧
        (((s.consumed i now b).sessions i).scheduleDisconnect = false →
          rest = ((frameFormat s.maxRxFrame).split b).2) := by
    intro s b hcut
    rw [Server.consumed, Format.split_of_none hcut]
    exact ⟨b, rfl, fun _ => rfl⟩
  induction fuel generalizing s b with
  | zero =>
    have hb : b = [] := List.eq_nil_of_length_eq_zero (Nat.le_zero.mp hfuel)
    subst hb
    exact hwait rfl
  | succ fuel ih =>
    simp only [Server.onDataLoop, Server.withRx_self]
    by_cases hi : (s.sessions i).scheduleDisconnect = true
    · have hstop : s.consumed i now b = s := foldl_consume_of_closed hi _
      rw [if_pos (Or.inr hi), hstop]
      exact ⟨b, rfl, fun hc => absurd hi (by rw [hc]; simp)⟩
    rw [if_neg (not_or.mpr ⟨h.timely.live, hi⟩)]
    rw [Bool.not_eq_true] at hi
    by_cases h0 : b.length < MSG_HEADER_LEN
    · rw [if_pos h0]
      exact hwait (if_pos h0)
    rw [if_neg h0]
    change ∃ rest, (if payloadLen b > s.maxRxFrame.toNat then _ else
      if b.length < MSG_HEADER_LEN + payloadLen b then _ else _) = _ ∧ _
    by_cases h1 : payloadLen b > s.maxRxFrame.toNat
    · rw [if_pos h1, h.consumed_of_tooLong hi h0 h1]
      refine ⟨b, Server.disconnectClient_withRx (s := s.sendErr i {} .messageTooLong) h.processing i
        b, fun hc => ?_⟩
      rw [((h.sendErr {} .messageTooLong).disconnectClient hi).2.2] at hc
      cases hc
    rw [if_neg h1]
    by_cases h2 : b.length < MSG_HEADER_LEN + payloadLen b
    · rw [if_pos h2]
      exact hwait (((if_neg h0).trans (if_neg h1)).trans (if_pos h2))
    rw [if_neg h2]
    have hcut : (frameFormat s.maxRxFrame).cut b = some (MSG_HEADER_LEN + payloadLen b) :=
      ((if_neg h0).trans (if_neg h1)).trans (if_neg h2)
    have hdrop : (b.drop (MSG_HEADER_LEN + payloadLen b)).length ≤ fuel := by
      have := (frameFormat s.maxRxFrame).pos hcut
      have := (frameFormat s.maxRxFrame).le hcut
      rw [List.length_drop]
      omega
    obtain ⟨hr, hm⟩ := h.consume (b.take (MSG_HEADER_LEN + payloadLen b))
    obtain ⟨rest, hloop, hrest⟩ := ih _ hdrop hr
    rw [Moves.maxRxFrame hm] at hrest
    rw [h.consumed_of_cut hcut, Format.split_of_some hcut]
    refine ⟨rest, ?_, hrest⟩
    rw [← hloop, consume_of_frame hi h1, ← Server.withRx_drop,
      ← Server.handleFrame_withRx (s := s.emit _) h.processing]
    rfl

/-! ## Deliveries -/

/-- The server when the buffer `b` has been read and pending closes are served. -/
def Server.delivered (i : Slot) (now : UInt64) (s : Server) (b : Bytes) : Server :=
  if ((s.consumed i now b).sessions i).scheduleDisconnect then
    Server.drainCloses { s.consumed i now b with processing := false }
  else { (s.consumed i now b).withRx i ((frameFormat s.maxRxFrame).split b).2
    with processing := false }

theorem Reading.consumed (h : Reading i now s) (b : Bytes) :
    Reading i now (s.consumed i now b) ∧ Moves i s (s.consumed i now b) := h.foldl_consume _

theorem Reading.drainCloses_withRx (h : Reading i now s)
    (hi : (s.sessions i).scheduleDisconnect = true) (b : Bytes) :
    Server.drainCloses { s.withRx i b with processing := false } =
      Server.drainCloses { s with processing := false } := by
  rcases h.queue with ⟨-, hd⟩ | ⟨hq, hfree, -⟩
  · rw [hd i] at hi
    cases hi
  · have hfree' : ((s.withRx i b).sessions i).phase ≠ .free := by
      rw [Server.withRx_self]
      exact hfree
    rw [Server.drainCloses_of_pending (s := { s.withRx i b with processing := false }) hq hfree',
      Server.drainCloses_of_pending (s := { s with processing := false }) hq hfree]
    have hleave :=
      Server.leaveCluster_withRx { s with processing := true, pendingClose := [] } i i b
    have hreset :=
      Server.reset_withRx
        (Server.leaveCluster { s with processing := true, pendingClose := [] } i) i b
    rw [← hleave] at hreset
    rw [← hreset]
    rfl

theorem Reading.drainCloses_cleared (h : Reading i now s)
    (hi : (s.sessions i).scheduleDisconnect = true) :
    (Server.drainCloses { s with processing := false }).sessions i = {} := by
  rcases h.queue with ⟨-, hd⟩ | ⟨hq, hfree, -⟩
  · rw [hd i] at hi
    cases hi
  · rw [Server.drainCloses_of_pending (s := { s with processing := false }) hq hfree]
    exact Server.modify_self _ i fun _ => {}

theorem Reading.drainCloses_free (h : Reading i now s)
    (hi : (s.sessions i).scheduleDisconnect = true) :
    ((Server.drainCloses { s with processing := false }).sessions i).phase = .free := by
  rw [h.drainCloses_cleared hi]

/-- What reading a buffer comes to. -/
theorem Reading.delivered_eq (h : Reading i now s) (b : Bytes) :
    Server.drainCloses
    { Server.onDataLoop b.length (s.withRx i b) i now with processing := false } =
      s.delivered i now b := by
  obtain ⟨rest, hloop, hrest⟩ := onDataLoop_eq b.length b le_rfl h
  have hr := (h.consumed b).1
  rw [hloop, Server.delivered]
  split_ifs with hc
  · exact hr.drainCloses_withRx hc rest
  · rw [Bool.not_eq_true] at hc
    rw [hrest hc]
    exact Server.drainCloses_of_empty (hr.queue.idle hc).1

theorem Reading.consumed_append (h : Reading i now s) (a b : Bytes) :
    s.consumed i now (a ++ b) =
      (s.consumed i now a).consumed i now (((frameFormat s.maxRxFrame).split a).2 ++ b) := by
  rw [Server.consumed, Format.split_append, List.foldl_append]
  rw [Server.consumed, Moves.maxRxFrame (h.consumed a).2]
  rfl

theorem Reading.delivered_of_closed (h : Reading i now s) {a : Bytes}
    (hc : ((s.consumed i now a).sessions i).scheduleDisconnect = true) (b : Bytes) :
    s.delivered i now (a ++ b) = s.delivered i now a := by
  have hsame : s.consumed i now (a ++ b) = s.consumed i now a := by
    rw [h.consumed_append]
    exact foldl_consume_of_closed hc _
  rw [Server.delivered, Server.delivered, hsame, if_pos hc, if_pos hc]

theorem Reading.delivered_append (h : Reading i now s) (a b : Bytes) :
    s.delivered i now (a ++ b) =
      (s.consumed i now a).delivered i now (((frameFormat s.maxRxFrame).split a).2 ++ b) := by
  rw [Server.delivered, Server.delivered, ← h.consumed_append, Moves.maxRxFrame (h.consumed a).2,
    Format.split_append]

/-! ## Calls -/

/-- The server when `on_data` starts to read. -/
def Server.opened (s : Server) (i : Slot) (now : UInt64) : Server :=
  { s.rescheduleDpd i now with processing := true }

theorem Quiescent.opened (hs : Quiescent s) (hfree : (s.sessions i).phase ≠ .free) :
    Reading i now (s.opened i now) := by
  have hself : (s.opened i now).sessions i = (s.sessions i).rescheduled now :=
    Server.modify_self _ _ _
  refine ⟨rfl, Or.inl ⟨hs.pendingClose, fun j => ?_⟩, ?_⟩
  · by_cases hj : j = i
    · obtain ⟨d, hd⟩ := Session.rescheduled_eq now (s.sessions i)
      rw [hj, hself, hd]
      exact hs.scheduleDisconnect i
    · rw [show (s.opened i now).sessions j = s.sessions j from Server.modify_of_ne s _ hj]
      exact hs.scheduleDisconnect j
  · rw [hself]
    exact Session.rescheduled_timely now hfree

theorem onData_of_free (hfree : (s.sessions i).phase = .free) (data : Bytes) (now : UInt64) :
    s.onData i data now = s := by
  rw [Server.onData_slot, if_pos (Or.inl hfree)]

/-- `on_data` delivers the buffer with the new data, to any server that is the opened one up to the
buffer. -/
theorem onData_eq (hs : Quiescent s) (hfree : (s.sessions i).phase ≠ .free) (data : Bytes)
    {t : Server} (ht : Reading i now t)
    (hopen : ∀ b, (s.opened i now).withRx i b = t.withRx i b) :
    s.onData i data now = t.delivered i now ((s.sessions i).rx ++ data) := by
  have hlive : ¬((s.sessions i).phase = .free ∨ (s.sessions i).scheduleDisconnect = true) := by
    rw [not_or, hs.scheduleDisconnect i]
    exact ⟨hfree, by nofun⟩
  have happend : (s.modify i fun x => { x with rx := x.rx ++ data }) =
      s.withRx i ((s.sessions i).rx ++ data) :=
    rfl
  have hlen : (((s.rescheduleDpd i now).withRx i ((s.sessions i).rx ++ data)).sessions i).rx =
      (s.sessions i).rx ++ data := by rw [Server.withRx_self]
  rw [Server.onData_slot, if_neg hlive]
  simp only [Server.feed]
  rw [happend, Server.rescheduleDpd_withRx, hlen]
  change Server.drainCloses
    { Server.onDataLoop _ ((s.opened i now).withRx i _) i now with processing := false } = _
  rw [hopen, ht.delivered_eq]

theorem Reading.reopened (h : Reading i now s) (rest b : Bytes) :
    (Server.opened { s.withRx i rest with processing := false } i now).withRx i b =
      s.withRx i b := by
  have hsame : s.rescheduleDpd i now = s := by
    rw [Server.rescheduleDpd, Server.modify, h.timely.rescheduled, Function.update_eq_self]
  have hagain : (s.withRx i rest).rescheduleDpd i now = s.withRx i rest := by
    rw [Server.rescheduleDpd_withRx, hsame]
  have hopen : Server.opened { s.withRx i rest with processing := false } i now =
      s.withRx i rest := by
    change ({ (s.withRx i rest).rescheduleDpd i now with processing := true } : Server) = _
    rw [hagain, ← h.processing]
    rfl
  rw [hopen, Server.withRx_withRx]

/-- Two deliveries at the same time are one. -/
theorem onData_append (hs : Quiescent s) (i : Slot) (a b : Bytes) (now : UInt64) :
    (s.onData i a now).onData i b now = s.onData i (a ++ b) now := by
  by_cases hfree : (s.sessions i).phase = .free
  · rw [onData_of_free hfree, onData_of_free hfree, onData_of_free hfree]
  have hr : Reading i now (s.opened i now) := hs.opened hfree
  have hq := (Server.onData_moves i a now hs).2
  rw [onData_eq hs hfree (a ++ b) hr fun _ => rfl, ← List.append_assoc]
  rw [onData_eq hs hfree a hr fun _ => rfl] at hq ⊢
  by_cases hc :
    (((s.opened i now).consumed i now ((s.sessions i).rx ++ a)).sessions i).scheduleDisconnect =
    true
  · -- the slot is free by the second delivery
    rw [hr.delivered_of_closed hc]
    refine onData_of_free ?_ b now
    rw [Server.delivered, if_pos hc]
    exact (hr.consumed _).1.drainCloses_free hc
  · have hu := (hr.consumed ((s.sessions i).rx ++ a)).1
    rw [hr.delivered_append ((s.sessions i).rx ++ a) b]
    rw [Server.delivered, if_neg hc] at hq ⊢
    set u := (s.opened i now).consumed i now ((s.sessions i).rx ++ a)
    set rest := ((frameFormat (s.opened i now).maxRxFrame).split ((s.sessions i).rx ++ a)).2
    have hself : (u.withRx i rest).sessions i = { u.sessions i with rx := rest } :=
      Server.withRx_self u i rest
    have hlive : ((u.withRx i rest).sessions i).phase ≠ .free := by
      rw [hself]
      exact hu.timely.live
    rw [onData_eq hq hlive b hu fun c => hu.reopened rest c]
    change u.delivered i now (((u.withRx i rest).sessions i).rx ++ b) = _
    rw [hself]

end Loop

end Qnetd
