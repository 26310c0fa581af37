import Qnetd.Invariant.Replies
import Qnetd.Invariant.Rule

/-!
# Outgoing frames

Every frame the server passes to the transport is a whole frame, with the length its header says, so
that a client can take it off a stream; and it decodes.

* `Reply.readable` : a frame that is built is whole, of at most 128 payload bytes;
  `Answers.readable` : so is the echo of a whole frame;
* `run_sends_readable` : a client can read every frame sent in a run.
-/

namespace Qnetd

/-! ## Frames -/

theorem Reply.length_opts_le (r : Reply) : (optBytes r.opts).length ≤ 128 := by
  cases r with
  | preinit seqSet seq tls certRequired => cases seqSet <;> exact Nat.le_of_ble_eq_true rfl
  | serverError seqSet seq code => cases seqSet <;> exact Nat.le_of_ble_eq_true rfl
  | init seqSet seq code messages options maxRequest maxReply =>
    cases seqSet <;> cases messages <;> cases options <;> exact Nat.le_of_ble_eq_true rfl
  | setOption seqSet seq hbSet hb kaptbSet kaptb =>
    cases seqSet <;> cases hbSet <;> cases kaptbSet <;> exact Nat.le_of_ble_eq_true rfl
  | nodeList seq type ring vote => exact Nat.le_of_ble_eq_true rfl
  | voteInfo seq ring vote => exact Nat.le_of_ble_eq_true rfl
  | heuristicsChange seqSet seq vote => cases seqSet <;> exact Nat.le_of_ble_eq_true rfl

/-- A client with this limit takes the frame off its stream and decodes it. -/
structure Readable (max : UInt32) (f : Frame) : Prop where
  complete : Complete max f
  decodes : ∃ m, decodeFrame f = some m

theorem Reply.readable {max : UInt32} (hmax : 128 ≤ max.toNat) (r : Reply) :
    Readable max r.frame where
  complete := by
    rw [r.frame_eq]
    exact optFrame_complete r.type (r.length_opts_le.trans hmax)
  decodes := ⟨r.msg, r.decodeFrame_frame⟩

theorem VoteInfo.readable {max : UInt32} (hmax : 128 ≤ max.toNat) (v : VoteInfo) :
    Readable max v.frame :=
  Reply.readable hmax (.voteInfo v.seq v.ring v.vote)

theorem ReplyFrame.built_or_echo {f : Frame} (h : ReplyFrame f) :
    (∃ r : Reply, f = r.frame) ∨ ∃ g, f = buildEchoReply g := by
  cases h with
  | preinitReply seqSet seq tls certRequired =>
    exact Or.inl ⟨.preinit seqSet seq tls certRequired, rfl⟩
  | serverError seqSet seq code => exact Or.inl ⟨.serverError seqSet seq code, rfl⟩
  | initReply seqSet seq code messages options maxRequest maxReply =>
    exact Or.inl ⟨.init seqSet seq code messages options maxRequest maxReply, rfl⟩
  | setOptionReply seqSet seq hbSet hb kaptbSet kaptb =>
    exact Or.inl ⟨.setOption seqSet seq hbSet hb kaptbSet kaptb, rfl⟩
  | echoReply g => exact Or.inr ⟨g, rfl⟩
  | nodeListReply seq type ring vote => exact Or.inl ⟨.nodeList seq type ring vote, rfl⟩
  | heuristicsChangeReply seqSet seq vote => exact Or.inl ⟨.heuristicsChange seqSet seq vote, rfl⟩

theorem Complete.echo {max : UInt32} {f : Frame} (h : Complete max f) (x y : UInt8) :
    Complete max (x :: y :: f.drop 2) := by
  have hpay : payloadLen (x :: y :: f.drop 2) = payloadLen f := rfl
  have hlen := h.length
  refine ⟨?_, hpay ▸ h.fits⟩
  rw [hpay, List.length_cons, List.length_cons, List.length_drop, hlen, MSG_HEADER_LEN]
  omega

theorem Answers.readable {max : UInt32} (hmax : 128 ≤ max.toNat) {request f : Frame}
    {m : MsgDecoded}
    (h : Answers request m f) (hf : ReplyFrame f) (hreq : Complete max request) :
    Readable max f := by
  rcases hf.built_or_echo with ⟨r, rfl⟩ | ⟨g, rfl⟩
  · exact r.readable hmax
  · obtain ⟨reply, hdec, -⟩ := h.seq
    refine ⟨?_, reply, hdec⟩
    rcases frameType_buildEchoReply g with hecho | hnone
    · rw [h.echo hecho]
      exact hreq.echo _ _
    · -- no reply has that type
      rcases h.type with ht | ht
      · rw [hnone] at ht
        cases hm : m.type <;> simp [hm, replyType] at ht
      · rw [hnone] at ht
        cases ht

/-! ## The frames of a run -/

def RepliesReadable (max : UInt32) (s : Server) : Prop :=
  ∀ i f, .send i f ∈ s.trace → Readable max f

namespace RepliesReadable

variable {max : UInt32} {s s' : Server}

theorem grow (h : RepliesReadable max s) {new : List Event} (htr : s'.trace = new ++ s.trace)
    (hnew : ∀ i f, .send i f ∈ new → Readable max f) : RepliesReadable max s' := by
  intro i f hf
  rw [htr] at hf
  rcases List.mem_append.mp hf with hf | hf
  · exact hnew i f hf
  · exact h i f hf

theorem emit (h : RepliesReadable max s) {e : Event} (he : ∀ i f, e ≠ .send i f) :
    RepliesReadable max (s.emit e) := by
  have htr : (s.emit e).trace = [e] ++ s.trace := rfl
  exact h.grow htr fun i f hf => absurd (List.mem_singleton.mp hf).symm (he i f)

theorem sendErr (hmax : 128 ≤ max.toNat) (h : RepliesReadable max s) (i : Slot) (m : MsgDecoded)
    (code : ReplyErrorCode) : RepliesReadable max (s.sendErr i m code) := by
  have htr : (s.sendErr i m code).trace =
      [.send i (buildServerError m.seqNumberSet m.seqNumber code)] ++ s.trace := rfl
  refine h.grow htr fun j f hf => ?_
  obtain ⟨-, rfl⟩ := Event.send.inj (List.mem_singleton.mp hf)
  exact Reply.readable hmax (.serverError m.seqNumberSet m.seqNumber code)

theorem within (h : RepliesReadable max s) {c : Int} (hw : Server.Within c s s') :
    RepliesReadable max s' := by
  obtain ⟨new, htr, hnew⟩ := hw.trace
  exact h.grow htr fun i f hf => (hnew _ hf).elim

theorem message (hmax : 128 ≤ max.toNat) (h : RepliesReadable max s) {i : Slot} {f : Frame}
    {m : MsgDecoded}
    (now : UInt64) (hlive : (s.sessions i).phase ≠ .free) (hf : Complete max f)
    (hdec : decodeFrame f = some m)
    (hrecv : .recv i (s.sessions i).phase (s.sessions i).nodeId m ∈ s.trace) :
    RepliesReadable max (s.handleMsg i m f now) := by
  -- what is sent is a vote or a reply, by the history, and a vote or an answer, by the exchange
  have hgrows := Moves.grows (Server.handleMsg_moves i s m f now hrecv)
  obtain ⟨new, htr, hnew⟩ := hgrows
  have hsent : ∀ {replies : List Frame}, Exchange i s (s.handleMsg i m f now) replies →
      (∀ g ∈ replies, Answers f m g) → RepliesReadable max (s.handleMsg i m f now) := by
    rintro replies ⟨votes, ⟨-, new', htr', -, hcalls⟩, hvotes, -⟩ hans
    obtain rfl : new = new' := List.append_cancel_right (htr.symm.trans htr')
    refine h.grow htr fun j g hg => ?_
    have hmem : TransportCall.sendFrame j g ∈ new.filterMap Event.call :=
      List.mem_filterMap.mpr ⟨_, hg, rfl⟩
    rw [hcalls, List.mem_reverse, List.mem_map] at hmem
    obtain ⟨p, hp, hpg⟩ := hmem
    obtain ⟨rfl, rfl⟩ := TransportCall.sendFrame.inj hpg
    rcases List.mem_append.mp hp with hp | hp
    · obtain ⟨-, v, hv⟩ := hvotes p hp
      rw [hv]
      exact v.readable hmax
    · obtain ⟨r, hr, rfl⟩ := List.mem_map.mp hp
      exact (hans r hr).readable hmax (hnew _ hg).2 hf
  have hex := Server.handleMsg_exchange hdec hlive now
  split_ifs at hex
  · exact hsent hex (by simp)
  · obtain ⟨g, hex, hans⟩ := hex
    exact hsent hex (by simpa using hans)

theorem leave (h : RepliesReadable max s) (i : Slot) :
    RepliesReadable max ((s.leaveCluster i).reset i) := by
  rcases Server.left_cases s i with heq | ⟨-, heq⟩
  · rw [heq]
    exact fun j f hf => h j f hf
  · rw [heq]
    have hleaving : RepliesReadable max (s.leaving i) :=
      (h.emit (by simp)).within (leaving_within i)
    exact fun j f hf => hleaving j f hf

end RepliesReadable

theorem repliesReadable_rule {n max : UInt32} (hn : n ≤ max) (hmax : 128 ≤ max.toNat) :
    Rule n (RepliesReadable max) where
  init := fun _ _ hf => absurd hf List.not_mem_nil
  plumbing _ h := h
  connect _ _ _ h := h.emit (by simp)
  reschedule _ _ h := h
  frame _ _ _ h := h.emit (by simp)
  refuse i code h := h.sendErr hmax i {} code
  message now hlive hf hdec h := by
    have hfits := hf.fits.trans (UInt32.le_iff_toNat_le.mp hn)
    exact (h.emit (by simp)).message hmax now hlive ⟨hf.length, hfits⟩ hdec (List.mem_cons_self ..)
  leave _ h := h.leave _
  close _ h := h.emit (by simp)

/-- A client can read every frame that is sent, if it reads frames of 128 bytes and all that the
server reads. -/
theorem run_sends_readable {n max : UInt32} (hn : n ≤ max) (hmax : 128 ≤ max.toNat)
    (calls : List Call) {e : Event}
    (he : e ∈ (run n calls).trace) {i : Slot} {f : Frame} (hf : e.call = some (.sendFrame i f)) :
    Readable max f := by
  cases e with
  | send j g =>
    obtain ⟨-, rfl⟩ := TransportCall.sendFrame.inj (Option.some.inj hf)
    exact (repliesReadable_rule hn hmax).run calls j g he
  | vote j v =>
    obtain ⟨-, rfl⟩ := TransportCall.sendFrame.inj (Option.some.inj hf)
    exact v.readable hmax
  | close j => cases hf
  | _ => cases hf

end Qnetd
