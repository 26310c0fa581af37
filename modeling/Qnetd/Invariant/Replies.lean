import Qnetd.Invariant.Rejection
import Qnetd.Wire.RoundTrip

/-!
# Requests and replies

What `handle_frame` sends for one request.

* `replyType`, `Answers` : the frames that answer a request;
* `Sent` : the frames sent between two states, in order; `Server.Within.sent` : the algorithm sends
  nothing but votes to active members of its cluster;
* `Exchange`, `Outcome.exchange` : votes to the sender's cluster, then replies to the sender;
* `one_reply_per_request` : every request is answered once, with its own sequence number.
-/

namespace Qnetd

/-! ## Answers -/

/-- The type of the reply to a request of that type. A VOTE_INFO_REPLY is a reply itself, and the
other types are not supported. -/
def replyType : MsgType → Option MsgType
  | .preinit => some .preinitReply
  | .init => some .initReply
  | .setOption => some .setOptionReply
  | .echoRequest => some .echoReply
  | .nodeList => some .nodeListReply
  | .heuristicsChange => some .heuristicsChangeReply
  | _ => none

/-- Frame `f` answers the request, which decodes to `m`: with the reply or with an error, and with
the sequence number of the request if it has one. An echo has the bytes of the request behind the
type. -/
structure Answers (request : Frame) (m : MsgDecoded) (f : Frame) : Prop where
  type : replyType m.type = some (frameType f) ∨ frameType f = .serverError
  seq : ∃ r, decodeFrame f = some r ∧ r.seqNumberSet = m.seqNumberSet ∧
    (m.seqNumberSet = true → r.seqNumber = m.seqNumber)
  echo : frameType f = .echoReply → f = bePut16 [] MsgType.echoReply.code ++ request.drop 2

theorem Answers.ne_voteInfo {request : Frame} {m : MsgDecoded} {f : Frame}
    (h : Answers request m f) : frameType f ≠ .voteInfo := by
  intro hv
  rcases h.type with ht | ht
  · rw [hv] at ht
    cases hm : m.type <;> simp [hm, replyType] at ht
  · rw [hv] at ht
    cases ht

theorem Reply.frameType_frame (r : Reply) : frameType r.frame = r.type := by
  rw [r.frame_eq, frameType_optFrame]

theorem Reply.answers {m : MsgDecoded} (r : Reply) (request : Frame)
    (htype : replyType m.type = some r.type ∨ r.type = .serverError)
    (hset : r.msg.seqNumberSet = m.seqNumberSet)
    (hseq : m.seqNumberSet = true → r.msg.seqNumber = m.seqNumber) : Answers request m r.frame where
  type := by rwa [r.frameType_frame]
  seq := ⟨r.msg, r.decodeFrame_frame, hset, hseq⟩
  echo := by
    rw [r.frameType_frame]
    intro h
    cases r <;> cases h

theorem serverError_answers (request : Frame) (m : MsgDecoded) (code : ReplyErrorCode) :
    Answers request m (buildServerError m.seqNumberSet m.seqNumber code) :=
  (Reply.serverError m.seqNumberSet m.seqNumber code).answers request (Or.inr rfl) rfl
    fun h => by simp [Reply.msg, h]

/-- The type is what the header says, and the other fields do not depend on it. -/
theorem msgDecode_retype {type : MsgType} {p : Bytes} {m : MsgDecoded}
    (h : msgDecode type p = some m) (type' : MsgType) :
    m.type = type ∧ msgDecode type' p = some { m with type := type' } := by
  obtain ⟨l, hp, hvalid, hlen, hnodes, hm⟩ := (msgDecode_eq_some type p m).mp h
  refine ⟨by rw [hm]; rfl, (msgDecode_eq_some type' p _).mpr ⟨l, hp, hvalid, hlen, hnodes, ?_⟩⟩
  rw [hm]
  rfl

theorem frameType_singleton_ne (x : UInt8) : frameType [x] ≠ .echoRequest := by
  intro h
  by_cases hx : x = 0
  · subst hx
    cases h
  · have hpos : x.toNat ≠ 0 := fun h0 => hx (UInt8.toNat.inj h0)
    have hge : 18 ≤ beGet16 [x] := by
      rw [UInt16.le_iff_toNat_le, beGet16_toNat]
      change 18 ≤ x.toNat * 2 ^ 8 + 0
      omega
    rw [frameType, MsgType.ofCode, dif_pos hge] at h
    cases h

theorem echoReply_answers {request : Frame} {m : MsgDecoded} (hdec : decodeFrame request = some m)
    (htype : m.type = .echoRequest) : Answers request m (buildEchoReply request) := by
  obtain ⟨hty, hre⟩ := msgDecode_retype hdec .echoReply
  -- a request of that type has a header to put the reply's type in
  obtain ⟨x, y, l, rfl⟩ : ∃ x y l, request = x :: y :: l := by
    rw [htype] at hty
    rcases request with _ | ⟨x, _ | ⟨y, l⟩⟩
    · cases hty
    · exact absurd hty.symm (frameType_singleton_ne x)
    · exact ⟨x, y, l, rfl⟩
  have hft : frameType (buildEchoReply (x :: y :: l)) = .echoReply := by
    have hget : beGet16 (buildEchoReply (x :: y :: l)) = MsgType.echoReply.code := beGet16_be _ l
    rw [frameType, hget, MsgType.ofCode_code]
  refine ⟨Or.inl (by rw [htype, hft]; rfl), ⟨{ m with type := .echoReply }, ?_, rfl, fun _ => rfl⟩,
    fun _ => rfl⟩
  rw [decodeFrame, hft]
  exact hre

/-! ## What is sent -/

def frameTo (p : Slot × Frame) : TransportCall := .sendFrame p.1 p.2

/-- No session begins or ends with it. -/
def Event.inner : Event → Bool
  | .connect _ | .leave _ _ | .close _ => false
  | _ => true

/-- Between the two states these frames were sent, in this order, and no session began or ended. -/
structure Sent (s s' : Server) (sent : List (Slot × Frame)) : Prop where
  free : ∀ j, (s'.sessions j).phase = .free ↔ (s.sessions j).phase = .free
  trace : ∃ new, s'.trace = new ++ s.trace ∧ (∀ e ∈ new, e.inner = true) ∧
    new.filterMap Event.call = (sent.map frameTo).reverse

theorem Sent.calls {s s' : Server} {l : List (Slot × Frame)} (h : Sent s s' l) :
    transportCalls s'.trace = transportCalls s.trace ++ l.map frameTo := by
  obtain ⟨new, htr, -, hcalls⟩ := h.trace
  rw [transportCalls, htr, List.filterMap_append, List.reverse_append, hcalls, List.reverse_reverse,
    transportCalls]

theorem Sent.trans {s t u : Server} {l₁ l₂ : List (Slot × Frame)} (h₁ : Sent s t l₁)
    (h₂ : Sent t u l₂) : Sent s u (l₁ ++ l₂) := by
  obtain ⟨n₁, ht₁, hi₁, hc₁⟩ := h₁.trace
  obtain ⟨n₂, ht₂, hi₂, hc₂⟩ := h₂.trace
  refine ⟨fun j => (h₂.free j).trans (h₁.free j), n₂ ++ n₁, by rw [ht₂, ht₁, List.append_assoc],
    List.forall_mem_append.mpr ⟨hi₂, hi₁⟩, ?_⟩
  rw [List.filterMap_append, hc₁, hc₂, List.map_append, List.reverse_append]

theorem Sent.refl (s : Server) : Sent s s [] := ⟨fun _ => Iff.rfl, [], rfl, by simp, rfl⟩

theorem sent_modify (s : Server) (i : Slot) {f : Session → Session}
    (hf : (f (s.sessions i)).phase = .free ↔ (s.sessions i).phase = .free) :
    Sent s (s.modify i f) [] := by
  refine ⟨fun j => ?_, [], rfl, by simp, rfl⟩
  rw [Server.modify_apply]
  split_ifs with hj
  · rw [hj]
    exact hf
  · exact Iff.rfl

theorem sent_emit (s : Server) {e : Event} (hi : e.inner = true) (hc : e.call = none) :
    Sent s (s.emit e) [] :=
  ⟨fun _ => Iff.rfl, [e], rfl, by simpa using hi, by simp [hc]⟩

theorem sent_send (s : Server) (i : Slot) (f : Frame) : Sent s (s.send i f) [(i, f)] :=
  ⟨fun _ => Iff.rfl, [.send i f], rfl, by simp [Event.inner], rfl⟩

/-- Votes to active sessions of cluster `c`. -/
def Votes (c : Int) (s : Server) (sent : List (Slot × Frame)) : Prop :=
  ∀ p ∈ sent, s.inCluster c p.1 = true ∧ ∃ v : VoteInfo, p.2 = v.frame

def Event.ballot : Event → Option (Slot × Frame)
  | .vote j v => some (j, v.frame)
  | _ => none

/-- The algorithm sends nothing but votes to its cluster. -/
theorem Server.Within.sent {c : Int} {s s' : Server} (h : Server.Within c s s') :
    ∃ l, Sent s s' l ∧ Votes c s l := by
  obtain ⟨new, htr, hnew⟩ := h.trace
  refine ⟨(new.filterMap Event.ballot).reverse,
    ⟨fun j => by rw [h.same.phase j], new, htr, fun e he => ?_, ?_⟩, fun p hp => ?_⟩
  · have hw := hnew e he
    cases e with
    | connect | leave | close => exact hw.elim
    | _ => rfl
  · rw [List.map_reverse, List.reverse_reverse, List.map_filterMap]
    refine List.filterMap_congr fun e he => ?_
    have hw := hnew e he
    cases e with
    | send | close => exact hw.elim
    | _ => rfl
  · obtain ⟨e, he, hp⟩ := List.mem_filterMap.mp (List.mem_reverse.mp hp)
    have hw := hnew e he
    cases e with
    | vote j v =>
      cases hp
      exact ⟨hw.1, v, rfl⟩
    | _ => cases hp

theorem Server.Within.sent_after {c : Int} {s s' : Server} {e : Event} (hi : e.inner = true)
    (hc : e.call = none) (h : Server.Within c (s.emit e) s') : ∃ l, Sent s s' l ∧ Votes c s l := by
  obtain ⟨l, hl, hv⟩ := h.sent
  exact ⟨l, (sent_emit s hi hc).trans hl, hv⟩

/-! ## Exchanges -/

/-- Votes were sent to the cluster of an active sender, and then these replies to the sender. -/
def Exchange (i : Slot) (s s' : Server) (replies : List Frame) : Prop :=
  ∃ votes, Sent s s' (votes ++ replies.map fun f => (i, f)) ∧ Votes (s.sessions i).cluster s votes ∧
    (votes ≠ [] → (s.sessions i).phase = .active)

def AnsweredOnce (i : Slot) (request : Frame) (m : MsgDecoded) (s s' : Server) : Prop :=
  ∃ f, Exchange i s s' [f] ∧ Answers request m f

theorem exchange_send {i : Slot} {s t : Server} (h : Sent s t []) (f : Frame) :
    Exchange i s (t.send i f) [f] :=
  ⟨[], h.trans (sent_send t i f), fun _ hp => absurd hp List.not_mem_nil, fun hne => absurd rfl hne⟩

theorem exchange_votes_send {i : Slot} {s t u : Server} (hact : (s.sessions i).phase = .active)
    (hv : ∃ l, Sent s t l ∧ Votes (s.sessions i).cluster s l) (hu : Sent t u []) (f : Frame) :
    Exchange i s (u.send i f) [f] := by
  obtain ⟨votes, hsent, hvotes⟩ := hv
  refine ⟨votes, ?_, hvotes, fun _ => hact⟩
  have h := hsent.trans (hu.trans (sent_send u i f))
  exact h

namespace Server

variable {i : Slot} {s : Server} {m : MsgDecoded} {request : Frame}

theorem answered_send {t : Server} (r : Reply) (h : Sent s t [])
    (htype : replyType m.type = some r.type ∨ r.type = .serverError)
    (hset : r.msg.seqNumberSet = m.seqNumberSet)
    (hseq : m.seqNumberSet = true → r.msg.seqNumber = m.seqNumber) :
    AnsweredOnce i request m s (t.send i r.frame) :=
  ⟨r.frame, exchange_send h _, r.answers request htype hset hseq⟩

theorem sendErr_answered (i : Slot) (s : Server) (m : MsgDecoded) (request : Frame)
    (code : ReplyErrorCode) : AnsweredOnce i request m s (s.sendErr i m code) :=
  ⟨_, exchange_send (.refl s) _, serverError_answers request m code⟩

theorem sent_initStored (s : Server) (i : Slot) (m : MsgDecoded) :
    Sent s (s.initStored i m) [] := by
  unfold initStored
  refine sent_modify s i ?_
  rw [initFields_withInit, phase_withInit]

theorem sent_admitted (now : UInt64) (hocc : (s.sessions i).phase ≠ .free) :
    Sent s (s.admitted i now) [] := by
  refine ⟨fun j => ?_, ?_⟩
  · by_cases hj : j = i
    · obtain ⟨c, hc⟩ := admitted_self s i now
      obtain ⟨d, hd⟩ :=
        Session.rescheduled_eq now { s.sessions i with cluster := c, phase := .active }
      rw [hj, hc, hd]
      exact iff_of_false (by simp) hocc
    · rw [admitted_of_ne s now hj]
  · obtain ⟨new, htr, hnew⟩ := admitted_trace s i now
    refine ⟨new, htr, fun e he => ?_, List.filterMap_eq_nil_iff.mpr fun e he => ?_⟩
    · have hadmits := hnew e he
      cases e with
      | connect | leave | close => exact hadmits.elim
      | _ => rfl
    · have hadmits := hnew e he
      cases e with
      | send | vote | close => exact hadmits.elim
      | _ => rfl

theorem initReply_answered {t : Server} (h : Sent s t []) (htype : m.type = .init)
    (code : ReplyErrorCode) : AnsweredOnce i request m s (t.sendInitReply i m code) :=
  answered_send
    (.init m.seqNumberSet m.seqNumber code m.supportedMessagesPresent m.supportedOptionsPresent
    t.maxRxFrame t.maxRxFrame) h (Or.inl (by rw [htype]; rfl)) rfl
      fun hset => by simp [Reply.msg, hset]

theorem seqNumberSet_of_nodeListError {x : Session} (h : nodeListError m x = none) :
    m.seqNumberSet = true := by
  unfold nodeListError at h
  by_cases hmiss : m.nodeListTypeSet = false ∨ m.seqNumberSet = false
  · rw [if_pos hmiss] at h
    cases h
  · exact Bool.not_eq_false _ ▸ (not_or.mp hmiss).2

theorem sent_rescheduleDpd (s : Server) (i : Slot) (now : UInt64) :
    Sent s (s.rescheduleDpd i now) [] := by
  obtain ⟨d, hd⟩ := Session.rescheduled_eq now (s.sessions i)
  exact sent_modify s i (by rw [hd])

theorem reportReply_answers {r : Report} {x : Session} (hr : Reports m x r) (request : Frame)
    (ring : RingId) (v : Vote) : Answers request m (reportReply m ring v r) := by
  cases r with
  | list type =>
    obtain ⟨htype, -, herr⟩ := hr
    exact (Reply.nodeList m.seqNumber type ring v).answers request (Or.inl (by rw [htype]; rfl))
      (seqNumberSet_of_nodeListError herr).symm fun _ => rfl
  | heuristics =>
    obtain ⟨htype, -, -⟩ := hr
    exact (Reply.heuristicsChange m.seqNumberSet m.seqNumber v).answers request
      (Or.inl (by rw [htype]; rfl)) rfl fun h => by simp [Reply.msg, h]

/-- A message is answered once. A VOTE_INFO_REPLY is a reply itself: it is answered only when it has
no sequence number. -/
theorem Outcome.exchange {s' : Server} {now : UInt64} (h : Outcome i m request now s s')
    (hdec : decodeFrame request = some m) (hocc : (s.sessions i).phase ≠ .free) :
    if m.type = .voteInfoReply ∧ m.seqNumberSet = true ∧ (s.sessions i).phase = .active then
      Exchange i s s' []
    else AnsweredOnce i request m s s' := by
  have hother : ∀ {type : MsgType}, m.type = type → type ≠ .voteInfoReply →
      ¬(m.type = .voteInfoReply ∧ m.seqNumberSet = true ∧ (s.sessions i).phase = .active) :=
    fun h hne hreply => hne (h.symm.trans hreply.1)
  cases h with
  | refused code hseq =>
    rw [if_neg fun hreply => absurd (hseq hreply.1 hreply.2.2) (by rw [hreply.2.1]; decide)]
    exact sendErr_answered i s m request code
  | greeted htype hwait =>
    rw [if_neg (hother htype (by decide))]
    refine answered_send (.preinit m.seqNumberSet m.seqNumber .unsupported 0) (sent_modify s i ?_)
      (Or.inl (by rw [htype]; rfl)) rfl fun hset => by simp [Reply.msg, hset]
    simp [hwait]
  | turnedAway code htype _ _ =>
    rw [if_neg (hother htype (by decide))]
    exact initReply_answered (sent_initStored s i m) htype code
  | joined htype _ _ _ _ =>
    rw [if_neg (hother htype (by decide))]
    have hstored := sent_initStored s i m
    exact initReply_answered
      (hstored.trans (sent_admitted now (mt (hstored.free i).mp hocc))) htype _
  | configured htype _ _ =>
    rw [if_neg (hother htype (by decide))]
    have hphase : (optioned m now (s.sessions i)).phase = (s.sessions i).phase := by
      obtain ⟨hb, deadline, keep, heq⟩ := optioned_eq m now (s.sessions i)
      rw [heq]
    exact answered_send (.setOption m.seqNumberSet m.seqNumber m.heartbeatIntervalSet
      (optioned m now (s.sessions i)).heartbeatMs m.keepActivePartitionTieBreakerSet
      (if (optioned m now (s.sessions i)).keepActivePartitionTb then 1 else 0)) (sent_modify s i
        (by rw [hphase]))
      (Or.inl (by rw [htype]; rfl)) rfl fun hset => by simp [Reply.msg, hset]
  | echoed htype _ =>
    rw [if_neg (hother htype (by decide))]
    exact ⟨_, exchange_send (.refl s) _, echoReply_answers hdec htype⟩
  | reported r hact hr =>
    have hne : m.type ≠ .voteInfoReply := by
      cases r with
      | list type => rw [hr.1]; decide
      | heuristics => rw [hr.1]; decide
    rw [if_neg fun hreply => hne hreply.1]
    have hvotes := (ranReport_within s i r m).sent_after rfl rfl
    have hnote : Sent (s.ranReport i r m) (s.noted i r m) [] := by
      refine sent_modify _ i ?_
      obtain ⟨_, _, _, _, _, _, _, heq⟩ :=
        noteReport_eq m (s.reportVote i r m) r ((s.ranReport i r m).sessions i)
      rw [heq]
      exact Iff.rfl
    exact ⟨_, exchange_votes_send hact hvotes hnote _, reportReply_answers hr request _ _⟩
  | replied htype hact hseq =>
    rw [if_pos ⟨htype, hseq, hact⟩]
    obtain ⟨votes, hsent, hvotes⟩ :=
      (handleVoteInfoReply_within s m hseq (inCluster_iff.mpr ⟨hact, rfl⟩)).sent
    exact ⟨votes, by simpa using hsent, hvotes, fun _ => hact⟩

theorem handleMsg_exchange (hdec : decodeFrame request = some m)
    (hocc : (s.sessions i).phase ≠ .free) (now : UInt64) :
    if m.type = .voteInfoReply ∧ m.seqNumberSet = true ∧ (s.sessions i).phase = .active then
      Exchange i s (s.handleMsg i m request now) []
    else AnsweredOnce i request m s (s.handleMsg i m request now) :=
  (handleMsg_outcome i m request now s).exchange hdec hocc

end Server

/-! ## Requests -/

/-- The frames among these that client `i` gets and that are not votes. -/
def direct (i : Slot) (sent : List (Slot × Frame)) : List Frame :=
  (sent.filter fun p => p.1 = i && frameType p.2 ≠ .voteInfo).map Prod.snd

theorem VoteInfo.frameType_frame (v : VoteInfo) : frameType v.frame = .voteInfo := by
  rw [VoteInfo.frame, buildVoteInfo_eq, frameType_optFrame]

theorem direct_eq {c : Int} {s : Server} {votes : List (Slot × Frame)} (hv : Votes c s votes)
    (i : Slot) {replies : List Frame} (hr : ∀ f ∈ replies, frameType f ≠ .voteInfo) :
    direct i (votes ++ replies.map fun f => (i, f)) = replies := by
  have hvotes : votes.filter (fun p => p.1 = i && frameType p.2 ≠ .voteInfo) = [] := by
    rw [List.filter_eq_nil_iff]
    intro p hp
    obtain ⟨-, v, hf⟩ := hv p hp
    simp [hf, v.frameType_frame]
  have hreplies :
      (replies.map fun f => (i, f)).filter (fun p => p.1 = i && frameType p.2 ≠ .voteInfo) =
      replies.map fun f => (i, f) := by
    rw [List.filter_eq_self]
    intro p hp
    obtain ⟨f, hf, rfl⟩ := List.mem_map.mp hp
    simp [hr f hf]
  rw [direct, List.filter_append, hvotes, hreplies]
  simp

/-- The frames of an exchange: the replies are the direct ones, and the others are votes. -/
theorem Exchange.frames {i : Slot} {s s' : Server} {replies : List Frame}
    (h : Exchange i s s' replies) (hr : ∀ f ∈ replies, frameType f ≠ .voteInfo) :
    ∃ sent, transportCalls s'.trace = transportCalls s.trace ++ sent.map frameTo ∧
    direct i sent = replies ∧
      ∀ p ∈ sent, p.1 ≠ i → (∃ v : VoteInfo, p.2 = v.frame) ∧ (s.sessions i).phase = .active ∧
        (s.sessions p.1).phase = .active ∧ (s.sessions p.1).cluster = (s.sessions i).cluster := by
  obtain ⟨votes, hsent, hvotes, hact⟩ := h
  refine ⟨votes ++ replies.map fun f => (i, f), hsent.calls, direct_eq hvotes i hr,
    fun p hp hne => ?_⟩
  rcases List.mem_append.mp hp with hp | hp
  · obtain ⟨hin, hv⟩ := hvotes p hp
    exact ⟨hv, hact (List.ne_nil_of_mem hp), Server.inCluster_iff.mp hin⟩
  · obtain ⟨f, -, rfl⟩ := List.mem_map.mp hp
    exact absurd rfl hne

/-- Every request gets exactly one reply, with its own sequence number. In every state, for every
occupied slot and every frame that decodes, `handle_frame` only sends frames. The client gets
exactly one that is not a vote, and it answers the request; only a numbered VOTE_INFO_REPLY of an
active session gets none. Every frame to another client is a vote to an active member of the same
cluster. -/
theorem one_reply_per_request (s : Server) (i : Slot) (hocc : (s.sessions i).phase ≠ .free)
    (request : Frame) (m : MsgDecoded) (hdec : decodeFrame request = some m) (now : UInt64) :
    ∃ sent, transportCalls (s.handleFrame i (frameType request) request now).trace =
        transportCalls s.trace ++ sent.map frameTo ∧
      (if m.type = .voteInfoReply ∧ m.seqNumberSet = true ∧ (s.sessions i).phase = .active then
        direct i sent = []
      else ∃ f, direct i sent = [f] ∧ Answers request m f) ∧
      ∀ p ∈ sent, p.1 ≠ i → (∃ v : VoteInfo, p.2 = v.frame) ∧ (s.sessions i).phase = .active ∧
        (s.sessions p.1).phase = .active ∧ (s.sessions p.1).cluster = (s.sessions i).cluster := by
  set t := s.emit (.recv i (s.sessions i).phase (s.sessions i).nodeId m)
  have hmsg := Server.handleMsg_exchange (i := i) (s := t) hdec hocc now
  have hphase : (t.sessions i).phase = (s.sessions i).phase := rfl
  rw [hphase] at hmsg
  rw [Server.handleFrame_of_decode hdec i s now]
  by_cases hreply : m.type = .voteInfoReply ∧ m.seqNumberSet = true ∧ (s.sessions i).phase = .active
  · simp only [if_pos hreply] at hmsg ⊢
    obtain ⟨sent, hsent, hdirect, hothers⟩ := hmsg.frames fun f hf => absurd hf List.not_mem_nil
    exact ⟨sent, hsent, hdirect, hothers⟩
  · simp only [if_neg hreply] at hmsg ⊢
    obtain ⟨f, hex, hans⟩ := hmsg
    obtain ⟨sent, hsent, hdirect, hothers⟩ :=
      hex.frames fun g hg => List.mem_singleton.mp hg ▸ hans.ne_voteInfo
    exact ⟨sent, hsent, ⟨f, hdirect, hans⟩, hothers⟩

/-- Node 1 reports a membership of its own. -/
theorem one_reply_per_request_membership :
    ∃ m sent f, decodeFrame (MockClient.membership 4 ⟨1, 1⟩ [1]) = some m ∧
      transportCalls
      ((run 32768 twoJoined).handleFrame 0 (frameType (MockClient.membership 4 ⟨1, 1⟩ [1]))
        (MockClient.membership 4 ⟨1, 1⟩ [1]) 1000).trace =
        transportCalls (run 32768 twoJoined).trace ++ sent.map frameTo ∧
      direct 0 sent = [f] ∧ Answers (MockClient.membership 4 ⟨1, 1⟩ [1]) m f := by
  have htype : (decodeFrame (MockClient.membership 4 ⟨1, 1⟩ [1])).map MsgDecoded.type =
      some .nodeList := by
    decide +kernel
  have hocc : ((run 32768 twoJoined).sessions 0).phase ≠ .free := by decide +kernel
  obtain ⟨m, hdec, hm⟩ := Option.map_eq_some_iff.mp htype
  obtain ⟨sent, hsent, hreply, -⟩ :=
    one_reply_per_request (run 32768 twoJoined) 0 hocc _ m hdec 1000
  rw [if_neg (by simp [hm])] at hreply
  obtain ⟨f, hdirect, hans⟩ := hreply
  exact ⟨m, sent, f, hdec, hsent, hdirect, hans⟩

end Qnetd
