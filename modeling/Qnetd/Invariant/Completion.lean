import Qnetd.Invariant.Current
import Qnetd.Invariant.Handover
import Qnetd.Invariant.Message

/-!
# A round that is answered ends

The votes of a round wait for replies, and nothing else than the replies brings them on. When every
client answers what it was sent, the round comes to its end, whatever the order and the times of the
replies.

* `Server.ackCall`, `Served` : what a call does with a cluster when all it says is ACKs;
* `reply_served` : the call that brings a reply; `replies_served` : a series of replies that release
  nothing;
* `round_completes` : the replies to the NACKs release exactly the ACKs of the round, and the
  replies to these end it.
-/

namespace Qnetd

open Handover (settle grant answer answers)

/-! ## One reply -/

theorem voteInfoReply_eq (seq : UInt32) :
    MockClient.voteInfoReply seq = optFrame .voteInfoReply [Opt.u32 .msgSeqNumber seq] := by
  simp [MockClient.voteInfoReply, optFrame, addU32_eq]

theorem voteInfoReply_complete {max : UInt32} (hmax : 8 ≤ max.toNat) (seq : UInt32) :
    Complete max (MockClient.voteInfoReply seq) := by
  rw [voteInfoReply_eq]
  exact optFrame_complete _ hmax

theorem decode_voteInfoReply (seq : UInt32) :
    decodeFrame (MockClient.voteInfoReply seq) =
      some { type := .voteInfoReply, seqNumber := seq, seqNumberSet := true } := by
  rw [voteInfoReply_eq, decodeFrame_optFrame]
  simp [decode_msgSeqNumber]

/-- The ACK that is the next vote of session `t`. -/
def Server.ackCall (s : Server) (t : Slot) : TransportCall :=
  .sendFrame t (buildVoteInfo ((s.sessions t).voteInfoSeq + 1) (s.sessions t).lastRingId .ack)

/-- From `s` to `s'` the clients of cluster `c` stay, and all the server says is the next votes of
`said`, ACKs. -/
structure Served (c : Int) (said : List Slot) (s s' : Server) : Prop where
  calls : transportCalls s'.trace = transportCalls s.trace ++ said.map s.ackCall
  inCluster : ∀ t, s'.inCluster c t = s.inCluster c t
  rx : ∀ t, (s'.sessions t).rx = (s.sessions t).rx
  lastRingId : ∀ t, (s'.sessions t).lastRingId = (s.sessions t).lastRingId
  voteInfoSeq : ∀ t, (s'.sessions t).voteInfoSeq =
    (s.sessions t).voteInfoSeq + if t ∈ said then 1 else 0

theorem Served.refl (c : Int) (s : Server) : Served c [] s s :=
  ⟨by simp, fun _ => rfl, fun _ => rfl, fun _ => rfl, by simp⟩

theorem Served.trans {c : Int} {said : List Slot} {s t u : Server} (h₁ : Served c [] s t)
    (h₂ : Served c said t u) : Served c said s u := by
  have hseq : ∀ j, (t.sessions j).voteInfoSeq = (s.sessions j).voteInfoSeq := by
    intro j
    rw [h₁.voteInfoSeq j]
    simp
  have hcall : said.map t.ackCall = said.map s.ackCall := by
    refine List.map_congr_left fun j _ => ?_
    rw [Server.ackCall, Server.ackCall, hseq, h₁.lastRingId]
  refine ⟨?_, fun j => (h₂.inCluster j).trans (h₁.inCluster j), fun j => (h₂.rx j).trans (h₁.rx j),
    fun j => (h₂.lastRingId j).trans (h₁.lastRingId j), fun j => ?_⟩
  · rw [h₂.calls, h₁.calls, hcall]
    simp
  · rw [h₂.voteInfoSeq j, hseq]

theorem transportCalls_phases (c : Int) (sts : List FfClusterState) (tr : List Event) :
    transportCalls (sts.map (Event.phase c) ++ tr) = transportCalls tr := by
  have hnone : (sts.map (Event.phase c)).filterMap Event.call = [] := by
    rw [List.filterMap_map, List.filterMap_eq_nil_iff]
    exact fun _ _ => rfl
  rw [transportCalls, List.filterMap_append, hnone, List.nil_append, transportCalls]

theorem handleVoteInfoReply_served {s : Server} {i : Slot} {m : MsgDecoded} {c : Int}
    (hset : m.seqNumberSet = true)
    (hseq : m.seqNumber = (s.sessions i).voteInfoSeq) (hin : s.inCluster c i = true) :
    Served c ((answer i (s.round c)).2.map Prod.fst) s (s.handleVoteInfoReply i m) := by
  obtain ⟨-, hc⟩ := Server.inCluster_iff.mp hin
  have hw := Server.handleVoteInfoReply_within s m hset hin
  have hrx : ∀ t, ((s.handleVoteInfoReply i m).sessions t).rx = (s.sessions t).rx := by
    intro t
    exact (congrArg Session.rx (hw.same t) :)
  have hans : transportCalls (s.answered i m.seqNumber).trace = transportCalls s.trace := by
    rw [Server.answered_trace, transportCalls, List.filterMap_cons_none rfl, transportCalls]
  have hseqs : ∀ t, ((s.answered i m.seqNumber).sessions t).voteInfoSeq =
      (s.sessions t).voteInfoSeq := by
    intro t
    by_cases ht : t = i
    · rw [ht, Server.answered, Server.modify_self]
      rfl
    · rw [Server.answered_of_ne s _ ht]
  rcases (Server.reply_answers hset hseq hc).2 with ⟨hnil, hsess, sts, htr⟩ | ⟨hrel, hs⟩
  · rw [hnil]
    refine ⟨?_, hw.inCluster c, hrx, hw.same.lastRingId, fun t => ?_⟩
    · rw [htr, transportCalls_phases, hans]
      simp
    · rw [hsess, hseqs]
      simp
  · have hsaid : (answer i (s.round c)).2.map Prod.fst = s.released i m.seqNumber := by
      rw [hrel, List.map_map]
      exact List.map_id _
    rw [hsaid]
    refine ⟨?_, hw.inCluster c, hrx, hw.same.lastRingId, fun t => ?_⟩
    · rw [hs, Server.transportCalls_passed, Server.transportCalls_setState, hans]
      refine congrArg (transportCalls s.trace ++ ·) (List.map_congr_left fun t _ => ?_)
      have hring :
          (s.answered i m.seqNumber).effRing ((s.answered i m.seqNumber).storedView i false) t =
          (s.sessions t).lastRingId := by
        rw [effRing_storedView]
        exact (Server.answered_sameButVotes s i m.seqNumber).lastRingId t
      change TransportCall.sendFrame t
        (buildVoteInfo (((s.answered i m.seqNumber).sessions t).voteInfoSeq + 1)
        ((s.answered i m.seqNumber).effRing
          ((s.answered i m.seqNumber).storedView i false) t) .ack) = _
      rw [hseqs, hring]
      rfl
    · rw [hs, Server.passed_sessions]
      change (if (s.answered i m.seqNumber).target ((s.answered i m.seqNumber).storedView i false)
        true t = true then
        ((s.answered i m.seqNumber).sessions t).voted .ack else (s.answered i m.seqNumber).sessions
          t).voteInfoSeq = _
      have hmem : t ∈ s.released i m.seqNumber ↔
          (s.answered i m.seqNumber).target ((s.answered i m.seqNumber).storedView i false) true t =
            true := Server.mem_targets
      by_cases ht : t ∈ s.released i m.seqNumber
      · rw [if_pos ht, if_pos (hmem.mp ht), ← hseqs t]
        rfl
      · rw [if_neg ht, if_neg (mt hmem.mpr ht), hseqs, UInt32.add_zero]

/-- The call that brings the reply to the last vote of session `i`. -/
theorem reply_served {s : Server} {i : Slot} {c : Int} (hs : Quiescent s)
    (hmax : 8 ≤ s.maxRxFrame.toNat)
    (hin : s.inCluster c i = true) (hrx : (s.sessions i).rx = []) (now : UInt64) :
    (s.onData i (MockClient.voteInfoReply (s.sessions i).voteInfoSeq) now).round c =
      (answer i (s.round c)).1 ∧ Served c ((answer i (s.round c)).2.map Prod.fst) s
        (s.onData i (MockClient.voteInfoReply (s.sessions i).voteInfoSeq) now) := by
  set f := MockClient.voteInfoReply (s.sessions i).voteInfoSeq with hf
  set m : MsgDecoded :=
    { type := .voteInfoReply, seqNumber := (s.sessions i).voteInfoSeq, seqNumberSet := true }
      with hm
  set t := s.received i now f m with ht
  have hact : (s.sessions i).phase = .active := (Server.inCluster_iff.mp hin).1
  have hquiet : Quiet i s t := Server.received_quiet s i now f m
  have hsess : ∀ j, ∃ d, t.sessions j = { s.sessions j with deadlineMs := d } := by
    intro j
    by_cases hj : j = i
    · subst hj
      obtain ⟨d, hd⟩ := Session.rescheduled_eq now (s.sessions j)
      exact ⟨d, (Server.modify_self s j (Session.rescheduled now)).trans hd⟩
    · exact ⟨(s.sessions j).deadlineMs, hquiet.others j hj⟩
  have hcall : s.onData i f now = t.handleVoteInfoReply i m := by
    rw [Server.onData_message hs (by rw [hact]; simp) hrx (voteInfoReply_complete hmax _)
      (decode_voteInfoReply _)]
    have hact' : (t.sessions i).phase = .active := by
      obtain ⟨d, hd⟩ := hsess i
      rw [hd]
      exact hact
    change t.handleMsg i m f now = _
    simp [Server.handleMsg, hact', hm]
  have hsilent : Served c [] s t := by
    refine ⟨?_, (hquiet.elsewhere c).inCluster, fun j => ?_, fun j => ?_, fun j => ?_⟩
    · rw [ht, Server.received, Server.emit_trace, Server.emit_trace, transportCalls,
        List.filterMap_cons_none rfl, List.filterMap_cons_none rfl]
      simp [transportCalls, Server.rescheduleDpd]
    · obtain ⟨d, hd⟩ := hsess j
      rw [hd]
    · obtain ⟨d, hd⟩ := hsess j
      rw [hd]
    · obtain ⟨d, hd⟩ := hsess j
      rw [hd]
      simp
  have hround : t.round c = s.round c :=
    congrArg Handover.Arbiter.round (hquiet.elsewhere c).arbiter
  have hin' : t.inCluster c i = true := (hsilent.inCluster i).trans hin
  have hseq : m.seqNumber = (t.sessions i).voteInfoSeq := by
    obtain ⟨d, hd⟩ := hsess i
    rw [hd]
  rw [hcall, ← hround]
  exact ⟨(Server.reply_answers rfl hseq (Server.inCluster_iff.mp hin').2).1,
    hsilent.trans (handleVoteInfoReply_served rfl hseq hin')⟩

/-! ## A series of replies -/

/-- Session `t` answers the vote with that number, at its own time. -/
def replyCall (seq : Slot → UInt32) (time : Slot → UInt64) (t : Slot) : Call :=
  .onData t (MockClient.voteInfoReply (seq t)) (time t)

theorem calls_quiescent (calls : List Call) {s : Server} (hs : Quiescent s) :
    Quiescent (calls.foldl Server.call s) ∧
    (calls.foldl Server.call s).maxRxFrame = s.maxRxFrame := by
  induction calls generalizing s with
  | nil => exact ⟨hs, rfl⟩
  | cons call calls ih =>
    obtain ⟨hsteps, hq⟩ := Server.call_steps call hs
    obtain ⟨hlater, hmax⟩ := ih hq
    refine ⟨hlater, hmax.trans ?_⟩
    generalize s.call call = t at hsteps
    induction hsteps with
    | refl => rfl
    | tail _ hstep ih =>
      obtain ⟨i, hm⟩ := hstep
      exact hm.maxRxFrame.trans ih

theorem replies_served {c : Int} (seq : Slot → UInt32) (time : Slot → UInt64) (l : List Slot)
    {s : Server} (hs : Quiescent s)
    (hmax : 8 ≤ s.maxRxFrame.toNat) (hl : ∀ t ∈ l, s.inCluster c t = true ∧ (s.sessions t).rx = [])
    (hseq : ∀ t ∈ l, seq t = (s.sessions t).voteInfoSeq)
    (hsilent : (answers l (s.round c)).2 = []) :
    ((l.map (replyCall seq time)).foldl Server.call s).round c = (answers l (s.round c)).1 ∧
      Served c [] s ((l.map (replyCall seq time)).foldl Server.call s) := by
  induction l generalizing s with
  | nil => exact ⟨rfl, .refl c s⟩
  | cons i l ih =>
    obtain ⟨hin, hrx⟩ := hl i List.mem_cons_self
    obtain ⟨hquiet, hlater⟩ := List.append_eq_nil_iff.mp hsilent
    obtain ⟨hround, hserved⟩ := reply_served hs hmax hin hrx (time i)
    set s' := s.onData i (MockClient.voteInfoReply (s.sessions i).voteInfoSeq) (time i) with hs'
    have hcall : s.call (replyCall seq time i) = s' := by
      rw [hs', ← hseq i List.mem_cons_self]
      rfl
    obtain ⟨hm, hq⟩ :=
      Server.onData_moves i (MockClient.voteInfoReply (s.sessions i).voteInfoSeq) (time i) hs
    rw [hquiet] at hserved
    have hseq' : ∀ t, (s'.sessions t).voteInfoSeq = (s.sessions t).voteInfoSeq := by
      intro t
      rw [hserved.voteInfoSeq]
      simp
    obtain ⟨hround', hserved'⟩ := ih hq (by rw [Moves.maxRxFrame hm]; exact hmax)
      (fun t ht => by
        rw [hserved.inCluster, hserved.rx]
        exact hl t (List.mem_cons_of_mem i ht))
      (fun t ht => by
        rw [hseq']
        exact hseq t (List.mem_cons_of_mem i ht))
      (by rw [hround]; exact hlater)
    rw [List.map_cons, List.foldl_cons, hcall]
    refine ⟨?_, hserved.trans hserved'⟩
    rw [hround', hround]
    rfl

/-! ## The round -/

theorem revoking_iff {s : Server} {c : Int} {losers winners : List Slot} :
    s.round c = .revoking losers winners ↔ (s.clusters c).state = .sendingNacks ∧
      losers = s.waitsIn c .sendingNack ∧ winners = s.waitsIn c .sendingAck := by
  unfold Server.round
  cases (s.clusters c).state <;> simp [eq_comm]

theorem map_fst_grant (winners : List Slot) : (grant winners).2.map Prod.fst = winners := by
  unfold grant
  split_ifs with h
  · exact h.symm
  · rw [List.map_map]
    exact List.map_id _

/-- What the replies to the NACKs of a round do. -/
theorem nacks_answered {s : Server} {c : Int} {losers winners first : List Slot} (hs : Quiescent s)
    (hmax : 8 ≤ s.maxRxFrame.toNat) (hround : s.round c = .revoking losers winners)
    (hne : losers ≠ [])
    (hrx : ∀ t ∈ losers, (s.sessions t).rx = []) (hfirst : first.Perm losers)
    (time : Slot → UInt64) :
    let s' := (first.map (replyCall (fun t => (s.sessions t).voteInfoSeq) time)).foldl Server.call s
    s'.round c = (grant winners).1 ∧ Served c winners s s' := by
  obtain ⟨-, hlosers, hwinners⟩ := revoking_iff.mp hround
  have hloser : ∀ t ∈ losers, s.inCluster c t = true ∧ (s.sessions t).ffState = .sendingNack := by
    rw [hlosers]
    exact fun t => Server.mem_waitsIn.mp
  have hdis : ∀ t ∈ losers, t ∉ winners := by
    intro t ht hw
    rw [hwinners, Server.mem_waitsIn, (hloser t ht).2] at hw
    cases hw.2
  have hnodup : losers.Nodup := hlosers ▸ Server.waitsIn_nodup s c _
  have hcond : ∀ t ∈ first, s.inCluster c t = true ∧ (s.sessions t).rx = [] := by
    intro t ht
    have hmem := hfirst.subset ht
    exact ⟨(hloser t hmem).1, hrx t hmem⟩
  -- the last of the replies is the one that releases the ACKs
  obtain ⟨l, a, rfl⟩ : ∃ l a, first = l ++ [a] := by
    have hsome : first ≠ [] := by
      rintro rfl
      exact hne (List.nil_perm.mp hfirst)
    exact ⟨first.dropLast, first.getLast hsome, (List.dropLast_append_getLast hsome).symm⟩
  obtain ⟨hbefore, hlast⟩ := Handover.answers_revoking hfirst hnodup hdis
  set seq : Slot → UInt32 := fun t => (s.sessions t).voteInfoSeq with hseqs
  obtain ⟨hround₁, hserved₁⟩ :=
    replies_served seq time l hs hmax (fun t ht => hcond t (List.mem_append_left _ ht))
    (fun _ _ => rfl) (by rw [hround, hbefore])
  obtain ⟨hq, hmax₁⟩ := calls_quiescent (l.map (replyCall seq time)) hs
  rw [hround, hbefore] at hround₁
  rw [List.map_append, List.foldl_append]
  generalize (l.map (replyCall seq time)).foldl Server.call s = u at *
  obtain ⟨hin, hbuf⟩ := hcond a (by simp)
  obtain ⟨hround₂, hserved₂⟩ := reply_served hq (hmax₁ ▸ hmax) ((hserved₁.inCluster a).trans hin)
    ((hserved₁.rx a).trans hbuf) (time a)
  have hseq : (u.sessions a).voteInfoSeq = (s.sessions a).voteInfoSeq := by
    rw [hserved₁.voteInfoSeq]
    simp
  rw [hround₁, hlast, hseq] at hround₂ hserved₂
  rw [map_fst_grant] at hserved₂
  exact ⟨hround₂, hserved₁.trans hserved₂⟩

/-- A round that is answered ends. Take any reachable state in which the votes of `losers` are being
taken back and `winners` wait for theirs, none of them in the middle of a frame, of a server that
takes frames of eight bytes. Let the losers answer their NACKs, in any order and at any times. Then
each winner has been sent one ACK, numbered after its last vote and for the ring it reported, and
nothing else was sent to anybody. When the winners answer these, again in any order, nothing more is
sent and the round is over. -/
theorem round_completes (n : UInt32) (hn : 8 ≤ n.toNat) (calls : List Call) (c : Int)
    (losers winners : List Slot) (hround : (run n calls).round c = .revoking losers winners)
    (hrx : ∀ t ∈ losers ++ winners, ((run n calls).sessions t).rx = [])
    (first second : List Slot) (hfirst : first.Perm losers) (hsecond : second.Perm winners)
    (time time' : Slot → UInt64) : let s := run n calls
    let nacks := first.map (replyCall (fun t => (s.sessions t).voteInfoSeq) time)
    let acks := second.map (replyCall (fun t => (s.sessions t).voteInfoSeq + 1) time')
    transportCalls (run n (calls ++ nacks)).trace =
      transportCalls s.trace ++ winners.map s.ackCall ∧
      transportCalls (run n (calls ++ nacks ++ acks)).trace =
        transportCalls (run n (calls ++ nacks)).trace ∧
      (run n (calls ++ nacks ++ acks)).round c = .idle := by
  intro s nacks acks
  have hq : Quiescent s := (run_steps n calls).2
  have hmax : 8 ≤ s.maxRxFrame.toNat := by
    rw [show s.maxRxFrame = n from run_maxRxFrame n calls]
    exact hn
  obtain ⟨hst, hlosers, hwinners⟩ := revoking_iff.mp hround
  have hne : losers ≠ [] := by
    obtain ⟨t, hin, hff⟩ := ((round_invariant.run n calls c).nacks hst).1
    rw [hlosers]
    exact List.ne_nil_of_mem (Server.mem_waitsIn.mpr ⟨hin, hff⟩)
  obtain ⟨hround₁, hserved₁⟩ := nacks_answered hq hmax hround hne
    (fun t ht => hrx t (List.mem_append_left _ ht)) hfirst time
  obtain ⟨hq₁, hmax₁⟩ := calls_quiescent nacks hq
  have hmid : run n (calls ++ nacks) = nacks.foldl Server.call s := List.foldl_append
  have hend : run n (calls ++ nacks ++ acks) =
      acks.foldl Server.call (nacks.foldl Server.call s) := by
    rw [run, List.foldl_append]
    exact congrArg (acks.foldl Server.call) hmid
  rw [hend, hmid]
  refine ⟨hserved₁.calls, ?_⟩
  by_cases hnil : winners = []
  · have hnone : acks = [] := by
      rw [hnil, List.perm_nil] at hsecond
      exact congrArg (List.map _) hsecond
    rw [hnone]
    refine ⟨rfl, hround₁.trans ?_⟩
    rw [hnil]
    rfl
  · have hgrant : (grant winners).1 = .granting winners := congrArg Prod.fst (if_neg hnil)
    have hover := Handover.answers_granting hsecond (hwinners ▸ Server.waitsIn_nodup s c _) hnil
    have hwinner : ∀ t ∈ second, s.inCluster c t = true := by
      intro t ht
      have hw := hsecond.subset ht
      rw [hwinners] at hw
      exact (Server.mem_waitsIn.mp hw).1
    obtain ⟨hround₂, hserved₂⟩ :=
      replies_served (fun t => (s.sessions t).voteInfoSeq + 1) time' second hq₁ (hmax₁ ▸ hmax)
      (fun t ht => by
        rw [hserved₁.inCluster, hserved₁.rx]
        exact ⟨hwinner t ht, hrx t (List.mem_append_right _ (hsecond.subset ht))⟩)
      (fun t ht => by rw [hserved₁.voteInfoSeq, if_pos (hsecond.subset ht)])
      (by rw [hround₁, hgrant, hover])
    refine ⟨?_, ?_⟩
    · rw [hserved₂.calls]
      simp
    · rw [hround₂, hround₁, hgrant, hover]

/-- Node 2 answers its NACK, and then node 1 its ACK. -/
theorem round_completes_split :
    let s := run 32768 splitCalls
    let nacks := [1].map (replyCall (fun t => (s.sessions t).voteInfoSeq) fun _ => 2000)
    let acks := [0].map (replyCall (fun t => (s.sessions t).voteInfoSeq + 1) fun _ => 3000)
    s.round 0 = .revoking [1] [0] ∧
      transportCalls (run 32768 (splitCalls ++ nacks)).trace =
        transportCalls s.trace ++ [0].map s.ackCall ∧
      transportCalls (run 32768 (splitCalls ++ nacks ++ acks)).trace =
        transportCalls (run 32768 (splitCalls ++ nacks)).trace ∧
      (run 32768 (splitCalls ++ nacks ++ acks)).round 0 = .idle := by
  obtain ⟨hround, hrx⟩ : (let s := run 32768 splitCalls
      s.round 0 = .revoking [1] [0] ∧ ∀ t ∈ [1] ++ [0], (s.sessions t).rx = []) := by
    decide +kernel
  exact ⟨hround, round_completes 32768 (by decide) splitCalls 0 [1] [0] hround hrx [1] [0] (.refl _)
    (.refl _) (fun _ => 2000) fun _ => 3000⟩

end Qnetd
