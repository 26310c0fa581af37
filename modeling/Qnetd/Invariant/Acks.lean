import Qnetd.Invariant.Standing

/-!
# Promised ACKs

A decision promises an ACK to every session of the winning partition, and sends it when the NACKs
are answered. A winner waits for it with the number of its last vote still current, so that a reply
to that vote, or to none, which arrives before the ACK is sent counts as the answer to it.

* `Promised c t`, `Acked c t` : the latest verdict on cluster `c` promises session `t` an ACK; it
  has been sent since;
* `NoEarlyReply` : the runs in which no session replies while it waits for its ACK and the NACKs are
  not answered;
* `Promises c`, `promises_invariant` : in such runs a cluster waits for the next change only when
  its promises are kept;
* `early_reply_loses_ack` : a run in which an early reply takes the ACK away.
-/

namespace Qnetd

open History (last last_append_of_none Always Since)
open Server (dueState)

/-! ## Promises -/

/-- The latest verdict on cluster `c` is a decision that puts session `t` in the winning partition.
-/
def Promised (c : Int) (t : Slot) (tr : List Event) : Prop :=
  ∃ d v, last (Event.verdictIn c) tr = some (some d) ∧ d.voters t = some v ∧ v.state = .sendingAck

/-- Session `t` has been sent an ACK since the latest verdict on cluster `c`. -/
def Acked (c : Int) (t : Slot) : List Event → Prop :=
  Since (fun e => e.ackTo t = true) fun e => e.verdictIn c = none

theorem promised_append {c : Int} {t : Slot} {new tr : List Event}
    (h : ∀ e ∈ new, e.verdictIn c = none) : Promised c t (new ++ tr) ↔ Promised c t tr := by
  unfold Promised
  rw [last_append_of_none h]

theorem promised_cons {c : Int} {t : Slot} {e : Event} {tr : List Event}
    (h : e.verdictIn c = none) :
    Promised c t (e :: tr) ↔ Promised c t tr := @promised_append c t [e] tr (by simpa using h)

theorem Acked.cons {c : Int} {t : Slot} {e : Event} {tr : List Event} (h : Acked c t tr)
    (he : e.verdictIn c = none) : Acked c t (e :: tr) := Since.cons h he

/-- A reply that takes the ACK of its session away: it carries the current number, and the ACK is
not sent yet. -/
def Event.early : Event → Bool
  | .reply _ seq expected .sendingAck .sendingNacks => seq = expected
  | _ => false

def NoEarlyReply (tr : List Event) : Prop := ∀ e ∈ tr, e.early = false

theorem NoEarlyReply.of_suffix {tr tr' : List Event} (h : NoEarlyReply tr') (hs : tr <:+ tr') :
    NoEarlyReply tr :=
  fun e he => h e (hs.subset he)

/-- The cluster waits for the next change only when every promised ACK has been sent. -/
def KeepsPromise (c : Int) (e : Event) (past : List Event) : Prop :=
  e = .phase c .waitingForChange → ∀ t, Promised c t past → Acked c t past

structure Promises (c : Int) (s : Server) : Prop where
  nacks : (s.clusters c).state = .sendingNacks → ∀ t, Promised c t s.trace →
    s.inCluster c t = true ∧ (s.sessions t).ffState = .sendingAck
  acks : (s.clusters c).state = .sendingAcks → ∀ t, Promised c t s.trace → Acked c t s.trace
  fresh : (s.clusters c).used = false → ∀ t, ¬Promised c t s.trace
  kept : Always (KeepsPromise c) s.trace

/-! ## Moves of others -/

/-- Only the end of a round can break a promise. -/
theorem kept_cons {c : Int} {e : Event} {past : List Event} (he : e ≠ .phase c .waitingForChange)
    (h : Always (KeepsPromise c) past) : Always (KeepsPromise c) (e :: past) :=
  .cons (fun hp => absurd hp he) h

theorem Promises.apart {c : Int} {s s' : Server} (ha : Apart c s s') (h : Promises c s) :
    Promises c s' := by
  obtain ⟨new, htr, hnew⟩ := ha.trace
  have hsame : ∀ t, Promised c t s'.trace ↔ Promised c t s.trace := by
    intro t
    rw [htr]
    exact promised_append fun e he => (hnew e he).verdictIn
  refine ⟨fun hst t ht => ?_, fun hst t ht => ?_, fun hu t ht => ?_, ?_⟩
  · rw [ha.cluster] at hst
    obtain ⟨hin, hff⟩ := h.nacks hst t ((hsame t).mp ht)
    exact ⟨(ha.inCluster t).trans hin, (ha.ffState t hin).trans hff⟩
  · rw [ha.cluster] at hst
    rw [htr]
    exact Since.append (h.acks hst t ((hsame t).mp ht)) fun e he => (hnew e he).verdictIn
  · rw [ha.cluster] at hu
    exact h.fresh hu t ((hsame t).mp ht)
  · rw [htr]
    refine h.kept.append_of_forall fun e he past hidle => ?_
    subst hidle
    exact absurd rfl (hnew _ he)

theorem Promises.join {i : Slot} {c : Int} {s s' : Server} (hphase : (s.sessions i).phase ≠ .active)
    (hj : Joined i c s s') (h : Promises c s) : Promises c s' := by
  rcases hj.record with ⟨hu, -, hcl, htr⟩ | ⟨h0, -, hcl, htr⟩
  · have hsame : ∀ t, Promised c t s'.trace ↔ Promised c t s.trace := by
      intro t
      rw [htr]
      exact promised_cons rfl
    refine ⟨fun hst t ht => ?_, fun hst t ht => ?_, fun hu' => ?_, ?_⟩
    · rw [hcl] at hst
      obtain ⟨hin, hff⟩ := h.nacks hst t ((hsame t).mp ht)
      have hti : t ≠ i := by
        rintro rfl
        exact hphase (Server.inCluster_iff.mp hin).1
      rw [hj.inCluster_of_ne hti, hj.others t hti]
      exact ⟨hin, hff⟩
    · rw [hcl] at hst
      rw [htr]
      exact (h.acks hst t ((hsame t).mp ht)).cons rfl
    · rw [hcl] at hu'
      exact absurd hu' (by rw [hu]; nofun)
    · rw [htr]
      exact kept_cons (by simp) h.kept
  · -- the cluster is new, and no decision on it is left to keep
    have hno := h.fresh (by rw [h0])
    refine ⟨fun hst => ?_, fun hst => ?_, fun hu' => ?_, ?_⟩
    · rw [hcl] at hst
      cases hst
    · rw [hcl] at hst
      cases hst
    · rw [hcl] at hu'
      cases hu'
    · rw [htr]
      exact kept_cons (by simp) (.cons (fun _ t ht => absurd ht (hno t)) h.kept)

theorem Server.Within.used {c : Int} {s s' : Server} (h : Server.Within c s s') :
    (s'.clusters c).used = (s.clusters c).used := by
  obtain ⟨st, q, hcl⟩ := h.cluster
  rw [hcl]

/-! ## Decisions -/

theorem Server.passed_acked {c : Int} {s : Server} {tv : TriggerView} {t : Slot}
    (ht : s.target tv true t = true) : Acked c t (s.passed tv true).trace := by
  rw [passed_trace]
  have hmem : Event.vote t (s.voteTo tv true t) ∈
      ((s.targets tv true).map fun i => Event.vote i (s.voteTo tv true i)).reverse :=
    List.mem_reverse.mpr (List.mem_map_of_mem (mem_targets.mpr ht))
  have hnone : ∀ e ∈ ((s.targets tv true).map fun i => Event.vote i (s.voteTo tv true i)).reverse,
      e.verdictIn c = none := by
    intro e he
    rw [List.mem_reverse, List.mem_map] at he
    obtain ⟨i, -, rfl⟩ := he
    rfl
  obtain ⟨new, old, hsplit⟩ := List.append_of_mem hmem
  rw [hsplit] at hnone ⊢
  rw [List.append_assoc, List.cons_append]
  have hack : (Event.vote t (s.voteTo tv true t)).ackTo t = true := by
    simp [Event.ackTo, voteTo, passVote]
  refine ⟨new, _, _, rfl, hack, fun e he => hnone e ?_⟩
  exact List.mem_append_left _ he

theorem promised_passed {c : Int} {s : Server} {tv : TriggerView} {sendAcks : Bool} {t : Slot} :
    Promised c t (s.passed tv sendAcks).trace ↔ Promised c t s.trace := by
  unfold Promised
  rw [Server.last_passed fun _ _ => rfl]

theorem kept_setState {c c' : Int} {s : Server} {st : FfClusterState}
    (h : Always (KeepsPromise c) s.trace)
    (hst : st = .waitingForChange → ∀ t, Promised c t s.trace → Acked c t s.trace) :
    Always (KeepsPromise c) (s.setState c' st).trace := by
  refine .cons (fun he t ht => ?_) h
  cases he
  exact hst rfl t ht

theorem kept_passed {c : Int} {s : Server} {tv : TriggerView} {sendAcks : Bool}
    (h : Always (KeepsPromise c) s.trace) : Always (KeepsPromise c) (s.passed tv sendAcks).trace :=
  Server.passed_always h fun _ _ _ _ => nofun

/-- A decision keeps its promises from the start: the winners wait for their ACK, or are sent it at
once. -/
theorem Promises.decide {s : Server} {tv : TriggerView}
    (hact : (s.sessions tv.slot).phase = .active) (ht : Table s)
    (h : Promises (s.tvCluster tv) s) : Promises (s.tvCluster tv) (s.ffsplitDo tv).2.2 := by
  set c := s.tvCluster tv with hc
  have hfresh : ((s.ffsplitDo tv).2.2.clusters c).used = false →
      ∀ t, ¬Promised c t (s.ffsplitDo tv).2.2.trace := by
    rw [hc, (Server.ffsplitDo_within s tv).used, Server.tvCluster, ht.used tv.slot hact]
    simp
  rcases Server.ffsplitDo_server s tv with ⟨-, hs⟩ | ⟨-, hs⟩
  · rw [hs] at hfresh ⊢
    refine ⟨fun hst => ?_, fun hst => ?_, hfresh,
      kept_cons (by simp) (kept_setState h.kept (by simp))⟩
    · simp [hc] at hst
    · simp [hc] at hst
  · -- the winners are the sessions that wait for an ACK
    have htv : (s.decided tv).tvCluster tv = c :=
      Server.tvCluster_congr (Server.decided_sameButVotes s tv) tv
    have hwinner : ∀ t, Promised c t (s.decided tv).trace → (s.decided tv).inCluster c t = true ∧
        (s.decided tv).inWalk tv t = true ∧ ((s.decided tv).sessions t).ffState = .sendingAck := by
      rintro t ⟨d, v, hd, hv, hst⟩
      rw [Server.decided_trace, last, List.findSome?_cons] at hd
      simp only [Event.verdictIn, Server.verdict, ← hc, if_true, Option.some.injEq] at hd
      rw [← hd] at hv
      obtain ⟨hin, hff⟩ := @Server.verdict_ffState s tv t v hv
      rw [hst] at hff
      refine ⟨?_, Server.decided_inWalk hin (by rw [hff]; simp), hff⟩
      rw [Server.inCluster_congr (Server.decided_sameButVotes s tv)]
      exact hin
    have hkept : Always (KeepsPromise c) (s.decided tv).trace := by
      rw [Server.decided_trace]
      exact kept_cons (by simp) (kept_cons (by simp) h.kept)
    rw [hs] at hfresh ⊢
    generalize s.decided tv = u at *
    rcases Server.ffsplitVotes_cases u tv with ⟨-, hv⟩ | ⟨-, -, hv⟩ | ⟨-, hnil, hv⟩
    · rw [hv] at hfresh ⊢
      refine ⟨fun _ t hp => ?_, fun hst => ?_, hfresh, kept_passed (kept_setState hkept (by simp))⟩
      · rw [promised_passed, Server.setState_trace, promised_cons rfl] at hp
        obtain ⟨hin, -, hff⟩ := hwinner t hp
        rw [Server.passed_ffState, Server.inCluster_congr (Server.passed_sameButVotes _ tv false)]
        exact ⟨hin, hff⟩
      · simp [htv] at hst
    · rw [hv] at hfresh ⊢
      refine ⟨fun hst => ?_, fun _ t hp => ?_, hfresh,
        kept_passed (kept_setState (kept_setState hkept (by simp)) (by simp))⟩
      · simp [htv] at hst
      · rw [promised_passed, Server.setState_trace, promised_cons rfl, Server.setState_trace,
          promised_cons rfl] at hp
        obtain ⟨-, hwalk, hff⟩ := hwinner t hp
        exact Server.passed_acked (Server.target_iff.mpr ⟨hwalk, hff⟩)
    · rw [hv] at hfresh ⊢
      refine ⟨fun hst => ?_, fun hst => ?_, hfresh,
        kept_setState (kept_setState (kept_setState hkept (by simp)) (by simp)) fun _ t hp => ?_⟩
      · simp [htv] at hst
      · simp [htv] at hst
      · rw [Server.setState_trace, promised_cons rfl, Server.setState_trace,
          promised_cons rfl] at hp
        obtain ⟨-, hwalk, hff⟩ := hwinner t hp
        exact absurd hff (ffState_of_no_target (fun _ => hwalk) hnil)

/-! ## Leaving -/

/-- The voters of the decision a leaving session triggers are the members it leaves behind. -/
theorem inCluster_of_leaving {i t : Slot} {s : Server} {d : Decision} {v : View}
    (h : last (Event.verdictIn (s.sessions i).cluster) (s.leaving i).trace = some (some d))
    (hv : d.voters t = some v) : t ≠ i ∧ s.inCluster (s.sessions i).cluster t = true := by
  refine ⟨?_, ?_⟩
  · rintro rfl
    rw [voters_of_leaving h] at hv
    cases hv
  · set u := s.emit (.leave i (s.sessions i).cluster) with hu
    set tv := s.storedView i true with htv
    have h' : last (Event.verdictIn (u.tvCluster tv)) (u.ffsplitDo tv).2.2.trace = some (some d) :=
      h
    rcases Server.ffsplitDo_verdict u tv with ⟨-, hl⟩ | ⟨-, hl⟩
    · rw [hl] at h'
      cases Option.some.inj h'
    · rw [hl] at h'
      cases h'
      exact (Server.verdict_ffState hv).1

theorem Promises.gone {i : Slot} {s : Server} (ht : Table s) (hact : (s.sessions i).phase = .active)
    (h : Promises (s.sessions i).cluster (s.leaving i)) :
    Promises (s.sessions i).cluster ((s.leaving i).removed i (s.sessions i).cluster) := by
  set c := (s.sessions i).cluster with hc
  have htab : Table ((s.leaving i).removed i c) := by
    have hm : Move i s ((s.leaveCluster i).reset i) := Move.leave
    have := hm.table ht
    rwa [Server.left_eq hact (ht.range i hact).1] at this
  have hcl := Server.removed_clusters_self (s.leaving i) i c
  refine ⟨fun hst t hp => ?_, fun hst t hp => ?_, fun hu t hp => ?_, h.kept⟩
  · rw [hcl] at hst
    split_ifs at hst
    obtain ⟨hin, hff⟩ := h.nacks hst t hp
    obtain ⟨d, v, hd, hv, -⟩ := hp
    have hti := (inCluster_of_leaving hd hv).1
    rw [Server.removed_inCluster_of_ne _ c c hti, Server.removed_of_ne _ c hti]
    exact ⟨hin, hff⟩
  · rw [hcl] at hst
    split_ifs at hst
    exact h.acks hst t hp
  · -- the last member left nobody behind
    obtain ⟨d, v, hd, hv, -⟩ := hp
    obtain ⟨hti, hin⟩ := inCluster_of_leaving hd hv
    have hout := htab.not_inCluster hu t
    rw [Server.removed_inCluster_of_ne _ c c hti, (leaving_within i).inCluster] at hout
    exact absurd hin (by rw [show s.inCluster c t = false from hout]; nofun)

/-! ## Replies -/

theorem Promises.reply {i : Slot} {s : Server} {m : MsgDecoded} (hset : m.seqNumberSet = true)
    (hno : NoEarlyReply (s.handleVoteInfoReply i m).trace) (ht : Table s)
    (hact : (s.sessions i).phase = .active)
    (h : Promises (s.sessions i).cluster s) :
    Promises (s.sessions i).cluster (s.handleVoteInfoReply i m) := by
  set c := (s.sessions i).cluster with hc
  set a := s.answered i m.seqNumber with ha
  have hfresh : ((s.handleVoteInfoReply i m).clusters c).used = false →
      ∀ t, ¬Promised c t (s.handleVoteInfoReply i m).trace := by
    have hi : s.inCluster c i = true := Server.inCluster_iff.mpr ⟨hact, rfl⟩
    rw [(Server.handleVoteInfoReply_within s m hset hi).used, ht.used i hact]
    nofun
  have hin : ∀ t, a.inCluster c t = s.inCluster c t :=
    fun t => Server.inCluster_congr (Server.answered_sameButVotes s i m.seqNumber) c t
  have hview : a.tvCluster (a.storedView i false) = c :=
    (Server.answered_sameButVotes s i m.seqNumber).cluster i
  have hreply : ∀ {st ph},
      Always (KeepsPromise c) (.reply i m.seqNumber (s.sessions i).voteInfoSeq st ph :: s.trace) :=
    kept_cons (by simp) h.kept
  have hsame : ∀ t, Promised c t a.trace ↔ Promised c t s.trace := fun t => promised_cons rfl
  -- the session that answers is not one that waits for its ACK
  have hwinner : .reply i m.seqNumber (s.sessions i).voteInfoSeq (s.sessions i).ffState
      (s.clusters c).state ∈
        (s.handleVoteInfoReply i m).trace → m.seqNumber = (s.sessions i).voteInfoSeq →
      (s.clusters c).state = .sendingNacks → ∀ t, Promised c t a.trace →
      a.inCluster c t = true ∧ (a.sessions t).ffState = .sendingAck := by
    intro hmem hseq hst t hp
    obtain ⟨hin', hff⟩ := h.nacks hst t ((hsame t).mp hp)
    have hti : t ≠ i := by
      rintro rfl
      have := hno _ hmem
      rw [hff, hst] at this
      simp [Event.early, hseq] at this
    rw [hin, Server.answered_of_ne s _ hti]
    exact ⟨hin', hff⟩
  rcases Server.handleVoteInfoReply_cases s i m hset hc.symm with
    ⟨-, hs⟩ | ⟨hseq, ⟨hs, -, -⟩ | ⟨hst, -, -, hs⟩ | ⟨hst, -, hnil, hs⟩ | ⟨hst, -, hs⟩⟩
  · rw [hs] at hfresh ⊢
    exact ⟨fun hst t hp => h.nacks hst t ((promised_cons rfl).mp hp),
      fun hst t hp => (h.acks hst t ((promised_cons rfl).mp hp)).cons rfl, hfresh, hreply⟩
  · rw [hs] at hwinner hfresh ⊢
    exact ⟨fun hst t hp => hwinner (by simp [Server.answered_trace, hc]) hseq hst t hp,
      fun hst t hp => (h.acks hst t ((hsame t).mp hp)).cons rfl, hfresh, hreply⟩
  · -- the ACKs are released, to every winner
    have hmem : .reply i m.seqNumber (s.sessions i).voteInfoSeq (s.sessions i).ffState
        (s.clusters c).state ∈ (s.handleVoteInfoReply i m).trace := by
      rw [hs, Server.passed_trace]
      simp [Server.answered_trace, hc]
    rw [hs] at hfresh ⊢
    refine ⟨fun hst' => ?_, fun _ t hp => ?_, hfresh, kept_passed (kept_setState hreply nofun)⟩
    · rw [Server.passed_clusters, Server.setState_self] at hst'
      cases hst'
    · rw [promised_passed, Server.setState_trace, promised_cons rfl] at hp
      obtain ⟨hin', hff⟩ := hwinner hmem hseq hst t hp
      refine Server.passed_acked (Server.target_iff.mpr ⟨?_, hff⟩)
      exact (Server.inWalk_storedView (a.setState c .sendingAcks) hview t).trans hin'
  · -- there was nobody to release an ACK to
    have hmem : .reply i m.seqNumber (s.sessions i).voteInfoSeq (s.sessions i).ffState
        (s.clusters c).state ∈ (s.handleVoteInfoReply i m).trace := by
      rw [hs]
      simp [Server.answered_trace, hc]
    rw [hs] at hfresh ⊢
    refine ⟨fun hst' => ?_, fun hst' => ?_, hfresh,
      kept_setState (kept_setState hreply nofun) fun _ t hp => ?_⟩
    · rw [Server.setState_self] at hst'
      cases hst'
    · rw [Server.setState_self] at hst'
      cases hst'
    · rw [Server.setState_trace, promised_cons rfl] at hp
      obtain ⟨hin', hff⟩ := hwinner hmem hseq hst t hp
      exact absurd hff
        (ffState_of_no_target (fun _ => (Server.inWalk_storedView a hview t).trans hin') hnil)
  · rw [hs] at hfresh ⊢
    refine ⟨fun hst' => ?_, fun hst' => ?_, hfresh, kept_setState hreply fun _ t hp => ?_⟩
    · rw [Server.setState_self] at hst'
      cases hst'
    · rw [Server.setState_self] at hst'
      cases hst'
    · exact (h.acks hst t ((hsame t).mp hp)).cons rfl

/-- Without early replies, no promised ACK is lost. -/
theorem promises_invariant : ClusterInvariant fun c s => NoEarlyReply s.trace → Promises c s where
  init _ _ _ := ⟨nofun, nofun, fun _ _ => by simp [Promised, Server.init, last], .nil⟩
  apart ha h hno := (h (hno.of_suffix ha.trace_suffix)).apart ha
  join _ hphase hj h hno := (h (hno.of_suffix hj.trace_suffix)).join hphase hj
  decide ht hact h hno :=
    (h (hno.of_suffix (Server.ffsplitDo_within _ _).trace_suffix)).decide hact ht
  gone ht hact h hno := (h hno).gone ht hact
  reply ht hact hset h hno :=
    (h (hno.of_suffix (Server.handleVoteInfoReply_within _ _ hset
      (Server.inCluster_iff.mpr ⟨hact, rfl⟩)).trace_suffix)).reply hset hno ht hact

/-- No lost ACK. In a run in which no session that waits for its ACK replies with its current number
before the NACKs are answered: whenever a cluster goes back to WAITING_FOR_CHANGE and its latest
verdict is a decision, every session that decision put in the winning partition has been sent an ACK
since. -/
theorem no_lost_ack (n : UInt32) (calls : List Call) (hno : NoEarlyReply (run n calls).trace)
    (c : Int)
    (new past : List Event) (htr : (run n calls).trace = new ++ .phase c .waitingForChange :: past)
    (d : Decision)
    (hd : last (Event.verdictIn c) past = some (some d)) (t : Slot) (v : View)
    (hv : d.voters t = some v) (hack : v.state = .sendingAck) :
    Since (fun e => e.ackTo t = true) (fun e => e.verdictIn c = none) past :=
  (promises_invariant.run n calls c hno).kept new _ past htr rfl t ⟨d, v, hd, hv, hack⟩

/-! ## An ACK kept and an ACK lost -/

/-- What a run shows of the latest verdict on cluster `c` and of session `t` in it. -/
def outcome (c : Int) (t : Slot) (tr : List Event) :
    Option (Option (Bool × Option FfClientState)) :=
  (last (Event.verdictIn c) tr).map
    (Option.map fun d => (d.winner.isSome, (d.voters t).map View.state))

theorem exists_of_outcome {c : Int} {t : Slot} {tr : List Event} {st : FfClientState}
    (h : outcome c t tr = some (some (true, some st))) :
    ∃ d v, last (Event.verdictIn c) tr = some (some d) ∧ d.winner ≠ none ∧ d.voters t = some v ∧
    v.state = st := by
  obtain ⟨o, hd, ho⟩ := Option.map_eq_some_iff.mp h
  obtain ⟨d, rfl, hdt⟩ := Option.map_eq_some_iff.mp ho
  obtain ⟨hw, hv⟩ := Prod.mk.inj hdt
  obtain ⟨v, hv, hst⟩ := Option.map_eq_some_iff.mp hv
  exact ⟨d, v, hd, Option.isSome_iff_ne_none.mp hw, hv, hst⟩

def Event.idles (c : Int) : Event → Bool
  | .phase c' st => c' = c && st = .waitingForChange
  | _ => false

theorem exists_of_idles {c : Int} {tr : List Event} (h : tr.head?.any (Event.idles c) = true) :
    ∃ past, tr = .phase c .waitingForChange :: past := by
  cases tr with
  | nil => cases h
  | cons e past =>
    rw [List.head?_cons, Option.any_some] at h
    cases e with
    | phase c' st =>
      rw [Event.idles, Bool.and_eq_true, decide_eq_true_eq, decide_eq_true_eq] at h
      exact ⟨past, by rw [h.1, h.2]⟩
    | _ => cases h

/-- Both nodes reply to their votes. -/
def answeredCalls : List Call := releasedCalls ++ Rig.feed 0 [MockClient.voteInfoReply 1]

/-- Node 1 was promised an ACK, and got it. -/
theorem no_lost_ack_answered :
    ∃ past d v, (run 32768 answeredCalls).trace = .phase 0 .waitingForChange :: past ∧
      last (Event.verdictIn 0) past = some (some d) ∧ d.winner ≠ none ∧ d.voters 0 = some v ∧
      v.state = .sendingAck ∧
      Since (fun e => e.ackTo 0 = true) (fun e => e.verdictIn 0 = none) past := by
  have hrun : (let s := run 32768 answeredCalls
      (∀ e ∈ s.trace, e.early = false) ∧ s.trace.head?.any (Event.idles 0) = true ∧
      outcome 0 0 s.trace = some (some (true, some .sendingAck))) := by
    decide +kernel
  obtain ⟨hno, hidle, hout⟩ := hrun
  obtain ⟨past, htr⟩ := exists_of_idles hidle
  rw [htr] at hout
  obtain ⟨d, v, hd, hw, hv, hst⟩ := exists_of_outcome hout
  exact ⟨past, d, v, htr, hd, hw, hv, hst,
    no_lost_ack 32768 answeredCalls hno 0 [] past htr d hd 0 v hv hst⟩

/-- Node 1 sends a reply that answers no vote, numbered 0, before node 2 replies to its NACK. -/
def earlyCalls : List Call :=
  splitCalls ++ Rig.feed 0 [MockClient.voteInfoReply 0] ++ Rig.feed 1 [MockClient.voteInfoReply 1]

/-- Node 1 is in the winning partition and active, and the cluster waits for the next change, but no
ACK was ever sent to node 1. -/
theorem early_reply_loses_ack :
    ∃ past d v, (run 32768 earlyCalls).trace = .phase 0 .waitingForChange :: past ∧
      last (Event.verdictIn 0) past = some (some d) ∧ d.winner ≠ none ∧ d.voters 0 = some v ∧
      v.state = .sendingAck ∧
      (run 32768 earlyCalls).inCluster 0 0 = true ∧ ∀ e ∈ past, e.ackTo 0 = false := by
  have hrun : (let s := run 32768 earlyCalls
      s.trace.head?.any (Event.idles 0) = true ∧
      outcome 0 0 s.trace = some (some (true, some .sendingAck)) ∧
        (∀ e ∈ s.trace, e.ackTo 0 = false) ∧
      s.inCluster 0 0 = true) := by
    decide +kernel
  obtain ⟨hidle, hout, hno, hin⟩ := hrun
  obtain ⟨past, htr⟩ := exists_of_idles hidle
  rw [htr] at hout hno
  obtain ⟨d, v, hd, hw, hv, hst⟩ := exists_of_outcome hout
  exact ⟨past, d, v, htr, hd, hw, hv, hst, hin, fun e he => hno e (List.mem_cons_of_mem _ he)⟩

end Qnetd
