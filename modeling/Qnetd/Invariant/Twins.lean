import Qnetd.Invariant.Reading
import Qnetd.Invariant.Rejection
import Qnetd.Invariant.Selection

/-!
# Two servers that agree on a cluster

What the server does for a cluster it computes from the sessions of its members and from its record.

* `Twin c s s'` : the two servers have the same members of cluster `c`, with the same sessions, and
  the same record of it;
* `Twin.sameViews`, `Twin.verdict` : the algorithm sees the same and decides the same;
* `Apace`, `Lockstep` : from twins to twins, with the same events added to both histories; the
  second if all members stay;
* `Twin.ffsplitDo`, `Twin.handleMsg`, `Twin.leave` : the algorithm, every handler and the departure
  of a member keep twins in step.
-/

namespace Qnetd

structure Twin (c : Int) (s s' : Server) : Prop where
  maxRxFrame : s'.maxRxFrame = s.maxRxFrame
  inCluster : ∀ t, s'.inCluster c t = s.inCluster c t
  session : ∀ t, s.inCluster c t = true → s'.sessions t = s.sessions t
  cluster : s'.clusters c = s.clusters c

namespace Twin

theorem refl (c : Int) (s : Server) : Twin c s s := ⟨rfl, fun _ => rfl, fun _ _ => rfl, rfl⟩

theorem symm {c : Int} {s s' : Server} (h : Twin c s s') : Twin c s' s :=
  ⟨h.maxRxFrame.symm, fun t => (h.inCluster t).symm,
    fun t ht => (h.session t ((h.inCluster t).symm.trans ht)).symm, h.cluster.symm⟩

theorem trans {c : Int} {s t u : Server} (h₁ : Twin c s t) (h₂ : Twin c t u) : Twin c s u :=
  ⟨h₂.maxRxFrame.trans h₁.maxRxFrame, fun j => (h₂.inCluster j).trans (h₁.inCluster j),
    fun j hj => (h₂.session j ((h₁.inCluster j).trans hj)).trans (h₁.session j hj),
      h₂.cluster.trans h₁.cluster⟩

/-! ## Views -/

section Views

variable {c : Int} {s s' : Server} {tv : TriggerView}

theorem tvCluster_left (hv : s.inCluster c tv.slot = true) : s.tvCluster tv = c :=
  (Server.inCluster_iff.mp hv).2

theorem tvCluster (h : Twin c s s') (hv : s.inCluster c tv.slot = true) : s'.tvCluster tv = c := by
  rw [Server.tvCluster, h.session _ hv]
  exact (Server.inCluster_iff.mp hv).2

theorem skip (h : Twin c s s') (hv : s.inCluster c tv.slot = true) {i : Slot}
    (hi : s.inCluster c i = true) : s'.skipInClusterWalk tv i = s.skipInClusterWalk tv i := by
  rw [Server.skipInClusterWalk, h.session _ hv, h.session _ hi, Server.skipInClusterWalk]

theorem inWalk (h : Twin c s s') (hv : s.inCluster c tv.slot = true) (i : Slot) :
    s'.inWalk tv i = s.inWalk tv i := by
  rw [Server.inWalk, Server.inWalk, h.tvCluster hv, tvCluster_left hv, h.inCluster]
  cases hi : s.inCluster c i with
  | true => rw [h.skip hv hi]
  | false => rfl

theorem member_of_inWalk (hv : s.inCluster c tv.slot = true) {i : Slot}
    (hi : s.inWalk tv i = true) : s.inCluster c i = true := by
  have h := Server.inCluster_of_inWalk hi
  rwa [tvCluster_left hv] at h

theorem sameViews (h : Twin c s s') (hv : s.inCluster c tv.slot = true) :
    Server.SameViews s s' tv tv := by
  have hs : ∀ i, s.inWalk tv i = true → s'.sessions i = s.sessions i :=
    fun i hi => h.session i (member_of_inWalk hv hi)
  refine ⟨h.inWalk hv, fun i hi => ?_, fun i hi => ?_, fun i hi => ?_, fun i hi => ?_,
    fun i hi => ?_, fun i hi => ?_⟩
  · rw [hs i hi]
  · rw [hs i hi]
  · rw [Server.effConfig, hs i hi, Server.effConfig]
  · rw [Server.effMembership, hs i hi, Server.effMembership]
  · rw [Server.effRing, hs i hi, Server.effRing]
  · rw [Server.effHeuristics, hs i hi, Server.effHeuristics]

theorem clientOf (h : Twin c s s') (id : UInt32) : s'.clientOf c id = s.clientOf c id := by
  unfold Server.clientOf
  rw [← List.head?_filter, ← List.head?_filter, List.filter_congr fun i _ => ?_]
  rw [h.inCluster]
  cases hi : s.inCluster c i with
  | true => rw [h.session i hi]
  | false => rfl

theorem heard (h : Twin c s s') {cand : Candidate} (hc : s.inCluster c cand.slot = true) :
    s'.heard cand = s.heard cand := by
  have hcounted : s'.counted cand = s.counted cand := by
    funext n
    rw [Server.counted, Server.counted, h.session _ hc, (Server.inCluster_iff.mp hc).2, h.clientOf]
    refine Option.map_congr fun i hi => ?_
    have hin : s.inCluster c i = true := by
      have := List.find?_some hi
      rw [Bool.and_eq_true] at this
      exact this.1
    rw [h.session i hin]
  rw [Server.heard, hcounted, Server.heard]

theorem keepActiveTb (h : Twin c s s') : s'.keepActiveTb c = s.keepActiveTb c := by
  unfold Server.keepActiveTb
  congr 2
  funext i
  rw [h.inCluster]
  cases hi : s.inCluster c i with
  | true => rw [h.session i hi]
  | false => rfl

theorem scan (h : Twin c s s') (hv : s.inCluster c tv.slot = true) :
    s'.ffsplitScan tv = s.ffsplitScan tv := by
  have hviews := h.sameViews hv
  have hin : ∀ {cand : Candidate}, s.Eligible tv cand → s.inCluster c cand.slot = true :=
    fun hc => member_of_inWalk hv hc.1
  refine hviews.scan (fun c₁ h₁ hhalf => ?_) fun c₁ c₂ h₁ hhalf h₂ _ => ?_
  · exact Server.better_none_congr hhalf (h.heard (hin h₁)) (hviews.preferred h₁)
  · have hr₁ := Server.rank_congr (h.heard (hin h₁))
    have hr₂ := Server.rank_congr (h.heard (hin h₂))
    refine Server.better_some_congr hhalf (by rw [hr₁, hr₂]) (by rw [hr₁, hr₂]) ?_
    rw [h.tvCluster hv, tvCluster_left hv, h.cluster, h.keepActiveTb, Server.breaksTie,
      Server.breaksTie, h.session _ (hin h₁), h.session _ (hin h₂), hviews.preferred h₁]

theorem putState (h : Twin c s s') (hv : s.inCluster c tv.slot = true) (winner : Option NodeList)
    {i : Slot}
    (hi : s.inCluster c i = true) : s'.putState tv winner i = s.putState tv winner i := by
  unfold Server.putState
  rw [h.skip hv hi, h.session i hi]

theorem select (h : Twin c s s') (hv : s.inCluster c tv.slot = true) :
    s'.ffsplitSelectPartition tv = s.ffsplitSelectPartition tv := by
  rw [Server.ffsplitSelectPartition, h.scan hv, Server.ffsplitSelectPartition]

theorem others (h : Twin c s s') (hv : s.inCluster c tv.slot = true) (i : Slot) :
    s'.others tv i = s.others tv i := by
  rw [Server.others, Server.others, h.tvCluster hv, tvCluster_left hv, h.inCluster]

/-- Twins decide the same. -/
theorem verdict (h : Twin c s s') (hv : s.inCluster c tv.slot = true) :
    s'.verdict tv = s.verdict tv := by
  have hvoters : (s'.verdict tv).voters = (s.verdict tv).voters := by
    funext i
    simp only [Server.verdict, h.others hv, h.select hv]
    by_cases ho : s.others tv i = true
    · have hi : s.inCluster c i = true := by
        rw [Server.others, tvCluster_left hv, Bool.and_eq_true] at ho
        exact ho.1
      rw [if_pos ho, if_pos ho, Server.effConfig, Server.effMembership, Server.effRing,
        h.session i hi, h.putState hv _ hi]
      rfl
    · rw [if_neg ho, if_neg ho]
  have hcl : (s'.verdict tv).cluster = (s.verdict tv).cluster :=
    (h.tvCluster hv).trans (tvCluster_left hv).symm
  have hwin : (s'.verdict tv).winner = (s.verdict tv).winner := by
    simp only [Server.verdict, h.scan hv]
  cases hd : s.verdict tv
  cases hd' : s'.verdict tv
  rw [hd, hd'] at hvoters hcl hwin
  cases hvoters
  cases hcl
  cases hwin
  rfl

end Views

end Twin

/-! ## Steps -/

/-- From the twins `s` and `s'` to the twins `t` and `t'`, with the same events. -/
structure Apace (c : Int) (s s' t t' : Server) : Prop where
  twin : Twin c t t'
  trace : ∃ new, t.trace = new ++ s.trace ∧ t'.trace = new ++ s'.trace

structure Lockstep (c : Int) (s s' t t' : Server) : Prop extends Apace c s s' t t' where
  members : ∀ j, t.inCluster c j = s.inCluster c j

theorem Apace.trans {c : Int} {s s' t t' u u' : Server} (h₁ : Apace c s s' t t')
    (h₂ : Apace c t t' u u') : Apace c s s' u u' := by
  obtain ⟨new₁, ht, ht'⟩ := h₁.trace
  obtain ⟨new₂, hu, hu'⟩ := h₂.trace
  refine ⟨h₂.twin, new₂ ++ new₁, ?_, ?_⟩
  · rw [hu, ht, List.append_assoc]
  · rw [hu', ht', List.append_assoc]

theorem Lockstep.trans {c : Int} {s s' t t' u u' : Server} (h₁ : Lockstep c s s' t t')
    (h₂ : Lockstep c t t' u u') : Lockstep c s s' u u' :=
  ⟨h₁.toApace.trans h₂.toApace, fun j => (h₂.members j).trans (h₁.members j)⟩

namespace Twin

section Steps

variable {c : Int} {s s' : Server}

theorem still (h : Twin c s s') : Lockstep c s s' s s' := ⟨⟨h, [], rfl, rfl⟩, fun _ => rfl⟩

theorem emit (h : Twin c s s') (e : Event) : Lockstep c s s' (s.emit e) (s'.emit e) :=
  ⟨⟨⟨h.maxRxFrame, h.inCluster, h.session, h.cluster⟩, [e], rfl, rfl⟩, fun _ => rfl⟩

theorem modify (h : Twin c s s') {i : Slot} (hi : s.inCluster c i = true) (f : Session → Session)
    (hf : (f (s.sessions i)).phase = (s.sessions i).phase ∧
      (f (s.sessions i)).cluster = (s.sessions i).cluster) :
    Lockstep c s s' (s.modify i f) (s'.modify i f) := by
  have hin : ∀ j, (s.modify i f).inCluster c j = s.inCluster c j := by
    intro j
    by_cases hj : j = i
    · rw [hj, Server.inCluster, Server.modify_self, hf.1, hf.2, Server.inCluster]
    · rw [Server.inCluster, Server.modify_of_ne s f hj, Server.inCluster]
  have hin' : ∀ j, (s'.modify i f).inCluster c j = s'.inCluster c j := by
    intro j
    by_cases hj : j = i
    · rw [hj, Server.inCluster, Server.modify_self, h.session i hi, hf.1, hf.2, Server.inCluster,
        h.session i hi]
    · rw [Server.inCluster, Server.modify_of_ne s' f hj, Server.inCluster]
  refine ⟨⟨⟨h.maxRxFrame, fun j => ?_, fun j hj => ?_, h.cluster⟩, [], rfl, rfl⟩, hin⟩
  · rw [hin, hin', h.inCluster]
  · rw [hin] at hj
    rw [Server.modify_apply, Server.modify_apply, h.session j hj]

theorem setState (h : Twin c s s') (st : FfClusterState) :
    Lockstep c s s' (s.setState c st) (s'.setState c st) := by
  refine ⟨⟨⟨h.maxRxFrame, h.inCluster, h.session, ?_⟩, [.phase c st], rfl, rfl⟩, fun _ => rfl⟩
  rw [Server.setState_self, Server.setState_self, h.cluster]

variable {tv : TriggerView}

theorem target (h : Twin c s s') (hv : s.inCluster c tv.slot = true) (sendAcks : Bool) :
    s'.target tv sendAcks = s.target tv sendAcks := by
  funext i
  rw [Server.target, Server.target, h.inWalk hv]
  cases hi : s.inWalk tv i with
  | true => rw [h.session i (member_of_inWalk hv hi)]
  | false => rfl

theorem targets (h : Twin c s s') (hv : s.inCluster c tv.slot = true) (sendAcks : Bool) :
    s'.targets tv sendAcks = s.targets tv sendAcks := by
  rw [Server.targets, h.target hv, Server.targets]

theorem voteTo (h : Twin c s s') (hv : s.inCluster c tv.slot = true) (sendAcks : Bool) {i : Slot}
    (hi : s.inCluster c i = true) : s'.voteTo tv sendAcks i = s.voteTo tv sendAcks i := by
  rw [Server.voteTo, Server.voteTo, h.tvCluster hv, tvCluster_left hv, h.session i hi,
    Server.effRing, h.session i hi, Server.effRing]

theorem passed (h : Twin c s s') (hv : s.inCluster c tv.slot = true) (sendAcks : Bool) :
    Lockstep c s s' (s.passed tv sendAcks) (s'.passed tv sendAcks) := by
  have hin := Server.inCluster_congr (Server.passed_sameButVotes s tv sendAcks) c
  have hin' := Server.inCluster_congr (Server.passed_sameButVotes s' tv sendAcks) c
  refine ⟨⟨⟨h.maxRxFrame, fun j => ?_, fun j hj => ?_, ?_⟩,
    ((s.targets tv sendAcks).map fun i => Event.vote i (s.voteTo tv sendAcks i)).reverse,
      Server.passed_trace .., ?_⟩, hin⟩
  · rw [hin, hin', h.inCluster]
  · rw [hin] at hj
    rw [Server.passed_sessions, Server.passed_sessions, h.target hv, h.session j hj]
  · rw [Server.passed_clusters, Server.passed_clusters, h.cluster]
  · rw [Server.passed_trace, h.targets hv]
    congr 2
    refine List.map_congr_left fun i hi => ?_
    have hw := (Server.target_iff.mp (Server.mem_targets.mp hi)).1
    rw [h.voteTo hv sendAcks (member_of_inWalk hv hw)]

theorem decided (h : Twin c s s') (hv : s.inCluster c tv.slot = true) :
    Lockstep c s s' (s.decided tv) (s'.decided tv) := by
  have hin := Server.inCluster_congr (Server.decided_sameButVotes s tv) c
  have hin' := Server.inCluster_congr (Server.decided_sameButVotes s' tv) c
  refine ⟨⟨⟨h.maxRxFrame, fun j => ?_, fun j hj => ?_, ?_⟩,
    [.decide (s.verdict tv), .phase c .waitingForStableMembership], ?_, ?_⟩, hin⟩
  · rw [hin, hin', h.inCluster]
  · rw [hin] at hj
    rw [Server.decided_sessions, Server.decided_sessions, h.tvCluster hv, tvCluster_left hv,
      h.inCluster, h.session j hj, h.select hv, h.putState hv _ hj]
  · have hc := Server.decided_clusters_self s tv
    have hc' := Server.decided_clusters_self s' tv
    rw [tvCluster_left hv] at hc
    rw [h.tvCluster hv] at hc'
    rw [hc, hc', h.cluster, h.select hv]
  · rw [Server.decided_trace, tvCluster_left hv]
    rfl
  · rw [Server.decided_trace, h.tvCluster hv, h.verdict hv]
    rfl

theorem ffsplitVotes (h : Twin c s s') (hv : s.inCluster c tv.slot = true) :
    Lockstep c s s' (s.ffsplitVotes tv) (s'.ffsplitVotes tv) := by
  have hn := h.targets hv false
  have ha := h.targets hv true
  have hnacks := h.setState .sendingNacks
  have hacks := hnacks.trans (hnacks.twin.setState .sendingAcks)
  have hcases := Server.ffsplitVotes_cases s tv
  have hcases' := Server.ffsplitVotes_cases s' tv
  rw [hn, ha, h.tvCluster hv] at hcases'
  rw [tvCluster_left hv] at hcases
  rcases hcases with ⟨hne, hs⟩ | ⟨hnil, hne, hs⟩ | ⟨hnil, hnil', hs⟩ <;>
    rcases hcases' with ⟨hne', hs'⟩ | ⟨hnil₁, hne', hs'⟩ | ⟨hnil₁, hnil₂, hs'⟩
  · rw [hs, hs']
    exact hnacks.trans (hnacks.twin.passed hv false)
  · exact absurd hnil₁ hne
  · exact absurd hnil₁ hne
  · exact absurd hnil hne'
  · rw [hs, hs']
    exact hacks.trans (hacks.twin.passed hv true)
  · exact absurd hnil₂ hne
  · exact absurd hnil hne'
  · exact absurd hnil' hne'
  · rw [hs, hs']
    exact hacks.trans (hacks.twin.setState .waitingForChange)

/-- The algorithm keeps twins in step. -/
theorem ffsplitDo (h : Twin c s s') (hv : s.inCluster c tv.slot = true) :
    (s'.ffsplitDo tv).1 = (s.ffsplitDo tv).1 ∧ (s'.ffsplitDo tv).2.1 = (s.ffsplitDo tv).2.1 ∧
      Lockstep c s s' (s.ffsplitDo tv).2.2 (s'.ffsplitDo tv).2.2 := by
  have hst := (h.sameViews hv).isStable
  have hcases := Server.ffsplitDo_cases s tv
  have hcases' := Server.ffsplitDo_cases s' tv
  rw [hst, h.tvCluster hv] at hcases'
  rw [tvCluster_left hv] at hcases
  rcases hcases with ⟨hno, hs⟩ | ⟨hyes, hs⟩ <;> rcases hcases' with ⟨hno', hs'⟩ | ⟨hyes', hs'⟩
  · rw [hs, hs']
    have hset := h.setState .waitingForStableMembership
    exact ⟨rfl, rfl, hset.trans (hset.twin.emit _)⟩
  · exact absurd (hno.symm.trans hyes') Bool.false_ne_true
  · exact absurd (hno'.symm.trans hyes) Bool.false_ne_true
  · rw [hs, hs']
    have hdec := h.decided hv
    have hv' : (s.decided tv).inCluster c tv.slot = true := (hdec.members tv.slot).trans hv
    have hvotes : Lockstep c (s.decided tv) (s'.decided tv) ((s.decided tv).ffsplitVotes tv)
        ((s'.decided tv).ffsplitVotes tv) :=
      hdec.twin.ffsplitVotes hv'
    refine ⟨rfl, rfl, ?_⟩
    dsimp only
    exact hdec.trans hvotes

end Steps

end Twin

/-! ## Handlers -/

namespace Twin

section Handlers

variable {c : Int} {s s' : Server} {i : Slot}

theorem rescheduleDpd (h : Twin c s s') (hi : s.inCluster c i = true) (now : UInt64) :
    Lockstep c s s' (s.rescheduleDpd i now) (s'.rescheduleDpd i now) := by
  refine h.modify hi (Session.rescheduled now) ?_
  obtain ⟨d, hd⟩ := Session.rescheduled_eq now (s.sessions i)
  rw [hd]
  exact ⟨rfl, rfl⟩

theorem countState (h : Twin c s s') (st : FfClientState) :
    s'.ffsplitCountState c st = s.ffsplitCountState c st := by
  unfold Server.ffsplitCountState
  rw [List.filter_congr fun j _ => ?_]
  rw [h.inCluster]
  cases hj : s.inCluster c j with
  | true => rw [h.session j hj]
  | false => rfl

theorem storedView (h : Twin c s s') (hi : s.inCluster c i = true) (leaving : Bool) :
    s'.storedView i leaving = s.storedView i leaving := by
  rw [Server.storedView, h.session i hi, Server.storedView]

theorem handlePreinit (h : Twin c s s') (hi : s.inCluster c i = true) (m : MsgDecoded) :
    Lockstep c s s' (s.handlePreinit i m) (s'.handlePreinit i m) := by
  have hact : (s.sessions i).phase ≠ .waitPreinit := by
    rw [(Server.inCluster_iff.mp hi).1]
    simp
  unfold Server.handlePreinit
  rw [h.session i hi]
  split_ifs
  · exact h.emit _
  · exact h.emit _

theorem handleInit (h : Twin c s s') (hi : s.inCluster c i = true) (m : MsgDecoded) (now : UInt64) :
    Lockstep c s s' (s.handleInit i m now) (s'.handleInit i m now) := by
  have hact := (Server.inCluster_iff.mp hi).1
  have hact' : (s'.sessions i).phase = .active := by rw [h.session i hi, hact]
  rw [Server.handleInit_of_active hact, Server.handleInit_of_active hact', h.maxRxFrame]
  have hmod :=
    h.modify hi (fun x => { x with nodeId := m.nodeId, lastRingId := m.ringId }) ⟨rfl, rfl⟩
  exact hmod.trans (hmod.twin.emit _)

theorem handleSetOption (h : Twin c s s') (hi : s.inCluster c i = true) (m : MsgDecoded)
    (now : UInt64) : Lockstep c s s' (s.handleSetOption i m now) (s'.handleSetOption i m now) := by
  have hmod := h.modify hi (Server.optioned m now) (by
    obtain ⟨hb, deadline, keep, heq⟩ := Server.optioned_eq m now (s.sessions i)
    rw [heq]
    exact ⟨rfl, rfl⟩)
  rw [Server.handleSetOption_eq, Server.handleSetOption_eq]
  split_ifs
  · exact h.emit _
  · rw [Server.setOptions, Server.setOptions, h.session i hi]
    exact hmod.trans (hmod.twin.emit _)

theorem reportView (h : Twin c s s') (hi : s.inCluster c i = true) (m : MsgDecoded) (r : Report) :
    s'.reportView i m r = s.reportView i m r := by
  unfold Server.reportView
  rw [h.storedView hi]

/-- A report: the algorithm, what is stored, and the answer with the vote. -/
theorem answerReport (h : Twin c s s') (hi : s.inCluster c i = true) (r : Report) (m : MsgDecoded) :
    Lockstep c s s' (s.answerReport i r m) (s'.answerReport i r m) := by
  have hacc := h.emit (.accept i r)
  have hview : (s.emit (.accept i r)).inCluster c (s.reportView i m r).slot = true := by
    rw [reportView_slot]
    exact (hacc.members i).trans hi
  have hdo := hacc.twin.ffsplitDo hview
  have hran : Lockstep c s s' (s.ranReport i r m) (s'.ranReport i r m) := by
    rw [Server.ranReport, Server.ranReport, h.session i hi, h.reportView hi]
    split_ifs
    · exact hacc.trans hdo.2.2
    · exact hacc
  have hvote : s'.reportVote i r m = s.reportVote i r m := by
    rw [Server.reportVote, Server.reportVote, h.session i hi, h.reportView hi, hdo.2.1]
  have hnoted : Lockstep c s s' (s.noted i r m) (s'.noted i r m) := by
    rw [Server.noted, Server.noted, hvote]
    refine hran.trans (hran.twin.modify ((hran.members i).trans hi) _ ?_)
    obtain ⟨_, _, _, _, _, _, _, heq⟩ :=
      Server.noteReport_eq m (s.reportVote i r m) r ((s.ranReport i r m).sessions i)
    rw [heq]
    exact ⟨rfl, rfl⟩
  rw [Server.answerReport, Server.answerReport, hvote,
    hnoted.twin.session i ((hnoted.members i).trans hi)]
  exact hnoted.trans (hnoted.twin.emit _)

theorem handleNodeList (h : Twin c s s') (hi : s.inCluster c i = true) (m : MsgDecoded) :
    Lockstep c s s' (s.handleNodeList i m) (s'.handleNodeList i m) := by
  rw [Server.handleNodeList_eq, Server.handleNodeList_eq, h.session i hi]
  cases Server.nodeListError m (s.sessions i) with
  | some code => exact h.emit _
  | none => exact h.answerReport hi (.list m.nodeListType) m

theorem handleHeuristicsChange (h : Twin c s s') (hi : s.inCluster c i = true) (m : MsgDecoded) :
    Lockstep c s s' (s.handleHeuristicsChange i m) (s'.handleHeuristicsChange i m) := by
  rw [Server.handleHeuristicsChange_eq, Server.handleHeuristicsChange_eq]
  split_ifs
  · exact h.emit _
  · exact h.answerReport hi .heuristics m

theorem handleVoteInfoReply (h : Twin c s s') (hi : s.inCluster c i = true) (m : MsgDecoded) :
    Lockstep c s s' (s.handleVoteInfoReply i m) (s'.handleVoteInfoReply i m) := by
  obtain ⟨hact, hc⟩ := Server.inCluster_iff.mp hi
  unfold Server.handleVoteInfoReply
  simp only [h.session i hi, hc, h.cluster, Server.ffsplitSendVotes_eq]
  by_cases h0 : m.seqNumberSet = false
  · rw [if_pos h0, if_pos h0]
    exact h.emit _
  rw [if_neg h0, if_neg h0]
  have hrep :=
    h.emit (.reply i m.seqNumber (s.sessions i).voteInfoSeq (s.sessions i).ffState
      (s.clusters c).state)
  by_cases h1 : m.seqNumber ≠ (s.sessions i).voteInfoSeq
  · rw [if_pos h1, if_pos h1]
    exact hrep
  rw [if_neg h1, if_neg h1]
  have hans := hrep.trans (hrep.twin.modify ((hrep.members i).trans hi)
    (fun x => { x with ffState := .waitingForChange }) ⟨rfl, rfl⟩)
  generalize ((s.emit
      (.reply i m.seqNumber (s.sessions i).voteInfoSeq (s.sessions i).ffState
      (s.clusters c).state)).modify i
    fun x => { x with ffState := .waitingForChange }) = u at hans ⊢
  generalize ((s'.emit
      (.reply i m.seqNumber (s.sessions i).voteInfoSeq (s.sessions i).ffState
      (s.clusters c).state)).modify i
    fun x => { x with ffState := .waitingForChange }) = u' at hans ⊢
  have hin := (hans.members i).trans hi
  rw [hans.twin.cluster]
  cases (u.clusters c).state with
  | waitingForChange => exact hans
  | waitingForStableMembership => exact hans
  | sendingAcks =>
    dsimp only
    rw [hans.twin.countState]
    split_ifs
    · exact hans.trans (hans.twin.setState _)
    · exact hans
  | sendingNacks =>
    have hset := hans.trans (hans.twin.setState .sendingAcks)
    have hin' := (hset.members i).trans hi
    have hview : (u'.setState c .sendingAcks).storedView i false =
        (u.setState c .sendingAcks).storedView i false :=
      hset.twin.storedView hin' false
    have hpass :
        Lockstep c s s'
        ((u.setState c .sendingAcks).passed ((u.setState c .sendingAcks).storedView i false) true)
        ((u'.setState c .sendingAcks).passed
          ((u.setState c .sendingAcks).storedView i false) true) :=
      hset.trans (hset.twin.passed hin' true)
    have htargets :
        (u'.setState c .sendingAcks).targets ((u.setState c .sendingAcks).storedView i false) true =
        (u.setState c .sendingAcks).targets ((u.setState c .sendingAcks).storedView i false) true :=
      hset.twin.targets hin' true
    dsimp only
    rw [hans.twin.countState, hview, htargets]
    split_ifs
    · exact hpass.trans (hpass.twin.setState _)
    · exact hpass
    · exact hans

theorem handleMsg (h : Twin c s s') (hi : s.inCluster c i = true) (m : MsgDecoded) (frame : Frame)
    (now : UInt64) : Lockstep c s s' (s.handleMsg i m frame now) (s'.handleMsg i m frame now) := by
  have hact := (Server.inCluster_iff.mp hi).1
  have hphase : (s'.sessions i).phase = .active := by rw [h.session i hi, hact]
  have herr : ∀ code, Lockstep c s s' (s.sendErr i m code) (s'.sendErr i m code) :=
    fun code => h.emit _
  unfold Server.handleMsg
  simp only [hact, hphase]
  rw [if_neg (by simp), if_neg (by simp)]
  cases m.type with
  | preinit => exact h.handlePreinit hi m
  | init => exact h.handleInit hi m now
  | setOption => exact h.handleSetOption hi m now
  | echoRequest => exact h.emit _
  | nodeList => exact h.handleNodeList hi m
  | voteInfoReply => exact h.handleVoteInfoReply hi m
  | heuristicsChange => exact h.handleHeuristicsChange hi m
  | _ => exact herr _

/-! ## Departures -/

theorem removed (h : Twin c s s') (i : Slot) : Twin c (s.removed i c) (s'.removed i c) := by
  refine ⟨h.maxRxFrame, fun j => ?_, fun j hj => ?_, ?_⟩
  · by_cases hji : j = i
    · rw [hji, Server.removed_inCluster_self, Server.removed_inCluster_self]
    · rw [Server.removed_inCluster_of_ne _ _ _ hji,
        Server.removed_inCluster_of_ne _ _ _ hji, h.inCluster]
  · have hji : j ≠ i := by
      rintro rfl
      rw [Server.removed_inCluster_self] at hj
      cases hj
    rw [Server.removed_inCluster_of_ne _ _ _ hji] at hj
    rw [Server.removed_of_ne _ _ hji, Server.removed_of_ne _ _ hji, h.session j hj]
  · rw [Server.removed_clusters_self, Server.removed_clusters_self, h.cluster]

/-- A member leaves both. -/
theorem leave (h : Twin c s s') (hi : s.inCluster c i = true) (hc : 0 ≤ c) :
    Apace c s s' ((s.leaveCluster i).reset i) ((s'.leaveCluster i).reset i) := by
  obtain ⟨hact, hcl⟩ := Server.inCluster_iff.mp hi
  have hsess := h.session i hi
  have hleft := Server.left_eq hact (hcl.symm ▸ hc)
  have hleft' : (s'.leaveCluster i).reset i = (s'.leaving i).removed i (s'.sessions i).cluster :=
    Server.left_eq (by rw [hsess, hact]) (by rw [hsess, hcl]; exact hc)
  have hgo := h.emit (.leave i c)
  have hdo : Lockstep c (s.emit (.leave i c)) (s'.emit (.leave i c))
      ((s.emit (.leave i c)).ffsplitDo (s.storedView i true)).2.2
      ((s'.emit (.leave i c)).ffsplitDo (s.storedView i true)).2.2 :=
    (hgo.twin.ffsplitDo ((hgo.members i).trans hi)).2.2
  have hleaving : Lockstep c s s' (s.leaving i) (s'.leaving i) := by
    unfold Server.leaving
    rw [hsess, hcl, h.storedView hi]
    exact hgo.trans hdo
  rw [hleft, hleft', hsess, hcl]
  exact ⟨hleaving.twin.removed i, hleaving.trace⟩

end Handlers

end Twin

end Qnetd
