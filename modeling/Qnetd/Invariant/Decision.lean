import Qnetd.Invariant.Identity
import Qnetd.Lib.History
import Qnetd.Lib.Views

/-!
# What a decision is

* `Server.viewOf` : the effective view of a session, as a participant's report.
  `ffsplitIsStable_iff` : the two loops of `ffsplit_is_stable` decide that the views are stable,
  when node ids are distinct;
* `ffsplitScan_spec` : the winner of the scan is one of the sessions walked, with non-empty lists;
* `Move.decision`, `run_decision` : every decision of a run is the `verdict` of the state it was
  taken in;
* `Fair` : a decision puts exactly the sessions of the winner's partition in SENDING_ACK, and the
  others in SENDING_NACK; `verdict_fair`, `Move.fair`.
-/

namespace Qnetd

/-! ## Stability -/

namespace Server

def viewOf (s : Server) (tv : TriggerView) (i : Slot) : Views.View UInt32 RingId where
  id := (s.sessions i).nodeId
  config := (s.effConfig tv i).ids
  members := (s.effMembership tv i).ids
  label := s.effRing tv i

theorem coveredBy_iff {l₁ l₂ : NodeList} : coveredBy l₁ l₂ = true ↔ l₁.ids ⊆ l₂.ids := by
  simp only [coveredBy, List.all_eq_true, NodeList.find_isSome]
  constructor
  · intro h id hid
    obtain ⟨n, hn, rfl⟩ := NodeList.mem_ids.mp hid
    exact h n hn
  · intro h n hn
    exact h (NodeList.mem_ids.mpr ⟨n, hn, rfl⟩)

theorem mem_walk {s : Server} {tv : TriggerView} {i : Slot} :
    i ∈ s.walk tv ↔ s.inWalk tv i = true := by
  simp [walk]

/-- Node ids are distinct among the sessions the algorithm walks. -/
def DistinctIds (s : Server) (tv : TriggerView) : Prop :=
  ∀ i j, s.inWalk tv i = true → s.inWalk tv j = true →
    (s.sessions i).nodeId = (s.sessions j).nodeId → i = j

theorem find_walk {s : Server} {tv : TriggerView} (hd : s.DistinctIds tv) {j : Slot}
    (hj : s.inWalk tv j = true) :
    (s.walk tv).find? (fun k => (s.sessions k).nodeId = (s.sessions j).nodeId) = some j := by
  cases hf : (s.walk tv).find?
    (fun k => decide ((s.sessions k).nodeId = (s.sessions j).nodeId)) with
  | none =>
    have := List.find?_eq_none.mp hf j (mem_walk.mpr hj)
    simp at this
  | some k =>
    have hk := mem_walk.mp (List.mem_of_find?_eq_some hf)
    have hid := List.find?_some hf
    simp only [decide_eq_true_eq] at hid
    rw [hd k j hk hj hid]

theorem ffsplitIsStable_iff (s : Server) (tv : TriggerView) (hd : s.DistinctIds tv) :
    s.ffsplitIsStable tv = true ↔ Views.Stable (s.viewOf tv) fun i => s.inWalk tv i = true := by
  simp only [ffsplitIsStable, Bool.and_eq_true, List.all_eq_true, Bool.or_eq_true,
    decide_eq_true_eq, coveredBy_iff, mem_walk]
  constructor
  · rintro ⟨hcfg, hmem⟩
    refine ⟨fun i j hi hj => ?_, fun i j hi hj hsees => ?_⟩
    · rcases hcfg i hi j hj with rfl | h
      · exact Finset.Subset.refl _
      · exact h
    · obtain ⟨n, hn, hid⟩ := NodeList.mem_ids.mp hsees
      have h := hmem i hi n hn
      rw [show n.nodeId = (s.sessions j).nodeId from hid, find_walk hd hj] at h
      simp only [Bool.and_eq_true, decide_eq_true_eq, coveredBy_iff] at h
      exact h
  · rintro ⟨hcfg, hmem⟩
    refine ⟨fun i hi j hj => Or.inr (hcfg i j hi hj), fun i hi n hn => ?_⟩
    cases hf : (s.walk tv).find? (fun k => decide ((s.sessions k).nodeId = n.nodeId)) with
    | none => rfl
    | some j =>
      have hj := mem_walk.mp (List.mem_of_find?_eq_some hf)
      have hid := List.find?_some hf
      simp only [decide_eq_true_eq] at hid
      simp only [Bool.and_eq_true, decide_eq_true_eq, coveredBy_iff]
      exact hmem i j hi hj (NodeList.mem_ids.mpr ⟨n, hn, hid.symm⟩)

/-! ## The scan -/

/-- The candidate is a session of the walk with non-empty lists. -/
def Eligible (s : Server) (tv : TriggerView) (c : Candidate) : Prop :=
  s.inWalk tv c.slot = true ∧ c = s.candidate tv c.slot ∧ c.config.empty = false ∧
    c.membership.empty = false

theorem ffsplitScanStep_spec {s : Server} {tv : TriggerView} {best : Option Candidate} {i : Slot}
    (hi : s.inWalk tv i = true) (hbest : ∀ c, best = some c → s.Eligible tv c) {c : Candidate}
    (h : s.ffsplitScanStep tv best i = some c) : s.Eligible tv c := by
  simp only [ffsplitScanStep] at h
  split_ifs at h with he hb
  · exact hbest c h
  · obtain rfl := Option.some.inj h
    rw [Bool.or_eq_true, not_or, Bool.not_eq_true, Bool.not_eq_true] at he
    exact ⟨hi, rfl, he.1, he.2⟩
  · exact hbest c h

theorem ffsplitScan_spec {s : Server} {tv : TriggerView} {c : Candidate}
    (h : s.ffsplitScan tv = some c) : s.Eligible tv c := by
  have hfold : ∀ (l : List Slot) (best : Option Candidate), (∀ i ∈ l, s.inWalk tv i = true) →
      (∀ c, best = some c → s.Eligible tv c) → ∀ c, l.foldl (s.ffsplitScanStep tv) best = some c →
        s.Eligible tv c := by
    intro l
    induction l with
    | nil => exact fun best _ hbest => hbest
    | cons i l ih =>
      intro best hl hbest
      refine ih _ (fun j hj => hl j (List.mem_cons_of_mem _ hj)) fun c hc => ?_
      exact ffsplitScanStep_spec (hl i (List.mem_cons_self ..)) hbest hc
  exact hfold _ none (fun i hi => mem_walk.mp hi) nofun c h

/-! ## The sessions that vote -/

/-- The triggering session is active, and in the membership it brings. -/
structure Trigger (s : Server) (tv : TriggerView) : Prop where
  active : (s.sessions tv.slot).phase = .active
  membership : tv.leaving = false → tv.membership.empty = false →
    (tv.membership.find (s.sessions tv.slot).nodeId).isSome = true

/-- Skipping the leaving session by its node id skips no other one. -/
theorem inWalk_eq_others {s : Server} (h : Identity s) {tv : TriggerView} (ht : s.Trigger tv)
    (i : Slot) : s.inWalk tv i = s.others tv i := by
  unfold inWalk others
  cases hc : s.inCluster (s.tvCluster tv) i with
  | false => rfl
  | true =>
    obtain ⟨hact, hcl⟩ := inCluster_iff.mp hc
    have hid : (s.sessions i).nodeId = (s.sessions tv.slot).nodeId ↔ i = tv.slot := by
      constructor
      · intro hid
        by_contra hne
        exact h.nodeId i tv.slot hne hact ht.active hcl hid
      · rintro rfl
        rfl
    simp only [skipInClusterWalk, hid]

theorem distinctIds_of_identity {s : Server} (h : Identity s) (tv : TriggerView) :
    s.DistinctIds tv := by
  have hcl : ∀ {i}, s.inWalk tv i = true → (s.sessions i).phase = .active ∧
      (s.sessions i).cluster = s.tvCluster tv :=
    fun hi => inCluster_iff.mp (inCluster_of_inWalk hi)
  intro i j hi hj hid
  by_contra hne
  exact h.nodeId i j hne (hcl hi).1 (hcl hj).1 ((hcl hi).2.trans (hcl hj).2.symm) hid

theorem proper_of_identity {s : Server} (h : Identity s) {tv : TriggerView} (ht : s.Trigger tv) :
    Views.Proper (s.viewOf tv) fun i => s.inWalk tv i = true := by
  intro i hi hne
  have hact : (s.sessions i).phase = .active := (inCluster_iff.mp (inCluster_of_inWalk hi)).1
  have hempty : (s.effMembership tv i).empty = false := NodeList.empty_eq_false.mpr hne
  change (s.sessions i).nodeId ∈ (s.effMembership tv i).ids
  rw [← NodeList.find_isSome]
  unfold effMembership at hempty ⊢
  split_ifs at hempty ⊢ with hcond
  · rw [Bool.and_eq_true, decide_eq_true_eq, Bool.not_eq_true'] at hcond
    obtain ⟨hleave, rfl⟩ := hcond
    exact ht.membership hleave hempty
  · exact h.membership i hact hempty

end Server

/-! ## Fair decisions -/

/-- The decision an event takes for cluster `c`. -/
def Event.decisionIn (c : Int) : Event → Option Decision
  | .decide d => if d.cluster = c then some d else none
  | _ => none

theorem mem_of_decisionIn {c : Int} {tr : List Event} {d : Decision}
    (h : History.last (Event.decisionIn c) tr = some d) : .decide d ∈ tr ∧ d.cluster = c := by
  obtain ⟨e, he, hd⟩ := (History.last_iff_since.mp h).exists_mem
  unfold Event.decisionIn at hd
  split at hd
  · split_ifs at hd with hc
    obtain rfl := Option.some.inj hd
    exact ⟨he, hc⟩
  · cases hd

/-- The decision follows the views: the sessions with the winner's members get the ACK, all others
the NACK. -/
structure Fair (d : Decision) : Prop where
  votes : ∀ t v, d.voters t = some v → v.state = .sendingAck ∨ v.state = .sendingNack
  nobody : d.winner = none → ∀ t v, d.voters t = some v → v.state = .sendingNack
  winner : ∀ w l, d.winner = some (w, l) → l.empty = false ∧ ∃ vw, d.voters w = some vw ∧
    vw.membership = l
  partition : ∀ w l vw, d.winner = some (w, l) → d.voters w = some vw → ∀ t v, d.voters t = some v →
    (v.state = .sendingAck ↔ v.membership.ids = l.ids) ∧ (v.state = .sendingAck → v.ring = vw.ring)
  config : ∀ w l vw, d.winner = some (w, l) → d.voters w = some vw → ∀ t v, d.voters t = some v →
    v.config.ids = vw.config.ids ∧ v.config.empty = false

namespace Server

theorem verdict_voters {s : Server} {tv : TriggerView} {t : Slot} {v : View}
    (h : (s.verdict tv).voters t = some v) : s.others tv t = true ∧
      v = { config := s.effConfig tv t, membership := s.effMembership tv t, ring := s.effRing tv t
            state := s.putState tv (s.ffsplitSelectPartition tv) t } := by
  simp only [verdict] at h
  split_ifs at h with ho
  exact ⟨ho, (Option.some.inj h).symm⟩

theorem verdict_winner {s : Server} {tv : TriggerView} {w : Slot} {l : NodeList}
    (h : (s.verdict tv).winner = some (w, l)) :
    ∃ c, s.ffsplitScan tv = some c ∧ w = c.slot ∧ l = c.membership := by
  simp only [verdict, Option.map_eq_some_iff] at h
  obtain ⟨c, hc, hcw⟩ := h
  obtain ⟨rfl, rfl⟩ := Prod.mk.inj hcw
  exact ⟨c, hc, rfl, rfl⟩

theorem verdict_winner_eq_none {s : Server} {tv : TriggerView} :
    (s.verdict tv).winner = none ↔ s.ffsplitScan tv = none := Option.map_eq_none_iff

theorem others_of_inWalk {s : Server} {tv : TriggerView} {i : Slot} (h : s.inWalk tv i = true) :
    s.others tv i = true := by
  unfold inWalk skipInClusterWalk at h
  unfold others
  cases hl : tv.leaving with
  | false => simpa [hl] using h
  | true =>
    simp only [hl, Bool.true_and, Bool.and_eq_true, Bool.not_eq_true', decide_eq_false_iff_not] at h ⊢
    refine ⟨h.1, ?_⟩
    rintro rfl
    exact h.2 rfl

theorem verdict_voter_of_walk {s : Server} {tv : TriggerView} {i : Slot}
    (h : s.inWalk tv i = true) :
    ∃ v, (s.verdict tv).voters i = some v ∧ v.config = s.effConfig tv i ∧
    v.membership = s.effMembership tv i := by
  simp only [verdict, others_of_inWalk h, if_true]
  exact ⟨_, rfl, rfl, rfl⟩

theorem putState_of_walk {s : Server} {tv : TriggerView} {i : Slot} (hi : s.inWalk tv i = true)
    (winner : Option NodeList) :
    s.putState tv winner i = match winner with
      | none => .sendingNack
      | some l => if (s.sessions i).nodeId ∈ l.ids then .sendingAck else .sendingNack := by
  unfold putState
  rw [(inWalk_iff.mp hi).2]
  cases winner with
  | none => rfl
  | some l =>
    by_cases hm : (s.sessions i).nodeId ∈ l.ids
    · have hs := NodeList.find_isSome.mpr hm
      rw [Option.isSome_iff_ne_none] at hs
      simp [hm, hs]
    · simp [hm, NodeList.find_eq_none.mpr hm]

/-- A decision on stable views is fair. -/
theorem verdict_fair {s : Server} (h : Identity s) {tv : TriggerView} (ht : s.Trigger tv)
    (hstable : s.ffsplitIsStable tv = true) : Fair (s.verdict tv) := by
  have hst := (ffsplitIsStable_iff s tv (distinctIds_of_identity h tv)).mp hstable
  have hp := proper_of_identity h ht
  have hwalk : ∀ {t v}, (s.verdict tv).voters t = some v → s.inWalk tv t = true := by
    intro t v hv
    rw [inWalk_eq_others h ht]
    exact (verdict_voters hv).1
  -- the winner, as a session of the walk
  have hwin : ∀ {w l}, (s.verdict tv).winner = some (w, l) → s.inWalk tv w = true ∧
      l = s.effMembership tv w ∧
      l.empty = false ∧ (s.effConfig tv w).empty = false ∧
        s.ffsplitSelectPartition tv = some l := by
    intro w l hw
    obtain ⟨c, hc, rfl, rfl⟩ := verdict_winner hw
    obtain ⟨hwc, hcand, hcfg, hmem⟩ := ffsplitScan_spec hc
    refine ⟨hwc, ?_, hmem, ?_, ?_⟩
    · rw [hcand]
      rfl
    · rw [hcand] at hcfg
      exact hcfg
    · rw [ffsplitSelectPartition, hc]
      rfl
  refine ⟨fun t v hv => ?_, fun hnone t v hv => ?_, fun w l hw => ?_,
    fun w l vw hw hvw t v hv => ?_, fun w l vw hw hvw t v hv => ?_⟩
  · have hput := putState_of_walk (hwalk hv) (s.ffsplitSelectPartition tv)
    rw [(verdict_voters hv).2]
    simp only [hput]
    split
    · exact Or.inr rfl
    · split_ifs
      · exact Or.inl rfl
      · exact Or.inr rfl
  · have hsel : s.ffsplitSelectPartition tv = none := by
      rw [ffsplitSelectPartition, verdict_winner_eq_none.mp hnone]
      rfl
    rw [(verdict_voters hv).2]
    simp only [putState_of_walk (hwalk hv), hsel]
  · obtain ⟨hww, rfl, hne, -, -⟩ := hwin hw
    obtain ⟨vw, hvw, -, hmem⟩ := verdict_voter_of_walk hww
    exact ⟨hne, vw, hvw, hmem⟩
  · obtain ⟨hww, rfl, hne, -, hsel⟩ := hwin hw
    have htw := hwalk hv
    have hsees := hst.sees_iff hp hww htw (NodeList.empty_eq_false.mp hne)
    have hsame := hst.same_partition hp hww htw
    change (s.sessions t).nodeId ∈ (s.effMembership tv w).ids ↔
      (s.effMembership tv t).ids = (s.effMembership tv w).ids at hsees
    rw [(verdict_voters hv).2, (verdict_voters hvw).2]
    simp only [putState_of_walk htw, hsel]
    split_ifs with hm
    · exact ⟨⟨fun _ => hsees.mp hm, fun _ => rfl⟩, fun _ => (hsame hm).2.symm⟩
    · exact ⟨⟨by simp, fun heq => absurd (hsees.mpr heq) hm⟩, by simp⟩
  · obtain ⟨hww, -, -, hcfg, -⟩ := hwin hw
    have hcfg' : (s.effConfig tv t).ids = (s.effConfig tv w).ids := hst.same_config (hwalk hv) hww
    rw [(verdict_voters hv).2, (verdict_voters hvw).2]
    refine ⟨hcfg', NodeList.empty_eq_false.mpr ?_⟩
    change (s.effConfig tv t).ids.Nonempty
    rw [hcfg']
    exact NodeList.empty_eq_false.mp hcfg

/-! ## The decisions of a run -/

@[simp] theorem decide_mem_passed {t : Server} {tv : TriggerView} {sendAcks : Bool} {d : Decision} :
    .decide d ∈ (t.passed tv sendAcks).trace ↔ .decide d ∈ t.trace := by
  rw [passed_trace, List.mem_append, List.mem_reverse, List.mem_map]
  constructor
  · rintro (⟨i, -, he⟩ | he)
    · cases he
    · exact he
  · exact Or.inr

@[simp] theorem decide_mem_setState {t : Server} {c : Int} {st : FfClusterState} {d : Decision} :
    .decide d ∈ (t.setState c st).trace ↔ .decide d ∈ t.trace := by
  simp

theorem decide_mem_decided {s : Server} {tv : TriggerView} {d : Decision} :
    .decide d ∈ (s.decided tv).trace ↔ d = s.verdict tv ∨ .decide d ∈ s.trace := by
  simp [decided_trace]

theorem mem_ffsplitDo_decide {s : Server} {tv : TriggerView} {d : Decision}
    (h : .decide d ∈ (s.ffsplitDo tv).2.2.trace) :
    .decide d ∈ s.trace ∨ (s.ffsplitIsStable tv = true ∧ d = s.verdict tv) := by
  rcases ffsplitDo_server s tv with ⟨-, hs⟩ | ⟨hst, hs⟩
  · rw [hs] at h
    simp only [emit_trace, List.mem_cons, reduceCtorEq, false_or, decide_mem_setState] at h
    exact Or.inl h
  · have hd : .decide d ∈ (s.decided tv).trace := by
      rw [hs] at h
      rcases ffsplitVotes_cases (s.decided tv) tv with ⟨-, hv⟩ | ⟨-, -, hv⟩ | ⟨-, -, hv⟩
      · rw [hv] at h
        simpa only [decide_mem_passed, decide_mem_setState] using h
      · rw [hv] at h
        simpa only [decide_mem_passed, decide_mem_setState] using h
      · rw [hv] at h
        simpa only [decide_mem_setState] using h
    rcases decide_mem_decided.mp hd with hd | hd
    · exact Or.inr ⟨hst, hd⟩
    · exact Or.inl hd

theorem mem_reply_decide {s : Server} {i : Slot} {m : MsgDecoded} (hset : m.seqNumberSet = true)
    {d : Decision} (h : .decide d ∈ (s.handleVoteInfoReply i m).trace) : .decide d ∈ s.trace := by
  have ha : .decide d ∈ (s.answered i m.seqNumber).trace ↔ .decide d ∈ s.trace := by
    simp [answered_trace]
  rcases handleVoteInfoReply_cases s i m hset rfl with
    ⟨-, hs⟩ | ⟨-, ⟨hs, -⟩ | ⟨-, -, -, hs⟩ | ⟨-, -, -, hs⟩ | ⟨-, -, hs⟩⟩
  · rw [hs] at h
    simpa using h
  · rw [hs] at h
    exact ha.mp h
  · rw [hs] at h
    simpa only [decide_mem_passed, decide_mem_setState, ha] using h
  · rw [hs] at h
    simpa only [decide_mem_setState, ha] using h
  · rw [hs] at h
    simpa only [decide_mem_setState, ha] using h

end Server

theorem Identity.trigger_report {s : Server} {i : Slot} (h : Identity s)
    (hact : (s.sessions i).phase = .active)
    {r : Report} {m : MsgDecoded} (hfits : Server.Fits m (s.sessions i) r) :
    s.Trigger (s.reportView i m r) := by
  obtain ⟨-, hmem⟩ := h.reportView hact hfits
  refine ⟨?_, fun _ => ?_⟩
  · rw [reportView_slot]
    exact hact
  · rw [reportView_slot]
    exact hmem

theorem trigger_leaving {s : Server} {i : Slot} (hact : (s.sessions i).phase = .active) :
    s.Trigger (s.storedView i true) := ⟨hact, nofun⟩

theorem Server.verdict_emit (s : Server) (e : Event) (tv : TriggerView) :
    (s.emit e).verdict tv = s.verdict tv :=
  rfl

/-- Where a decision comes from: a move decides on the state it starts from, with the views it found
stable. -/
theorem Move.decision {i : Slot} {s s' : Server} (hm : Move i s s') (ht : Table s) {d : Decision}
    (hd : .decide d ∈ s'.trace) :
    .decide d ∈ s.trace ∨ ∃ tv, d = s.verdict tv ∧ s.ffsplitIsStable tv = true ∧
    (Identity s → s.Trigger tv) := by
  have hrun : ∀ (e : Event) (tv : TriggerView), (Identity s → s.Trigger tv) →
      (∀ d', e ≠ .decide d') → .decide d ∈ ((s.emit e).ffsplitDo tv).2.2.trace →
      .decide d ∈ s.trace ∨ ∃ tv, d = s.verdict tv ∧ s.ffsplitIsStable tv = true ∧
        (Identity s → s.Trigger tv) := by
    intro e tv htv hne hd
    rcases Server.mem_ffsplitDo_decide hd with hd | ⟨hst, rfl⟩
    · rcases List.mem_cons.mp hd with hd | hd
      · exact absurd hd.symm (hne d)
      · exact Or.inl hd
    · exact Or.inr ⟨tv, s.verdict_emit e tv, hst, htv⟩
  cases hm with
  | quiet hq =>
    obtain ⟨new, htr, hnew⟩ := hq.trace
    rw [htr] at hd
    rcases List.mem_append.mp hd with hd | hd
    · exact (hnew _ hd).elim
    · exact Or.inl hd
  | connect now peer hfree =>
    rcases List.mem_cons.mp hd with hd | hd
    · cases hd
    · exact Or.inl hd
  | reinit m hact htype hrecv => exact Or.inl hd
  | join now hphase hcheck hc =>
    obtain ⟨c, hj⟩ := ht.joined now hc
    rcases hj.record with ⟨-, -, -, htr⟩ | ⟨-, -, -, htr⟩
    · rw [htr] at hd
      simpa using Or.inl hd
    · rw [htr] at hd
      simpa using Or.inl hd
  | report r m hact hfits =>
    change .decide d ∈ (s.ranReport i r m).trace at hd
    unfold Server.ranReport at hd
    split_ifs at hd
    · exact hrun (.accept i r) _ (fun hid => hid.trigger_report hact hfits) nofun hd
    · simpa using Or.inl hd
  | reply m hact hset => exact Or.inl (Server.mem_reply_decide hset hd)
  | leave =>
    by_cases hact : (s.sessions i).phase = .active
    · rw [Server.left_eq hact (ht.range i hact).1] at hd
      exact hrun (.leave i (s.sessions i).cluster) _ (fun _ => trigger_leaving hact) nofun hd
    · rw [Server.left_of_not_active hact] at hd
      exact Or.inl hd

/-- Every decision a move takes is fair. -/
theorem Move.fair {i : Slot} {s s' : Server} (hm : Move i s s') (ht : Table s) (hid : Identity s)
    {d : Decision} (hd : .decide d ∈ s'.trace) : .decide d ∈ s.trace ∨ Fair d := by
  rcases hm.decision ht hd with hd | ⟨tv, rfl, hst, htv⟩
  · exact Or.inl hd
  · exact Or.inr (Server.verdict_fair hid (htv hid) hst)

/-- The invariants of a run without INIT on active sessions. -/
structure Sound (s : Server) : Prop where
  table : Table s
  identity : Identity s
  fair : ∀ d, .decide d ∈ s.trace → Fair d

theorem Move.sound {i : Slot} {s s' : Server} (hm : Move i s s') (hno : NoReinit s'.trace)
    (h : Sound s) : Sound s' :=
  ⟨hm.table h.table, hm.identity h.table hno.keepsId h.identity,
    fun d hd => (hm.fair h.table h.identity hd).elim (h.fair d) id⟩

theorem sound_init (n : UInt32) : Sound (Server.init n) := ⟨table_init n, identity_init n, nofun⟩

theorem run_sound (n : UInt32) (calls : List Call) (h : NoReinit (run n calls).trace) :
    Sound (run n calls) :=
  run_induction (I := fun s => NoReinit s.trace → Sound s) (fun n _ => sound_init n)
    (fun hm hs hno => hm.sound hno (hs (hno.of_suffix hm.trace_suffix))) n calls h

/-- A decision of a run was taken in a state with the invariants, on views found stable there. -/
theorem run_decision (n : UInt32) (calls : List Call) {d : Decision}
    (hd : .decide d ∈ (run n calls).trace) :
    ∃ s tv, d = s.verdict tv ∧ s.ffsplitIsStable tv = true ∧
      (KeepsId (run n calls).trace → Identity s ∧ s.Trigger tv) := by
  have hinv :=
    run_induction (I := fun s => Table s ∧ (KeepsId s.trace → Identity s) ∧
      ∀ d, .decide d ∈ s.trace →
      ∃ s₀ tv, d = Server.verdict s₀ tv ∧ s₀.ffsplitIsStable tv = true ∧
        (KeepsId s.trace → Identity s₀ ∧ s₀.Trigger tv))
    (fun n => ⟨table_init n, fun _ => identity_init n, by simp [Server.init]⟩)
    (fun {i s s'} hm hs => by
      obtain ⟨ht, hid, hdec⟩ := hs
      have hold : KeepsId s'.trace → KeepsId s.trace := fun hk => hk.of_suffix hm.trace_suffix
      refine ⟨hm.table ht, fun hk => hm.identity ht hk (hid (hold hk)), fun d hd => ?_⟩
      rcases hm.decision ht hd with hd | ⟨tv, hv, hst, htv⟩
      · obtain ⟨s₀, tv, hv, hst, h⟩ := hdec d hd
        exact ⟨s₀, tv, hv, hst, fun hk => h (hold hk)⟩
      · exact ⟨s, tv, hv, hst, fun hk => ⟨hid (hold hk), htv (hid (hold hk))⟩⟩) n calls
  exact hinv.2.2 d hd

/-- One partition per decision. In a run without INIT on active sessions, a decision with a winner,
taken from session `w` with the list `l`, puts a session in SENDING_ACK exactly when the node ids of
its effective membership list are those of the winner. Such a session has the winner's ring id and
configured nodes; every other one is put in SENDING_NACK. -/
theorem decision_one_partition (n : UInt32) (calls : List Call) (hno : NoReinit (run n calls).trace)
    (d : Decision)
    (hd : .decide d ∈ (run n calls).trace) (w : Slot) (l : NodeList) (hw : d.winner = some (w, l)) :
    ∃ vw, d.voters w = some vw ∧ vw.membership = l ∧ ∀ t v, d.voters t = some v →
      (v.state = .sendingAck ↔ v.membership.ids = l.ids) ∧
      (v.state = .sendingAck → v.ring = vw.ring ∧ v.config.ids = vw.config.ids) ∧
      (v.state ≠ .sendingAck → v.state = .sendingNack) := by
  have hf := (run_sound n calls hno).fair d hd
  obtain ⟨-, vw, hvw, hl⟩ := hf.winner w l hw
  refine ⟨vw, hvw, hl, fun t v hv => ?_⟩
  obtain ⟨hack, hring⟩ := hf.partition w l vw hw hvw t v hv
  refine ⟨hack, fun hs => ⟨hring hs, (hf.config w l vw hw hvw t v hv).1⟩, fun hs => ?_⟩
  exact (hf.votes t v hv).resolve_left hs

/-- Nodes 1 and 2 are configured, and node 1 reports that it is alone. -/
def splitCalls : List Call :=
  twoJoined ++ Rig.feed 0 [MockClient.configList 3 .initialConfig [1, 2]] ++
    Rig.feed 1 [MockClient.configList 3 .initialConfig [1, 2]] ++
      Rig.feed 0 [MockClient.membership 4 ⟨1, 1⟩ [1]]

theorem split_decided : ∃ d l, .decide d ∈ (run 32768 splitCalls).trace ∧
    d.winner = some (0, l) := by
  have hwin : (History.last (Event.decisionIn 0) (run 32768 splitCalls).trace).map Decision.winner =
      some (some (0, ⟨[{ nodeId := 1, state := .member }]⟩)) := by decide +kernel
  obtain ⟨d, hd, hw⟩ := Option.map_eq_some_iff.mp hwin
  exact ⟨d, _, (mem_of_decisionIn hd).1, hw⟩

/-- Node 1 wins, and node 2 is put outside. -/
theorem decision_one_partition_split :
    ∃ d l vw, .decide d ∈ (run 32768 splitCalls).trace ∧ d.winner = some (0, l) ∧
    d.voters 0 = some vw ∧
      ∀ v, d.voters 1 = some v → (v.state = .sendingAck ↔ v.membership.ids = l.ids) := by
  have hno : NoReinit (run 32768 splitCalls).trace := by
    unfold NoReinit
    decide +kernel
  obtain ⟨d, l, hmem, hw⟩ := split_decided
  obtain ⟨vw, hvw, -, h⟩ := decision_one_partition 32768 splitCalls hno d hmem 0 l hw
  exact ⟨d, l, vw, hmem, hw, hvw, fun v hv => (h 1 v hv).1⟩

end Qnetd
