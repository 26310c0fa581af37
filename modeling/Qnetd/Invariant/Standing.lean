import Qnetd.Invariant.Round
import Qnetd.Wire.RoundTrip

/-!
# The decision in force

While a cluster sends its votes, the latest verdict of the algorithm on it is a decision, and the
states of its sessions are what is left to do of that decision.

* `Event.verdictIn c` : the verdict of the algorithm on cluster `c`, a decision or that the views
  are not stable;
* `Answered t` : session `t` was sent a NACK and has replied to exactly that one, and was sent no
  ACK after it;
* `Standing c d` : the decision `d` is in force in cluster `c`. Whoever it put outside the winning
  partition still owes the reply to its NACK, or has answered it;
* `NackedFirst c` : an ACK goes out only when everybody outside has answered;
* `InForce c`, `standing_invariant` : both hold of every cluster in every run.
-/

namespace Qnetd

open History (last last_append_of_none Always)

/-! ## Verdicts -/

def Event.verdictIn (c : Int) : Event → Option (Option Decision)
  | .decide d => if d.cluster = c then some (some d) else none
  | .unstable c' => if c' = c then some none else none
  | _ => none

theorem Event.apart.verdictIn {c : Int} {mem : Slot → Bool} {e : Event} (h : e.apart c mem) :
    e.verdictIn c = none := by
  cases e with
  | decide d => exact if_neg h
  | unstable c' => exact if_neg h
  | send _ _ | close _ | frame _ _ | recv _ _ _ _ | join _ _ | leave _ _ | accept _ _ | phase _ _ | vote _ _ | connect _
  | reply _ _ _ _ _ => rfl

theorem Event.decisionIn_of_verdictIn {c : Int} {e : Event} (h : e.verdictIn c = none) :
    e.decisionIn c = none := by
  cases e with
  | decide d =>
    simp only [Event.verdictIn] at h
    simp only [Event.decisionIn]
    split_ifs at h ⊢
    rfl
  | _ => rfl

theorem decision_of_verdict {c : Int} {tr : List Event} {d : Decision}
    (h : last (Event.verdictIn c) tr = some (some d)) : last (Event.decisionIn c) tr = some d := by
  rw [History.last_iff_since] at h ⊢
  refine h.mono (fun e he => ?_) fun e he => Event.decisionIn_of_verdictIn he
  cases e with
  | decide d' =>
    simp only [Event.verdictIn] at he
    simp only [Event.decisionIn]
    split_ifs at he ⊢ with hc
    exact Option.some.inj he
  | unstable c' =>
    simp only [Event.verdictIn] at he
    split_ifs at he
    cases Option.some.inj he
  | _ => cases he

namespace Server

/-! What the votes do not add to the history. -/

section Last
variable {β : Type} {p : Event → Option β}

theorem last_passed (hp : ∀ i v, p (.vote i v) = none) (s : Server) (tv : TriggerView)
    (sendAcks : Bool) : last p (s.passed tv sendAcks).trace = last p s.trace := by
  rw [passed_trace]
  refine last_append_of_none fun e he => ?_
  rw [List.mem_reverse, List.mem_map] at he
  obtain ⟨i, -, rfl⟩ := he
  exact hp i _

theorem last_setState (hp : ∀ c st, p (.phase c st) = none) (s : Server) (c : Int)
    (st : FfClusterState) : last p (s.setState c st).trace = last p s.trace := by
  rw [setState_trace, last, List.findSome?_cons, hp]
  rfl

theorem last_ffsplitVotes (hv : ∀ i v, p (.vote i v) = none) (hp : ∀ c st, p (.phase c st) = none)
    (s : Server) (tv : TriggerView) : last p (s.ffsplitVotes tv).trace = last p s.trace := by
  rcases ffsplitVotes_cases s tv with ⟨-, h⟩ | ⟨-, -, h⟩ | ⟨-, -, h⟩
  · rw [h, last_passed hv, last_setState hp]
  · rw [h, last_passed hv, last_setState hp, last_setState hp]
  · rw [h, last_setState hp, last_setState hp, last_setState hp]

end Last

theorem ffsplitDo_verdict (s : Server) (tv : TriggerView) :
    (s.ffsplitIsStable tv = false ∧
      last (Event.verdictIn (s.tvCluster tv)) (s.ffsplitDo tv).2.2.trace = some none) ∨
    (s.ffsplitIsStable tv = true ∧
      last (Event.verdictIn (s.tvCluster tv)) (s.ffsplitDo tv).2.2.trace =
        some (some (s.verdict tv))) := by
  rcases ffsplitDo_server s tv with ⟨hst, h⟩ | ⟨hst, h⟩
  · refine Or.inl ⟨hst, ?_⟩
    rw [h, emit_trace, last, List.findSome?_cons]
    simp [Event.verdictIn]
  · refine Or.inr ⟨hst, ?_⟩
    rw [h, last_ffsplitVotes (fun _ _ => rfl) (fun _ _ => rfl), decided_trace, last,
      List.findSome?_cons]
    simp [Event.verdictIn, verdict]

theorem verdict_ffState {s : Server} {tv : TriggerView} {t : Slot} {v : View}
    (h : (s.verdict tv).voters t = some v) :
    s.inCluster (s.tvCluster tv) t = true ∧ ((s.decided tv).sessions t).ffState = v.state := by
  obtain ⟨ho, rfl⟩ := verdict_voters h
  unfold others at ho
  have hin := (Bool.and_eq_true_iff.mp ho).1
  rw [decided_sessions, if_pos hin]
  exact ⟨hin, rfl⟩

theorem verdict_of_waits {s : Server} {tv : TriggerView} {t : Slot}
    (hin : s.inCluster (s.tvCluster tv) t = true)
    (hff : ((s.decided tv).sessions t).ffState ≠ .waitingForChange) :
    ∃ v, (s.verdict tv).voters t = some v ∧ v.state = ((s.decided tv).sessions t).ffState := by
  have ho : s.others tv t = true := by
    unfold others
    rw [hin, Bool.true_and, Bool.not_eq_true', ← Bool.not_eq_true, Bool.and_eq_true,
      decide_eq_true_eq]
    rintro ⟨hleave, rfl⟩
    refine hff ?_
    rw [decided_sessions, if_pos hin]
    simp [putState, skipInClusterWalk, hleave]
  rw [decided_sessions, if_pos hin]
  simp only [verdict, ho, if_true]
  exact ⟨_, rfl, rfl⟩

theorem verdict_leaving {s : Server} {tv : TriggerView} (hleave : tv.leaving = true) :
    (s.verdict tv).voters tv.slot = none := by
  have ho : s.others tv tv.slot = false := by simp [others, hleave]
  simp only [verdict, ho]
  rfl

end Server

/-! ## Answered NACKs -/

/-- The event is an ACK to session `t`, or starts another session in its slot. -/
def Event.renews (t : Slot) : Event → Prop
  | .vote j info => j = t ∧ info.vote = .ack
  | .connect j => j = t
  | _ => False

/-- Session `t` was sent the NACK `n`, then replied to exactly that number, and was sent no ACK
after the NACK. -/
def Answered (t : Slot) (tr : List Event) : Prop :=
  ∃ new n mid old expected st ph,
    tr = new ++ .reply t n.seq expected st ph :: (mid ++ .vote t n :: old) ∧
    n.vote = .nack ∧ (∀ e ∈ new, ¬e.renews t) ∧ ∀ e ∈ mid, ¬e.renews t

theorem Answered.append {t : Slot} {tr more : List Event} (h : Answered t tr)
    (hmore : ∀ e ∈ more, ¬e.renews t) : Answered t (more ++ tr) := by
  obtain ⟨new, n, mid, old, expected, st, ph, rfl, hn, hnew, hmid⟩ := h
  refine ⟨more ++ new, n, mid, old, expected, st, ph, by rw [List.append_assoc], hn,
    fun e he => ?_, hmid⟩
  rcases List.mem_append.mp he with he | he
  · exact hmore e he
  · exact hnew e he

theorem Answered.cons {t : Slot} {tr : List Event} (h : Answered t tr) {e : Event}
    (he : ¬e.renews t) : Answered t (e :: tr) := @Answered.append t tr [e] h (by simpa using he)

theorem Owed.answered {t : Slot} {seq : UInt32} {tr : List Event} (h : Owed t .nack seq tr)
    (expected : UInt32)
    (st : FfClientState) (ph : FfClusterState) :
    Answered t (.reply t seq expected st ph :: tr) := by
  obtain ⟨mid, e, old, rfl, hask, hmid⟩ := h
  cases e with
  | vote j n =>
    obtain ⟨rfl, hn, rfl⟩ := hask
    refine ⟨[], n, mid, old, expected, st, ph, rfl, hn, by simp, fun e he hack => hmid e he ?_⟩
    cases e with
    | vote k _ => exact hack.1
    | connect k => exact hack
    | _ => exact hack.elim
  | _ => exact hask.elim

theorem Event.apart.not_renews {c : Int} {mem : Slot → Bool} {e : Event} (h : e.apart c mem)
    {t : Slot} (ht : mem t = true) : ¬e.renews t := by
  intro hack
  cases e with
  | vote j v =>
    have hj := h.1
    rw [hack.1, ht] at hj
    cases hj
  | connect j =>
    obtain rfl : j = t := hack
    have hj : mem j = false := h
    rw [hj] at ht
    cases ht
  | _ => exact hack.elim

/-! ## The invariant -/

structure Standing (c : Int) (d : Decision) (s : Server) : Prop where
  latest : last (Event.verdictIn c) s.trace = some (some d)
  voter : ∀ t v, d.voters t = some v → s.inCluster c t = true ∧
    ((s.sessions t).ffState = v.state ∨ (s.sessions t).ffState = .waitingForChange)
  waits : ∀ t, s.inCluster c t = true → (s.sessions t).ffState ≠ .waitingForChange →
    ∃ v, d.voters t = some v ∧ v.state = (s.sessions t).ffState
  answered : ∀ t v, d.voters t = some v → v.state = .sendingNack →
    (s.sessions t).ffState = .sendingNack ∨ Answered t s.trace

/-- The cluster is sending the votes of a decision. -/
def Server.Sending (s : Server) (c : Int) : Prop :=
  (s.clusters c).state = .sendingNacks ∨ (s.clusters c).state = .sendingAcks

/-- An ACK for cluster `c` finds everybody its latest decision put outside answered. -/
def NackedFirst (c : Int) (e : Event) (past : List Event) : Prop :=
  ∀ j info, e = .vote j info → info.cluster = c → info.vote = .ack →
    ∃ d, last (Event.decisionIn c) past = some d ∧
      ∀ t v, d.voters t = some v → v.state = .sendingNack → Answered t past

theorem nackedFirst_of_not_vote {c : Int} {e : Event}
    (h : ∀ j info, e = .vote j info → info.cluster = c →
    info.vote ≠ .ack) (past : List Event) : NackedFirst c e past :=
  fun j info he hc hv => absurd hv (h j info he hc)

/-! ## Preservation -/

theorem Standing.apart {c : Int} {d : Decision} {s s' : Server} (ha : Apart c s s')
    (h : Standing c d s) : Standing c d s' := by
  obtain ⟨new, htr, hnew⟩ := ha.trace
  refine ⟨?_, fun t v hv => ?_, fun t ht hff => ?_, fun t v hv hst => ?_⟩
  · rw [htr, last_append_of_none fun e he => (hnew e he).verdictIn]
    exact h.latest
  · obtain ⟨hin, hff⟩ := h.voter t v hv
    rw [ha.ffState t hin]
    exact ⟨(ha.inCluster t).trans hin, hff⟩
  · rw [ha.inCluster] at ht
    rw [ha.ffState t ht] at hff ⊢
    exact h.waits t ht hff
  · have hin := (h.voter t v hv).1
    rw [ha.ffState t hin, htr]
    exact (h.answered t v hv hst).imp id fun hans => hans.append fun e he =>
      (hnew e he).not_renews hin

/-- A member that was not there when the decision was taken is no part of it. -/
theorem Standing.join {i : Slot} {c : Int} {d : Decision} {s s' : Server} (ht : Table s)
    (hphase : (s.sessions i).phase ≠ .active) (hj : Joined i c s s') (h : Standing c d s)
    (htr : s'.trace = .join i c :: s.trace) : Standing c d s' := by
  obtain ⟨dl, hself⟩ := hj.self
  have hnew : (s'.sessions i).ffState = .waitingForChange := by
    rw [hself]
    exact (ht.idle i hphase).ffState
  have hne : ∀ {t}, s.inCluster c t = true → t ≠ i := by
    rintro t hin rfl
    exact hphase (Server.inCluster_iff.mp hin).1
  refine ⟨?_, fun t v hv => ?_, fun t hin hff => ?_, fun t v hv hst => ?_⟩
  · rw [htr]
    exact h.latest
  · obtain ⟨hin, hff⟩ := h.voter t v hv
    rw [hj.others t (hne hin), hj.inCluster_of_ne (hne hin)]
    exact ⟨hin, hff⟩
  · have hti : t ≠ i := by
      rintro rfl
      exact hff hnew
    rw [hj.inCluster_of_ne hti] at hin
    rw [hj.others t hti] at hff ⊢
    exact h.waits t hin hff
  · rw [hj.others t (hne (h.voter t v hv).1), htr]
    exact (h.answered t v hv hst).imp id fun hans => hans.cons id

/-- The decision just taken is in force: everybody it put outside owes the reply to its NACK. -/
theorem standing_verdict {s : Server} {tv : TriggerView} {t : Server}
    (hsame : Server.SameButVotes s t)
    (hff : ∀ i, (t.sessions i).ffState = ((s.decided tv).sessions i).ffState)
    (hlatest : last (Event.verdictIn (s.tvCluster tv)) t.trace = some (some (s.verdict tv))) :
    Standing (s.tvCluster tv) (s.verdict tv) t := by
  refine ⟨hlatest, fun i v hv => ?_, fun i hin hw => ?_, fun i v hv hst => ?_⟩
  · obtain ⟨hin, hs⟩ := Server.verdict_ffState hv
    rw [Server.inCluster_congr hsame, hff]
    exact ⟨hin, Or.inl hs⟩
  · rw [Server.inCluster_congr hsame] at hin
    rw [hff] at hw ⊢
    exact Server.verdict_of_waits hin hw
  · rw [hff, (Server.verdict_ffState hv).2]
    exact Or.inl hst

theorem Server.passed_always {P : Event → List Event → Prop} {s : Server} {tv : TriggerView}
    {sendAcks : Bool} (h : Always P s.trace)
    (hv : ∀ i (older : List Event), s.target tv sendAcks i = true →
      (∀ e ∈ older, ∃ j, s.target tv sendAcks j = true ∧ e = .vote j (s.voteTo tv sendAcks j)) →
      P (.vote i (s.voteTo tv sendAcks i)) (older ++ s.trace)) : Always P
      (s.passed tv sendAcks).trace := by
  rw [Server.passed_trace]
  refine h.append fun newer e older hsplit => ?_
  have hmem : ∀ x ∈ newer ++ e :: older, ∃ j, s.target tv sendAcks j = true ∧
      x = .vote j (s.voteTo tv sendAcks j) := by
    intro x hx
    rw [← hsplit, List.mem_reverse, List.mem_map] at hx
    obtain ⟨j, hj, rfl⟩ := hx
    exact ⟨j, Server.mem_targets.mp hj, rfl⟩
  obtain ⟨i, hi, rfl⟩ := hmem e (by simp)
  exact hv i older hi fun x hx => hmem x (by simp [hx])

theorem nackedFirst_passed {t : Server} {tv : TriggerView} {c : Int} {d : Decision}
    (hd : last (Event.decisionIn c) t.trace = some d)
    (hans : ∀ i v, d.voters i = some v → v.state = .sendingNack → Answered i t.trace ∧
      t.target tv true i = false)
    (h : Always (NackedFirst c) t.trace) : Always (NackedFirst c) (t.passed tv true).trace := by
  refine Server.passed_always h fun i older hi holder j info he hc hv =>
    ⟨d, ?_, fun k v hk hst => ?_⟩
  · rw [last_append_of_none, hd]
    intro e he
    obtain ⟨k, -, rfl⟩ := holder e he
    rfl
  · obtain ⟨hk', hnot⟩ := hans k v hk hst
    refine hk'.append fun e he hack => ?_
    obtain ⟨j', hj', rfl⟩ := holder e he
    obtain ⟨rfl, -⟩ := hack
    rw [hnot] at hj'
    cases hj'

theorem nackedFirst_phase (c c' : Int) (st : FfClusterState) (past : List Event) :
    NackedFirst c (.phase c' st) past := nackedFirst_of_not_vote (by nofun) past

theorem nackedFirst_setState {t : Server} {c : Int} (h : Always (NackedFirst c) t.trace) (c' : Int)
    (st : FfClusterState) : Always (NackedFirst c) (t.setState c' st).trace :=
  .cons (nackedFirst_phase c c' st _) h

/-- The votes of a decision: the ACKs go out at once only when nobody was put outside. -/
theorem nackedFirst_votes {t : Server} {tv : TriggerView} {c : Int} {d : Decision}
    (hd : last (Event.decisionIn c) t.trace = some d)
    (hno : t.targets tv false = [] → ∀ i v, d.voters i = some v → v.state ≠ .sendingNack)
    (h : Always (NackedFirst c) t.trace) : Always (NackedFirst c) (t.ffsplitVotes tv).trace := by
  rcases Server.ffsplitVotes_cases t tv with ⟨-, hv⟩ | ⟨hnil, -, hv⟩ | ⟨-, -, hv⟩
  · rw [hv]
    refine Server.passed_always (nackedFirst_setState h _ _) fun i older _ _ =>
      nackedFirst_of_not_vote (fun j info he _ hack => ?_) _
    cases he
    cases hack
  · rw [hv]
    refine nackedFirst_passed (d := d) ?_ (fun i v hvt hst => absurd hst (hno hnil i v hvt))
      (nackedFirst_setState (nackedFirst_setState h _ _) _ _)
    rw [Server.last_setState (fun _ _ => rfl), Server.last_setState (fun _ _ => rfl), hd]
  · rw [hv]
    exact nackedFirst_setState (nackedFirst_setState (nackedFirst_setState h _ _) _ _) _ _

/-! ## The invariant of single clusters -/

structure InForce (c : Int) (s : Server) : Prop where
  round : Round c s
  standing : s.Sending c → ∃ d, Standing c d s
  nackedFirst : Always (NackedFirst c) s.trace

theorem not_sending_of_idle {s : Server} {c : Int} (h : (s.clusters c).state = .waitingForChange) :
    ¬s.Sending c := by
  rintro (h' | h') <;> rw [h] at h' <;> cases h'

theorem InForce.apart {c : Int} {s s' : Server} (ha : Apart c s s') (h : InForce c s) :
    InForce c s' := by
  obtain ⟨new, htr, hnew⟩ := ha.trace
  refine ⟨h.round.apart ha, fun hst => ?_, ?_⟩
  · unfold Server.Sending at hst
    rw [ha.cluster] at hst
    obtain ⟨d, hd⟩ := h.standing hst
    exact ⟨d, hd.apart ha⟩
  · rw [htr]
    refine h.nackedFirst.append_of_forall fun e he past => nackedFirst_of_not_vote ?_ past
    rintro j info rfl hc
    exact absurd hc (hnew _ he).2

theorem InForce.join {i : Slot} {c : Int} {s s' : Server} (ht : Table s)
    (hphase : (s.sessions i).phase ≠ .active)
    (hj : Joined i c s s') (h : InForce c s) : InForce c s' := by
  refine ⟨h.round.join ht hphase hj, fun hst => ?_, ?_⟩
  · rcases hj.record with ⟨-, -, hcl, htr⟩ | ⟨-, -, hcl, -⟩
    · unfold Server.Sending at hst
      rw [hcl] at hst
      obtain ⟨d, hd⟩ := h.standing hst
      exact ⟨d, hd.join ht hphase hj htr⟩
    · exact absurd hst (not_sending_of_idle (by rw [hcl]))
  · rcases hj.record with ⟨-, -, -, htr⟩ | ⟨-, -, -, htr⟩
    · rw [htr]
      exact .cons (nackedFirst_of_not_vote (by nofun) _) h.nackedFirst
    · rw [htr]
      exact .cons (nackedFirst_of_not_vote (by nofun) _)
        (.cons (nackedFirst_phase _ _ _ _) h.nackedFirst)

/-- A decision is in force as soon as it is taken. -/
theorem InForce.decide {s : Server} {tv : TriggerView} (h : InForce (s.tvCluster tv) s) :
    InForce (s.tvCluster tv) (s.ffsplitDo tv).2.2 := by
  refine ⟨Round.decide s tv, fun hst => ?_, ?_⟩
  · rcases Server.ffsplitDo_server s tv with ⟨-, hs⟩ | ⟨hstable, hs⟩
    · rw [hs] at hst
      rcases hst with hst | hst <;> simp at hst
    · refine ⟨s.verdict tv, standing_verdict (Server.ffsplitDo_sameButVotes s tv) (fun i => ?_) ?_⟩
      · rw [hs, Server.ffsplitVotes_ffState]
      · rcases Server.ffsplitDo_verdict s tv with ⟨hno, -⟩ | ⟨-, hv⟩
        · rw [hstable] at hno
          cases hno
        · exact hv
  · rcases Server.ffsplitDo_server s tv with ⟨-, hs⟩ | ⟨-, hs⟩
    · rw [hs]
      exact .cons (nackedFirst_of_not_vote (by simp) _)
        (.cons (nackedFirst_phase _ _ _ _) h.nackedFirst)
    · rw [hs]
      refine nackedFirst_votes (d := s.verdict tv) ?_ (fun hnil i v hvt hst => ?_) ?_
      · rw [Server.decided_trace, last, List.findSome?_cons]
        simp [Event.decisionIn, Server.verdict]
      · obtain ⟨hin, hff⟩ := Server.verdict_ffState hvt
        have hw := Server.decided_inWalk hin (by rw [hff, hst]; simp)
        exact ffState_of_no_target (fun _ => hw) hnil (hff.trans hst)
      · rw [Server.decided_trace]
        exact .cons (nackedFirst_of_not_vote (by simp) _)
          (.cons (nackedFirst_phase _ _ _ _) h.nackedFirst)

/-! ## Leaving -/

theorem voters_of_leaving {i : Slot} {s : Server} {d : Decision}
    (h : last (Event.verdictIn (s.sessions i).cluster) (s.leaving i).trace = some (some d)) :
    d.voters i = none := by
  set u := s.emit (.leave i (s.sessions i).cluster) with hu
  set tv := s.storedView i true with htv
  have h' : last (Event.verdictIn (u.tvCluster tv)) (u.ffsplitDo tv).2.2.trace = some (some d) := h
  rcases Server.ffsplitDo_verdict u tv with ⟨-, hv⟩ | ⟨-, hv⟩
  · rw [hv] at h'
    cases Option.some.inj h'
  · rw [hv] at h'
    cases h'
    exact Server.verdict_leaving rfl

theorem Standing.gone {i : Slot} {c : Int} {d : Decision} {t : Server} (hi : d.voters i = none)
    (h : Standing c d t) : Standing c d (t.removed i c) := by
  have hne : ∀ {j v}, d.voters j = some v → j ≠ i := by
    rintro j v hv rfl
    rw [hi] at hv
    cases hv
  refine ⟨h.latest, fun j v hv => ?_, fun j hin hff => ?_, fun j v hv hst => ?_⟩
  · rw [Server.removed_of_ne t c (hne hv), Server.removed_inCluster_of_ne t c c (hne hv)]
    exact h.voter j v hv
  · have hji : j ≠ i := by
      rintro rfl
      rw [Server.removed_inCluster_self] at hin
      cases hin
    rw [Server.removed_inCluster_of_ne t c c hji] at hin
    rw [Server.removed_of_ne t c hji] at hff ⊢
    exact h.waits j hin hff
  · rw [Server.removed_of_ne t c (hne hv)]
    exact h.answered j v hv hst

theorem InForce.gone {i : Slot} {s : Server} (ht : Table s) (hact : (s.sessions i).phase = .active)
    (h : InForce (s.sessions i).cluster (s.leaving i)) :
    InForce (s.sessions i).cluster ((s.leaving i).removed i (s.sessions i).cluster) := by
  refine ⟨h.round.gone ht hact, fun hst => ?_, h.nackedFirst⟩
  unfold Server.Sending at hst
  rw [Server.removed_clusters_self] at hst
  split_ifs at hst
  · rcases hst with hst | hst <;> cases hst
  · obtain ⟨d, hd⟩ := h.standing hst
    exact ⟨d, hd.gone (voters_of_leaving hd.latest)⟩

/-! ## Replies -/

theorem Standing.emit {c : Int} {d : Decision} {s : Server} (h : Standing c d s) {e : Event}
    (hv : e.verdictIn c = none) (hack : ∀ t, ¬e.renews t) : Standing c d (s.emit e) := by
  refine ⟨?_, h.voter, h.waits, fun t v hvt hst => (h.answered t v hvt hst).imp id fun hans =>
    hans.cons (hack t)⟩
  rw [Server.emit_trace, last, List.findSome?_cons, hv]
  exact h.latest

theorem Standing.setState {c : Int} {d : Decision} {s : Server} (h : Standing c d s) (c' : Int)
    (st : FfClusterState) : Standing c d (s.setState c' st) := by
  refine ⟨?_, h.voter, h.waits, fun t v hvt hst => (h.answered t v hvt hst).imp id fun hans =>
    hans.cons id⟩
  rw [Server.last_setState (fun _ _ => rfl)]
  exact h.latest

theorem Standing.answer {i : Slot} {c : Int} {d : Decision} {s : Server}
    (howed : (s.sessions i).ffState = .sendingNack →
      Owed i .nack (s.sessions i).voteInfoSeq s.trace)
    (h : Standing c d s) : Standing c d (s.answered i (s.sessions i).voteInfoSeq) := by
  have hin := Server.inCluster_congr (Server.answered_sameButVotes s i (s.sessions i).voteInfoSeq) c
  refine ⟨h.latest, fun t v hv => ?_, fun t ht hff => ?_, fun t v hv hst => ?_⟩
  · obtain ⟨ht, hff⟩ := h.voter t v hv
    refine ⟨(hin t).trans ht, ?_⟩
    by_cases hti : t = i
    · rw [hti, Server.answered_ffState_self]
      exact Or.inr rfl
    · rw [Server.answered_of_ne s _ hti]
      exact hff
  · have hti := Server.answered_waits hff
    rw [hin] at ht
    rw [Server.answered_of_ne s _ hti] at hff ⊢
    exact h.waits t ht hff
  · by_cases hti : t = i
    · subst hti
      refine Or.inr ?_
      rcases h.answered t v hv hst with hff | hans
      · exact (howed hff).answered _ _ _
      · exact hans.cons id
    · rw [Server.answered_of_ne s _ hti]
      exact (h.answered t v hv hst).imp id fun hans => hans.cons id

/-- Nobody outside is left to answer, so the ACKs go to nobody outside. -/
theorem Standing.all_answered {c : Int} {d : Decision} {s : Server} (h : Standing c d s)
    (hno : ∀ t, s.inCluster c t = true → (s.sessions t).ffState ≠ .sendingNack) (tv : TriggerView)
    {t : Slot} {v : View}
    (hv : d.voters t = some v) (hst : v.state = .sendingNack) :
    Answered t s.trace ∧ s.target tv true t = false := by
  obtain ⟨hin, hff⟩ := h.voter t v hv
  refine ⟨(h.answered t v hv hst).resolve_left (hno t hin), ?_⟩
  rw [← Bool.not_eq_true, Server.target_iff]
  rintro ⟨-, hdue⟩
  rw [hdue, hst] at hff
  rcases hff with hff | hff <;> cases hff

theorem Standing.released {c : Int} {d : Decision} {s : Server} (h : Standing c d s)
    (hno : ∀ t, s.inCluster c t = true → (s.sessions t).ffState ≠ .sendingNack) (tv : TriggerView) :
    Standing c d (s.passed tv true) := by
  have hin := Server.inCluster_congr (Server.passed_sameButVotes s tv true) c
  refine ⟨?_, fun t v hv => ?_, fun t ht hff => ?_, fun t v hv hst => Or.inr ?_⟩
  · rw [Server.last_passed (fun _ _ => rfl)]
    exact h.latest
  · rw [hin, Server.passed_ffState]
    exact h.voter t v hv
  · rw [hin] at ht
    rw [Server.passed_ffState] at hff ⊢
    exact h.waits t ht hff
  · obtain ⟨hans, hnot⟩ := h.all_answered hno tv hv hst
    rw [Server.passed_trace]
    refine hans.append fun e he hack => ?_
    rw [List.mem_reverse, List.mem_map] at he
    obtain ⟨j, hj, rfl⟩ := he
    rw [hack.1, Server.mem_targets, hnot] at hj
    cases hj

theorem InForce.reply {i : Slot} {s : Server} {m : MsgDecoded}
    (hact : (s.sessions i).phase = .active)
    (hset : m.seqNumberSet = true) (h : InForce (s.sessions i).cluster s) :
    InForce (s.sessions i).cluster (s.handleVoteInfoReply i m) := by
  set c := (s.sessions i).cluster with hc
  have hreply : ∀ {st ph}, Always (NackedFirst c)
      (.reply i m.seqNumber (s.sessions i).voteInfoSeq st ph :: s.trace) :=
    .cons (nackedFirst_of_not_vote (by nofun) _) h.nackedFirst
  have hans : s.Sending c → m.seqNumber = (s.sessions i).voteInfoSeq →
      ∃ d, Standing c d (s.answered i m.seqNumber) := by
    intro hst hseq
    obtain ⟨d, hd⟩ := h.standing hst
    rw [hseq]
    refine ⟨d, hd.answer fun hff => ?_⟩
    have hin : s.inCluster c i = true := Server.inCluster_iff.mpr ⟨hact, rfl⟩
    rcases hst with hst | hst
    · exact (h.round.nacks hst).2 i hin hff
    · exact absurd hff ((h.round.acks hst).1 i hin)
  have hround := h.round.reply hset
  rcases Server.handleVoteInfoReply_cases s i m hset hc.symm with
    ⟨-, hs⟩ | ⟨hseq, ⟨hs, -, -⟩ | ⟨hst, hn, -, hs⟩ | ⟨-, -, -, hs⟩ | ⟨-, -, hs⟩⟩
  · rw [hs] at hround ⊢
    refine ⟨hround, fun hst => ?_, hreply⟩
    obtain ⟨d, hd⟩ := h.standing hst
    exact ⟨d, hd.emit rfl fun _ => id⟩
  · rw [hs] at hround ⊢
    exact ⟨hround, fun hst => hans hst hseq, hreply⟩
  · -- the last NACK is answered: the ACKs find everybody outside answered
    rw [hs] at hround ⊢
    obtain ⟨d, hd⟩ := hans (Or.inl hst) hseq
    have hno := Server.ffsplitCountState_eq_zero.mp hn
    have hd' := hd.setState c .sendingAcks
    refine ⟨hround, fun _ => ⟨d, hd'.released hno _⟩,
      nackedFirst_passed (decision_of_verdict hd'.latest)
      (fun t v hv hst => hd'.all_answered hno _ hv hst) (nackedFirst_setState hreply _ _)⟩
  · rw [hs] at hround ⊢
    exact ⟨hround, fun hst => absurd hst (not_sending_of_idle (by rw [Server.setState_self])),
      nackedFirst_setState (nackedFirst_setState hreply _ _) _ _⟩
  · rw [hs] at hround ⊢
    exact ⟨hround, fun hst => absurd hst (not_sending_of_idle (by rw [Server.setState_self])),
      nackedFirst_setState hreply _ _⟩

/-- A cluster that sends votes has a decision in force, and its ACKs come after the NACKs are
answered. -/
theorem standing_invariant : ClusterInvariant InForce where
  init _ _ := ⟨round_invariant.init _ _, fun hst => absurd hst (not_sending_of_idle rfl), .nil⟩
  apart := InForce.apart
  join := InForce.join
  decide := fun _ _ => InForce.decide
  gone := InForce.gone
  reply := fun _ hact hset h => InForce.reply hact hset h

/-- NACK before ACK. In a run without INIT on active sessions, when an ACK goes out, every session
that the latest decision of the cluster put outside the winning partition has been sent a NACK since
its last ACK, and has replied to exactly that NACK. The replies to reports never carry an ACK. -/
theorem nack_before_ack (n : UInt32) (calls : List Call) (hno : NoReinit (run n calls).trace) :
    (∀ new j info past, (run n calls).trace = new ++ .vote j info :: past → info.vote = .ack →
      ∃ d, last (Event.decisionIn info.cluster) past = some d ∧
        ∀ t v, d.voters t = some v → v.state ≠ .sendingAck → Answered t past) ∧
    ∀ i f, .sendFrame i f ∈ transportCalls (run n calls).trace →
      frameType f = .nodeListReply ∨ frameType f = .heuristicsChangeReply →
      ∃ m, decodeFrame f = some m ∧ m.voteSet = true ∧ m.vote ≠ .ack := by
  refine ⟨fun new j info past htr hack => ?_, fun i f hf htype => ?_⟩
  · obtain ⟨d, hd, hans⟩ :=
      (standing_invariant.run n calls info.cluster).nackedFirst new _ past htr j info rfl rfl hack
    refine ⟨d, hd, fun t v hv hst => hans t v hv ?_⟩
    have hmem : .decide d ∈ (run n calls).trace := by
      rw [htr]
      exact List.mem_append_right _ (List.mem_cons_of_mem _ (mem_of_decisionIn hd).1)
    exact (((run_sound n calls hno).fair d hmem).votes t v hv).resolve_left hst
  · unfold transportCalls at hf
    rw [List.mem_reverse, List.mem_filterMap] at hf
    obtain ⟨e, he, hcall⟩ := hf
    cases e with
    | send j g =>
      cases hcall
      exact (run_replies n calls he).vote_ne_ack htype
    | vote j info =>
      cases hcall
      rw [VoteInfo.frame, buildVoteInfo_eq, frameType_optFrame] at htype
      rcases htype with htype | htype <;> cases htype
    | close _ => cases hcall
    | _ => cases hcall

def Event.ackTo (t : Slot) : Event → Bool
  | .vote j info => j = t && info.vote = .ack
  | _ => false

/-- The split of two nodes, up to the reply of node 2 to its NACK. -/
def releasedCalls : List Call := splitCalls ++ Rig.feed 1 [MockClient.voteInfoReply 1]

/-- Node 1 gets its ACK, and node 2 has answered its NACK by then. -/
theorem nack_before_ack_released :
    (∃ e ∈ (run 32768 releasedCalls).trace, e.ackTo 0 = true) ∧
    ∀ new info past, (run 32768 releasedCalls).trace = new ++ .vote 0 info :: past →
    info.vote = .ack →
      ∃ d, last (Event.decisionIn info.cluster) past = some d ∧
        ∀ v, d.voters 1 = some v → v.state ≠ .sendingAck → Answered 1 past := by
  have hno : NoReinit (run 32768 releasedCalls).trace := by
    unfold NoReinit
    decide +kernel
  refine ⟨by decide +kernel, fun new info past htr hack => ?_⟩
  obtain ⟨d, hd, h⟩ := (nack_before_ack 32768 releasedCalls hno).1 new 0 info past htr hack
  exact ⟨d, hd, h 1⟩

end Qnetd
