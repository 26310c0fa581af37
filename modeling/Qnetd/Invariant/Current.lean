import Qnetd.Invariant.Standing

/-!
# The views behind an ACK

An ACK may be sent long after its decision, and carries the ring id its recipient has stored by
then. Every report that could change what was decided makes the server decide again, so the views of
the decision are still the stored ones.

* `Undisturbed c d` : `d` is the latest verdict on cluster `c`, and since then nobody has left the
  cluster and no voter with a membership list had a report accepted that counts;
* `Current c d` : the stored views are those of decision `d`; `RingOfWinner c` : an ACK carries the
  winner's ring id;
* `Still c` : a change that touches no view of cluster `c`;
* `Views c`, `Move.views`, `run_views` : in runs without INIT on active sessions, both hold of every
  cluster.
-/

namespace Qnetd

open History (last last_append_of_none Always Since)
open Server (Within passVote dueState)

/-! ## Disturbances -/

/-- The reports that can change a decision: anything but an initial config and a quorum list. -/
def Report.counts : Report → Bool
  | .list .membership | .list .changedConfig | .heuristics => true
  | .list .initialConfig | .list .quorum => false

/-- Somebody leaves cluster `c`, or a voter of `d` with a membership list has a report accepted that
counts. -/
def Event.disturbs (c : Int) (d : Decision) : Event → Prop
  | .accept t r => r.counts = true ∧ ∃ v, d.voters t = some v ∧ v.membership.empty = false
  | .leave _ c' => c' = c
  | _ => False

def Undisturbed (c : Int) (d : Decision) : List Event → Prop :=
  Since (fun e => e = .decide d) fun e => e.verdictIn c = none ∧ ¬e.disturbs c d

/-- The events of passes and replies. -/
def Event.voting : Event → Prop
  | .vote _ _ | .phase _ _ | .reply _ _ _ _ _ => True
  | _ => False

theorem Event.voting.verdictIn {e : Event} (h : e.voting) (c : Int) : e.verdictIn c = none := by
  cases e with
  | vote _ _ | phase _ _ | reply _ _ _ _ _ => rfl
  | _ => exact h.elim

theorem Event.voting.not_disturbs {e : Event} (h : e.voting) (c : Int) (d : Decision) :
    ¬e.disturbs c d := by
  cases e with
  | vote _ _ | phase _ _ | reply _ _ _ _ _ => exact id
  | _ => exact h.elim

theorem Undisturbed.append {c : Int} {d : Decision} {tr new : List Event} (h : Undisturbed c d tr)
    (hnew : ∀ e ∈ new, e.verdictIn c = none ∧ ¬e.disturbs c d) : Undisturbed c d (new ++ tr) :=
  Since.append h hnew

theorem Undisturbed.append_voting {c : Int} {d : Decision} {tr new : List Event}
    (h : Undisturbed c d tr) (hnew : ∀ e ∈ new, e.voting) : Undisturbed c d (new ++ tr) :=
  h.append fun e he => ⟨(hnew e he).verdictIn c, (hnew e he).not_disturbs c d⟩

theorem Undisturbed.cons_voting {c : Int} {d : Decision} {tr : List Event} {e : Event}
    (h : Undisturbed c d tr)
    (he : e.voting) : Undisturbed c d (e :: tr) :=
  Since.cons h ⟨he.verdictIn c, he.not_disturbs c d⟩

/-! ## The invariant -/

/-- The stored views of the voters are those decision `d` was taken on. -/
structure Current (c : Int) (d : Decision) (s : Server) : Prop where
  undisturbed : Undisturbed c d s.trace
  inCluster : ∀ t v, d.voters t = some v → s.inCluster c t = true
  config : ∀ t v, d.voters t = some v → (s.sessions t).configList.empty = false
  view : ∀ t v, d.voters t = some v → v.membership.empty = false →
    (s.sessions t).membershipList.empty = false ∧ (s.sessions t).lastRingId = v.ring

/-- An ACK for cluster `c` carries the ring id of the winner of an undisturbed decision. -/
def RingOfWinner (c : Int) (e : Event) (past : List Event) : Prop :=
  ∀ j info, e = .vote j info → info.cluster = c → info.vote = .ack →
    ∃ d w l vw, Undisturbed c d past ∧ d.cluster = c ∧ d.winner = some (w, l) ∧
      d.voters w = some vw ∧ info.ring = vw.ring

theorem ringOfWinner_of_not_ack {c : Int} {e : Event}
    (h : ∀ j info, e = .vote j info → info.cluster = c →
    info.vote ≠ .ack) (past : List Event) : RingOfWinner c e past :=
  fun j info he hc hv => absurd hv (h j info he hc)

structure Views (c : Int) (s : Server) : Prop where
  current : ∀ d, last (Event.verdictIn c) s.trace = some (some d) → d.winner ≠ none → Current c d s
  rings : Always (RingOfWinner c) s.trace

/-! ## Changes that touch no view -/

def Event.still (c : Int) (mem : Slot → Bool) : Event → Prop
  | .vote _ v => v.cluster ≠ c
  | .accept j _ => mem j = false
  | .leave _ c' | .unstable c' => c' ≠ c
  | .decide d => d.cluster ≠ c
  | _ => True

structure Still (c : Int) (s s' : Server) : Prop where
  inCluster : ∀ t, s.inCluster c t = true → s'.inCluster c t = true
  view : ∀ t, s.inCluster c t = true → (s'.sessions t).configList = (s.sessions t).configList ∧
    (s'.sessions t).membershipList = (s.sessions t).membershipList ∧
    (s'.sessions t).lastRingId = (s.sessions t).lastRingId
  trace : ∃ new, s'.trace = new ++ s.trace ∧ ∀ e ∈ new, e.still c (s.inCluster c)

theorem Event.still.verdictIn {c : Int} {mem : Slot → Bool} {e : Event} (h : e.still c mem) :
    e.verdictIn c = none := by
  cases e with
  | decide d => exact if_neg h
  | unstable c' => exact if_neg h
  | _ => rfl

theorem Event.still.not_disturbs {c : Int} {mem : Slot → Bool} {e : Event} (h : e.still c mem)
    {d : Decision} (hd : ∀ t v, d.voters t = some v → mem t = true) : ¬e.disturbs c d := by
  intro hdis
  cases e with
  | accept t r =>
    obtain ⟨-, v, hv, -⟩ := hdis
    have ht : mem t = false := h
    rw [hd t v hv] at ht
    cases ht
  | leave _ c' => exact h hdis
  | _ => exact hdis.elim

theorem Views.still {c : Int} {s s' : Server} (hs : Still c s s') (h : Views c s) : Views c s' := by
  obtain ⟨new, htr, hnew⟩ := hs.trace
  refine ⟨fun d hd hw => ?_, ?_⟩
  · rw [htr, last_append_of_none fun e he => (hnew e he).verdictIn] at hd
    have hcur := h.current d hd hw
    refine ⟨?_, fun t v hv => ?_, fun t v hv => ?_, fun t v hv hne => ?_⟩
    · rw [htr]
      exact hcur.undisturbed.append fun e he =>
        ⟨(hnew e he).verdictIn, (hnew e he).not_disturbs hcur.inCluster⟩
    · exact hs.inCluster t (hcur.inCluster t v hv)
    · rw [(hs.view t (hcur.inCluster t v hv)).1]
      exact hcur.config t v hv
    · obtain ⟨-, hmem, hring⟩ := hs.view t (hcur.inCluster t v hv)
      rw [hmem, hring]
      exact hcur.view t v hv hne
  · rw [htr]
    refine h.rings.append_of_forall fun e he past =>
      ringOfWinner_of_not_ack (fun j info hv hc => ?_) past
    subst hv
    exact absurd hc (hnew _ he)

theorem still_of_sessions {c : Int} {s s' : Server}
    (hs : ∀ t, s.inCluster c t = true → s'.sessions t = s.sessions t)
    (htr : ∃ new, s'.trace = new ++ s.trace ∧ ∀ e ∈ new, e.still c (s.inCluster c)) :
    Still c s s' := by
  refine ⟨fun t ht => ?_, fun t ht => ?_, htr⟩
  · rw [Server.inCluster_iff, hs t ht]
    exact Server.inCluster_iff.mp ht
  · rw [hs t ht]
    exact ⟨rfl, rfl, rfl⟩

theorem Quiet.still {i : Slot} {s s' : Server} (h : Quiet i s s') (c : Int) : Still c s s' := by
  obtain ⟨new, ht, hnew⟩ := h.trace
  refine ⟨fun t ht => ?_, fun t ht => ?_, new, ht, fun e he => ?_⟩
  · rw [Server.inCluster_iff] at ht ⊢
    rw [(h.alike t).active, (h.alike t).cluster]
    exact ht
  · have hact := (Server.inCluster_iff.mp ht).1
    exact ⟨(h.alike t).configList, (h.alike t).membershipList, ((h.alike t).identity hact).2.2.1⟩
  · have hq := hnew e he
    cases e with
    | send _ _ | close _ | frame _ _ | recv _ _ _ _ => trivial
    | _ => exact hq.elim

theorem Event.within.still {c c' : Int} {mem mem' : Slot → Bool} {e : Event} (h : e.within c mem)
    (hne : c' ≠ c) : e.still c' mem' := by
  cases e with
  | vote j v => exact fun hv => hne (hv.symm.trans h.2)
  | unstable c₁ => exact fun hv => hne (hv.symm.trans h)
  | decide d => exact fun hv => hne (hv.symm.trans h)
  | phase _ _ | reply _ _ _ _ _ => trivial
  | _ => exact h.elim

theorem Joined.still {i : Slot} {c c' : Int} {s s' : Server} (h : Joined i c s s')
    (hphase : (s.sessions i).phase ≠ .active) : Still c' s s' := by
  refine still_of_sessions (fun t ht => h.others t ?_) ?_
  · rintro rfl
    exact hphase (Server.inCluster_iff.mp ht).1
  · rcases h.record with ⟨-, -, -, htr⟩ | ⟨-, -, -, htr⟩
    · exact ⟨[_], htr, by simp [Event.still]⟩
    · exact ⟨[_, _], htr, by simp [Event.still]⟩

theorem Server.ne_of_inCluster {s : Server} {i t : Slot} {c : Int}
    (hact : (s.sessions i).phase = .active)
    (hne : c ≠ (s.sessions i).cluster) (ht : s.inCluster c t = true) : t ≠ i := by
  rintro rfl
  rw [Server.inCluster_of_ne hne (Server.inCluster_iff.mpr ⟨hact, rfl⟩)] at ht
  cases ht

theorem reported_still {i : Slot} {s : Server} {r : Report} {m : MsgDecoded} {c : Int}
    (hact : (s.sessions i).phase = .active) (hne : c ≠ (s.sessions i).cluster) :
    Still c s (s.reported i r m) := by
  have hw := ranReport_within s i r m
  obtain ⟨new, htr, hnew⟩ := hw.trace
  refine still_of_sessions (fun t ht => ?_) ⟨new ++ [.accept i r], ?_, fun e he => ?_⟩
  · rw [Server.reported, Server.modify_of_ne _ _ (Server.ne_of_inCluster hact hne ht)]
    exact hw.session_eq hne ht
  · rw [List.append_assoc]
    exact htr
  · rcases List.mem_append.mp he with he | he
    · exact (hnew e he).still hne
    · rw [List.mem_singleton] at he
      subst he
      exact Server.inCluster_of_ne hne (Server.inCluster_iff.mpr ⟨hact, rfl⟩)

theorem left_still {i : Slot} {s : Server} {c : Int} (hact : (s.sessions i).phase = .active)
    (hne : c ≠ (s.sessions i).cluster) :
    Still c s ((s.leaving i).removed i (s.sessions i).cluster) := by
  have hw := leaving_within (s := s) i
  obtain ⟨new, htr, hnew⟩ := hw.trace
  refine still_of_sessions (fun t ht => ?_) ⟨new ++ [.leave i (s.sessions i).cluster], ?_,
    fun e he => ?_⟩
  · rw [Server.removed_of_ne _ _ (Server.ne_of_inCluster hact hne ht)]
    exact hw.session_eq hne ht
  · rw [List.append_assoc]
    exact htr
  · rcases List.mem_append.mp he with he | he
    · exact (hnew e he).still hne
    · rw [List.mem_singleton] at he
      subst he
      exact hne.symm

theorem still_inactive {i : Slot} {s : Server} {f : Session → Session} (c : Int)
    (hphase : (s.sessions i).phase ≠ .active) : Still c s (s.modify i f) := by
  refine still_of_sessions (fun t ht => Server.modify_of_ne s f ?_) ⟨[], rfl, by simp⟩
  rintro rfl
  exact hphase (Server.inCluster_iff.mp ht).1

/-! ## Decisions -/

theorem voting_of_passed {s : Server} {tv : TriggerView} {sendAcks : Bool} {e : Event}
    (he : e ∈ ((s.targets tv sendAcks).map fun i => Event.vote i (s.voteTo tv sendAcks i)).reverse)
    : e.voting := by
  rw [List.mem_reverse, List.mem_map] at he
  obtain ⟨i, -, rfl⟩ := he
  trivial

theorem Undisturbed.passed {c : Int} {d : Decision} {s : Server} (h : Undisturbed c d s.trace)
    (tv : TriggerView) (sendAcks : Bool) : Undisturbed c d (s.passed tv sendAcks).trace := by
  rw [Server.passed_trace]
  exact h.append_voting fun e he => voting_of_passed he

theorem Undisturbed.setState {c : Int} {d : Decision} {s : Server} (h : Undisturbed c d s.trace)
    (c' : Int)
    (st : FfClusterState) : Undisturbed c d (s.setState c' st).trace := h.cons_voting trivial

theorem Undisturbed.votes {c : Int} {d : Decision} {s : Server} (h : Undisturbed c d s.trace)
    (tv : TriggerView) : Undisturbed c d (s.ffsplitVotes tv).trace := by
  rcases Server.ffsplitVotes_cases s tv with ⟨-, hv⟩ | ⟨-, -, hv⟩ | ⟨-, -, hv⟩
  · rw [hv]
    exact (h.setState _ _).passed tv false
  · rw [hv]
    exact ((h.setState _ _).setState _ _).passed tv true
  · rw [hv]
    exact ((h.setState _ _).setState _ _).setState _ _

/-- In a fair decision with somebody to ACK there is a winner, and the ring is the winner's. -/
theorem Fair.ring_of_ack {d : Decision} (hf : Fair d) {t : Slot} {v : View}
    (hv : d.voters t = some v) (hst : v.state = .sendingAck) :
    ∃ w l vw, d.winner = some (w, l) ∧ d.voters w = some vw ∧ v.ring = vw.ring ∧
    v.membership.empty = false := by
  cases hw : d.winner with
  | none =>
    have := hf.nobody hw t v hv
    rw [hst] at this
    cases this
  | some p =>
    obtain ⟨w, l⟩ := p
    obtain ⟨hl, vw, hvw, -⟩ := hf.winner w l hw
    obtain ⟨hack, hring⟩ := hf.partition w l vw hw hvw t v hv
    refine ⟨w, l, vw, rfl, hvw, hring hst, ?_⟩
    rw [NodeList.empty_eq_false, hack.mp hst, ← NodeList.empty_eq_false]
    exact hl

theorem rings_passed {c : Int} {d : Decision} {s : Server} {tv : TriggerView}
    (hd : Undisturbed c d s.trace) (hc : d.cluster = c)
    (hring : ∀ j, s.target tv true j = true →
      ∃ w l vw, d.winner = some (w, l) ∧ d.voters w = some vw ∧ s.effRing tv j = vw.ring)
    (h : Always (RingOfWinner c) s.trace) : Always (RingOfWinner c) (s.passed tv true).trace := by
  refine Server.passed_always h fun i older hi holder j info he _ _ => ?_
  cases he
  obtain ⟨w, l, vw, hw, hvw, hr⟩ := hring i hi
  refine ⟨d, w, l, vw, hd.append_voting fun e he => ?_, hc, hw, hvw, hr⟩
  obtain ⟨k, -, rfl⟩ := holder e he
  trivial

theorem rings_setState {c : Int} {s : Server} (h : Always (RingOfWinner c) s.trace) (c' : Int)
    (st : FfClusterState) :
    Always (RingOfWinner c) (s.setState c' st).trace :=
  .cons (ringOfWinner_of_not_ack (by nofun) _) h

theorem rings_votes {c : Int} {d : Decision} {s : Server} {tv : TriggerView}
    (hd : Undisturbed c d s.trace) (hc : d.cluster = c)
    (hring : ∀ j, s.target tv true j = true →
      ∃ w l vw, d.winner = some (w, l) ∧ d.voters w = some vw ∧ s.effRing tv j = vw.ring)
    (h : Always (RingOfWinner c) s.trace) : Always (RingOfWinner c) (s.ffsplitVotes tv).trace := by
  rcases Server.ffsplitVotes_cases s tv with ⟨-, hv⟩ | ⟨-, -, hv⟩ | ⟨-, -, hv⟩
  · rw [hv]
    refine Server.passed_always (rings_setState h _ _) fun i older _ _ =>
      ringOfWinner_of_not_ack (fun j info he _ hack => ?_) _
    cases he
    cases hack
  · rw [hv]
    exact rings_passed ((hd.setState _ _).setState _ _) hc hring
      (rings_setState (rings_setState h _ _) _ _)
  · rw [hv]
    exact rings_setState (rings_setState (rings_setState h _ _) _ _) _ _

theorem verdict_ring {s : Server} {tv : TriggerView} (hf : Fair (s.verdict tv)) {j : Slot}
    (hj : (s.decided tv).target tv true j = true) :
    ∃ w l vw, (s.verdict tv).winner = some (w, l) ∧ (s.verdict tv).voters w = some vw ∧
      (s.decided tv).effRing tv j = vw.ring := by
  have hsame := Server.decided_sameButVotes s tv
  have hin := Server.target_inCluster hj
  have hff := (Server.target_iff.mp hj).2
  rw [Server.tvCluster_congr hsame, Server.inCluster_congr hsame] at hin
  obtain ⟨v, hv, hst⟩ := Server.verdict_of_waits hin (by rw [hff]; nofun)
  obtain ⟨w, l, vw, hw, hvw, hring, -⟩ := hf.ring_of_ack hv (hst.trans hff)
  refine ⟨w, l, vw, hw, hvw, ?_⟩
  rw [Server.effRing_congr hsame, ← hring, (Server.verdict_voters hv).2]

/-- A decision is about the views it leaves behind. -/
theorem Views.decide {u s' : Server} {tv : TriggerView} (hfair : ∀ d, .decide d ∈ s'.trace → Fair d)
    (htr : s'.trace = (u.ffsplitDo tv).2.2.trace)
    (hview : ∀ t, u.others tv t = true → s'.inCluster (u.tvCluster tv) t = true ∧
      (s'.sessions t).configList = u.effConfig tv t ∧
        (s'.sessions t).membershipList = u.effMembership tv t ∧
      (s'.sessions t).lastRingId = u.effRing tv t)
    (h : Always (RingOfWinner (u.tvCluster tv)) u.trace) : Views (u.tvCluster tv) s' := by
  rcases Server.ffsplitDo_verdict u tv with ⟨hst, hlast⟩ | ⟨hst, hlast⟩
  · rcases Server.ffsplitDo_server u tv with ⟨-, hs⟩ | ⟨hst', -⟩
    · refine ⟨fun d hd _ => ?_, ?_⟩
      · rw [htr, hlast] at hd
        cases Option.some.inj hd
      · rw [htr, hs]
        exact .cons (ringOfWinner_of_not_ack (by nofun) _) (rings_setState h _ _)
    · rw [hst] at hst'
      cases hst'
  · have hf : Fair (u.verdict tv) :=
      hfair _ (by rw [htr]; exact (mem_of_decisionIn (decision_of_verdict hlast)).1)
    have hund : Undisturbed (u.tvCluster tv) (u.verdict tv) (u.decided tv).trace := by
      rw [Server.decided_trace]
      exact Since.here rfl
    rcases Server.ffsplitDo_server u tv with ⟨hst', -⟩ | ⟨-, hs⟩
    · rw [hst] at hst'
      cases hst'
    refine ⟨fun d hd hw => ?_, ?_⟩
    · rw [htr, hlast] at hd
      cases hd
      obtain ⟨p, hp⟩ := Option.ne_none_iff_exists'.mp hw
      obtain ⟨w, l⟩ := p
      obtain ⟨-, vw, hvw, -⟩ := hf.winner w l hp
      refine ⟨?_, fun t v hv => ?_, fun t v hv => ?_, fun t v hv hne => ?_⟩
      · rw [htr, hs]
        exact hund.votes tv
      · exact (hview t (Server.verdict_voters hv).1).1
      · rw [(hview t (Server.verdict_voters hv).1).2.1]
        have := (hf.config w l vw hp hvw t v hv).2
        rwa [(Server.verdict_voters hv).2] at this
      · obtain ⟨-, -, hmem, hring⟩ := hview t (Server.verdict_voters hv).1
        rw [hmem, hring]
        rw [(Server.verdict_voters hv).2] at hne ⊢
        exact ⟨hne, rfl⟩
    · rw [htr, hs]
      refine rings_votes hund rfl (fun j hj => verdict_ring hf hj) ?_
      rw [Server.decided_trace]
      exact .cons (ringOfWinner_of_not_ack (by nofun) _)
        (.cons (ringOfWinner_of_not_ack (by nofun) _) h)

/-! ## Reports -/

theorem reportView_leaving (s : Server) (i : Slot) (m : MsgDecoded) (r : Report) :
    (s.reportView i m r).leaving = false := by
  unfold Server.reportView
  split <;> rfl

theorem runs_of_counts {x : Session} {r : Report} (hr : r.counts = true)
    (hcfg : x.configList.empty = false)
    (hmem : x.membershipList.empty = false) : Server.runs x r = true := by
  cases r with
  | heuristics => simp [Server.runs, hcfg, hmem]
  | list type =>
    cases type with
    | initialConfig | quorum => cases hr
    | changedConfig => simp [Server.runs, hmem]
    | membership => simp [Server.runs, hcfg]

/-- A report that makes no decision keeps the membership list and the ring of a session with a
config list. -/
theorem reportView_of_not_runs {s : Server} {i : Slot} {m : MsgDecoded} {r : Report}
    (hr : Server.runs (s.sessions i) r = false) (hfits : Server.Fits m (s.sessions i) r)
    (hcfg : (s.sessions i).configList.empty = false) :
    (s.reportView i m r).config.empty = false ∧
    (s.reportView i m r).membership = (s.sessions i).membershipList ∧
      (s.reportView i m r).ringId = (s.sessions i).lastRingId := by
  have hnodes : (m.nodes.find (s.sessions i).nodeId).isSome = true → m.nodes.empty = false := by
    intro h
    rw [NodeList.empty_eq_false]
    exact ⟨_, NodeList.find_isSome.mp h⟩
  cases r with
  | heuristics => exact ⟨hcfg, rfl, rfl⟩
  | list type =>
    cases type with
    | initialConfig => exact ⟨hnodes hfits, rfl, rfl⟩
    | changedConfig => exact ⟨hnodes hfits, rfl, rfl⟩
    | quorum => exact ⟨hcfg, rfl, rfl⟩
    | membership => simp [Server.runs, hcfg] at hr

theorem Views.report {i : Slot} {s : Server} {r : Report} {m : MsgDecoded}
    (hact : (s.sessions i).phase = .active)
    (hfits : Server.Fits m (s.sessions i) r)
    (hfair : ∀ d, .decide d ∈ (s.reported i r m).trace → Fair d)
    (h : Views (s.sessions i).cluster s) : Views (s.sessions i).cluster (s.reported i r m) := by
  set c := (s.sessions i).cluster with hc
  have hslot := reportView_slot s i m r
  have hleave := reportView_leaving s i m r
  have hsame := Server.ranReport_sameButVotes s i r m
  have hself : (s.reported i r m).sessions i =
      Server.stored (s.reportView i m r) ((s.ranReport i r m).sessions i) :=
    Server.modify_self _ _ _
  have hother : ∀ {t}, t ≠ i → (s.reported i r m).sessions t = (s.ranReport i r m).sessions t :=
    fun ht => Server.modify_of_ne _ _ ht
  have hin : ∀ {t}, s.inCluster c t = true → (s.reported i r m).inCluster c t = true := by
    intro t ht
    rw [Server.inCluster_iff] at ht ⊢
    by_cases hti : t = i
    · subst hti
      rw [hself]
      exact ⟨(hsame.phase t).trans ht.1, (hsame.cluster t).trans ht.2⟩
    · rw [hother hti, hsame.phase t, hsame.cluster t]
      exact ht
  by_cases hr : Server.runs (s.sessions i) r = true
  · have hran : s.ranReport i r m =
        ((s.emit (.accept i r)).ffsplitDo (s.reportView i m r)).2.2 := by
      rw [Server.ranReport, if_pos hr]
    have htv : (s.emit (.accept i r)).tvCluster (s.reportView i m r) = c := by
      rw [Server.tvCluster, hslot]
      rfl
    have hacc : Always (RingOfWinner c) (s.emit (.accept i r)).trace :=
      .cons (ringOfWinner_of_not_ack (by simp) _) h.rings
    rw [← htv] at hacc ⊢
    refine Views.decide hfair (by rw [← hran]; rfl) (fun t ht => ?_) hacc
    rw [htv]
    unfold Server.others at ht
    rw [htv] at ht
    refine ⟨hin (Bool.and_eq_true_iff.mp ht).1, ?_⟩
    by_cases hti : t = i
    · subst hti
      rw [hself]
      simp [Server.stored, Server.effConfig, Server.effMembership, Server.effRing, hslot, hleave]
    · rw [hother hti, hsame.configList t, hsame.membershipList t, hsame.lastRingId t]
      simp [Server.effConfig, Server.effMembership, Server.effRing, hslot, hti]
  · -- nothing is decided: the report is about a session whose views do not count yet
    rw [Bool.not_eq_true] at hr
    have htr : (s.reported i r m).trace = .accept i r :: s.trace := by
      simp [Server.reported, Server.ranReport, hr]
    refine ⟨fun d hd hw => ?_, ?_⟩
    · rw [htr, last, List.findSome?_cons] at hd
      have hcur := h.current d hd hw
      refine ⟨?_, fun t v hv => hin (hcur.inCluster t v hv), fun t v hv => ?_, fun t v hv hne => ?_⟩
      · rw [htr]
        refine Since.cons hcur.undisturbed ⟨rfl, ?_⟩
        rintro ⟨hcounts, v, hv, hne⟩
        rw [runs_of_counts hcounts (hcur.config i v hv) (hcur.view i v hv hne).1] at hr
        cases hr
      · by_cases hti : t = i
        · subst hti
          rw [hself]
          exact (reportView_of_not_runs hr hfits (hcur.config t v hv)).1
        · rw [hother hti, hsame.configList t]
          exact hcur.config t v hv
      · by_cases hti : t = i
        · subst hti
          obtain ⟨-, hmem, hring⟩ := reportView_of_not_runs hr hfits (hcur.config t v hv)
          rw [hself]
          change (s.reportView t m r).membership.empty = false ∧
            (s.reportView t m r).ringId = v.ring
          rw [hmem, hring]
          exact hcur.view t v hv hne
        · rw [hother hti, hsame.membershipList t, hsame.lastRingId t]
          exact hcur.view t v hv hne
    · rw [htr]
      exact .cons (ringOfWinner_of_not_ack (by simp) _) h.rings

theorem Views.leave {i : Slot} {s : Server}
    (hfair : ∀ d, .decide d ∈ ((s.leaving i).removed i (s.sessions i).cluster).trace → Fair d)
    (h : Views (s.sessions i).cluster s) :
    Views (s.sessions i).cluster ((s.leaving i).removed i (s.sessions i).cluster) := by
  have hsame := (leaving_within (s := s) i).same
  have hacc :
      Always (RingOfWinner (s.sessions i).cluster)
      (s.emit (.leave i (s.sessions i).cluster)).trace :=
    .cons (ringOfWinner_of_not_ack (by nofun) _) h.rings
  refine @Views.decide (s.emit (.leave i (s.sessions i).cluster)) _ (s.storedView i true) hfair rfl
    (fun t ht => ?_) hacc
  unfold Server.others at ht
  obtain ⟨hin, hti⟩ := Bool.and_eq_true_iff.mp ht
  have hne : t ≠ i := by
    rintro rfl
    simp [Server.storedView] at hti
  change ((s.leaving i).removed i (s.sessions i).cluster).inCluster
    (s.sessions i).cluster t = true ∧ _
  rw [Server.removed_inCluster_of_ne _ _ _ hne, Server.removed_of_ne _ _ hne, hsame.configList t,
    hsame.membershipList t, hsame.lastRingId t, Server.inCluster_congr hsame]
  exact ⟨hin, rfl, rfl, rfl⟩

/-! ## Replies -/

/-- The targets of the ACKs a reply releases were waiting for them before the reply. -/
theorem Server.answered_target {s : Server} {i j : Slot} {seq : UInt32} {c : Int}
    (h : ((s.answered i seq).setState c .sendingAcks).target ((s.answered i seq).storedView i false)
      true j = true) :
    s.inCluster (s.sessions i).cluster j = true ∧ (s.sessions j).ffState = .sendingAck := by
  have hsame := answered_sameButVotes s i seq
  have hin : (s.answered i seq).inCluster ((s.answered i seq).sessions i).cluster j = true :=
    target_inCluster h
  have hff : ((s.answered i seq).sessions j).ffState = .sendingAck := (target_iff.mp h).2
  rw [inCluster_congr hsame, hsame.cluster i] at hin
  exact ⟨hin, (answered_still hff nofun).2⟩

theorem effRing_storedView (s : Server) (i : Slot) (b : Bool) (j : Slot) :
    s.effRing (s.storedView i b) j = (s.sessions j).lastRingId := by
  unfold Server.effRing Server.storedView
  split_ifs with h
  · rw [Bool.and_eq_true, decide_eq_true_eq] at h
    rw [h.2]
  · rfl

/-- A decision stays current when sessions change in their votes only, and votes are all that
happens. -/
theorem Views.voting {c : Int} {s s' : Server} {new : List Event} (hsame : Server.SameButVotes s s')
    (htr : s'.trace = new ++ s.trace) (hnew : ∀ e ∈ new, e.voting)
    (hrings : Always (RingOfWinner c) s'.trace) (h : Views c s) : Views c s' := by
  refine ⟨fun d hd hw => ?_, hrings⟩
  rw [htr, last_append_of_none fun e he => (hnew e he).verdictIn c] at hd
  have hcur := h.current d hd hw
  refine ⟨?_, fun t v hv => ?_, fun t v hv => ?_, fun t v hv hne => ?_⟩
  · rw [htr]
    exact hcur.undisturbed.append_voting hnew
  · rw [Server.inCluster_congr hsame]
    exact hcur.inCluster t v hv
  · rw [hsame.configList]
    exact hcur.config t v hv
  · rw [hsame.membershipList, hsame.lastRingId]
    exact hcur.view t v hv hne

/-- The ACKs a reply releases carry the ring of the decision, for the recipients have stored no
other since. -/
theorem Views.reply {i : Slot} {s : Server} {m : MsgDecoded} (hset : m.seqNumberSet = true)
    (hfair : ∀ d, .decide d ∈ s.trace → Fair d) (hin : InForce (s.sessions i).cluster s)
    (h : Views (s.sessions i).cluster s) :
    Views (s.sessions i).cluster (s.handleVoteInfoReply i m) := by
  set c := (s.sessions i).cluster with hc
  set a := s.answered i m.seqNumber with ha
  have hsame := Server.answered_sameButVotes s i m.seqNumber
  have hreply : ∀ {st ph},
      Always (RingOfWinner c) (.reply i m.seqNumber (s.sessions i).voteInfoSeq st ph :: s.trace) :=
    .cons (ringOfWinner_of_not_ack (by nofun) _) h.rings
  rcases Server.handleVoteInfoReply_cases s i m hset hc.symm with
    ⟨-, hs⟩ | ⟨-, ⟨hs, -, -⟩ | ⟨hst, -, -, hs⟩ | ⟨-, -, -, hs⟩ | ⟨-, -, hs⟩⟩
  · rw [hs]
    exact @Views.voting c s _ [_] (Server.SameButVotes.refl s) rfl (by simp [Event.voting]) hreply h
  · rw [hs]
    exact @Views.voting c s _ [_] hsame rfl (by simp [Event.voting]) hreply h
  · set b := a.setState c .sendingAcks with hb
    set tv := a.storedView i false with htv
    rw [hs]
    have hpass := b.passed_trace tv true
    refine @Views.voting c s _ (_ ++ [_, _]) (hsame.trans (Server.passed_sameButVotes b tv true))
      (by rw [hpass, List.append_assoc]; rfl) (fun e he => ?_) ?_ h
    · rcases List.mem_append.mp he with he | he
      · exact voting_of_passed he
      · rcases List.mem_cons.mp he with rfl | he
        · trivial
        · rw [List.mem_singleton] at he
          subst he
          trivial
    · obtain ⟨d, hd⟩ := hin.standing (Or.inl hst)
      have hf := hfair d (mem_of_decisionIn (decision_of_verdict hd.latest)).1
      by_cases hw : d.winner = none
      · -- without a winner nobody waits for an ACK
        refine Server.passed_always (rings_setState hreply _ _) fun j older hj _ => ?_
        obtain ⟨hinj, hff⟩ := Server.answered_target hj
        obtain ⟨v, hv, hst'⟩ := hd.waits j hinj (by rw [hff]; nofun)
        have hnack := hf.nobody hw j v hv
        rw [hst', hff] at hnack
        cases hnack
      · have hcur := h.current d hd.latest hw
        have hund : Undisturbed c d a.trace := by
          rw [ha, Server.answered_trace]
          exact hcur.undisturbed.cons_voting trivial
        refine rings_passed (hund.setState _ _)
          (mem_of_decisionIn (decision_of_verdict hd.latest)).2 (fun j hj => ?_)
            (rings_setState hreply _ _)
        obtain ⟨hinj, hff⟩ := Server.answered_target hj
        obtain ⟨v, hv, hst'⟩ := hd.waits j hinj (by rw [hff]; nofun)
        obtain ⟨w, l, vw, hw', hvw, hring, hne⟩ := hf.ring_of_ack hv (hst'.trans hff)
        refine ⟨w, l, vw, hw', hvw, ?_⟩
        change a.effRing tv j = vw.ring
        rw [effRing_storedView, hsame.lastRingId j, (hcur.view j v hv hne).2, hring]
  · rw [hs]
    exact @Views.voting c s _ [_, _, _] hsame rfl (by simp [Event.voting])
      (rings_setState (rings_setState hreply _ _) _ _) h
  · rw [hs]
    exact @Views.voting c s _ [_, _] hsame rfl (by simp [Event.voting])
      (rings_setState hreply _ _) h

/-! ## Runs -/

theorem Move.views {i : Slot} {s s' : Server} (hm : Move i s s') (hno : NoReinit s'.trace)
    (hs : Sound s) (hin : ∀ c, InForce c s) (h : ∀ c, Views c s) (c : Int) : Views c s' := by
  have hfair : ∀ d, .decide d ∈ s'.trace → Fair d := (hm.sound hno hs).fair
  cases hm with
  | quiet hq => exact (h c).still (hq.still c)
  | connect now peer hfree =>
    refine (h c).still (@still_of_sessions c s _ (fun t ht => ?_) ⟨[_], rfl, by simp [Event.still]⟩)
    have hti : t ≠ i := by
      rintro rfl
      have hact := (Server.inCluster_iff.mp ht).1
      rw [hfree] at hact
      cases hact
    rw [Server.emit_sessions, Server.modify_of_ne s _ hti]
  | reinit m hact htype hrecv =>
    have hre := hno _ hrecv
    simp [Event.reinit, htype] at hre
  | join now hphase hcheck hc =>
    obtain ⟨c₀, hj⟩ := hs.table.joined now hc
    exact (h c).still (hj.still hphase)
  | report r m hact hfits =>
    by_cases hne : c = (s.sessions i).cluster
    · subst hne
      exact (h _).report hact hfits hfair
    · exact (h c).still (reported_still hact hne)
  | reply m hact hset =>
    by_cases hne : c = (s.sessions i).cluster
    · subst hne
      exact (h _).reply hset hs.fair (hin _)
    · have hw := Server.handleVoteInfoReply_within s m hset (Server.inCluster_iff.mpr ⟨hact, rfl⟩)
      obtain ⟨new, htr, hnew⟩ := hw.trace
      exact (h c).still (still_of_sessions (fun t ht => hw.session_eq hne ht)
        ⟨new, htr, fun e he => (hnew e he).still hne⟩)
  | leave =>
    by_cases hact : (s.sessions i).phase = .active
    · rw [Server.left_eq hact (hs.table.range i hact).1] at hfair ⊢
      by_cases hne : c = (s.sessions i).cluster
      · subst hne
        exact (h _).leave hfair
      · exact (h c).still (left_still hact hne)
    · rw [Server.left_of_not_active hact]
      exact (h c).still (still_inactive c hact)

theorem run_views (n : UInt32) (calls : List Call) (hno : NoReinit (run n calls).trace) (c : Int) :
    Views c (run n calls) := by
  have hinit : ∀ n, Sound (Server.init n) ∧ (∀ c, InForce c (Server.init n)) ∧
      ∀ c, Views c (Server.init n) :=
    fun n => ⟨sound_init n, standing_invariant.init n, fun c => ⟨nofun, .nil⟩⟩
  have h :=
    run_induction (I := fun s => NoReinit s.trace → Sound s ∧ (∀ c, InForce c s) ∧ ∀ c, Views c s)
    (fun n _ => hinit n) (fun hm hs hno => ?_) n calls hno
  · exact h.2.2 c
  · obtain ⟨hsound, hin, hv⟩ := hs (hno.of_suffix hm.trace_suffix)
    exact ⟨hm.sound hno hsound, standing_invariant.move hm hsound.table hin,
      hm.views hno hsound hin hv⟩

/-- No ACK for a superseded view. In a run without INIT on active sessions, an ACK carries on the
wire the ring id of the winner of its cluster's latest decision `d`. Between `d` and the ACK nobody
has left the cluster, and no voter of `d` with a membership list had a membership list, a changed
config or a heuristics change accepted. -/
theorem ack_for_current_view (n : UInt32) (calls : List Call) (hno : NoReinit (run n calls).trace)
    (new past : List Event) (j : Slot) (info : VoteInfo)
    (htr : (run n calls).trace = new ++ .vote j info :: past) (hack : info.vote = .ack) :
    ∃ d mid old, past = mid ++ .decide d :: old ∧ d.cluster = info.cluster ∧
      (∀ e ∈ mid, e.decisionIn info.cluster = none) ∧
      (∃ w l vw m, d.winner = some (w, l) ∧ d.voters w = some vw ∧ decodeFrame info.frame = some m ∧
        m.ringIdSet = true ∧ m.ringId = vw.ring) ∧
      (∀ t v, d.voters t = some v → v.membership.empty = false →
        .accept t (.list .membership) ∉ mid ∧ .accept t (.list .changedConfig) ∉ mid ∧
          .accept t .heuristics ∉ mid) ∧
      ∀ t, .leave t info.cluster ∉ mid := by
  obtain ⟨d, w, l, vw, hund, hc, hw, hvw, hring⟩ :=
    (run_views n calls hno info.cluster).rings new _ past htr j info rfl rfl hack
  obtain ⟨mid, e, old, hpast, rfl, hmid⟩ := hund
  have hdecode := (Reply.voteInfo info.seq info.ring info.vote).decodeFrame_frame
  refine ⟨d, mid, old, hpast, hc, fun e he => ?_, ⟨w, l, vw, _, hw, hvw, hdecode, rfl, hring⟩,
    fun t v hv hne => ?_, fun t ht => (hmid _ ht).2 rfl⟩
  · exact Event.decisionIn_of_verdictIn (hmid e he).1
  · exact ⟨fun ht => (hmid _ ht).2 ⟨rfl, v, hv, hne⟩, fun ht => (hmid _ ht).2 ⟨rfl, v, hv, hne⟩,
      fun ht => (hmid _ ht).2 ⟨rfl, v, hv, hne⟩⟩

/-- In the split of two nodes, the ACK that node 1 gets when node 2 has answered carries the
winner's ring id. -/
theorem ack_for_current_view_released :
    (∃ e ∈ (run 32768 releasedCalls).trace, e.ackTo 0 = true) ∧
    ∀ new past info, (run 32768 releasedCalls).trace = new ++ .vote 0 info :: past →
    info.vote = .ack →
      ∃ d mid old w l vw m, past = mid ++ .decide d :: old ∧ d.winner = some (w, l) ∧
      d.voters w = some vw ∧
        decodeFrame info.frame = some m ∧ m.ringId = vw.ring := by
  have hno : NoReinit (run 32768 releasedCalls).trace := by
    unfold NoReinit
    decide +kernel
  refine ⟨by decide +kernel, fun new past info htr hack => ?_⟩
  obtain ⟨d, mid, old, hpast, -, -, ⟨w, l, vw, m, hw, hvw, hm, -, hring⟩, -, -⟩ :=
    ack_for_current_view 32768 releasedCalls hno new past 0 info htr hack
  exact ⟨d, mid, old, w, l, vw, m, hpast, hw, hvw, hm, hring⟩

end Qnetd
