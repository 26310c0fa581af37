import Qnetd.Invariant.Standing
import Qnetd.Lib.Handover

/-!
# The votes of a cluster are a handover

Seen from its decisions, the replies and the votes, each cluster is the arbiter of `Handover`: a
decision takes the votes back from the sessions it puts outside, and their answers release the ACKs
of the winners.

* `Server.round c`, `Server.arbiter c` : the abstract state a cluster is in; `Decision.put` : whom a
  decision puts in a state;
* `Event.input c` : what the arbiter sees of an event; `replayed c` : the arbiter after a history,
  if the history is one of it;
* `replayed_ffsplitDo`, `replayed_reply` : a decision and a reply are steps of the arbiter, votes
  included; `round_removed` : so is a departure;
* `Move.conforms`, `votes_follow_handover` : every run is a run of the arbiter of each cluster, for
  arbitrary bytes.
-/

namespace Qnetd

open Handover (Arbiter Input settle grant answer)
open Server (dueState)

/-! ## The abstract state -/

namespace Server

/-- The members of cluster `c` in state `st`, in the order of the table. -/
def waitsIn (s : Server) (c : Int) (st : FfClientState) : List Slot :=
  (List.finRange MAX_CLIENTS).filter fun i => s.inCluster c i && (s.sessions i).ffState = st

/-- The round cluster `c` is in. While the views are not stable, the states of its sessions mean
nothing. -/
def round (s : Server) (c : Int) : Handover.Round Slot :=
  match (s.clusters c).state with
  | .waitingForChange => .idle
  | .waitingForStableMembership => .unsettled
  | .sendingNacks => .revoking (s.waitsIn c .sendingNack) (s.waitsIn c .sendingAck)
  | .sendingAcks => .granting (s.waitsIn c .sendingAck)

def arbiter (s : Server) (c : Int) : Arbiter Slot where
  members := s.inCluster c
  round := s.round c
  due := []

theorem mem_waitsIn {s : Server} {c : Int} {st : FfClientState} {i : Slot} :
    i ∈ s.waitsIn c st ↔ s.inCluster c i = true ∧ (s.sessions i).ffState = st := by
  simp [waitsIn]

theorem waitsIn_nodup (s : Server) (c : Int) (st : FfClientState) : (s.waitsIn c st).Nodup :=
  (List.nodup_finRange _).filter _

theorem waitsIn_congr {s s' : Server} {c : Int} {st : FfClientState}
    (h : ∀ i, (s'.inCluster c i = true ∧ (s'.sessions i).ffState = st) ↔
      (s.inCluster c i = true ∧ (s.sessions i).ffState = st)) :
    s'.waitsIn c st = s.waitsIn c st := by
  refine List.filter_congr fun i _ => ?_
  rw [Bool.eq_iff_iff, Bool.and_eq_true, Bool.and_eq_true, decide_eq_true_eq, decide_eq_true_eq]
  exact h i

theorem round_congr {s s' : Server} {c : Int} (hst : (s'.clusters c).state = (s.clusters c).state)
    (h : ∀ i st, st ≠ .waitingForChange →
      ((s'.inCluster c i = true ∧ (s'.sessions i).ffState = st) ↔
        (s.inCluster c i = true ∧ (s.sessions i).ffState = st))) :
    s'.round c = s.round c := by
  unfold round
  rw [hst, waitsIn_congr fun i => h i .sendingNack (by simp),
    waitsIn_congr fun i => h i .sendingAck (by simp)]

end Server

/-- The sessions a decision puts in state `st`. -/
def Decision.put (d : Decision) (st : FfClientState) : List Slot :=
  (List.finRange MAX_CLIENTS).filter fun t => (d.voters t).any fun v => v.state = st

/-! ## Histories as inputs -/

/-- What a vote tells a client about the grant. -/
def Vote.granted : Vote → Option Bool
  | .ack => some true
  | .nack => some false
  | _ => none

/-- What the arbiter of cluster `c` sees. A reply counts when it carries the number of the last
vote. -/
def Event.input (c : Int) : Event → Option (Input Slot)
  | .join t c' => if c' = c then some (.join t) else none
  | .leave t c' => if c' = c then some (.leave t) else none
  | .decide d =>
      if d.cluster = c then some (.settle (d.put .sendingNack) (d.put .sendingAck)) else none
  | .unstable c' => if c' = c then some .unsettle else none
  | .reply t seq expected _ _ => if seq = expected then some (.answer t) else none
  | .vote t info => if info.cluster = c then some (.tell t info.vote.granted) else none
  | _ => none

/-- The arbiter of cluster `c` after a history, `none` if the history is not one of it. -/
def replayed (c : Int) (tr : List Event) : Option (Arbiter Slot) :=
  History.after Arbiter.step { members := fun _ => false, round := .idle, due := [] }
    (tr.filterMap (Event.input c))

theorem replayed_append {c : Int} {new tr : List Event} {a : Arbiter Slot}
    (h : replayed c tr = some a) :
    replayed c (new ++ tr) = History.after Arbiter.step a (new.filterMap (Event.input c)) := by
  unfold replayed
  rw [List.filterMap_append]
  exact History.after_append_of_eq h

theorem replayed_cons_none {c : Int} {e : Event} {tr : List Event} (he : e.input c = none) :
    replayed c (e :: tr) = replayed c tr := by
  unfold replayed
  rw [List.filterMap_cons_none he]

theorem replayed_cons_some {c : Int} {e : Event} {tr : List Event} {a : Arbiter Slot}
    {x : Input Slot}
    (he : e.input c = some x) (h : replayed c tr = some a) :
    replayed c (e :: tr) = Arbiter.step x a := by
  unfold replayed at h ⊢
  rw [List.filterMap_cons_some he, History.after, h, Option.bind_some]

/-- The server is in the state its history leads the arbiter to. -/
def Conforms (c : Int) (s : Server) : Prop := replayed c s.trace = some (s.arbiter c)

/-! ## Elsewhere -/

theorem Elsewhere.arbiter {c : Int} {s s' : Server} (h : Elsewhere c s s') :
    s'.arbiter c = s.arbiter c := by
  have hround : s'.round c = s.round c := by
    refine Server.round_congr (by rw [h.cluster]) fun i st _ => ?_
    rw [h.inCluster]
    exact and_congr_right fun hin => by rw [h.ffState i hin]
  unfold Server.arbiter
  rw [hround, funext h.inCluster]

theorem Conforms.elsewhere {c : Int} {s s' : Server} (h : Elsewhere c s s') (hs : Conforms c s) :
    Conforms c s' := by
  obtain ⟨new, htr, hnew⟩ := h.trace
  have hturn : new.filterMap (Event.turnover c) = [] := by
    have := h.turnover
    rw [htr, List.filterMap_append] at this
    exact List.append_left_eq_self.mp this
  unfold Conforms
  rw [h.arbiter, htr, replayed_append hs]
  refine History.after_of_fixed fun x hx => ?_
  obtain ⟨e, he, hin⟩ := List.mem_filterMap.mp hx
  have hap := hnew e he
  have hno := List.filterMap_eq_nil_iff.mp hturn e he
  cases e with
  | reply t seq expected _ _ =>
    -- the reply of a session of another cluster
    have hout : s.inCluster c t = false := hap
    simp only [Event.input] at hin
    split_ifs at hin
    obtain rfl := Option.some.inj hin
    simp [Arbiter.step, Server.arbiter, hout]
  | join t c' =>
    simp only [Event.turnover] at hno
    split_ifs at hno with hc
    simp [Event.input, hc] at hin
  | leave t c' =>
    simp only [Event.turnover] at hno
    split_ifs at hno with hc
    simp [Event.input, hc] at hin
  | vote t info => simp [Event.input, hap.2] at hin
  | decide d => simp [Event.input, show d.cluster ≠ c from hap] at hin
  | unstable c' => simp [Event.input, show c' ≠ c from hap] at hin
  | _ => cases hin

/-! ## Joining -/

theorem Conforms.join {i : Slot} {c : Int} {s s' : Server} (ht : Table s)
    (hphase : (s.sessions i).phase ≠ .active)
    (hj : Joined i c s s') (hs : Conforms c s) : Conforms c s' := by
  obtain ⟨dl, hself⟩ := hj.self
  have hnew : (s'.sessions i).ffState = .waitingForChange := by
    rw [hself]
    exact (ht.idle i hphase).ffState
  have hout : s.inCluster c i = false := by
    rw [← Bool.not_eq_true, Server.inCluster_iff]
    exact fun h => hphase h.1
  have hmem : s'.inCluster c = Function.update (s.inCluster c) i true := by
    funext j
    by_cases hji : j = i
    · rw [hji, hj.inCluster_self, Function.update_self, decide_eq_true rfl]
    · rw [hj.inCluster_of_ne hji, Function.update_of_ne hji]
  have hstate : (s'.clusters c).state = (s.clusters c).state := by
    rcases hj.record with ⟨-, -, hcl, -⟩ | ⟨h0, -, hcl, -⟩
    · rw [hcl]
    · rw [hcl, h0]
  -- the new member waits for nothing
  have hround : s'.round c = s.round c := by
    refine Server.round_congr hstate fun j st hst => ?_
    by_cases hji : j = i
    · subst hji
      rw [hnew, hout]
      exact ⟨fun h => absurd h.2.symm hst, fun h => absurd h.1 Bool.false_ne_true⟩
    · rw [hj.inCluster_of_ne hji, hj.others j hji]
  have hjoin : (Event.join i c).input c = some (.join i) := if_pos rfl
  have hlast : Arbiter.step (.join i) (s.arbiter c) = some (s'.arbiter c) := by
    simp only [Arbiter.step, Server.arbiter, hround, hmem]
  unfold Conforms
  rcases hj.record with ⟨-, -, -, htr⟩ | ⟨-, -, -, htr⟩
  · rw [htr, replayed_cons_some hjoin hs, hlast]
  · have hphase : replayed c (.phase c .waitingForChange :: s.trace) = some (s.arbiter c) :=
      (replayed_cons_none rfl).trans hs
    rw [htr, replayed_cons_some hjoin hphase, hlast]

/-! ## Votes -/

namespace Server

theorem replayed_passed {c : Int} {s : Server} {tv : TriggerView} {sendAcks : Bool}
    {a : Arbiter Slot} (hc : s.tvCluster tv = c) (h : replayed c s.trace = some a)
    (hdue : a.due = (s.targets tv sendAcks).map fun i => (i, sendAcks)) :
    replayed c (s.passed tv sendAcks).trace = some { a with due := [] } := by
  have hin :
      (((s.targets tv sendAcks).map fun i =>
      Event.vote i (s.voteTo tv sendAcks i)).reverse).filterMap
      (Event.input c) =
        (((s.targets tv sendAcks).map fun i => (i, sendAcks)).map fun p =>
        Input.tell p.1 (some p.2)).reverse := by
    rw [List.filterMap_reverse, List.map_map, List.filterMap_map]
    congr 1
    rw [← List.filterMap_eq_map]
    refine List.filterMap_congr fun i _ => ?_
    have hvote : (s.voteTo tv sendAcks i).vote.granted = some sendAcks := by cases sendAcks <;> rfl
    simp only [Function.comp_apply, Event.input, hvote]
    exact if_pos hc
  rw [passed_trace, replayed_append h, hin]
  exact Handover.after_tells a _ [] (by rw [hdue, List.append_nil])

theorem replayed_setState {c : Int} {s : Server} {a : Arbiter Slot}
    (h : replayed c s.trace = some a) (c' : Int)
    (st : FfClusterState) : replayed c (s.setState c' st).trace = some a :=
  (replayed_cons_none rfl).trans h

theorem waitsIn_passed (s : Server) (tv : TriggerView) (sendAcks : Bool) (c : Int)
    (st : FfClientState) : (s.passed tv sendAcks).waitsIn c st = s.waitsIn c st := by
  refine waitsIn_congr fun i => ?_
  rw [inCluster_congr (passed_sameButVotes s tv sendAcks), passed_ffState]

/-! ## Decisions -/

theorem put_verdict (s : Server) (tv : TriggerView) {st : FfClientState}
    (hst : st ≠ .waitingForChange) :
    (s.verdict tv).put st = (s.decided tv).waitsIn (s.tvCluster tv) st := by
  refine List.filter_congr fun t _ => ?_
  rw [Bool.eq_iff_iff, Option.any_eq_true, Bool.and_eq_true, decide_eq_true_eq,
    inCluster_congr (decided_sameButVotes s tv)]
  constructor
  · rintro ⟨v, hv, hvst⟩
    obtain ⟨hin, hff⟩ := verdict_ffState hv
    exact ⟨hin, hff.trans (of_decide_eq_true hvst)⟩
  · rintro ⟨hin, hff⟩
    obtain ⟨v, hv, hvst⟩ := verdict_of_waits hin (by rw [hff]; exact hst)
    exact ⟨v, hv, decide_eq_true (hvst.trans hff)⟩

theorem dueState_ne (sendAcks : Bool) : dueState sendAcks ≠ .waitingForChange := by
  cases sendAcks <;> decide

theorem targets_decided (s : Server) (tv : TriggerView) (sendAcks : Bool) :
    (s.decided tv).targets tv sendAcks =
      (s.decided tv).waitsIn (s.tvCluster tv) (dueState sendAcks) := by
  have hsame := decided_sameButVotes s tv
  refine List.filter_congr fun t _ => ?_
  rw [Bool.eq_iff_iff, target_iff, Bool.and_eq_true, decide_eq_true_eq]
  refine and_congr_left fun hff => ⟨fun hw => ?_, fun hin => ?_⟩
  · rw [← tvCluster_congr hsame]
    exact inCluster_of_inWalk hw
  · rw [inCluster_congr hsame] at hin
    exact decided_inWalk hin (by rw [hff]; exact dueState_ne sendAcks)

/-- A decision is a step of the arbiter, with the votes it sends. -/
theorem replayed_ffsplitDo {s : Server} {tv : TriggerView} {a : Arbiter Slot}
    (h : replayed (s.tvCluster tv) s.trace = some a) (hdue : a.due = []) :
    replayed (s.tvCluster tv) (s.ffsplitDo tv).2.2.trace =
      some { members := a.members, round := (s.ffsplitDo tv).2.2.round (s.tvCluster tv), due := [] } := by
  set c := s.tvCluster tv with hc
  have hphase : replayed c (.phase c .waitingForStableMembership :: s.trace) = some a := (replayed_cons_none rfl).trans h
  rcases ffsplitDo_server s tv with ⟨-, hs⟩ | ⟨-, hs⟩
  · have hin : (Event.unstable c).input c = some .unsettle := if_pos rfl
    rw [hs, emit_trace, setState_trace, ← hc, replayed_cons_some hin hphase]
    simp [Arbiter.step, hdue, round]
  · -- what is due after the decision is what its votes say
    have hcl : (s.decided tv).tvCluster tv = c := tvCluster_congr (decided_sameButVotes s tv) tv
    have hin : (Event.decide (s.verdict tv)).input c =
        some (.settle ((s.decided tv).targets tv false) ((s.decided tv).targets tv true)) := by
      rw [targets_decided, targets_decided, ← put_verdict s tv (dueState_ne _), ← put_verdict s tv (dueState_ne _)]
      exact if_pos rfl
    have hset : replayed c (s.decided tv).trace = some { a with
        round := (settle ((s.decided tv).targets tv false) ((s.decided tv).targets tv true)).1
        due := (settle ((s.decided tv).targets tv false) ((s.decided tv).targets tv true)).2 } := by
      rw [decided_trace, ← hc, replayed_cons_some hin hphase]
      simp only [Arbiter.step, if_pos hdue]
    have hnack := targets_decided s tv false
    have hack := targets_decided s tv true
    rw [hs]
    generalize s.decided tv = u at hcl hset hnack hack ⊢
    rcases ffsplitVotes_cases u tv with ⟨hne, hv⟩ | ⟨hnil, hne, hv⟩ | ⟨hnil, hnil', hv⟩
    · have hsettle : settle (u.targets tv false) (u.targets tv true) =
          (.revoking (u.targets tv false) (u.targets tv true), (u.targets tv false).map fun i => (i, false)) := if_neg hne
      have hround : (u.ffsplitVotes tv).round c = .revoking (u.targets tv false) (u.targets tv true) := by
        rw [hv, hnack, hack]
        simp only [round, passed_clusters, hcl, setState_self, waitsIn_passed]
        rfl
      rw [hround, hv, hcl]
      rw [hsettle] at hset
      exact replayed_passed (s := u.setState c .sendingNacks) hcl (replayed_setState hset _ _) rfl
    · have hsettle : settle (u.targets tv false) (u.targets tv true) =
          (.granting (u.targets tv true), (u.targets tv true).map fun i => (i, true)) := (if_pos hnil).trans (if_neg hne)
      have hround : (u.ffsplitVotes tv).round c = .granting (u.targets tv true) := by
        rw [hv, hack]
        simp only [round, passed_clusters, hcl, setState_self, waitsIn_passed]
        rfl
      rw [hround, hv, hcl]
      rw [hsettle] at hset
      exact replayed_passed (s := (u.setState c .sendingNacks).setState c .sendingAcks) hcl
        (replayed_setState (replayed_setState hset _ _) _ _) rfl
    · have hsettle : settle (u.targets tv false) (u.targets tv true) = (.idle, []) := (if_pos hnil).trans (if_pos hnil')
      have hround : (u.ffsplitVotes tv).round c = .idle := by
        rw [hv]
        simp [round, hcl]
      rw [hround, hv, hcl]
      rw [hsettle] at hset
      exact replayed_setState (replayed_setState (replayed_setState hset _ _) _ _) _ _

/-! ## Replies -/

theorem waitsIn_answered (s : Server) (i : Slot) (seq : UInt32) (c : Int) {st : FfClientState}
    (hst : st ≠ .waitingForChange) :
    (s.answered i seq).waitsIn c st = (s.waitsIn c st).filter (· ≠ i) := by
  rw [waitsIn, waitsIn, List.filter_filter]
  refine List.filter_congr fun j _ => ?_
  rw [inCluster_congr (answered_sameButVotes s i seq)]
  by_cases hji : j = i
  · subst hji
    simp [answered_ffState_self, hst.symm]
  · simp [answered_of_ne s seq hji, hji]

theorem targets_answered (s : Server) (i : Slot) (seq : UInt32) {c : Int}
    (hc : (s.sessions i).cluster = c) :
    (s.answered i seq).targets ((s.answered i seq).storedView i false) true =
      (s.answered i seq).waitsIn c .sendingAck := by
  have hcl : ((s.answered i seq).sessions i).cluster = c :=
    ((answered_sameButVotes s i seq).cluster i).trans hc
  refine List.filter_congr fun j _ => ?_
  rw [target, inWalk_storedView _ hcl]
  rfl

/-- What a reply with the current number does. It takes the session off the round, and says what the
round says: nothing, or the ACKs it releases. -/
theorem reply_answers {s : Server} {i : Slot} {m : MsgDecoded} (hset : m.seqNumberSet = true)
    (hseq : m.seqNumber = (s.sessions i).voteInfoSeq) {c : Int} (hc : (s.sessions i).cluster = c) :
    (s.handleVoteInfoReply i m).round c = (answer i (s.round c)).1 ∧
      (((answer i (s.round c)).2 = [] ∧
        (s.handleVoteInfoReply i m).sessions = (s.answered i m.seqNumber).sessions ∧
          ∃ sts : List FfClusterState,
            (s.handleVoteInfoReply i m).trace =
              sts.map (Event.phase c) ++ (s.answered i m.seqNumber).trace) ∨
        ((answer i (s.round c)).2 = (s.released i m.seqNumber).map (fun j => (j, true)) ∧
          s.handleVoteInfoReply i m = ((s.answered i m.seqNumber).setState c .sendingAcks).passed
            ((s.answered i m.seqNumber).storedView i false) true)) := by
  have hnack := @waitsIn_answered s i m.seqNumber c .sendingNack (by simp)
  have hack := @waitsIn_answered s i m.seqNumber c .sendingAck (by simp)
  have hrel : s.released i m.seqNumber = (s.answered i m.seqNumber).waitsIn c .sendingAck :=
    targets_answered s i m.seqNumber hc
  rcases handleVoteInfoReply_cases s i m hset hc with
    ⟨hne, -⟩ | ⟨-, ⟨hs, hn, hk⟩ | ⟨hst, hn, hne, hs⟩ | ⟨hst, hn, hnil, hs⟩ | ⟨hst, hk, hs⟩⟩
  · exact absurd hseq hne
  · have hr : answer i (s.round c) = ((s.answered i m.seqNumber).round c, []) := by
      simp only [round, answered_clusters]
      cases hst : (s.clusters c).state with
      | waitingForChange => rfl
      | waitingForStableMembership => rfl
      | sendingNacks =>
        have hne : (s.waitsIn c .sendingNack).filter (· ≠ i) ≠ [] := by
          rw [← hnack]
          exact fun h => hn hst (List.length_eq_zero_iff.mpr h)
        simp only [answer, if_neg hne, hnack, hack]
      | sendingAcks =>
        have hne : (s.waitsIn c .sendingAck).filter (· ≠ i) ≠ [] := by
          rw [← hack]
          exact fun h => hk hst (List.length_eq_zero_iff.mpr h)
        simp only [answer, if_neg hne, hack]
    rw [hs, hr]
    exact ⟨rfl, Or.inl ⟨rfl, rfl, [], rfl⟩⟩
  · -- the last NACK is answered, and the ACKs are released
    have hl : (s.waitsIn c .sendingNack).filter (· ≠ i) = [] := by
      rw [← hnack]
      exact List.length_eq_zero_iff.mp hn
    have hr : answer i (s.round c) = (.granting (s.released i m.seqNumber),
        (s.released i m.seqNumber).map fun j => (j, true)) := by
      simp only [round, hst, answer, if_pos hl, ← hack, ← hrel]
      exact if_neg hne
    rw [hs, hr]
    refine ⟨?_, Or.inr ⟨rfl, rfl⟩⟩
    simp only [round, passed_clusters, setState_self, waitsIn_passed, hrel]
    rfl
  · -- the last NACK is answered, and there is no ACK to release
    have hl : (s.waitsIn c .sendingNack).filter (· ≠ i) = [] := by
      rw [← hnack]
      exact List.length_eq_zero_iff.mp hn
    have hk : (s.waitsIn c .sendingAck).filter (· ≠ i) = [] := by
      rw [← hack, ← hrel]
      exact hnil
    have hr : answer i (s.round c) = (.idle, []) := by
      simp only [round, hst, answer, if_pos hl, hk]
      rfl
    rw [hs, hr]
    exact ⟨by simp [round], Or.inl ⟨rfl, rfl, [.waitingForChange, .sendingAcks], rfl⟩⟩
  · -- the last ACK is answered
    have hl : (s.waitsIn c .sendingAck).filter (· ≠ i) = [] := by
      rw [← hack]
      exact List.length_eq_zero_iff.mp hk
    have hr : answer i (s.round c) = (.idle, []) := by
      simp only [round, hst, answer, if_pos hl]
    rw [hs, hr]
    exact ⟨by simp [round], Or.inl ⟨rfl, rfl, [.waitingForChange], rfl⟩⟩

/-- A reply with the current number is a step of the arbiter, with the votes it releases. -/
theorem replayed_reply {s : Server} {i : Slot} {m : MsgDecoded} (hset : m.seqNumberSet = true)
    (hseq : m.seqNumber = (s.sessions i).voteInfoSeq) {c : Int} (hc : (s.sessions i).cluster = c)
    {a : Arbiter Slot}
    (hdue : a.due = (answer i (s.round c)).2)
    (h : replayed c (s.answered i m.seqNumber).trace = some a) :
    replayed c (s.handleVoteInfoReply i m).trace = some { a with due := [] } := by
  rcases (reply_answers hset hseq hc).2 with ⟨hnil, -, sts, htr⟩ | ⟨hrel, hs⟩
  · have hphase : (sts.map (Event.phase c)).filterMap (Event.input c) = [] := by
      rw [List.filterMap_map, List.filterMap_eq_nil_iff]
      exact fun _ _ => rfl
    rw [htr, replayed_append h, hphase]
    cases a
    cases hdue.trans hnil
    rfl
  · have hview :
        (s.answered i m.seqNumber).tvCluster ((s.answered i m.seqNumber).storedView i false) = c :=
      ((answered_sameButVotes s i m.seqNumber).cluster i).trans hc
    rw [hs]
    exact replayed_passed (s := (s.answered i m.seqNumber).setState c .sendingAcks) hview
      (replayed_setState h _ _) (hdue.trans hrel)

end Server

theorem Conforms.reply {i : Slot} {s : Server} {m : MsgDecoded}
    (hact : (s.sessions i).phase = .active)
    (hset : m.seqNumberSet = true) (h : Conforms (s.sessions i).cluster s) :
    Conforms (s.sessions i).cluster (s.handleVoteInfoReply i m) := by
  set c := (s.sessions i).cluster with hc
  have hin : s.inCluster c i = true := Server.inCluster_iff.mpr ⟨hact, rfl⟩
  by_cases hseq : m.seqNumber = (s.sessions i).voteInfoSeq
  · have hround := (Server.reply_answers hset hseq hc.symm).1
    have hmem : (s.handleVoteInfoReply i m).inCluster c = s.inCluster c :=
      funext fun j => (Server.handleVoteInfoReply_within s m hset hin).inCluster c j
    have hinput : (Event.reply i m.seqNumber (s.sessions i).voteInfoSeq (s.sessions i).ffState
        (s.clusters (s.sessions i).cluster).state).input c = some (.answer i) := if_pos hseq
    have hans : replayed c (s.answered i m.seqNumber).trace = some
        { members := s.inCluster c, round := (answer i (s.round c)).1,
          due := (answer i (s.round c)).2 } := by
      rw [Server.answered_trace, replayed_cons_some hinput h]
      simp [Arbiter.step, Server.arbiter, hin]
    unfold Conforms
    rw [Server.replayed_reply hset hseq hc.symm rfl hans, Server.arbiter, hround, hmem]
  · rcases Server.handleVoteInfoReply_cases s i m hset hc.symm with ⟨-, hs⟩ | ⟨hseq', -⟩
    · have hinput : (Event.reply i m.seqNumber (s.sessions i).voteInfoSeq (s.sessions i).ffState
          (s.clusters (s.sessions i).cluster).state).input c = none := if_neg hseq
      unfold Conforms
      rw [hs, Server.emit_trace, replayed_cons_none hinput]
      exact h
    · exact absurd hseq' hseq

/-! ## Reports and departures -/

theorem Conforms.report {i : Slot} {s : Server} {r : Report} {m : MsgDecoded} (h : Conforms (s.sessions i).cluster s) :
    Conforms (s.sessions i).cluster (s.reported i r m) := by
  set c := (s.sessions i).cluster with hc
  have hacc : replayed c (s.emit (.accept i r)).trace = some (s.arbiter c) := (replayed_cons_none rfl).trans h
  have hran : Conforms c (s.ranReport i r m) := by
    unfold Server.ranReport
    split_ifs
    · have htv : (s.emit (.accept i r)).tvCluster (s.reportView i m r) = c := by
        rw [Server.tvCluster, reportView_slot]
        rfl
      have hmem : ((s.emit (.accept i r)).ffsplitDo (s.reportView i m r)).2.2.inCluster c = s.inCluster c :=
        funext fun j => Server.inCluster_congr (Server.ffsplitDo_sameButVotes (s.emit (.accept i r)) _) c j
      have hd := @Server.replayed_ffsplitDo (s.emit (.accept i r)) (s.reportView i m r) (s.arbiter c)
      rw [htv] at hd
      unfold Conforms
      rw [hd hacc rfl, Server.arbiter, Server.arbiter, hmem]
    · exact hacc
  exact hran.elsewhere ⟨apart_modify _ c i _ rfl rfl rfl rfl, rfl⟩

namespace Server

theorem stable_of_nobody {s : Server} {tv : TriggerView} (h : ∀ j, s.inWalk tv j = false) :
    s.ffsplitIsStable tv = true := by
  have hwalk : s.walk tv = [] := by
    rw [walk, List.filter_eq_nil_iff]
    intro j _
    rw [h j]
    exact Bool.false_ne_true
  simp [ffsplitIsStable, hwalk]

theorem targets_of_nobody {s : Server} {tv : TriggerView} (h : ∀ j, s.inWalk tv j = false)
    (sendAcks : Bool) : s.targets tv sendAcks = [] := by
  rw [targets, List.filter_eq_nil_iff]
  intro j _ hj
  rw [target_iff, h j] at hj
  exact Bool.false_ne_true hj.1

/-- When the last member leaves, the decision without it has nobody to vote for. -/
theorem leaving_idle {s : Server} {i : Slot}
    (hlast : ∀ j, j ≠ i → s.inCluster (s.sessions i).cluster j = false) :
    (s.leaving i).round (s.sessions i).cluster = .idle := by
  set c := (s.sessions i).cluster with hc
  set t := s.emit (.leave i c) with hte
  set tv := s.storedView i true with htv
  have hleft : s.leaving i = (t.ffsplitDo tv).2.2 := rfl
  have hnobody : ∀ j, t.inWalk tv j = false := by
    intro j
    rw [← Bool.not_eq_true]
    intro hj
    obtain ⟨hin, hnot⟩ := inWalk_iff.mp hj
    by_cases hji : j = i
    · have hskip : t.skipInClusterWalk tv j = true := by
        rw [hji]
        exact decide_eq_true rfl
      exact Bool.false_ne_true (hnot.symm.trans hskip)
    · exact Bool.false_ne_true ((hlast j hji).symm.trans hin)
  have hnobody' : ∀ j, (t.decided tv).inWalk tv j = false := by
    intro j
    rw [inWalk_congr (decided_sameButVotes t tv)]
    exact hnobody j
  rw [hleft]
  rcases ffsplitDo_server t tv with ⟨hno, -⟩ | ⟨-, hs⟩
  · rw [stable_of_nobody hnobody] at hno
    cases hno
  · have hdc : (t.decided tv).tvCluster tv = c := tvCluster_congr (decided_sameButVotes t tv) tv
    rcases ffsplitVotes_cases (t.decided tv) tv with ⟨hne, -⟩ | ⟨-, hne, -⟩ | ⟨-, -, hv⟩
    · exact absurd (targets_of_nobody hnobody' false) hne
    · exact absurd (targets_of_nobody hnobody' true) hne
    · rw [hs, hv, hdc]
      simp [round]

/-- The session that leaves has no part in the round it leaves behind. -/
theorem round_removed {s : Server} {i : Slot} (ht : Table s)
    (hact : (s.sessions i).phase = .active) :
    ((s.leaving i).removed i (s.sessions i).cluster).round (s.sessions i).cluster =
      (s.leaving i).round (s.sessions i).cluster := by
  set c := (s.sessions i).cluster with hc
  have hcl := removed_clusters_self (s.leaving i) i c
  by_cases hm : ((s.leaving i).clusters c).members - 1 ≤ 0
  · rw [if_pos hm] at hcl
    have htab : Table ((s.leaving i).removed i c) := by
      have h := (Move.leave : Move i s ((s.leaveCluster i).reset i)).table ht
      rwa [left_eq hact (ht.range i hact).1] at h
    have hlast : ∀ j, j ≠ i → s.inCluster c j = false := by
      intro j hji
      have hout := htab.not_inCluster (by rw [hcl]) j
      rw [removed_inCluster_of_ne _ c c hji, (leaving_within i).inCluster] at hout
      exact hout
    rw [leaving_idle hlast]
    simp [round, hcl]
  · rw [if_neg hm] at hcl
    have hstate : (((s.leaving i).removed i c).clusters c).state =
        ((s.leaving i).clusters c).state := by
      rw [hcl]
    have hleft : s.leaving i = ((s.emit (.leave i c)).ffsplitDo (s.storedView i true)).2.2 := rfl
    rcases ffsplitDo_server (s.emit (.leave i c)) (s.storedView i true) with ⟨-, hs⟩ | ⟨-, hs⟩
    · have hunset : ((s.leaving i).clusters c).state = .waitingForStableMembership := by
        rw [hleft, hs]
        exact congrArg Cluster.state (setState_self ..)
      simp [round, hstate, hunset]
    · -- who waits for a vote of the decision was in its walk, and the leaving session was not
      refine round_congr hstate fun j st hst => ?_
      by_cases hji : j = i
      · rw [hji, removed_inCluster_self]
        refine ⟨fun h => absurd h.1 Bool.false_ne_true, fun h => ?_⟩
        rw [(leaving_within i).inCluster, hleft, hs, ffsplitVotes_ffState] at h
        have hw := decided_inWalk h.1 (by rw [h.2]; exact hst)
        have hskip : (s.emit (.leave i c)).skipInClusterWalk (s.storedView i true) i = true :=
          decide_eq_true rfl
        rw [inWalk_congr (decided_sameButVotes _ _), inWalk_iff, hskip] at hw
        cases hw.2
      · rw [removed_inCluster_of_ne _ c c hji, removed_of_ne _ c hji]

end Server

theorem Conforms.leave {i : Slot} {s : Server} (ht : Table s)
    (hact : (s.sessions i).phase = .active) (h : Conforms (s.sessions i).cluster s) :
    Conforms (s.sessions i).cluster ((s.leaving i).removed i (s.sessions i).cluster) := by
  set c := (s.sessions i).cluster with hc
  have hinput : (Event.leave i c).input c = some (.leave i) := if_pos rfl
  have hleave : replayed c (s.emit (.leave i c)).trace = some { s.arbiter c with
      members := Function.update (s.inCluster c) i false } := by
    rw [Server.emit_trace, replayed_cons_some hinput h]
    rfl
  have hmem : ((s.leaving i).removed i c).inCluster c =
      Function.update (s.inCluster c) i false := by
    funext j
    by_cases hji : j = i
    · rw [hji, Server.removed_inCluster_self, Function.update_self]
    · rw [Server.removed_inCluster_of_ne _ _ _ hji, (leaving_within i).inCluster,
        Function.update_of_ne hji]
      rfl
  have hd := @Server.replayed_ffsplitDo (s.emit (.leave i c)) (s.storedView i true) _ hleave rfl
  unfold Conforms
  rw [Server.removed_trace, Server.arbiter, hmem, Server.round_removed ht hact]
  exact hd

/-! ## Runs -/

theorem Move.conforms {i : Slot} {s s' : Server} (hm : Move i s s') (ht : Table s) (c : Int)
    (h : Conforms c s) : Conforms c s' := by
  rcases hm.elsewhere_or ht c with ha | ⟨hphase, hj⟩ | ⟨hact, rfl,
    ⟨r, m, -, rfl⟩ | ⟨m, hset, rfl⟩ | rfl⟩
  · exact h.elsewhere ha
  · exact h.join ht hphase hj
  · exact h.report
  · exact h.reply hact hset
  · exact h.leave ht hact

theorem run_conforms (n : UInt32) (calls : List Call) (c : Int) : Conforms c (run n calls) := by
  have h := run_induction (I := fun s => Table s ∧ Conforms c s) (fun n => ⟨table_init n, rfl⟩)
    (fun hm hs => ⟨hm.table hs.1, hm.conforms hs.1 c hs.2⟩) n calls
  exact h.2

/-- The votes of every run are a handover. After any calls, with any bytes, the history of each
cluster is one the arbiter accepts, that is: each vote it sends is the next one due, the NACKs right
after the decision that takes a vote away, the ACKs after the answer to the last of these NACKs and
never while one is open, and none is left out. The state the history leads the arbiter to is the
state the cluster and its sessions are in. -/
theorem votes_follow_handover (n : UInt32) (calls : List Call) (c : Int) :
    replayed c (run n calls).trace = some ((run n calls).arbiter c) := run_conforms n calls c

end Qnetd
