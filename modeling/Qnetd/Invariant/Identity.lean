import Qnetd.Host.Client
import Qnetd.Invariant.Table

/-!
# Member identity

The algorithm looks clients up by node id, so the members of a cluster must have different ids, and
each must be in its own lists.

* `Identity` : the invariant. `Move.identity` : every move preserves it, except for an INIT on an
  active session that carries another node id than the stored one;
* `KeepsId`, `NoReinit` : the runs without such an INIT, and without any INIT on an active session;
* `Move.grows` : what a move adds to the history. Histories only grow (`Move.trace_suffix`), so such
  a condition on a run is one on each of its moves.
-/

namespace Qnetd

open Server (Within)

/-! ## Histories grow -/

/-- An event of a move of session `i`: the algorithm aside, only that client is spoken to. -/
def Event.ofMove (i : Slot) : Event → Prop
  | .send j f => j = i ∧ ReplyFrame f
  | .close j | .connect j | .frame j _ | .recv j _ _ _ | .join j _ | .leave j _ | .accept j _ =>
    j = i
  | .vote _ _ | .phase _ _ | .unstable _ | .decide _ | .reply _ _ _ _ _ => True

/-- The history has grown by events of a move of session `i`. -/
def Grows (i : Slot) (s s' : Server) : Prop :=
  ∃ new, s'.trace = new ++ s.trace ∧ ∀ e ∈ new, e.ofMove i

theorem Grows.trans {i : Slot} {s t u : Server} (h₁ : Grows i s t) (h₂ : Grows i t u) :
    Grows i s u :=
  History.grown_trans h₁ h₂

theorem grows_emit (i : Slot) (s : Server) {e : Event} (he : e.ofMove i) : Grows i s (s.emit e) :=
  ⟨[e], rfl, by simpa using he⟩

theorem Quiet.grows {i : Slot} {s s' : Server} (h : Quiet i s s') : Grows i s s' := by
  obtain ⟨new, ht, hnew⟩ := h.trace
  refine ⟨new, ht, fun e he => ?_⟩
  have hq := hnew e he
  cases e with
  | send _ _ | close _ | frame _ _ | recv _ _ _ _ => exact hq
  | connect _ | join _ _ | leave _ _ | accept _ _ | reply _ _ _ _ _ | vote _ _ | phase _ _ | unstable _ | decide _ =>
    exact hq.elim

theorem Server.Within.grows {c : Int} {s s' : Server} (h : Within c s s') (i : Slot) :
    Grows i s s' := by
  obtain ⟨new, ht, hnew⟩ := h.trace
  refine ⟨new, ht, fun e he => ?_⟩
  have hw := hnew e he
  cases e with
  | reply _ _ _ _ _ | vote _ _ | phase _ _ | unstable _ | decide _ => trivial
  | send _ _ | close _ | frame _ _ | recv _ _ _ _ | connect _ | join _ _ | leave _ _ | accept _ _ =>
    exact hw.elim

theorem grows_enterCluster (t : Server) (i : Slot) (c : Int) (now : UInt64) :
    Grows i t (t.enterCluster i c now) := by
  by_cases hm : (t.clusters c).members = 0
  · exact ⟨[_, _], (Server.enterCluster_of_fresh t i now hm).2, by simp [Event.ofMove]⟩
  · exact ⟨[_], (Server.enterCluster_of_members t i now hm).2, by simp [Event.ofMove]⟩

/-- A move adds events of its own to the history. -/
theorem Move.grows {i : Slot} {s s' : Server} (hm : Move i s s') : Grows i s s' := by
  cases hm with
  | quiet hq => exact hq.grows
  | connect now peer hfree => exact ⟨[_], rfl, by simp [Event.ofMove]⟩
  | reinit m hact htype hrecv => exact ⟨[], rfl, by simp⟩
  | join now hphase hcheck hc =>
    have h := grows_enterCluster (s.findOrCreateCluster (s.sessions i).clusterName).2 i
      (s.findOrCreateCluster (s.sessions i).clusterName).1 now
    unfold Grows at h
    rw [Server.findOrCreateCluster_trace] at h
    exact h
  | report r m hact hfits =>
    exact (grows_emit i s (e := .accept i r) rfl).trans ((ranReport_within s i r m).grows i)
  | reply m hact hset =>
    exact (Server.handleVoteInfoReply_within s m hset
      (Server.inCluster_iff.mpr ⟨hact, rfl⟩)).grows i
  | leave =>
    by_cases hc : (s.sessions i).phase ≠ .active ∨ (s.sessions i).cluster < 0
    · have hno : s.leaveCluster i = s := by simp only [Server.leaveCluster, if_pos hc]
      rw [hno]
      exact ⟨[], rfl, by simp⟩
    · rw [not_or, not_not, not_lt] at hc
      rw [Server.left_eq hc.1 hc.2]
      exact (grows_emit i s (e := .leave i (s.sessions i).cluster) rfl).trans
        ((leaving_within i).grows i)

theorem Move.trace_suffix {i : Slot} {s s' : Server} (hm : Move i s s') : s.trace <:+ s'.trace := by
  obtain ⟨new, ht, -⟩ := hm.grows
  exact ⟨new, ht.symm⟩

/-- The server sends replies and votes, and nothing else. -/
theorem run_replies (n : UInt32) (calls : List Call) {i : Slot} {f : Frame}
    (h : .send i f ∈ (run n calls).trace) : ReplyFrame f := by
  refine run_induction (I := fun s => ∀ i f, .send i f ∈ s.trace → ReplyFrame f) (fun n => nofun) ?_
    n calls i f h
  intro j s s' hm hs i f hf
  obtain ⟨new, ht, hnew⟩ := hm.grows
  rw [ht] at hf
  rcases List.mem_append.mp hf with hf | hf
  · exact (hnew _ hf).2
  · exact hs i f hf

theorem Server.call_suffix {s : Server} (k : Call) (hq : Quiescent s) :
    s.trace <:+ (s.call k).trace := by
  have hsteps := (Server.call_steps k hq).1
  generalize s.call k = t at hsteps
  induction hsteps with
  | refl => exact List.suffix_refl _
  | tail _ hstep ih =>
    obtain ⟨i, hm⟩ := hstep
    exact ih.trans hm.trace_suffix

theorem run_trace_suffix (n : UInt32) (calls more : List Call) :
    (run n calls).trace <:+ (run n (calls ++ more)).trace := by
  induction more using List.reverseRecOn with
  | nil => rw [List.append_nil]
  | append_singleton more c ih =>
    have hsteps := (Server.call_steps c (run_steps n (calls ++ more)).2).1
    rw [← List.append_assoc, run_concat]
    generalize (run n (calls ++ more)).call c = s' at hsteps
    induction hsteps with
    | refl => exact ih
    | tail _ hstep ih' =>
      obtain ⟨i, hm⟩ := hstep
      exact ih'.trans hm.trace_suffix

/-! ## The invariant -/

structure Identity (s : Server) : Prop where
  nodeId : ∀ i j, i ≠ j → (s.sessions i).phase = .active → (s.sessions j).phase = .active →
    (s.sessions i).cluster = (s.sessions j).cluster → (s.sessions i).nodeId ≠ (s.sessions j).nodeId
  tieBreaker : ∀ i j, i ≠ j → (s.sessions i).phase = .active → (s.sessions j).phase = .active →
    (s.sessions i).cluster = (s.sessions j).cluster →
      (s.sessions i).tieBreaker.same (s.sessions j).tieBreaker = true
  algorithm : ∀ i j, i ≠ j → (s.sessions i).phase = .active → (s.sessions j).phase = .active →
    (s.sessions i).cluster = (s.sessions j).cluster →
      (s.sessions i).algorithm = (s.sessions j).algorithm
  config : ∀ i, (s.sessions i).phase = .active → (s.sessions i).configList.empty = false →
    ((s.sessions i).configList.find (s.sessions i).nodeId).isSome = true
  membership : ∀ i, (s.sessions i).phase = .active → (s.sessions i).membershipList.empty = false →
    ((s.sessions i).membershipList.find (s.sessions i).nodeId).isSome = true

/-- An INIT on an active session. -/
def Event.reinit : Event → Bool
  | .recv _ .active _ m => m.type = .init
  | _ => false

/-- An INIT on an active session with another node id than the stored one. -/
def Event.renames : Event → Bool
  | .recv _ .active nodeId m => m.type = .init && m.nodeId ≠ nodeId
  | _ => false

def NoReinit (tr : List Event) : Prop := ∀ e ∈ tr, e.reinit = false

def KeepsId (tr : List Event) : Prop := ∀ e ∈ tr, e.renames = false

theorem NoReinit.keepsId {tr : List Event} (h : NoReinit tr) : KeepsId tr := by
  intro e he
  have hr := h e he
  unfold Event.reinit at hr
  unfold Event.renames
  split at hr <;> simp_all

theorem NoReinit.of_suffix {tr tr' : List Event} (h : NoReinit tr') (hs : tr <:+ tr') :
    NoReinit tr :=
  fun e he => h e (hs.subset he)

theorem KeepsId.of_suffix {tr tr' : List Event} (h : KeepsId tr') (hs : tr <:+ tr') : KeepsId tr :=
  fun e he => h e (hs.subset he)

/-! ## Preservation -/

/-- `y` is an active session with the identity and the lists of the active session `x`. -/
structure Session.Kin (x y : Session) : Prop where
  active : x.phase = .active
  cluster : y.cluster = x.cluster
  nodeId : y.nodeId = x.nodeId
  tieBreaker : y.tieBreaker = x.tieBreaker
  algorithm : y.algorithm = x.algorithm
  configList : y.configList = x.configList
  membershipList : y.membershipList = x.membershipList

theorem Identity.of_kin {s s' : Server} (h : Identity s)
    (hs : ∀ j, (s'.sessions j).phase = .active → Session.Kin (s.sessions j) (s'.sessions j)) :
    Identity s' where
  nodeId i j hij hi hj hc := by
    rw [(hs i hi).cluster, (hs j hj).cluster] at hc
    rw [(hs i hi).nodeId, (hs j hj).nodeId]
    exact h.nodeId i j hij (hs i hi).active (hs j hj).active hc
  tieBreaker i j hij hi hj hc := by
    rw [(hs i hi).cluster, (hs j hj).cluster] at hc
    rw [(hs i hi).tieBreaker, (hs j hj).tieBreaker]
    exact h.tieBreaker i j hij (hs i hi).active (hs j hj).active hc
  algorithm i j hij hi hj hc := by
    rw [(hs i hi).cluster, (hs j hj).cluster] at hc
    rw [(hs i hi).algorithm, (hs j hj).algorithm]
    exact h.algorithm i j hij (hs i hi).active (hs j hj).active hc
  config i hi he := by
    rw [(hs i hi).configList] at he
    rw [(hs i hi).configList, (hs i hi).nodeId]
    exact h.config i (hs i hi).active he
  membership i hi he := by
    rw [(hs i hi).membershipList] at he
    rw [(hs i hi).membershipList, (hs i hi).nodeId]
    exact h.membership i (hs i hi).active he

theorem Session.kin_refl {x : Session} (h : x.phase = .active) : Session.Kin x x :=
  ⟨h, rfl, rfl, rfl, rfl, rfl, rfl⟩

theorem Session.Alike.kin {x y : Session} (h : Session.Alike x y) (hy : y.phase = .active) :
    Session.Kin x y := by
  have hx := h.active.mp hy
  obtain ⟨-, hid, -, htb, halg⟩ := h.identity hx
  exact ⟨hx, h.cluster, hid, htb, halg, h.configList, h.membershipList⟩

theorem Server.SameButVotes.kin {s s' : Server} (h : Server.SameButVotes s s') (j : Slot)
    (hj : (s'.sessions j).phase = .active) : Session.Kin (s.sessions j) (s'.sessions j) :=
  ⟨(h.phase j).symm.trans hj, h.cluster j, h.nodeId j, (congrArg Session.tieBreaker (h j) :),
    (congrArg Session.algorithm (h j) :), h.configList j, h.membershipList j⟩

/-- A client that passes the check agrees with every active session under its cluster's name. -/
theorem initCheck_of_noError {s : Server} {i : Slot} (h : s.initCheckNewClient i = .noError)
    {j : Slot} (hj : j ≠ i)
    (hact : (s.sessions j).phase = .active)
    (hname : (s.sessions j).clusterName = (s.sessions i).clusterName) :
    (s.sessions i).tieBreaker.same (s.sessions j).tieBreaker = true ∧
      (s.sessions i).algorithm = (s.sessions j).algorithm ∧
      (s.sessions i).nodeId ≠ (s.sessions j).nodeId := by
  have hnone : s.initConflict i j = none := by
    unfold Server.initCheckNewClient at h
    cases hf : (List.finRange MAX_CLIENTS).findSome? (s.initConflict i) with
    | none => exact List.findSome?_eq_none_iff.mp hf j (List.mem_finRange j)
    | some code =>
      -- every complaint is an error
      obtain ⟨k, -, hk⟩ := List.exists_of_findSome?_eq_some hf
      rw [hf] at h
      simp only [Server.initConflict] at hk
      split_ifs at hk <;> simp_all
  simp only [Server.initConflict] at hnone
  rw [if_neg (by simp [hj, hact, hname])] at hnone
  split_ifs at hnone with h1 h2 h3
  exact ⟨by simpa using h1, not_not.mp h2, h3⟩

theorem Joined.identity {i : Slot} {c : Int} {s s' : Server} (hj : Joined i c s s') (ht : Table s)
    (h : Identity s)
    (hphase : (s.sessions i).phase ≠ .active) (hcheck : s.initCheckNewClient i = .noError) :
    Identity s' := by
  obtain ⟨d, hself⟩ := hj.self
  have hidle := ht.idle i hphase
  -- the new member against an old one
  have hnew : ∀ j, j ≠ i → (s'.sessions j).phase = .active →
      (s'.sessions j).cluster = (s'.sessions i).cluster →
      (s'.sessions i).tieBreaker.same (s'.sessions j).tieBreaker = true ∧
        (s'.sessions i).algorithm = (s'.sessions j).algorithm ∧
          (s'.sessions i).nodeId ≠ (s'.sessions j).nodeId := by
    intro j hji hact hc
    rw [hself] at hc ⊢
    rw [hj.others j hji] at hact hc ⊢
    have hused := ht.used j hact
    have hname := ht.name j hact
    change (s.sessions j).cluster = c at hc
    rw [hc] at hused hname
    rcases hj.record with ⟨-, hn, -, -⟩ | ⟨h0, -, -, -⟩
    · exact initCheck_of_noError hcheck hji hact (hname.symm.trans hn)
    · rw [h0] at hused
      cases hused
  refine ⟨fun a b hab ha hb hc => ?_, fun a b hab ha hb hc => ?_, fun a b hab ha hb hc => ?_,
    fun a ha he => ?_, fun a ha he => ?_⟩
  · by_cases hai : a = i
    · subst hai
      exact (hnew b hab.symm hb hc.symm).2.2
    · by_cases hbi : b = i
      · subst hbi
        exact (hnew a hai ha hc).2.2.symm
      · rw [hj.others a hai] at ha hc ⊢
        rw [hj.others b hbi] at hb hc ⊢
        exact h.nodeId a b hab ha hb hc
  · by_cases hai : a = i
    · subst hai
      exact (hnew b hab.symm hb hc.symm).1
    · by_cases hbi : b = i
      · subst hbi
        rw [TieBreaker.same_comm]
        exact (hnew a hai ha hc).1
      · rw [hj.others a hai] at ha hc ⊢
        rw [hj.others b hbi] at hb hc ⊢
        exact h.tieBreaker a b hab ha hb hc
  · by_cases hai : a = i
    · subst hai
      exact (hnew b hab.symm hb hc.symm).2.1
    · by_cases hbi : b = i
      · subst hbi
        exact (hnew a hai ha hc).2.1.symm
      · rw [hj.others a hai] at ha hc ⊢
        rw [hj.others b hbi] at hb hc ⊢
        exact h.algorithm a b hab ha hb hc
  · by_cases hai : a = i
    · subst hai
      rw [hself] at he
      change (s.sessions a).configList.empty = false at he
      rw [hidle.configList] at he
      cases he
    · rw [hj.others a hai] at ha he ⊢
      exact h.config a ha he
  · by_cases hai : a = i
    · subst hai
      rw [hself] at he
      change (s.sessions a).membershipList.empty = false at he
      rw [hidle.membershipList] at he
      cases he
    · rw [hj.others a hai] at ha he ⊢
      exact h.membership a ha he

theorem Identity.reportView {s : Server} {i : Slot} (h : Identity s)
    (hact : (s.sessions i).phase = .active)
    {r : Report} {m : MsgDecoded} (hfits : Server.Fits m (s.sessions i) r) :
    ((s.reportView i m r).config.empty = false →
      ((s.reportView i m r).config.find (s.sessions i).nodeId).isSome = true) ∧
    ((s.reportView i m r).membership.empty = false →
      ((s.reportView i m r).membership.find (s.sessions i).nodeId).isSome = true) := by
  have hc := h.config i hact
  have hm := h.membership i hact
  cases r with
  | heuristics => exact ⟨hc, hm⟩
  | list type =>
    cases type with
    | initialConfig => exact ⟨fun _ => hfits, hm⟩
    | changedConfig => exact ⟨fun _ => hfits, hm⟩
    | membership => exact ⟨hc, fun _ => hfits⟩
    | quorum => exact ⟨hc, hm⟩

theorem Identity.reported {s : Server} {i : Slot} (h : Identity s)
    (hact : (s.sessions i).phase = .active)
    {r : Report} {m : MsgDecoded} (hfits : Server.Fits m (s.sessions i) r) :
    Identity (s.reported i r m) := by
  have hsame := Server.ranReport_sameButVotes s i r m
  have hran : Identity (s.ranReport i r m) := h.of_kin fun j hj => hsame.kin j hj
  have hself : (s.reported i r m).sessions i =
      Server.stored (s.reportView i m r) ((s.ranReport i r m).sessions i) :=
        Server.modify_self _ _ _
  have hne : ∀ {j}, j ≠ i → (s.reported i r m).sessions j = (s.ranReport i r m).sessions j :=
    fun hj => Server.modify_of_ne _ _ hj
  -- the identity itself is not in the report
  have hid : ∀ j, ((s.reported i r m).sessions j).phase = ((s.ranReport i r m).sessions j).phase ∧
      ((s.reported i r m).sessions j).cluster = ((s.ranReport i r m).sessions j).cluster ∧
      ((s.reported i r m).sessions j).nodeId = ((s.ranReport i r m).sessions j).nodeId ∧
      ((s.reported i r m).sessions j).tieBreaker = ((s.ranReport i r m).sessions j).tieBreaker ∧
      ((s.reported i r m).sessions j).algorithm = ((s.ranReport i r m).sessions j).algorithm := by
    intro j
    by_cases hj : j = i
    · subst hj
      rw [hself]
      exact ⟨rfl, rfl, rfl, rfl, rfl⟩
    · rw [hne hj]
      exact ⟨rfl, rfl, rfl, rfl, rfl⟩
  obtain ⟨hcfg, hmem⟩ := h.reportView hact hfits
  refine ⟨fun a b hab ha hb hc => ?_, fun a b hab ha hb hc => ?_, fun a b hab ha hb hc => ?_,
    fun a ha he => ?_, fun a ha he => ?_⟩
  · obtain ⟨pa, ca, na, -, -⟩ := hid a
    obtain ⟨pb, cb, nb, -, -⟩ := hid b
    rw [na, nb]
    exact hran.nodeId a b hab (pa ▸ ha) (pb ▸ hb) (ca ▸ cb ▸ hc)
  · obtain ⟨pa, ca, -, ta, -⟩ := hid a
    obtain ⟨pb, cb, -, tb, -⟩ := hid b
    rw [ta, tb]
    exact hran.tieBreaker a b hab (pa ▸ ha) (pb ▸ hb) (ca ▸ cb ▸ hc)
  · obtain ⟨pa, ca, -, -, aa⟩ := hid a
    obtain ⟨pb, cb, -, -, ab⟩ := hid b
    rw [aa, ab]
    exact hran.algorithm a b hab (pa ▸ ha) (pb ▸ hb) (ca ▸ cb ▸ hc)
  · by_cases hai : a = i
    · subst hai
      rw [hself] at he ⊢
      change ((s.reportView a m r).config.find
        ((s.ranReport a r m).sessions a).nodeId).isSome = true
      rw [hsame.nodeId a]
      exact hcfg he
    · rw [hne hai] at ha he ⊢
      exact hran.config a ha he
  · by_cases hai : a = i
    · subst hai
      rw [hself] at he ⊢
      change ((s.reportView a m r).membership.find
        ((s.ranReport a r m).sessions a).nodeId).isSome = true
      rw [hsame.nodeId a]
      exact hmem he
    · rw [hne hai] at ha he ⊢
      exact hran.membership a ha he

/-- Every move that keeps node ids preserves the identity of members. -/
theorem Move.identity {i : Slot} {s s' : Server} (hm : Move i s s') (ht : Table s)
    (hk : KeepsId s'.trace) (h : Identity s) : Identity s' := by
  cases hm with
  | quiet hq => exact h.of_kin fun j hj => (hq.alike j).kin hj
  | connect now peer hfree =>
    refine h.of_kin fun j hj => ?_
    rw [Server.emit_sessions, Server.modify_apply] at hj ⊢
    split_ifs at hj ⊢ with hji
    exact Session.kin_refl hj
  | reinit m hact htype hrecv =>
    have hid : m.nodeId = (s.sessions i).nodeId := by
      have := hk _ hrecv
      simpa [Event.renames, htype] using this
    refine h.of_kin fun j hj => ?_
    rw [Server.modify_apply] at hj ⊢
    split_ifs at hj ⊢ with hji
    · subst hji
      exact ⟨hj, rfl, hid, rfl, rfl, rfl, rfl⟩
    · exact Session.kin_refl hj
  | join now hphase hcheck hc =>
    obtain ⟨c, hj⟩ := ht.joined now hc
    exact hj.identity ht h hphase hcheck
  | report r m hact hfits => exact h.reported hact hfits
  | reply m hact hset =>
    exact h.of_kin fun j hj => (Server.handleVoteInfoReply_within s m hset
      (Server.inCluster_iff.mpr ⟨hact, rfl⟩)).same.kin j hj
  | leave =>
    by_cases hact : (s.sessions i).phase = .active
    · rw [Server.left_eq hact (ht.range i hact).1]
      refine h.of_kin fun j hj => ?_
      have hji : j ≠ i := by
        intro hji
        rw [hji, Server.removed_self] at hj
        cases hj
      rw [Server.removed_of_ne _ _ hji] at hj ⊢
      exact (leaving_within i).same.kin j hj
    · rw [Server.left_of_not_active hact]
      refine h.of_kin fun j hj => ?_
      rw [Server.reset, Server.modify_apply] at hj ⊢
      split_ifs at hj ⊢ with hji
      exact Session.kin_refl hj

theorem identity_init (n : UInt32) : Identity (Server.init n) := ⟨nofun, nofun, nofun, nofun, nofun⟩

theorem run_identity (n : UInt32) (calls : List Call) (h : KeepsId (run n calls).trace) :
    Identity (run n calls) := by
  have hinv := run_induction (I := fun s => Table s ∧ (KeepsId s.trace → Identity s))
    (fun n => ⟨table_init n, fun _ => identity_init n⟩)
    (fun hm hs =>
      ⟨hm.table hs.1, fun hk => hm.identity hs.1 hk (hs.2 (hk.of_suffix hm.trace_suffix))⟩) n calls
  exact hinv.2 h

/-! ## Runs -/

/-- Member identity, in every state of every run in which an INIT on an active session carries the
session's own node id. -/
theorem members_keep_identity (n : UInt32) (calls : List Call) (h : KeepsId (run n calls).trace)
    (k : Nat) : Identity (run n (calls.take k)) := by
  have hs := run_trace_suffix n (calls.take k) (calls.drop k)
  rw [List.take_append_drop] at hs
  exact run_identity n (calls.take k) (h.of_suffix hs)

/-- Nodes 1 and 2 join the cluster "t". -/
def twoJoined : List Call := Rig.join 0 [116] 1 {} ++ Rig.join 1 [116] 2 {}

/-- Node 2 repeats its INIT. -/
theorem members_keep_identity_repeated :
    KeepsId (run 32768 (twoJoined ++ Rig.feed 1 [MockClient.init 3 2 {}])).trace ∧
      Identity (run 32768 ((twoJoined ++ Rig.feed 1 [MockClient.init 3 2 {}]).take 7)) :=
  have h : KeepsId (run 32768 (twoJoined ++ Rig.feed 1 [MockClient.init 3 2 {}])).trace := by
    unfold KeepsId
    decide +kernel
  ⟨h, members_keep_identity _ _ h 7⟩

/-- Node 2 sends another INIT, with the id of node 1: it is refused, and the id is taken over. -/
theorem reinit_takes_over_nodeId :
    ((run 32768 (twoJoined ++ Rig.feed 1 [MockClient.init 3 1 {}])).sessions 0).phase = .active ∧
    ((run 32768 (twoJoined ++ Rig.feed 1 [MockClient.init 3 1 {}])).sessions 1).phase = .active ∧
    ((run 32768 (twoJoined ++ Rig.feed 1 [MockClient.init 3 1 {}])).sessions 0).cluster =
      ((run 32768 (twoJoined ++ Rig.feed 1 [MockClient.init 3 1 {}])).sessions 1).cluster ∧
    ((run 32768 (twoJoined ++ Rig.feed 1 [MockClient.init 3 1 {}])).sessions 0).nodeId =
      ((run 32768 (twoJoined ++ Rig.feed 1 [MockClient.init 3 1 {}])).sessions 1).nodeId ∧
    ¬Identity (run 32768 (twoJoined ++ Rig.feed 1 [MockClient.init 3 1 {}])) := by
  set s := run 32768 (twoJoined ++ Rig.feed 1 [MockClient.init 3 1 {}]) with hs
  obtain ⟨h0, h1, hc, hn⟩ : (s.sessions 0).phase = .active ∧ (s.sessions 1).phase = .active ∧
      (s.sessions 0).cluster = (s.sessions 1).cluster ∧
        (s.sessions 0).nodeId = (s.sessions 1).nodeId := by
    rw [hs]
    decide +kernel
  exact ⟨h0, h1, hc, hn, fun h => h.nodeId 0 1 (by decide) h0 h1 hc hn⟩

end Qnetd
