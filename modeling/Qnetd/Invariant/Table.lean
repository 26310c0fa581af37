import Mathlib.Data.Fintype.Card
import Qnetd.Server.Turns

/-!
# The session and cluster tables

* `Table` : the invariant of the two tables. An active session points at a used cluster of its name,
  every other session at none; `members` counts the active sessions of a cluster, and only a cluster
  with members is used;
* `SameTable` : a change the invariant cannot see. Quiet moves, reports and votes are such changes
  (`sameTable_of_within`);
* `Table.joined`, `left_eq` : what joining and leaving do to the tables;
* `Move.table` : every move preserves the invariant; `run_table` : it holds after every public call.
-/

namespace Qnetd

open Server (Within)

def Server.roster (s : Server) (c : Int) : Finset Slot :=
  Finset.univ.filter fun i => s.inCluster c i = true

theorem Server.mem_roster {s : Server} {c : Int} {i : Slot} :
    i ∈ s.roster c ↔ s.inCluster c i = true := by
  simp [Server.roster]

/-- A session that belongs to no cluster, and has nothing of one. -/
structure Session.Idle (x : Session) : Prop where
  cluster : x.cluster = -1
  configList : x.configList = {}
  membershipList : x.membershipList = {}
  ffState : x.ffState = .waitingForChange

theorem Session.idle_default : Session.Idle {} := ⟨rfl, rfl, rfl, rfl⟩

structure Table (s : Server) : Prop where
  range : ∀ i, (s.sessions i).phase = .active → 0 ≤ (s.sessions i).cluster ∧
    (s.sessions i).cluster < MAX_CLUSTERS
  used : ∀ i, (s.sessions i).phase = .active → (s.clusters (s.sessions i).cluster).used = true
  name : ∀ i, (s.sessions i).phase = .active →
    (s.clusters (s.sessions i).cluster).name = (s.sessions i).clusterName
  idle : ∀ i, (s.sessions i).phase ≠ .active → (s.sessions i).Idle
  members : ∀ c, (s.clusters c).members = (s.roster c).card
  used_iff : ∀ c, (s.clusters c).used = true ↔ 0 < (s.clusters c).members
  unused : ∀ c, (s.clusters c).used = false → s.clusters c = {}
  names : ∀ c c', (s.clusters c).used = true → (s.clusters c').used = true →
    (s.clusters c).name = (s.clusters c').name → c = c'

theorem table_init (n : UInt32) : Table (Server.init n) where
  range := nofun
  used := nofun
  name := nofun
  idle := fun _ _ => Session.idle_default
  members := by
    intro c
    have h : (Server.init n).roster c = ∅ := by
      ext i
      simp [Server.mem_roster, Server.inCluster_iff, Server.init]
    rw [h]
    rfl
  used_iff := by simp [Server.init]
  unused := fun _ _ => rfl
  names := nofun

/-! ## Changes the tables do not show -/

structure SameTable (s s' : Server) : Prop where
  active : ∀ i, (s'.sessions i).phase = .active ↔ (s.sessions i).phase = .active
  cluster : ∀ i, (s'.sessions i).cluster = (s.sessions i).cluster
  clusterName : ∀ i, (s.sessions i).phase = .active →
    (s'.sessions i).clusterName = (s.sessions i).clusterName
  idle : ∀ i, (s.sessions i).phase ≠ .active → (s.sessions i).Idle → (s'.sessions i).Idle
  record : ∀ c, (s'.clusters c).used = (s.clusters c).used ∧
    (s'.clusters c).name = (s.clusters c).name ∧ (s'.clusters c).members = (s.clusters c).members
  unused : ∀ c, (s.clusters c).used = false → s'.clusters c = s.clusters c

theorem SameTable.inCluster {s s' : Server} (h : SameTable s s') (c : Int) (i : Slot) :
    s'.inCluster c i = s.inCluster c i := by
  rw [Bool.eq_iff_iff, Server.inCluster_iff, Server.inCluster_iff, h.active i, h.cluster i]

theorem SameTable.trans {s t u : Server} (h₁ : SameTable s t) (h₂ : SameTable t u) :
    SameTable s u where
  active i := (h₂.active i).trans (h₁.active i)
  cluster i := (h₂.cluster i).trans (h₁.cluster i)
  clusterName i hi := (h₂.clusterName i ((h₁.active i).mpr hi)).trans (h₁.clusterName i hi)
  idle i hi hidle := h₂.idle i (fun h => hi ((h₁.active i).mp h)) (h₁.idle i hi hidle)
  record c := ⟨(h₂.record c).1.trans (h₁.record c).1, (h₂.record c).2.1.trans (h₁.record c).2.1,
    (h₂.record c).2.2.trans (h₁.record c).2.2⟩
  unused c hc := (h₂.unused c ((h₁.record c).1.trans hc)).trans (h₁.unused c hc)

theorem Table.of_same {s s' : Server} (h : Table s) (hs : SameTable s s') : Table s' where
  range i hi := by
    rw [hs.cluster i]
    exact h.range i ((hs.active i).mp hi)
  used i hi := by
    rw [(hs.record _).1, hs.cluster i]
    exact h.used i ((hs.active i).mp hi)
  name i hi := by
    rw [(hs.record _).2.1, hs.cluster i, hs.clusterName i ((hs.active i).mp hi)]
    exact h.name i ((hs.active i).mp hi)
  idle i hi :=
    hs.idle i (fun ha => hi ((hs.active i).mpr ha)) (h.idle i fun ha => hi ((hs.active i).mpr ha))
  members c := by
    have hr : s'.roster c = s.roster c := by
      ext i
      rw [Server.mem_roster, Server.mem_roster, hs.inCluster]
    rw [(hs.record c).2.2, hr]
    exact h.members c
  used_iff c := by
    rw [(hs.record c).1, (hs.record c).2.2]
    exact h.used_iff c
  unused c hc := by
    have hc' : (s.clusters c).used = false := (hs.record c).1.symm.trans hc
    rw [hs.unused c hc']
    exact h.unused c hc'
  names c c' hc hc' hn := by
    rw [(hs.record c).1] at hc
    rw [(hs.record c').1] at hc'
    rw [(hs.record c).2.1, (hs.record c').2.1] at hn
    exact h.names c c' hc hc' hn

theorem sameTable_of_alike {s s' : Server} (hs : ∀ i, Session.Alike (s.sessions i) (s'.sessions i))
    (hc : s'.clusters = s.clusters) : SameTable s s' where
  active i := (hs i).active
  cluster i := (hs i).cluster
  clusterName i hi := ((hs i).identity hi).1
  idle i _ h := ⟨(hs i).cluster.trans h.cluster, (hs i).configList.trans h.configList,
    (hs i).membershipList.trans h.membershipList, (hs i).ffState.trans h.ffState⟩
  record c := by rw [hc]; exact ⟨rfl, rfl, rfl⟩
  unused c _ := by rw [hc]

theorem Quiet.alike {i : Slot} {s s' : Server} (h : Quiet i s s') (j : Slot) :
    Session.Alike (s.sessions j) (s'.sessions j) := by
  by_cases hj : j = i
  · rw [hj]
    exact h.self
  · rw [h.others j hj]
    exact .refl _

theorem sameTable_of_within {c : Int} {s s' : Server} (h : Within c s s')
    (hused : (s.clusters c).used = true) : SameTable s s' where
  active i := by rw [h.same.phase i]
  cluster i := h.same.cluster i
  clusterName i _ := (congrArg Session.clusterName (h.same i) :)
  idle i hi hidle := by
    have hout : s.inCluster c i = false := by
      rw [← Bool.not_eq_true, Server.inCluster_iff]
      exact fun hin => hi hin.1
    rw [h.outside i hout]
    exact hidle
  record c' := by
    by_cases hc : c' = c
    · obtain ⟨st, q, hcl⟩ := h.cluster
      rw [hc, hcl]
      exact ⟨rfl, rfl, rfl⟩
    · rw [h.clusters c' hc]
      exact ⟨rfl, rfl, rfl⟩
  unused c' hc' := by
    refine h.clusters c' fun hc => ?_
    rw [hc, hused] at hc'
    cases hc'

/-! ## Joining -/

theorem Table.exists_member {s : Server} (h : Table s) {c : Int} (hc : (s.clusters c).used = true) :
    ∃ i, s.inCluster c i = true := by
  have hpos := (h.used_iff c).mp hc
  rw [h.members c] at hpos
  obtain ⟨i, hi⟩ := Finset.card_pos.mp (Int.natCast_pos.mp hpos)
  exact ⟨i, Server.mem_roster.mp hi⟩

theorem Table.used_range {s : Server} (h : Table s) {c : Int} (hc : (s.clusters c).used = true) :
    c ∈ Server.clusterIndices := by
  obtain ⟨i, hi⟩ := h.exists_member hc
  obtain ⟨hact, hcl⟩ := Server.inCluster_iff.mp hi
  rw [← hcl]
  exact Server.mem_clusterIndices.mpr (h.range i hact)

theorem Table.not_inCluster {s : Server} (h : Table s) {c : Int} (hc : (s.clusters c).used = false)
    (i : Slot) : s.inCluster c i = false := by
  rw [← Bool.not_eq_true, Server.inCluster_iff]
  rintro ⟨hact, hcl⟩
  have hu := h.used i hact
  rw [hcl, hc] at hu
  cases hu

/-- Session `i` has entered cluster `c`, which was in use under its name, or is fresh. -/
structure Joined (i : Slot) (c : Int) (s s' : Server) : Prop where
  self : ∃ d, s'.sessions i = { s.sessions i with cluster := c, phase := .active, deadlineMs := d }
  others : ∀ j, j ≠ i → s'.sessions j = s.sessions j
  clusters : ∀ c', c' ≠ c → s'.clusters c' = s.clusters c'
  range : 0 ≤ c ∧ c < MAX_CLUSTERS
  record :
    ((s.clusters c).used = true ∧ (s.clusters c).name = (s.sessions i).clusterName ∧
      s'.clusters c = { s.clusters c with members := (s.clusters c).members + 1 } ∧
      s'.trace = .join i c :: s.trace) ∨
    (s.clusters c = {} ∧
      (∀ c', (s.clusters c').used = true → (s.clusters c').name ≠ (s.sessions i).clusterName) ∧
      s'.clusters c = { used := true, name := (s.sessions i).clusterName, members := 1 } ∧
      s'.trace = .join i c :: .phase c .waitingForChange :: s.trace)

theorem Joined.trace_suffix {i : Slot} {c : Int} {s s' : Server} (h : Joined i c s s') :
    s.trace <:+ s'.trace := by
  rcases h.record with ⟨-, -, -, ht⟩ | ⟨-, -, -, ht⟩
  · exact ⟨[_], ht.symm⟩
  · exact ⟨[_, _], ht.symm⟩

theorem Table.joined {i : Slot} {s : Server} (h : Table s) (now : UInt64)
    (hc : 0 ≤ (s.findOrCreateCluster (s.sessions i).clusterName).1) :
    ∃ c, Joined i c s ((s.findOrCreateCluster (s.sessions i).clusterName).2.enterCluster i
      (s.findOrCreateCluster (s.sessions i).clusterName).1 now) := by
  rcases Server.findOrCreateCluster_cases s (s.sessions i).clusterName with
    ⟨c, hm, hu, hn, heq⟩ | ⟨c, hm, hu, hnone, heq⟩ | heq
  · rw [heq]
    obtain ⟨d, hd⟩ :=
      Session.rescheduled_eq now { s.sessions i with cluster := c, phase := .active }
    have hpos := (h.used_iff c).mp hu
    obtain ⟨hcl, htr⟩ := Server.enterCluster_of_members s i now (c := c) (by omega)
    exact ⟨c, ⟨d, (Server.enterCluster_self s i c now).trans hd⟩,
      fun j hj => Server.enterCluster_of_ne s c now hj,
      fun c' hc' => Server.enterCluster_clusters_of_ne s i now hc', Server.mem_clusterIndices.mp hm,
      Or.inl ⟨hu, hn, hcl, htr⟩⟩
  · rw [heq]
    set t := s.modifyCluster c fun _ => { used := true, name := (s.sessions i).clusterName } with ht
    obtain ⟨d, hd⟩ :=
      Session.rescheduled_eq now { s.sessions i with cluster := c, phase := .active }
    have htc : t.clusters c = { used := true, name := (s.sessions i).clusterName } := by
      rw [ht, Server.modifyCluster_self]
    obtain ⟨hcl, htr⟩ := Server.enterCluster_of_fresh t i now (c := c) (by rw [htc])
    refine ⟨c, ⟨d, (Server.enterCluster_self t i c now).trans hd⟩,
      fun j hj => Server.enterCluster_of_ne t c now hj,
      fun c' hc' => ?_, Server.mem_clusterIndices.mp hm, Or.inr ⟨h.unused c hu, ?_, ?_, htr⟩⟩
    · rw [Server.enterCluster_clusters_of_ne t i now hc', ht, Server.modifyCluster_of_ne _ _ hc']
    · intro c' hc'
      exact hnone c' (h.used_range hc') hc'
    · rw [hcl, htc]
  · rw [heq] at hc
    exact absurd hc (by simp)

theorem Joined.inCluster_self {i : Slot} {c : Int} {s s' : Server} (h : Joined i c s s')
    (c' : Int) : s'.inCluster c' i = decide (c' = c) := by
  obtain ⟨d, hd⟩ := h.self
  rw [Bool.eq_iff_iff, Server.inCluster_iff, hd, decide_eq_true_eq]
  exact ⟨fun hx => hx.2.symm, fun hx => ⟨rfl, hx.symm⟩⟩

theorem Joined.inCluster_of_ne {i j : Slot} {c : Int} {s s' : Server} (h : Joined i c s s')
    (hj : j ≠ i) (c' : Int) : s'.inCluster c' j = s.inCluster c' j := by
  unfold Server.inCluster
  rw [h.others j hj]

theorem Joined.roster {i : Slot} {c : Int} {s s' : Server} (h : Joined i c s s')
    (hphase : (s.sessions i).phase ≠ .active) (c' : Int) :
    ((s'.roster c').card : Int) = (s.roster c').card + if c' = c then 1 else 0 := by
  have hnot : i ∉ s.roster c' := by
    rw [Server.mem_roster, Server.inCluster_iff]
    exact fun hx => hphase hx.1
  by_cases hc : c' = c
  · have hins : s'.roster c' = insert i (s.roster c') := by
      ext j
      rw [Finset.mem_insert, Server.mem_roster, Server.mem_roster]
      by_cases hj : j = i
      · simp [hj, h.inCluster_self, hc]
      · simp [hj, h.inCluster_of_ne hj]
    rw [hins, Finset.card_insert_of_notMem hnot, if_pos hc]
    rfl
  · have hsame : s'.roster c' = s.roster c' := by
      ext j
      rw [Server.mem_roster, Server.mem_roster]
      by_cases hj : j = i
      · rw [hj, h.inCluster_self, decide_eq_false hc]
        rw [Server.mem_roster] at hnot
        simpa using hnot
      · rw [h.inCluster_of_ne hj]
    rw [hsame, if_neg hc, Int.add_zero]

theorem Joined.record_used {i : Slot} {c : Int} {s s' : Server} (h : Joined i c s s') :
    (s'.clusters c).used = true ∧ (s'.clusters c).name = (s.sessions i).clusterName ∧
      (s'.clusters c).members = (s.clusters c).members + 1 := by
  rcases h.record with ⟨hu, hn, hcl, -⟩ | ⟨h0, -, hcl, -⟩
  · rw [hcl]
    exact ⟨hu, hn, rfl⟩
  · rw [hcl, h0]
    exact ⟨rfl, rfl, rfl⟩

theorem Joined.name_ne {i : Slot} {c c' : Int} {s s' : Server} (h : Joined i c s s') (ht : Table s)
    (hne : c' ≠ c)
    (hu : (s.clusters c').used = true) : (s.clusters c').name ≠ (s.sessions i).clusterName := by
  rcases h.record with ⟨hu', hn, -, -⟩ | ⟨-, hnone, -, -⟩
  · intro hn'
    exact hne (ht.names c' c hu hu' (hn'.trans hn.symm))
  · exact hnone c' hu

theorem Joined.table {i : Slot} {c : Int} {s s' : Server} (h : Joined i c s s')
    (hphase : (s.sessions i).phase ≠ .active) (ht : Table s) : Table s' := by
  obtain ⟨d, hself⟩ := h.self
  obtain ⟨hu, hn, hm⟩ := h.record_used
  have hpos : 0 ≤ (s.clusters c).members := by
    rw [ht.members c]
    exact Int.natCast_nonneg _
  refine ⟨fun j hj => ?_, fun j hj => ?_, fun j hj => ?_, fun j hj => ?_, fun c' => ?_,
    fun c' => ?_, fun c' hc' => ?_, fun c₁ c₂ h₁ h₂ hn' => ?_⟩
  · by_cases hji : j = i
    · rw [hji, hself]
      exact h.range
    · rw [h.others j hji] at hj ⊢
      exact ht.range j hj
  · by_cases hji : j = i
    · rw [hji, hself]
      exact hu
    · rw [h.others j hji] at hj ⊢
      by_cases hc : (s.sessions j).cluster = c
      · rw [hc]
        exact hu
      · rw [h.clusters _ hc]
        exact ht.used j hj
  · by_cases hji : j = i
    · rw [hji, hself]
      exact hn
    · rw [h.others j hji] at hj ⊢
      by_cases hc : (s.sessions j).cluster = c
      · rw [hc, hn]
        by_contra hne
        rcases h.record with ⟨-, hn', -, -⟩ | ⟨h0, -, -, -⟩
        · exact hne (by rw [← hn', ← hc]; exact ht.name j hj)
        · have hju := ht.used j hj
          rw [hc, h0] at hju
          cases hju
      · rw [h.clusters _ hc]
        exact ht.name j hj
  · have hji : j ≠ i := by
      intro hji
      rw [hji, hself] at hj
      exact hj rfl
    rw [h.others j hji] at hj ⊢
    exact ht.idle j hj
  · rw [h.roster hphase c']
    by_cases hc : c' = c
    · rw [hc, hm, ht.members c, if_pos rfl]
    · rw [h.clusters c' hc, ht.members c', if_neg hc, Int.add_zero]
  · by_cases hc : c' = c
    · rw [hc, hm, hu]
      simp only [true_iff]
      omega
    · rw [h.clusters c' hc]
      exact ht.used_iff c'
  · have hc : c' ≠ c := by
      intro hc
      rw [hc, hu] at hc'
      cases hc'
    rw [h.clusters c' hc] at hc' ⊢
    exact ht.unused c' hc'
  · by_cases hc₁ : c₁ = c <;> by_cases hc₂ : c₂ = c
    · rw [hc₁, hc₂]
    · rw [h.clusters c₂ hc₂] at h₂ hn'
      rw [hc₁, hn] at hn'
      exact absurd hn'.symm (h.name_ne ht hc₂ h₂)
    · rw [h.clusters c₁ hc₁] at h₁ hn'
      rw [hc₂, hn] at hn'
      exact absurd hn' (h.name_ne ht hc₁ h₁)
    · rw [h.clusters c₁ hc₁] at h₁ hn'
      rw [h.clusters c₂ hc₂] at h₂ hn'
      exact ht.names c₁ c₂ h₁ h₂ hn'

/-! ## Leaving -/

/-- The server when the decision without it is taken and session `i` of cluster `c` is gone. -/
def Server.removed (t : Server) (i : Slot) (c : Int) : Server :=
  { t with
    sessions := Function.update t.sessions i {}
    clusters := Function.update t.clusters c
      (if (t.clusters c).members - 1 ≤ 0 then {}
       else { t.clusters c with members := (t.clusters c).members - 1 }) }

namespace Server

/-- The decision a leaving session triggers. -/
def leaving (s : Server) (i : Slot) : Server :=
  ((s.emit (.leave i (s.sessions i).cluster)).ffsplitDo (s.storedView i true)).2.2

theorem left_eq {s : Server} {i : Slot} (hact : (s.sessions i).phase = .active)
    (hc : 0 ≤ (s.sessions i).cluster) :
    (s.leaveCluster i).reset i = (s.leaving i).removed i (s.sessions i).cluster := by
  have h0 : ¬((s.sessions i).phase ≠ .active ∨ (s.sessions i).cluster < 0) := by
    rw [not_or, not_not]
    exact ⟨hact, not_lt.mpr hc⟩
  have hview : (s.emit (.leave i (s.sessions i).cluster)).storedView i true = s.storedView i true :=
    rfl
  have hdo : ((s.emit (.leave i (s.sessions i).cluster)).ffsplitDo (s.storedView i true)).2.2 =
      s.leaving i :=
    rfl
  simp only [leaveCluster, if_neg h0, hview, hdo]
  by_cases hm : (((s.leaving i).modifyCluster (s.sessions i).cluster
      fun cl => { cl with members := cl.members - 1 }).clusters (s.sessions i).cluster).members ≤ 0
  · have hm' : ((s.leaving i).clusters (s.sessions i).cluster).members - 1 ≤ 0 := by simpa using hm
    rw [if_pos hm, removed, if_pos hm']
    simp [reset, modify, modifyCluster]
  · have hm' : ¬((s.leaving i).clusters (s.sessions i).cluster).members - 1 ≤ 0 := by simpa using hm
    rw [if_neg hm, removed, if_neg hm']
    simp [reset, modify, modifyCluster]

theorem left_of_not_active {s : Server} {i : Slot} (hact : (s.sessions i).phase ≠ .active) :
    (s.leaveCluster i).reset i = s.reset i := by
  simp [leaveCluster, hact]

theorem removed_self (t : Server) (i : Slot) (c : Int) : (t.removed i c).sessions i = {} := by
  simp [removed]

theorem removed_of_ne (t : Server) {i j : Slot} (c : Int) (h : j ≠ i) :
    (t.removed i c).sessions j = t.sessions j := by simp [removed, h]

theorem removed_clusters_of_ne (t : Server) (i : Slot) {c c' : Int} (h : c' ≠ c) :
    (t.removed i c).clusters c' = t.clusters c' := by simp [removed, h]

theorem removed_clusters_self (t : Server) (i : Slot) (c : Int) :
    (t.removed i c).clusters c = if (t.clusters c).members - 1 ≤ 0 then {}
      else { t.clusters c with members := (t.clusters c).members - 1 } := by simp [removed]

@[simp] theorem removed_trace (t : Server) (i : Slot) (c : Int) : (t.removed i c).trace = t.trace :=
  rfl

theorem removed_inCluster_self (t : Server) (i : Slot) (c c' : Int) :
    (t.removed i c).inCluster c' i = false := by
  simp [inCluster, removed_self]

theorem removed_inCluster_of_ne (t : Server) {i j : Slot} (c c' : Int) (h : j ≠ i) :
    (t.removed i c).inCluster c' j = t.inCluster c' j := by
  simp only [inCluster, removed_of_ne t c h]

theorem removed_roster (t : Server) (i : Slot) (c c' : Int) :
    (t.removed i c).roster c' = (t.roster c').erase i := by
  ext j
  rw [Finset.mem_erase, mem_roster, mem_roster]
  by_cases hj : j = i
  · simp [hj, removed_inCluster_self]
  · simp [hj, removed_inCluster_of_ne t c c' hj]

end Server

theorem Server.removed_kept {t : Server} {i : Slot} {c c' : Int}
    (h : ((t.removed i c).clusters c').used = true) :
    (t.clusters c').used = true ∧ ((t.removed i c).clusters c').name = (t.clusters c').name := by
  by_cases hc : c' = c
  · rw [hc, Server.removed_clusters_self] at h ⊢
    split_ifs at h ⊢
    exact ⟨h, rfl⟩
  · rw [Server.removed_clusters_of_ne t i hc] at h ⊢
    exact ⟨h, rfl⟩

section Removed

variable {t : Server} {i : Slot} {c : Int}

theorem Table.card_erase (h : Table t) (hi : t.inCluster c i = true) :
    (((t.roster c).erase i).card : Int) = (t.clusters c).members - 1 := by
  have hmem : i ∈ t.roster c := Server.mem_roster.mpr hi
  have hpos := Finset.card_pos.mpr ⟨i, hmem⟩
  rw [Finset.card_erase_of_mem hmem, h.members c]
  omega

theorem Table.removed_used (h : Table t) (hi : t.inCluster c i = true) {j : Slot} (hj : j ≠ i)
    (hact : (t.sessions j).phase = .active) :
    ((t.removed i c).clusters (t.sessions j).cluster).used = true := by
  have hused := h.used j hact
  by_cases hc : (t.sessions j).cluster = c
  · have hjm : j ∈ (t.roster c).erase i :=
      Finset.mem_erase.mpr ⟨hj, Server.mem_roster.mpr (Server.inCluster_iff.mpr ⟨hact, hc⟩)⟩
    have hpos := Finset.card_pos.mpr ⟨j, hjm⟩
    have hcard := h.card_erase hi
    rw [hc] at hused
    rw [hc, Server.removed_clusters_self, if_neg (by omega)]
    exact hused
  · rw [Server.removed_clusters_of_ne t i hc]
    exact hused

theorem Table.removed_members (h : Table t) (hi : t.inCluster c i = true) (c' : Int) :
    ((t.removed i c).clusters c').members = ((t.removed i c).roster c').card := by
  rw [Server.removed_roster]
  by_cases hc : c' = c
  · rw [hc, Server.removed_clusters_self, h.card_erase hi]
    split_ifs with hle
    · have hcard := h.card_erase hi
      change (0 : Int) = _
      omega
    · rfl
  · have hnot : i ∉ t.roster c' := by
      rw [Server.mem_roster, Server.inCluster_iff]
      exact fun hx => hc (hx.2.symm.trans (Server.inCluster_iff.mp hi).2)
    rw [Finset.erase_eq_of_notMem hnot, Server.removed_clusters_of_ne t i hc]
    exact h.members c'

/-- Nothing of a session that leaves is left in the tables. -/
theorem Table.removed (h : Table t) (hi : t.inCluster c i = true) : Table (t.removed i c) := by
  have hused : (t.clusters c).used = true := by
    obtain ⟨hact, hcl⟩ := Server.inCluster_iff.mp hi
    rw [← hcl]
    exact h.used i hact
  have hne : ∀ j, ((t.removed i c).sessions j).phase = .active → j ≠ i := by
    intro j hj hji
    rw [hji, Server.removed_self] at hj
    cases hj
  refine ⟨fun j hj => ?_, fun j hj => ?_, fun j hj => ?_, fun j hj => ?_, h.removed_members hi,
    fun c' => ?_, fun c' hc' => ?_, fun c₁ c₂ h₁ h₂ hn => ?_⟩
  · have hji := hne j hj
    rw [Server.removed_of_ne t c hji] at hj ⊢
    exact h.range j hj
  · have hji := hne j hj
    rw [Server.removed_of_ne t c hji] at hj ⊢
    exact h.removed_used hi hji hj
  · have hji := hne j hj
    rw [Server.removed_of_ne t c hji] at hj ⊢
    rw [(Server.removed_kept (h.removed_used hi hji hj)).2]
    exact h.name j hj
  · by_cases hji : j = i
    · rw [hji, Server.removed_self]
      exact Session.idle_default
    · rw [Server.removed_of_ne t c hji] at hj ⊢
      exact h.idle j hj
  · by_cases hc : c' = c
    · rw [hc, Server.removed_clusters_self]
      split_ifs with hle
      · simp
      · rw [not_le] at hle
        simp only [hused, true_iff]
        exact hle
    · rw [Server.removed_clusters_of_ne t i hc]
      exact h.used_iff c'
  · by_cases hc : c' = c
    · rw [hc, Server.removed_clusters_self] at hc' ⊢
      split_ifs at hc' ⊢ with hle
      · rfl
      · rw [hused] at hc'
        cases hc'
    · rw [Server.removed_clusters_of_ne t i hc] at hc' ⊢
      exact h.unused c' hc'
  · obtain ⟨hu₁, hn₁⟩ := Server.removed_kept h₁
    obtain ⟨hu₂, hn₂⟩ := Server.removed_kept h₂
    exact h.names c₁ c₂ hu₁ hu₂ (by rw [← hn₁, ← hn₂, hn])

end Removed

/-! ## The moves -/

theorem leaving_within {s : Server} (i : Slot) :
    Within (s.sessions i).cluster (s.emit (.leave i (s.sessions i).cluster)) (s.leaving i) :=
  Server.ffsplitDo_within (s.emit (.leave i (s.sessions i).cluster)) (s.storedView i true)

theorem reportView_slot (s : Server) (i : Slot) (m : MsgDecoded) (r : Report) :
    (s.reportView i m r).slot = i := by
  unfold Server.reportView
  split <;> rfl

theorem ranReport_within (s : Server) (i : Slot) (r : Report) (m : MsgDecoded) :
    Within (s.sessions i).cluster (s.emit (.accept i r)) (s.ranReport i r m) := by
  unfold Server.ranReport
  split_ifs
  · have h := Server.ffsplitDo_within (s.emit (.accept i r)) (s.reportView i m r)
    rw [Server.tvCluster, reportView_slot] at h
    exact h
  · exact .refl _ _

theorem Table.reset {s : Server} (h : Table s) {i : Slot} (hi : (s.sessions i).phase ≠ .active)
    {x : Session}
    (hx : x.phase ≠ .active) (hidle : x.Idle) : SameTable s (s.modify i fun _ => x) where
  active j := by
    rw [Server.modify_apply]
    split_ifs with hj
    · rw [hj]
      exact ⟨fun h' => absurd h' hx, fun h' => absurd h' hi⟩
    · exact Iff.rfl
  cluster j := by
    rw [Server.modify_apply]
    split_ifs with hj
    · rw [hj, hidle.cluster, (h.idle i hi).cluster]
    · rfl
  clusterName j hj := by
    rw [Server.modify_of_ne]
    exact fun hji => hi (hji ▸ hj)
  idle j _ hj := by
    rw [Server.modify_apply]
    split_ifs
    · exact hidle
    · exact hj
  record _ := ⟨rfl, rfl, rfl⟩
  unused _ _ := rfl

/-- Every move preserves the tables. -/
theorem Move.table {i : Slot} {s s' : Server} (hm : Move i s s') (h : Table s) : Table s' := by
  cases hm with
  | quiet hq => exact h.of_same (sameTable_of_alike hq.alike hq.clusters)
  | connect now peer hfree =>
    have hidle :=
      h.reset (i := i)
        (x := { phase := .waitPreinit, peer := peer, deadlineMs := now + PREACTIVE_TIMEOUT_MS })
      (by rw [hfree]; simp) (by simp) ⟨rfl, rfl, rfl, rfl⟩
    exact h.of_same (hidle.trans (sameTable_of_alike (fun _ => .refl _) rfl))
  | reinit m hact htype hrecv =>
    refine h.of_same ⟨fun j => ?_, fun j => ?_, fun j _ => ?_, fun j hj hidle => ?_,
      fun _ => ⟨rfl, rfl, rfl⟩, fun _ _ => rfl⟩
    · rw [Server.modify_apply]; split_ifs <;> rfl
    · rw [Server.modify_apply]; split_ifs <;> rfl
    · rw [Server.modify_apply]; split_ifs <;> rfl
    · rw [Server.modify_apply]
      split_ifs
      · exact ⟨hidle.cluster, hidle.configList, hidle.membershipList, hidle.ffState⟩
      · exact hidle
  | join now hphase hcheck hc =>
    obtain ⟨c, hj⟩ := h.joined now hc
    exact hj.table hphase h
  | report r m hact hfits =>
    have hacc : Table (s.emit (.accept i r)) :=
      h.of_same (sameTable_of_alike (fun _ => .refl _) rfl)
    have hran := hacc.of_same (sameTable_of_within (ranReport_within s i r m) (h.used i hact))
    refine hran.of_same ⟨fun j => ?_, fun j => ?_, fun j _ => ?_, fun j hj hidle => ?_,
      fun _ => ⟨rfl, rfl, rfl⟩, fun _ _ => rfl⟩
    · rw [Server.reported, Server.modify_apply]; split_ifs <;> rfl
    · rw [Server.reported, Server.modify_apply]; split_ifs <;> rfl
    · rw [Server.reported, Server.modify_apply]; split_ifs <;> rfl
    · rw [Server.reported, Server.modify_of_ne]
      · exact hidle
      · intro hji
        rw [hji] at hj
        exact hj (((Server.ranReport_sameButVotes s i r m).phase i).trans hact)
  | reply m hact hset =>
    exact h.of_same (sameTable_of_within (Server.handleVoteInfoReply_within s m hset
      (Server.inCluster_iff.mpr ⟨hact, rfl⟩)) (h.used i hact))
  | leave =>
    by_cases hact : (s.sessions i).phase = .active
    · have hin : s.inCluster (s.sessions i).cluster i = true := Server.inCluster_iff.mpr ⟨hact, rfl⟩
      have hemit : Table (s.emit (.leave i (s.sessions i).cluster)) :=
        h.of_same (sameTable_of_alike (fun _ => .refl _) rfl)
      have hleft := hemit.of_same (sameTable_of_within (leaving_within i) (h.used i hact))
      rw [Server.left_eq hact (h.range i hact).1]
      exact hleft.removed (((leaving_within i).inCluster _ i).trans hin)
    · rw [Server.left_of_not_active hact]
      exact h.of_same (h.reset hact (by simp) Session.idle_default)

theorem run_table (n : UInt32) (calls : List Call) : Table (run n calls) :=
  run_induction table_init (fun hm h => hm.table h) n calls

/-- The session and cluster tables after every public call. -/
theorem tables_consistent (n : UInt32) (calls : List Call) :
    ((run n calls).processing = false ∧ (run n calls).pendingClose = [] ∧
      ∀ i, ((run n calls).sessions i).scheduleDisconnect = false) ∧
    (∀ i, ((run n calls).sessions i).phase = .active →
      (0 ≤ ((run n calls).sessions i).cluster ∧ ((run n calls).sessions i).cluster < MAX_CLUSTERS) ∧
      ((run n calls).clusters ((run n calls).sessions i).cluster).used = true ∧
      ((run n calls).clusters ((run n calls).sessions i).cluster).name =
        ((run n calls).sessions i).clusterName) ∧
    (∀ i, ((run n calls).sessions i).phase ≠ .active → ((run n calls).sessions i).cluster = -1) ∧
    (∀ c, ((run n calls).clusters c).members = (Finset.univ.filter fun i =>
        ((run n calls).sessions i).phase = .active ∧ ((run n calls).sessions i).cluster = c).card ∧
      (((run n calls).clusters c).used = true ↔ 0 < ((run n calls).clusters c).members)) ∧
    (∀ c c', ((run n calls).clusters c).used = true → ((run n calls).clusters c').used = true →
      ((run n calls).clusters c).name = ((run n calls).clusters c').name → c = c') := by
  have h := run_table n calls
  have hq := (run_steps n calls).2
  refine ⟨⟨hq.processing, hq.pendingClose, hq.scheduleDisconnect⟩,
    fun i hi => ⟨h.range i hi, h.used i hi, h.name i hi⟩,
    fun i hi => (h.idle i hi).cluster, fun c => ⟨?_, h.used_iff c⟩, h.names⟩
  rw [h.members c]
  simp only [Server.roster, Server.inCluster_iff]

end Qnetd
