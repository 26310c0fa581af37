import Qnetd.Invariant.Decision

/-!
# Invariants of single clusters

Most moves leave most clusters alone. What has to be checked of an invariant of one cluster is what
its own members do: a join, a decision, a departure, a reply.

* `Apart c` : a change that is none of cluster `c`'s business. Quiet moves are apart from every
  cluster, and what happens within another cluster is apart from this one;
* `ClusterInvariant I` : the five obligations on a property `I` of a cluster and a server;
* `ClusterInvariant.move`, `ClusterInvariant.run` : the obligations suffice;
* `Elsewhere c`, `Move.elsewhere_or` : a move happens elsewhere, or it is one of a member of the
  cluster.
-/

namespace Qnetd

open Server (Within)

/-- The event is none of the business of cluster `c`, whose sessions are `mem`. -/
def Event.apart (c : Int) (mem : Slot → Bool) : Event → Prop
  | .vote j v => mem j = false ∧ v.cluster ≠ c
  | .reply j _ _ _ _ | .connect j => mem j = false
  | .phase c' _ | .unstable c' => c' ≠ c
  | .decide d => d.cluster ≠ c
  | _ => True

structure Apart (c : Int) (s s' : Server) : Prop where
  cluster : s'.clusters c = s.clusters c
  inCluster : ∀ t, s'.inCluster c t = s.inCluster c t
  ffState : ∀ t, s.inCluster c t = true → (s'.sessions t).ffState = (s.sessions t).ffState
  voteInfoSeq : ∀ t, s.inCluster c t = true →
    (s'.sessions t).voteInfoSeq = (s.sessions t).voteInfoSeq
  trace : ∃ new, s'.trace = new ++ s.trace ∧ ∀ e ∈ new, e.apart c (s.inCluster c)

theorem Apart.trans {c : Int} {s t u : Server} (h₁ : Apart c s t) (h₂ : Apart c t u) :
    Apart c s u := by
  have hmem : t.inCluster c = s.inCluster c := funext h₁.inCluster
  have htr := h₂.trace
  rw [hmem] at htr
  refine ⟨h₂.cluster.trans h₁.cluster, fun i => (h₂.inCluster i).trans (h₁.inCluster i),
    fun i hi => ?_, fun i hi => ?_, History.grown_trans h₁.trace htr⟩
  · exact (h₂.ffState i ((h₁.inCluster i).trans hi)).trans (h₁.ffState i hi)
  · exact (h₂.voteInfoSeq i ((h₁.inCluster i).trans hi)).trans (h₁.voteInfoSeq i hi)

theorem Apart.trace_suffix {c : Int} {s s' : Server} (h : Apart c s s') : s.trace <:+ s'.trace := by
  obtain ⟨new, ht, -⟩ := h.trace
  exact ⟨new, ht.symm⟩

theorem apart_of_sessions {s s' : Server} (c : Int) (hc : s'.clusters = s.clusters)
    (hin : ∀ t, s'.inCluster c t = s.inCluster c t)
    (hff : ∀ t, s.inCluster c t = true → (s'.sessions t).ffState = (s.sessions t).ffState)
    (hseq : ∀ t, s.inCluster c t = true → (s'.sessions t).voteInfoSeq = (s.sessions t).voteInfoSeq)
    (ht : s'.trace = s.trace) : Apart c s s' :=
  ⟨by rw [hc], hin, hff, hseq, [], ht, by simp⟩

theorem apart_emit (s : Server) {c : Int} {e : Event} (he : e.apart c (s.inCluster c)) :
    Apart c s (s.emit e) :=
  ⟨rfl, fun _ => rfl, fun _ _ => rfl, fun _ _ => rfl, [e], rfl, by simpa using he⟩

theorem apart_modify (s : Server) (c : Int) (i : Slot) (f : Session → Session)
    (hp : (f (s.sessions i)).phase = (s.sessions i).phase)
    (hcl : (f (s.sessions i)).cluster = (s.sessions i).cluster)
    (hff : (f (s.sessions i)).ffState = (s.sessions i).ffState)
    (hseq : (f (s.sessions i)).voteInfoSeq = (s.sessions i).voteInfoSeq) :
    Apart c s (s.modify i f) := by
  refine apart_of_sessions c rfl (fun t => ?_) (fun t _ => ?_) (fun t _ => ?_) rfl
  · unfold Server.inCluster
    rw [Server.modify_apply]
    split_ifs with ht
    · rw [ht, hp, hcl]
    · rfl
  · rw [Server.modify_apply]
    split_ifs with ht
    · rw [ht, hff]
    · rfl
  · rw [Server.modify_apply]
    split_ifs with ht
    · rw [ht, hseq]
    · rfl

theorem apart_inactive (s : Server) (c : Int) (i : Slot) (f : Session → Session)
    (hp : (s.sessions i).phase ≠ .active) (hp' : (f (s.sessions i)).phase ≠ .active) :
    Apart c s (s.modify i f) := by
  have hout : s.inCluster c i = false := by
    rw [← Bool.not_eq_true, Server.inCluster_iff]
    exact fun h => hp h.1
  have hne : ∀ t, s.inCluster c t = true → t ≠ i := by
    rintro t ht rfl
    rw [hout] at ht
    cases ht
  refine apart_of_sessions c rfl (fun t => ?_) (fun t ht => ?_) (fun t ht => ?_) rfl
  · by_cases hti : t = i
    · subst hti
      rw [hout, ← Bool.not_eq_true, Server.inCluster_iff, Server.modify_self]
      exact fun h => hp' h.1
    · unfold Server.inCluster
      rw [Server.modify_of_ne s f hti]
  · rw [Server.modify_of_ne s f (hne t ht)]
  · rw [Server.modify_of_ne s f (hne t ht)]

theorem Quiet.apart {i : Slot} {s s' : Server} (h : Quiet i s s') (c : Int) : Apart c s s' := by
  have hin : ∀ t, s'.inCluster c t = s.inCluster c t := by
    intro t
    rw [Bool.eq_iff_iff, Server.inCluster_iff, Server.inCluster_iff, (h.alike t).active,
      (h.alike t).cluster]
  obtain ⟨new, ht, hnew⟩ := h.trace
  refine ⟨by rw [h.clusters], hin, fun t _ => (h.alike t).ffState,
    fun t _ => (h.alike t).voteInfoSeq, new, ht, fun e he => ?_⟩
  have hq := hnew e he
  unfold Event.quiet at hq
  unfold Event.apart
  split at hq <;> trivial

theorem Server.inCluster_of_ne {c c' : Int} {s : Server} {t : Slot} (hne : c' ≠ c)
    (ht : s.inCluster c t = true) : s.inCluster c' t = false := by
  rw [← Bool.not_eq_true, Server.inCluster_iff]
  exact fun ht' => hne (ht'.2.symm.trans (Server.inCluster_iff.mp ht).2)

theorem Server.Within.session_eq {c c' : Int} {s s' : Server} (h : Within c s s') (hne : c' ≠ c)
    {t : Slot} (ht : s.inCluster c' t = true) : s'.sessions t = s.sessions t :=
  h.outside t (Server.inCluster_of_ne hne.symm ht)

/-- What happens within a cluster is apart from every other one. -/
theorem Server.Within.apart {c c' : Int} {s s' : Server} (h : Within c s s') (hne : c' ≠ c) :
    Apart c' s s' := by
  have hout : ∀ t, s.inCluster c t = true → s.inCluster c' t = false :=
    fun t ht => Server.inCluster_of_ne hne ht
  have hsame : ∀ t, s.inCluster c' t = true → s'.sessions t = s.sessions t :=
    fun t ht => h.session_eq hne ht
  obtain ⟨new, htr, hnew⟩ := h.trace
  refine ⟨h.clusters c' hne, fun t => h.inCluster c' t, fun t ht => by rw [hsame t ht],
    fun t ht => by rw [hsame t ht], new, htr, fun e he => ?_⟩
  have hw := hnew e he
  cases e with
  | vote j v => exact ⟨hout j hw.1, fun hv => hne (hv.symm.trans hw.2)⟩
  | reply j _ _ _ _ => exact hout j hw
  | phase c₁ st => exact fun hv => hne (hv.symm.trans hw)
  | unstable c₁ => exact fun hv => hne (hv.symm.trans hw)
  | decide d => exact fun hv => hne (hv.symm.trans hw)
  | send _ _ | close _ | connect _ | frame _ _ | recv _ _ _ _ | join _ _ | leave _ _ | accept _ _ =>
    exact hw.elim

theorem Joined.apart {i : Slot} {c c' : Int} {s s' : Server} (h : Joined i c s s')
    (hphase : (s.sessions i).phase ≠ .active) (hne : c' ≠ c) : Apart c' s s' := by
  have hout : s.inCluster c' i = false := by
    rw [← Bool.not_eq_true, Server.inCluster_iff]
    exact fun h => hphase h.1
  have hti : ∀ t, s.inCluster c' t = true → t ≠ i := by
    rintro t ht rfl
    rw [hout] at ht
    cases ht
  have htrace : ∃ new, s'.trace = new ++ s.trace ∧ ∀ e ∈ new, e.apart c' (s.inCluster c') := by
    rcases h.record with ⟨-, -, -, htr⟩ | ⟨-, -, -, htr⟩
    · exact ⟨[_], htr, by simp [Event.apart]⟩
    · exact ⟨[_, _], htr, by simpa [Event.apart] using hne.symm⟩
  refine ⟨h.clusters c' hne, fun t => ?_, fun t ht => by rw [h.others t (hti t ht)],
    fun t ht => by rw [h.others t (hti t ht)], htrace⟩
  by_cases ht : t = i
  · rw [ht, h.inCluster_self, hout, decide_eq_false hne]
  · exact h.inCluster_of_ne ht c'

theorem removed_apart {t : Server} {i : Slot} {c c' : Int} (hi : t.inCluster c i = true)
    (hne : c' ≠ c) : Apart c' t (t.removed i c) := by
  have hout : t.inCluster c' i = false := by
    rw [← Bool.not_eq_true, Server.inCluster_iff]
    exact fun h => hne (h.2.symm.trans (Server.inCluster_iff.mp hi).2)
  have hji : ∀ j, t.inCluster c' j = true → j ≠ i := by
    rintro j hj rfl
    rw [hout] at hj
    cases hj
  refine ⟨Server.removed_clusters_of_ne t i hne, fun j => ?_, fun j hj => ?_, fun j hj => ?_, [],
    rfl, by simp⟩
  · by_cases hj : j = i
    · rw [hj, Server.removed_inCluster_self, hout]
    · exact Server.removed_inCluster_of_ne t c c' hj
  · rw [Server.removed_of_ne t c (hji j hj)]
  · rw [Server.removed_of_ne t c (hji j hj)]

/-! ## The obligations -/

structure ClusterInvariant (I : Int → Server → Prop) : Prop where
  init : ∀ n c, I c (Server.init n)
  apart : ∀ {c : Int} {s s' : Server}, Apart c s s' → I c s → I c s'
  join : ∀ {i : Slot} {c : Int} {s s' : Server}, Table s → (s.sessions i).phase ≠ .active →
    Joined i c s s' → I c s → I c s'
  decide : ∀ {s : Server} {tv : TriggerView}, Table s → (s.sessions tv.slot).phase = .active →
    I (s.tvCluster tv) s → I (s.tvCluster tv) (s.ffsplitDo tv).2.2
  gone : ∀ {i : Slot} {s : Server}, Table s → (s.sessions i).phase = .active →
    I (s.sessions i).cluster (s.leaving i) →
      I (s.sessions i).cluster ((s.leaving i).removed i (s.sessions i).cluster)
  reply : ∀ {i : Slot} {s : Server} {m : MsgDecoded}, Table s → (s.sessions i).phase = .active →
    m.seqNumberSet = true → I (s.sessions i).cluster s →
      I (s.sessions i).cluster (s.handleVoteInfoReply i m)

theorem Table.emit {s : Server} (h : Table s) (e : Event) : Table (s.emit e) :=
  h.of_same (sameTable_of_alike (fun _ => .refl _) rfl)

theorem ClusterInvariant.move {I : Int → Server → Prop} (hI : ClusterInvariant I) {i : Slot}
    {s s' : Server} (hm : Move i s s') (ht : Table s) (h : ∀ c, I c s) (c : Int) : I c s' := by
  cases hm with
  | quiet hq => exact hI.apart (hq.apart c) (h c)
  | connect now peer hfree =>
    have hreset := apart_inactive s c i
      (fun _ => { phase := .waitPreinit, peer := peer, deadlineMs := now + PREACTIVE_TIMEOUT_MS })
      (by rw [hfree]; simp) (by simp)
    refine hI.apart (hreset.trans (apart_emit _ ?_)) (h c)
    change Server.inCluster _ c i = false
    simp [Server.inCluster]
  | reinit m hact htype hrecv => exact hI.apart (apart_modify s c i _ rfl rfl rfl rfl) (h c)
  | join now hphase hcheck hc =>
    obtain ⟨c₀, hj⟩ := ht.joined now hc
    by_cases hne : c = c₀
    · subst hne
      exact hI.join ht hphase hj (h c)
    · exact hI.apart (hj.apart hphase hne) (h c)
  | report r m hact hfits =>
    have hacc : Apart c s (s.emit (.accept i r)) := apart_emit s trivial
    have hstore : Apart c (s.ranReport i r m) (s.reported i r m) :=
      apart_modify _ c i _ rfl rfl rfl rfl
    by_cases hne : c = (s.sessions i).cluster
    · refine hI.apart hstore ?_
      unfold Server.ranReport
      split_ifs
      · have hslot := reportView_slot s i m r
        have hd :=
          @hI.decide (s.emit (.accept i r)) (s.reportView i m r) (ht.emit _)
            (by rw [hslot]; exact hact)
        rw [Server.tvCluster, hslot, Server.emit_sessions, ← hne] at hd
        exact hd (hI.apart hacc (h c))
      · exact hI.apart hacc (h c)
    · exact hI.apart ((hacc.trans ((ranReport_within s i r m).apart hne)).trans hstore) (h c)
  | reply m hact hset =>
    by_cases hne : c = (s.sessions i).cluster
    · subst hne
      exact hI.reply ht hact hset (h _)
    · exact hI.apart ((Server.handleVoteInfoReply_within s m hset
        (Server.inCluster_iff.mpr ⟨hact, rfl⟩)).apart hne) (h c)
  | leave =>
    by_cases hact : (s.sessions i).phase = .active
    · have hleave : Apart c s (s.emit (.leave i (s.sessions i).cluster)) := apart_emit s trivial
      rw [Server.left_eq hact (ht.range i hact).1]
      by_cases hne : c = (s.sessions i).cluster
      · subst hne
        exact hI.gone ht hact
          (@hI.decide (s.emit (.leave i (s.sessions i).cluster)) (s.storedView i true) (ht.emit _)
            hact (hI.apart hleave (h _)))
      · have hin : (s.leaving i).inCluster (s.sessions i).cluster i = true :=
          ((leaving_within i).inCluster _ i).trans (Server.inCluster_iff.mpr ⟨hact, rfl⟩)
        exact hI.apart
          ((hleave.trans ((leaving_within i).apart hne)).trans (removed_apart hin hne)) (h c)
    · rw [Server.left_of_not_active hact]
      exact hI.apart (apart_inactive s c i (fun _ => {}) hact (by simp)) (h c)

/-- An invariant of single clusters holds of every cluster in every run. -/
theorem ClusterInvariant.run {I : Int → Server → Prop} (hI : ClusterInvariant I) (n : UInt32)
    (calls : List Call) (c : Int) : I c (run n calls) := by
  have h := run_induction (I := fun s => Table s ∧ ∀ c, I c s) (fun n => ⟨table_init n, hI.init n⟩)
    (fun hm hs => ⟨hm.table hs.1, hI.move hm hs.1 hs.2⟩) n calls
  exact h.2 c

/-! ## Moves elsewhere -/

/-- The event takes a session into cluster `c`, or out of it. -/
def Event.turnover (c : Int) : Event → Option (Slot × Bool)
  | .join t c' => if c' = c then some (t, true) else none
  | .leave t c' => if c' = c then some (t, false) else none
  | _ => none

/-- A change that is none of cluster `c`'s business, and in which nobody enters or leaves it. -/
structure Elsewhere (c : Int) (s s' : Server) : Prop extends Apart c s s' where
  turnover : s'.trace.filterMap (Event.turnover c) = s.trace.filterMap (Event.turnover c)

theorem Elsewhere.trans {c : Int} {s t u : Server} (h₁ : Elsewhere c s t) (h₂ : Elsewhere c t u) :
    Elsewhere c s u :=
  ⟨h₁.toApart.trans h₂.toApart, h₂.turnover.trans h₁.turnover⟩

theorem filterMap_turnover {c : Int} {new tr : List Event} (h : ∀ e ∈ new, e.turnover c = none) :
    (new ++ tr).filterMap (Event.turnover c) = tr.filterMap (Event.turnover c) := by
  rw [List.filterMap_append, List.filterMap_eq_nil_iff.mpr h, List.nil_append]

theorem Quiet.elsewhere {i : Slot} {s s' : Server} (h : Quiet i s s') (c : Int) :
    Elsewhere c s s' := by
  refine ⟨h.apart c, ?_⟩
  obtain ⟨new, htr, hnew⟩ := h.trace
  rw [htr]
  refine filterMap_turnover fun e he => ?_
  have hq := hnew e he
  cases e with
  | join _ _ | leave _ _ => exact hq.elim
  | _ => rfl

theorem Server.Within.elsewhere {c c' : Int} {s s' : Server} (h : Within c s s') (hne : c' ≠ c) :
    Elsewhere c' s s' := by
  refine ⟨h.apart hne, ?_⟩
  obtain ⟨new, htr, hnew⟩ := h.trace
  rw [htr]
  refine filterMap_turnover fun e he => ?_
  have hw := hnew e he
  cases e with
  | join _ _ | leave _ _ => exact hw.elim
  | _ => rfl

theorem elsewhere_emit (s : Server) {c : Int} {e : Event} (he : e.apart c (s.inCluster c))
    (ht : e.turnover c = none) :
    Elsewhere c s (s.emit e) := ⟨apart_emit s he, List.filterMap_cons_none ht⟩

theorem Joined.elsewhere {i : Slot} {c c' : Int} {s s' : Server} (h : Joined i c s s')
    (hphase : (s.sessions i).phase ≠ .active) (hne : c' ≠ c) : Elsewhere c' s s' := by
  have hjoin : (Event.join i c).turnover c' = none := if_neg hne.symm
  refine ⟨h.apart hphase hne, ?_⟩
  rcases h.record with ⟨-, -, -, htr⟩ | ⟨-, -, -, htr⟩
  · rw [htr, List.filterMap_cons_none hjoin]
  · rw [htr, List.filterMap_cons_none hjoin, List.filterMap_cons_none rfl]

/-- A move happens elsewhere, or it is one of a member of the cluster: a join, a report, a reply or
a departure. -/
theorem Move.elsewhere_or {i : Slot} {s s' : Server} (hm : Move i s s') (ht : Table s) (c : Int) :
    Elsewhere c s s' ∨
    ((s.sessions i).phase ≠ .active ∧ Joined i c s s') ∨
    ((s.sessions i).phase = .active ∧ (s.sessions i).cluster = c ∧
      ((∃ r m, Server.Fits m (s.sessions i) r ∧ s' = s.reported i r m) ∨
       (∃ m : MsgDecoded, m.seqNumberSet = true ∧ s' = s.handleVoteInfoReply i m) ∨
       s' = (s.leaving i).removed i c)) := by
  cases hm with
  | quiet hq => exact Or.inl (hq.elsewhere c)
  | connect now peer hfree =>
    have hreset := apart_inactive s c i
      (fun _ => { phase := .waitPreinit, peer := peer, deadlineMs := now + PREACTIVE_TIMEOUT_MS })
      (by rw [hfree]; simp) (by simp)
    refine Or.inl ⟨hreset.trans (apart_emit _ ?_), rfl⟩
    change Server.inCluster _ c i = false
    simp [Server.inCluster]
  | reinit m hact htype hrecv => exact Or.inl ⟨apart_modify s c i _ rfl rfl rfl rfl, rfl⟩
  | join now hphase hcheck hc =>
    obtain ⟨c₀, hj⟩ := ht.joined now hc
    by_cases hne : c = c₀
    · subst hne
      exact Or.inr (Or.inl ⟨hphase, hj⟩)
    · exact Or.inl (hj.elsewhere hphase hne)
  | report r m hact hfits =>
    by_cases hne : c = (s.sessions i).cluster
    · exact Or.inr (Or.inr ⟨hact, hne.symm, Or.inl ⟨r, m, hfits, rfl⟩⟩)
    · have hacc : Elsewhere c s (s.emit (.accept i r)) := elsewhere_emit s trivial rfl
      have hstore : Elsewhere c (s.ranReport i r m) (s.reported i r m) :=
        ⟨apart_modify _ c i _ rfl rfl rfl rfl, rfl⟩
      exact Or.inl ((hacc.trans ((ranReport_within s i r m).elsewhere hne)).trans hstore)
  | reply m hact hset =>
    by_cases hne : c = (s.sessions i).cluster
    · exact Or.inr (Or.inr ⟨hact, hne.symm, Or.inr (Or.inl ⟨m, hset, rfl⟩)⟩)
    · exact Or.inl ((Server.handleVoteInfoReply_within s m hset
        (Server.inCluster_iff.mpr ⟨hact, rfl⟩)).elsewhere hne)
  | leave =>
    by_cases hact : (s.sessions i).phase = .active
    · rw [Server.left_eq hact (ht.range i hact).1]
      by_cases hne : c = (s.sessions i).cluster
      · exact Or.inr (Or.inr ⟨hact, hne.symm, Or.inr (Or.inr (by rw [hne]))⟩)
      · have hleave : Elsewhere c s (s.emit (.leave i (s.sessions i).cluster)) :=
          elsewhere_emit s trivial (if_neg (Ne.symm hne))
        have hmem : (s.leaving i).inCluster (s.sessions i).cluster i = true :=
          ((leaving_within i).inCluster _ i).trans (Server.inCluster_iff.mpr ⟨hact, rfl⟩)
        have hgone : Elsewhere c (s.leaving i) ((s.leaving i).removed i (s.sessions i).cluster) :=
          ⟨removed_apart hmem hne, rfl⟩
        exact Or.inl ((hleave.trans ((leaving_within i).elsewhere hne)).trans hgone)
    · rw [Server.left_of_not_active hact]
      exact Or.inl ⟨apart_inactive s c i (fun _ => {}) hact (by simp), rfl⟩

end Qnetd
