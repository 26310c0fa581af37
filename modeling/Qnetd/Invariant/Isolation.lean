import Qnetd.Invariant.Table

/-!
# Isolation

What a client can do to the sessions of others. Every walk of the algorithm goes over the whole
session table and filters by cluster, and the cluster records are reused.

* `Visits i s new c` : session `i` is a member of cluster `c` at some point, from `s` on and along
  the events `new`;
* `Isolated i s s' new` : only clusters session `i` visits are touched, and of their other members
  only the votes;
* `Move.isolated`, `Moves.isolated` : every move isolates, and so does every sequence of moves of
  one session.
-/

namespace Qnetd

open Relation (ReflTransGen)

/-- Session `i` is a member of cluster `c` at first, or joins it. -/
def Visits (i : Slot) (s : Server) (new : List Event) (c : Int) : Prop :=
  s.inCluster c i = true ∨ .join i c ∈ new

/-- From `s` to `s'`, with the events `new`: of the other sessions only what votes write has
changed. A session that is in no cluster session `i` visits is unchanged and was sent no frame, and
a cluster it does not visit is unchanged. -/
structure Isolated (i : Slot) (s s' : Server) (new : List Event) : Prop where
  trace : s'.trace = new ++ s.trace
  votes : ∀ j, j ≠ i → (s'.sessions j).sansVotes = (s.sessions j).sansVotes
  sessions : ∀ j, j ≠ i → (∀ c, Visits i s new c → s.inCluster c j = false) →
    s'.sessions j = s.sessions j
  frames : ∀ j f, j ≠ i → (∀ c, Visits i s new c → s.inCluster c j = false) →
    .sendFrame j f ∉ transportCalls new
  clusters : ∀ c, ¬Visits i s new c → s'.clusters c = s.clusters c
  visited : ∀ c, s'.inCluster c i = true → Visits i s new c

theorem Isolated.inCluster {i : Slot} {s s' : Server} {new : List Event} (h : Isolated i s s' new)
    {j : Slot} (hj : j ≠ i) (c : Int) : s'.inCluster c j = s.inCluster c j := by
  have hp : (s'.sessions j).phase = (s.sessions j).phase :=
    (congrArg Session.phase (h.votes j hj) :)
  have hc : (s'.sessions j).cluster = (s.sessions j).cluster :=
    (congrArg Session.cluster (h.votes j hj) :)
  rw [Server.inCluster, Server.inCluster, hp, hc]

theorem mem_transportCalls {tr : List Event} {t : TransportCall} :
    t ∈ transportCalls tr ↔ ∃ e ∈ tr, e.call = some t := by
  rw [transportCalls, List.mem_reverse, List.mem_filterMap]

theorem mem_transportCalls_append {new old : List Event} {t : TransportCall} :
    t ∈ transportCalls (new ++ old) ↔ t ∈ transportCalls new ∨ t ∈ transportCalls old := by
  simp only [mem_transportCalls, List.mem_append, or_and_right, exists_or]

theorem Isolated.refl (i : Slot) (s : Server) : Isolated i s s [] where
  trace := rfl
  votes _ _ := rfl
  sessions _ _ _ := rfl
  frames _ _ _ _ := by simp [transportCalls]
  clusters _ _ := rfl
  visited _ h := Or.inl h

theorem Isolated.visits {i : Slot} {s t : Server} {new new' : List Event} (h : Isolated i s t new)
    {c : Int} (hc : Visits i t new' c) : Visits i s (new' ++ new) c := by
  rcases hc with hc | hc
  · exact (h.visited c hc).imp id fun hj => List.mem_append_right _ hj
  · exact Or.inr (List.mem_append_left _ hc)

theorem Visits.append {i : Slot} {s : Server} {new : List Event} {c : Int} (h : Visits i s new c)
    (new' : List Event) :
    Visits i s (new' ++ new) c := h.imp id fun hj => List.mem_append_right _ hj

theorem Isolated.trans {i : Slot} {s t u : Server} {new new' : List Event} (h₁ : Isolated i s t new)
    (h₂ : Isolated i t u new') : Isolated i s u (new' ++ new) where
  trace := by rw [h₂.trace, h₁.trace, List.append_assoc]
  votes j hj := (h₂.votes j hj).trans (h₁.votes j hj)
  sessions j hj hout := by
    rw [h₂.sessions j hj fun c hc => ?_, h₁.sessions j hj fun c hc => hout c (hc.append new')]
    rw [h₁.inCluster hj]
    exact hout c (h₁.visits hc)
  frames j f hj hout := by
    rw [mem_transportCalls_append, not_or]
    refine ⟨h₂.frames j f hj fun c hc => ?_, h₁.frames j f hj fun c hc => hout c (hc.append new')⟩
    rw [h₁.inCluster hj]
    exact hout c (h₁.visits hc)
  clusters c hc := by
    rw [h₂.clusters c fun hc' => hc (h₁.visits hc'), h₁.clusters c fun hc' => hc (hc'.append new')]
  visited c hc := h₁.visits (h₂.visited c hc)

/-! ## Moves -/

theorem isolated_of_self {i : Slot} {s s' : Server} {new : List Event}
    (htr : s'.trace = new ++ s.trace)
    (hothers : ∀ j, j ≠ i → s'.sessions j = s.sessions j)
    (hcl : ∀ c, ¬Visits i s new c → s'.clusters c = s.clusters c)
    (hframes : ∀ e ∈ new, ∀ j f, e.call = some (.sendFrame j f) → j = i)
    (hvisited : ∀ c, s'.inCluster c i = true → Visits i s new c) : Isolated i s s' new where
  trace := htr
  votes j hj := by rw [hothers j hj]
  sessions j hj _ := hothers j hj
  frames j f hj _ := by
    rw [mem_transportCalls]
    rintro ⟨e, he, hc⟩
    exact hj (hframes e he j f hc)
  clusters := hcl
  visited := hvisited

theorem Quiet.isolated {i : Slot} {s s' : Server} (h : Quiet i s s') :
    ∃ new, Isolated i s s' new := by
  obtain ⟨new, htr, hnew⟩ := h.trace
  refine ⟨new, isolated_of_self htr h.others (fun c _ => by rw [h.clusters]) (fun e he j f hc => ?_)
    fun c hc => ?_⟩
  · have hq := hnew e he
    cases e with
    | send k g =>
      cases hc
      exact hq.1
    | vote _ _ => exact hq.elim
    | _ => cases hc
  · rw [Server.inCluster_iff, h.self.active, h.self.cluster] at hc
    exact Or.inl (Server.inCluster_iff.mpr hc)

theorem Server.Within.isolated {i : Slot} {c : Int} {s s' : Server} (h : Server.Within c s s')
    (hi : s.inCluster c i = true) : ∃ new, Isolated i s s' new := by
  obtain ⟨new, htr, hnew⟩ := h.trace
  have hvisit : Visits i s new c := Or.inl hi
  refine ⟨new, htr, fun j _ => h.same j, fun j _ hout => h.outside j (hout c hvisit),
    fun j f _ hout => ?_,
    fun c' hc' => h.clusters c' ?_, fun c' hc' => Or.inl ((h.inCluster c' i).symm.trans hc')⟩
  · rw [mem_transportCalls]
    rintro ⟨e, he, hcall⟩
    have hw := hnew e he
    cases e with
    | vote k v =>
      cases hcall
      have := hw.1
      rw [hout c hvisit] at this
      cases this
    | send _ _ => exact hw.elim
    | _ => cases hcall
  · rintro rfl
    exact hc' hvisit

theorem Joined.isolated {i : Slot} {c : Int} {s s' : Server} (h : Joined i c s s') :
    ∃ new, Isolated i s s' new := by
  have hself : ∀ {new}, .join i c ∈ new → ∀ c', s'.inCluster c' i = true → Visits i s new c' := by
    intro new hmem c' hc'
    rw [h.inCluster_self, decide_eq_true_eq] at hc'
    rw [hc']
    exact Or.inr hmem
  have hother : ∀ {new}, .join i c ∈ new → ∀ c', ¬Visits i s new c' →
      s'.clusters c' = s.clusters c' := by
    intro new hmem c' hc'
    refine h.clusters c' ?_
    rintro rfl
    exact hc' (Or.inr hmem)
  rcases h.record with ⟨-, -, -, htr⟩ | ⟨-, -, -, htr⟩
  · exact ⟨[_], isolated_of_self htr h.others (hother (by simp)) (by simp [Event.call])
      (hself (by simp))⟩
  · exact ⟨[_, _], isolated_of_self htr h.others (hother (by simp)) (by simp [Event.call])
      (hself (by simp))⟩

theorem isolated_emit (s : Server) {e : Event} (he : e.call = none) {i : Slot} :
    Isolated i s (s.emit e) [e] :=
  isolated_of_self rfl (fun _ _ => rfl) (fun _ _ => rfl) (by simp [he]) fun _ hc => Or.inl hc

theorem isolated_modify (i : Slot) (s : Server) (f : Session → Session)
    (hf : (f (s.sessions i)).phase = .active →
      (s.sessions i).phase = .active ∧ (f (s.sessions i)).cluster = (s.sessions i).cluster) :
    Isolated i s (s.modify i f) [] := by
  refine isolated_of_self rfl (fun j hj => Server.modify_of_ne s f hj) (fun _ _ => rfl) (by simp)
    fun c hc => ?_
  rw [Server.inCluster_iff, Server.modify_self] at hc
  obtain ⟨hact, hcl⟩ := hf hc.1
  exact Or.inl (Server.inCluster_iff.mpr ⟨hact, hcl ▸ hc.2⟩)

theorem Server.removed_isolated {t : Server} {i : Slot} {c : Int} (hi : t.inCluster c i = true) :
    Isolated i t (t.removed i c) [] := by
  refine isolated_of_self rfl (fun j hj => Server.removed_of_ne t c hj) (fun c' hc' => ?_) (by simp)
    fun c' hc' => ?_
  · refine Server.removed_clusters_of_ne t i ?_
    rintro rfl
    exact hc' (Or.inl hi)
  · rw [Server.removed_inCluster_self] at hc'
    cases hc'

/-- Every move isolates. -/
theorem Move.isolated {i : Slot} {s s' : Server} (hm : Move i s s') (ht : Table s) :
    ∃ new, Isolated i s s' new := by
  cases hm with
  | quiet hq => exact hq.isolated
  | connect now peer hfree =>
    exact ⟨_, (isolated_modify i s _ (by nofun)).trans (isolated_emit _ rfl)⟩
  | reinit m hact htype hrecv => exact ⟨_, isolated_modify i s _ fun _ => ⟨hact, rfl⟩⟩
  | join now hphase hcheck hc =>
    obtain ⟨c, hj⟩ := ht.joined now hc
    exact hj.isolated
  | report r m hact hfits =>
    have hin : (s.emit (.accept i r)).inCluster (s.sessions i).cluster i = true :=
      Server.inCluster_iff.mpr ⟨hact, rfl⟩
    have hacc : Isolated i s (s.emit (.accept i r)) [.accept i r] := isolated_emit s rfl
    obtain ⟨new, hrun⟩ := (ranReport_within s i r m).isolated hin
    exact ⟨_, (hacc.trans hrun).trans (isolated_modify i _ _ fun hact' => ⟨hact', rfl⟩)⟩
  | reply m hact hset =>
    have hin : s.inCluster (s.sessions i).cluster i = true := Server.inCluster_iff.mpr ⟨hact, rfl⟩
    exact (Server.handleVoteInfoReply_within s m hset hin).isolated hin
  | leave =>
    by_cases hact : (s.sessions i).phase = .active
    · have hin : (s.emit (.leave i (s.sessions i).cluster)).inCluster
          (s.sessions i).cluster i = true :=
        Server.inCluster_iff.mpr ⟨hact, rfl⟩
      have hgo :
          Isolated i s (s.emit (.leave i (s.sessions i).cluster))
          [.leave i (s.sessions i).cluster] :=
        isolated_emit s rfl
      obtain ⟨new, hrun⟩ := (leaving_within i).isolated hin
      have hin' : (s.leaving i).inCluster (s.sessions i).cluster i = true :=
        ((leaving_within i).inCluster _ i).trans hin
      rw [Server.left_eq hact (ht.range i hact).1]
      exact ⟨_, (hgo.trans hrun).trans (Server.removed_isolated hin')⟩
    · rw [Server.left_of_not_active hact]
      exact ⟨_, isolated_modify i s _ nofun⟩

theorem Moves.isolated {i : Slot} {s s' : Server} (hm : Moves i s s') (ht : Table s) :
    Table s' ∧ ∃ new, Isolated i s s' new := by
  induction hm with
  | refl => exact ⟨ht, [], .refl i s⟩
  | tail _ hstep ih =>
    obtain ⟨ht', new, h⟩ := ih
    obtain ⟨new', h'⟩ := hstep.isolated ht'
    exact ⟨hstep.table ht', new' ++ new, h.trans h'⟩

/-! ## Calls -/

/-- A session that is not active and does not join touches nobody. -/
theorem Isolated.alone {i : Slot} {s s' : Server} {new : List Event} (h : Isolated i s s' new)
    (hphase : (s.sessions i).phase ≠ .active) (hjoin : ∀ c, .join i c ∉ new) :
    (∀ j, j ≠ i → s'.sessions j = s.sessions j) ∧ s'.clusters = s.clusters ∧
      ∀ j f, j ≠ i → .sendFrame j f ∉ transportCalls new := by
  have hno : ∀ c, ¬Visits i s new c := by
    rintro c (hc | hc)
    · exact hphase (Server.inCluster_iff.mp hc).1
    · exact hjoin c hc
  exact ⟨fun j hj => h.sessions j hj fun c hc => absurd hc (hno c),
    funext fun c => h.clusters c (hno c),
    fun j f hj => h.frames j f hj fun c hc => absurd hc (hno c)⟩

/-- What a call on slot `i` adds to the history, and that it touches only what session `i` visits.
If the session is never active, that is nothing. -/
def Confined (i : Slot) (s s' : Server) : Prop :=
  ∃ new, Isolated i s s' new ∧
    ((s.sessions i).phase ≠ .active → (∀ c, .join i c ∉ new) →
      (∀ j, j ≠ i → s'.sessions j = s.sessions j) ∧ s'.clusters = s.clusters ∧
        ∀ j f, j ≠ i → .sendFrame j f ∉ transportCalls new)

/-- Isolation of clusters, and of sessions that are not admitted, under arbitrary bytes and under a
disconnect. -/
theorem clusters_isolated (n : UInt32) (calls : List Call) (i : Slot) :
    (∀ data now, Confined i (run n calls) ((run n calls).onData i data now)) ∧
      Confined i (run n calls) ((run n calls).onDisconnected i) := by
  have hconfined : ∀ {s'}, Moves i (run n calls) s' → Confined i (run n calls) s' := by
    intro s' hm
    obtain ⟨-, new, h⟩ := Moves.isolated hm (run_table n calls)
    exact ⟨new, h, h.alone⟩
  have hq := (run_steps n calls).2
  exact ⟨fun data now => hconfined (Server.onData_moves i data now hq).1,
    hconfined (Server.onDisconnected_moves i hq).1⟩

end Qnetd
