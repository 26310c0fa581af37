import Qnetd.Invariant.Cluster
import Qnetd.Invariant.Deadlines
import Qnetd.Invariant.Delivery
import Qnetd.Invariant.Isolation
import Qnetd.Invariant.Twins
import Qnetd.Lib.Unwinding

/-!
# The other clusters make no difference

What the clients of a cluster are sent depends on what they send and on the clock, and not on
anybody else the server has.

* `Twin.onData`, `Twin.onDisconnected`, `Twin.tick` : the calls of its members, and the clock, keep
  twins in step;
* `Twin.unvisited` : a call of anybody else leaves a server its own twin, and says nothing to the
  members;
* `Call.owned c`, `Server.heardIn c` : the calls that concern a cluster, and what its members are
  sent in a call;
* `others_make_no_difference` : without the calls of all others the members of a cluster are sent
  the same.
-/

namespace Qnetd

open Unwinding (Unwinds purge heard Along)

namespace Twin

/-! ## Reading -/

section Reading

variable {c : Int} {i : Slot} {now : UInt64} {s s' : Server}

theorem plumbed (h : Twin c s s') (b b' : Bool) (q q' : List Slot) :
    Twin c { s with processing := b, pendingClose := q }
    { s' with processing := b', pendingClose := q' } :=
  ⟨h.maxRxFrame, h.inCluster, h.session, h.cluster⟩

theorem disconnectClient (h : Twin c s s') (hi : s.inCluster c i = true) (hr : Reading i now s)
    (hr' : Reading i now s') (hopen : (s.sessions i).scheduleDisconnect = false) :
    Lockstep c s s' (s.disconnectClient i) (s'.disconnectClient i) := by
  have hopen' : (s'.sessions i).scheduleDisconnect = false := by rw [h.session i hi, hopen]
  rw [Server.disconnectClient_of_processing i hr.processing hr.queue hr.timely.live hopen,
    Server.disconnectClient_of_processing i hr'.processing hr'.queue hr'.timely.live hopen']
  have hmod := h.modify hi (fun x => { x with scheduleDisconnect := true }) ⟨rfl, rfl⟩
  exact ⟨⟨⟨hmod.twin.maxRxFrame, hmod.twin.inCluster, hmod.twin.session, hmod.twin.cluster⟩,
    hmod.trace⟩, hmod.members⟩

theorem consume (h : Twin c s s') (hi : s.inCluster c i = true) (hr : Reading i now s)
    (hr' : Reading i now s') (f : Bytes) :
    Lockstep c s s' (s.consume i now f) (s'.consume i now f) := by
  unfold Server.consume
  rw [h.session i hi, h.maxRxFrame]
  split_ifs with hclosed hlong
  · exact h.still
  · rw [Bool.not_eq_true] at hclosed
    have herr := h.emit (.send i (buildServerError false 0 .messageTooLong))
    exact herr.trans
      (herr.twin.disconnectClient ((herr.members i).trans hi) (hr.emit _) (hr'.emit _) hclosed)
  · rw [Bool.not_eq_true] at hclosed
    have hframe := h.emit (.frame i f)
    unfold Server.handleFrame
    cases msgDecode (MsgType.ofCode (beGet16 f)) (f.drop MSG_HEADER_LEN) with
    | none =>
      have herr :=
        hframe.trans (hframe.twin.emit (.send i (buildServerError false 0 .errorDecodingMsg)))
      exact herr.trans
        (herr.twin.disconnectClient ((herr.members i).trans hi) ((hr.emit _).emit _)
        ((hr'.emit _).emit _) hclosed)
    | some m =>
      dsimp only
      rw [hframe.twin.session i ((hframe.members i).trans hi)]
      have hrecv :=
        hframe.trans (hframe.twin.emit (.recv i (s.sessions i).phase (s.sessions i).nodeId m))
      exact hrecv.trans (hrecv.twin.handleMsg ((hrecv.members i).trans hi) m f now)

theorem foldl_consume (h : Twin c s s') (hi : s.inCluster c i = true) (hr : Reading i now s)
    (hr' : Reading i now s') (l : List Bytes) :
    Lockstep c s s' (l.foldl (Server.consume i now) s) (l.foldl (Server.consume i now) s') := by
  induction l generalizing s s' with
  | nil => exact h.still
  | cons f l ih =>
    have hf := h.consume hi hr hr' f
    exact hf.trans (ih hf.twin ((hf.members i).trans hi) (hr.consume f).1 (hr'.consume f).1)

end Reading

/-! ## Calls of members -/

section Calls

variable {c : Int} {i : Slot} {s s' : Server}

theorem closed {t t' : Server} (h : Apace c s s' t t') (hi : t.inCluster c i = true) (hc : 0 ≤ c) :
    Apace c s s' { ((t.leaveCluster i).reset i).emit (.close i) with processing := false }
      { ((t'.leaveCluster i).reset i).emit (.close i) with processing := false } := by
  have hgone := h.trans (h.twin.leave hi hc)
  have hclose := hgone.trans (hgone.twin.emit (.close i)).toApace
  exact ⟨⟨hclose.twin.maxRxFrame, hclose.twin.inCluster, hclose.twin.session, hclose.twin.cluster⟩,
    hclose.trace⟩

theorem drainCloses {t t' : Server} {now : UInt64} (h : Lockstep c s s' t t')
    (hi : s.inCluster c i = true) (hc : 0 ≤ c)
    (hr : Reading i now t) (hr' : Reading i now t')
    (hclosed : (t.sessions i).scheduleDisconnect = true) :
    Apace c s s' (Server.drainCloses { t with processing := false })
    (Server.drainCloses { t' with processing := false }) := by
  have hin := (h.members i).trans hi
  have hpend : ∀ {u : Server}, Reading i now u → (u.sessions i).scheduleDisconnect = true →
      u.pendingClose = [i] := by
    intro u hu hd
    rcases hu.queue with ⟨-, hopen⟩ | ⟨hq, -, -⟩
    · exact absurd ((hopen i).symm.trans hd) Bool.false_ne_true
    · exact hq
  have hq := hpend hr hclosed
  have hq' := hpend hr' (by rw [h.twin.session i hin, hclosed])
  rw [Server.drainCloses_of_pending (s := { t with processing := false }) hq hr.timely.live,
    Server.drainCloses_of_pending (s := { t' with processing := false }) hq' hr'.timely.live]
  have hp :
      Apace c s s' { t with processing := true, pendingClose := [] }
      { t' with processing := true, pendingClose := [] } :=
    ⟨h.twin.plumbed true true [] [], h.trace⟩
  exact closed hp hin hc

/-- The data of a member keeps twins in step. -/
theorem onData (h : Twin c s s') (hi : s.inCluster c i = true) (hc : 0 ≤ c) (hq : Quiescent s)
    (hq' : Quiescent s')
    (data : Bytes) (now : UInt64) : Apace c s s' (s.onData i data now) (s'.onData i data now) := by
  have hact := (Server.inCluster_iff.mp hi).1
  have hfree : (s.sessions i).phase ≠ .free := by rw [hact]; simp
  have hfree' : (s'.sessions i).phase ≠ .free := by rw [h.session i hi]; exact hfree
  have hr : Reading i now (s.opened i now) := hq.opened hfree
  have hr' : Reading i now (s'.opened i now) := hq'.opened hfree'
  have hopen : Lockstep c s s' (s.opened i now) (s'.opened i now) := by
    have hdpd := h.rescheduleDpd hi now
    exact ⟨⟨hdpd.twin.plumbed true true _ _, hdpd.trace⟩, hdpd.members⟩
  rw [onData_eq hq hfree data hr fun _ => rfl, onData_eq hq' hfree' data hr' fun _ => rfl,
    h.session i hi]
  set b := (s.sessions i).rx ++ data with hb
  have hall :
      Lockstep c s s' ((s.opened i now).consumed i now b) ((s'.opened i now).consumed i now b) := by
    unfold Server.consumed
    rw [hopen.twin.maxRxFrame]
    exact hopen.trans (hopen.twin.foldl_consume ((hopen.members i).trans hi) hr hr' _)
  have hin := (hall.members i).trans hi
  unfold Server.delivered
  rw [hall.twin.session i hin, hopen.twin.maxRxFrame]
  split_ifs with hclosed
  · exact drainCloses hall hi hc (hr.consumed b).1 (hr'.consumed b).1 hclosed
  · have hrx := hall.trans (hall.twin.modify hin
      (fun x => { x with rx := ((frameFormat (s.opened i now).maxRxFrame).split b).2 }) ⟨rfl, rfl⟩)
    exact ⟨hrx.twin.plumbed false false _ _, hrx.trace⟩

theorem onDisconnected (h : Twin c s s') (hi : s.inCluster c i = true) (hc : 0 ≤ c)
    (hq : Quiescent s)
    (hq' : Quiescent s') : Apace c s s' (s.onDisconnected i) (s'.onDisconnected i) := by
  have hact := (Server.inCluster_iff.mp hi).1
  have hfree : (s.sessions i).phase ≠ .free := by rw [hact]; simp
  rw [Server.onDisconnected_slot, Server.onDisconnected_slot, h.session i hi, if_neg hfree,
    if_neg hfree, Server.dropClient_eq i hq rfl, Server.dropClient_eq i hq' rfl]
  have hp : Twin c { s with processing := true } { s' with processing := true } :=
    h.plumbed true true _ _
  have hgone := hp.leave (i := i) hi hc
  exact ⟨hgone.twin.plumbed false false _ _, hgone.trace⟩

theorem tickSlot (h : Twin c s s') (hi : s.inCluster c i = true) (hc : 0 ≤ c) (hq : Quiescent s)
    (hq' : Quiescent s')
    (now : UInt64) : Apace c s s' (Server.tickSlot now s i) (Server.tickSlot now s' i) := by
  have hdue : s'.due now i = s.due now i := by rw [Server.due, h.session i hi, Server.due]
  rw [Server.tickSlot_of_quiescent hq, Server.tickSlot_of_quiescent hq', hdue]
  split_ifs with hd
  · have hfree := (of_decide_eq_true hd).1
    have hfree' : (s'.sessions i).phase ≠ .free := by rw [h.session i hi]; exact hfree
    rw [Server.disconnectClient_eq i hq hfree rfl, Server.disconnectClient_eq i hq' hfree' rfl]
    have hmod := h.modify hi (fun x => { x with scheduleDisconnect := true }) ⟨rfl, rfl⟩
    exact closed ⟨hmod.twin.plumbed true true [] [], hmod.trace⟩ ((hmod.members i).trans hi) hc
  · exact h.still.toApace

end Calls

end Twin

/-! ## Calls of others -/

def TransportCall.slot : TransportCall → Slot
  | .sendFrame i _ => i
  | .closeConnection i => i

def spokenTo (P : Slot → Bool) (new : List Event) : List TransportCall :=
  (transportCalls new).filter fun tc => P tc.slot

theorem spokenTo_append (P : Slot → Bool) (new old : List Event) :
    spokenTo P (new ++ old) = spokenTo P old ++ spokenTo P new := by
  simp [spokenTo, transportCalls]

/-- The slots of `P` are in no other cluster than `c`. -/
def Aloof (c : Int) (P : Slot → Bool) (s : Server) : Prop :=
  ∀ k c', P k = true → c' ≠ c → s.inCluster c' k = false

theorem aloof_members (c : Int) (s : Server) : Aloof c (s.inCluster c) s := by
  intro k c' hk hne
  rw [← Bool.not_eq_true]
  intro hk'
  exact hne ((Server.inCluster_iff.mp hk').2.symm.trans (Server.inCluster_iff.mp hk).2)

/-- A session that does not get into the cluster is nothing to it. -/
theorem Twin.unvisited {c : Int} {j : Slot} {s t : Server} {P : Slot → Bool} (hm : Moves j s t)
    (ht : Table s) (hout : s.inCluster c j = false) (hP : P j = false) (hal : Aloof c P s)
    (hjoin : ∀ new, t.trace = new ++ s.trace → .join j c ∉ new) :
    Twin c s t ∧ ∃ new, t.trace = new ++ s.trace ∧ spokenTo P new = [] := by
  obtain ⟨-, new, hiso⟩ := Moves.isolated hm ht
  have hno : ¬Visits j s new c := by
    rintro (hin | hin)
    · exact Bool.false_ne_true (hout.symm.trans hin)
    · exact hjoin new hiso.trace hin
  have hne : ∀ {k}, P k = true → k ≠ j := by
    rintro k hk rfl
    exact Bool.false_ne_true (hP.symm.trans hk)
  have hmem : ∀ {k}, s.inCluster c k = true → k ≠ j := by
    rintro k hk rfl
    exact Bool.false_ne_true (hout.symm.trans hk)
  refine ⟨⟨Moves.maxRxFrame hm, fun k => ?_, fun k hk => ?_, hiso.clusters c hno⟩, new,
    hiso.trace, ?_⟩
  · by_cases hkj : k = j
    · rw [hkj, hout, ← Bool.not_eq_true]
      exact fun hin => hno (hiso.visited c hin)
    · exact hiso.inCluster hkj c
  · refine hiso.sessions k (hmem hk) fun c' hc' => aloof_members c s k c' hk ?_
    rintro rfl
    exact hno hc'
  · rw [spokenTo, List.filter_eq_nil_iff]
    intro tc htc hk
    cases tc with
    | sendFrame k f =>
      refine hiso.frames k f (hne hk) (fun c' hc' => hal k c' hk ?_) htc
      rintro rfl
      exact hno hc'
    | closeConnection k =>
      obtain ⟨e, he, hcall⟩ := mem_transportCalls.mp htc
      obtain ⟨new', htr', hnew'⟩ := Moves.grows hm
      obtain rfl : new' = new := List.append_cancel_right (htr'.symm.trans hiso.trace)
      cases e with
      | close i =>
        cases hcall
        exact hne hk (hnew' _ he)
      | send _ _ => cases hcall
      | vote _ _ => cases hcall
      | _ => cases hcall

/-! ## The clock -/

theorem left_joinless {s : Server} {j : Slot}
    (hc : (s.sessions j).phase = .active → 0 ≤ (s.sessions j).cluster) :
    ∃ new, ((s.leaveCluster j).reset j).trace = new ++ s.trace ∧ ∀ t c, .join t c ∉ new := by
  by_cases hact : (s.sessions j).phase = .active
  · obtain ⟨new, htr, hnew⟩ := (leaving_within (s := s) j).trace
    refine ⟨new ++ [.leave j (s.sessions j).cluster], ?_, fun t c hmem => ?_⟩
    · rw [Server.left_eq hact (hc hact), Server.removed_trace, htr, List.append_assoc]
      rfl
    · rcases List.mem_append.mp hmem with hmem | hmem
      · exact hnew _ hmem
      · simp at hmem
  · exact ⟨[], by rw [Server.left_of_not_active hact]; rfl, by simp⟩

theorem tickSlot_joinless {s : Server} (hq : Quiescent s) (ht : Table s) (now : UInt64) (j : Slot)
    {new : List Event}
    (htr : (Server.tickSlot now s j).trace = new ++ s.trace) (t : Slot) (c : Int) :
    .join t c ∉ new := by
  rw [Server.tickSlot_of_quiescent hq] at htr
  split_ifs at htr with hd
  · have hfree := (of_decide_eq_true hd).1
    set u : Server := { s.modify j (fun x => { x with scheduleDisconnect := true }) with
      processing := true, pendingClose := [] } with hu
    have hself : u.sessions j = { s.sessions j with scheduleDisconnect := true } :=
      Server.modify_self s j fun x => { x with scheduleDisconnect := true }
    obtain ⟨new', htr', hno⟩ :=
      left_joinless (s := u) (j := j) (by rw [hself]; exact fun hact => (ht.range j hact).1)
    have hclose : (s.disconnectClient j).trace =
        .close j :: ((u.leaveCluster j).reset j).trace := by
      rw [Server.disconnectClient_eq j hq hfree hu]
      rfl
    have heq : new = .close j :: new' := by
      refine List.append_cancel_right (htr.symm.trans ?_)
      rw [hclose, htr']
      rfl
    rw [heq]
    simp [hno]
  · obtain rfl : new = [] := List.append_left_eq_self.mp htr.symm
    simp

/-- Two servers that agree on cluster `c`, between calls. -/
structure Synced (c : Int) (s s' : Server) : Prop where
  twin : Twin c s s'
  quiescent : Quiescent s
  quiescent' : Quiescent s'
  table : Table s
  table' : Table s'

theorem Synced.nonneg {c : Int} {s s' : Server} (h : Synced c s s') {i : Slot}
    (hi : s.inCluster c i = true) : 0 ≤ c := by
  obtain ⟨hact, rfl⟩ := Server.inCluster_iff.mp hi
  exact (h.table.range i hact).1

/-- From `s` and `s'` to `t` and `t'`, with the same said to the slots of `P`. -/
structure HeardSame (c : Int) (P : Slot → Bool) (s s' t t' : Server) : Prop where
  synced : Synced c t t'
  aloof : Aloof c P t
  aloof' : Aloof c P t'
  said : ∃ new new', t.trace = new ++ s.trace ∧ t'.trace = new' ++ s'.trace ∧
    spokenTo P new' = spokenTo P new

theorem tickSlot_turn {s : Server} (hq : Quiescent s) (ht : Table s) (now : UInt64) (j : Slot) :
    Moves j s (Server.tickSlot now s j) ∧ Quiescent (Server.tickSlot now s j) ∧
    Table (Server.tickSlot now s j) := by
  obtain ⟨-, hq', ht'⟩ := Server.tickSlot_closes hq ht now j
  refine ⟨?_, hq', ht'⟩
  rw [Server.tickSlot_of_quiescent hq]
  split_ifs
  · exact (Server.disconnectClient_moves j hq).1
  · exact .refl

theorem HeardSame.trans {c : Int} {P : Slot → Bool} {s s' t t' u u' : Server}
    (h₁ : HeardSame c P s s' t t') (h₂ : HeardSame c P t t' u u') : HeardSame c P s s' u u' := by
  obtain ⟨new₁, new₁', ht, ht', hsame₁⟩ := h₁.said
  obtain ⟨new₂, new₂', hu, hu', hsame₂⟩ := h₂.said
  refine ⟨h₂.synced, h₂.aloof, h₂.aloof', new₂ ++ new₁, new₂' ++ new₁', ?_, ?_, ?_⟩
  · rw [hu, ht, List.append_assoc]
  · rw [hu', ht', List.append_assoc]
  · rw [spokenTo_append, spokenTo_append, hsame₁, hsame₂]

theorem Aloof.tickSlot {c : Int} {P : Slot → Bool} {s : Server} (h : Aloof c P s) (hq : Quiescent s)
    (ht : Table s) (now : UInt64) (j : Slot) : Aloof c P (Server.tickSlot now s j) := by
  intro k c' hk hc'
  by_cases hkj : k = j
  · rw [Server.tickSlot_of_quiescent hq, hkj]
    split_ifs
    · rw [← Bool.not_eq_true, Server.inCluster_iff, Server.disconnectClient_free j hq]
      exact fun hin => by cases hin.1
    · exact h j c' (hkj ▸ hk) hc'
  · obtain ⟨-, new, hiso⟩ := Moves.isolated (tickSlot_turn hq ht now j).1 ht
    rw [hiso.inCluster hkj]
    exact h k c' hk hc'

theorem Synced.tickSlot {c : Int} {P : Slot → Bool} {s s' : Server} (h : Synced c s s')
    (hal : Aloof c P s)
    (hal' : Aloof c P s') (now : UInt64) {j : Slot} (hj : s.inCluster c j = P j) :
    HeardSame c P s s' (Server.tickSlot now s j) (Server.tickSlot now s' j) := by
  obtain ⟨hm, hq, ht⟩ := tickSlot_turn h.quiescent h.table now j
  obtain ⟨hm', hq', ht'⟩ := tickSlot_turn h.quiescent' h.table' now j
  have hal₁ := hal.tickSlot h.quiescent h.table now j
  have hal₁' := hal'.tickSlot h.quiescent' h.table' now j
  cases hP : P j with
  | false =>
    have hout := hj.trans hP
    obtain ⟨htw, new, htr, hnil⟩ := Twin.unvisited hm h.table hout hP hal
      fun new htr => tickSlot_joinless h.quiescent h.table now j htr j c
    obtain ⟨htw', new', htr', hnil'⟩ :=
      Twin.unvisited hm' h.table' ((h.twin.inCluster j).trans hout) hP hal'
      fun new htr => tickSlot_joinless h.quiescent' h.table' now j htr j c
    exact ⟨⟨(htw.symm.trans h.twin).trans htw', hq, hq', ht, ht'⟩, hal₁, hal₁', new, new', htr,
      htr', by rw [hnil, hnil']⟩
  | true =>
    have hin := hj.trans hP
    have hgo := h.twin.tickSlot hin (h.nonneg hin) h.quiescent h.quiescent' now
    obtain ⟨new, htr, htr'⟩ := hgo.trace
    exact ⟨⟨hgo.twin, hq, hq', ht, ht'⟩, hal₁, hal₁', new, new, htr, htr', rfl⟩

/-- The clock keeps twins in step. -/
theorem Synced.tick {c : Int} {s s' : Server} (h : Synced c s s') (now : UInt64) :
    HeardSame c (s.inCluster c) s s' (s.tick now) (s'.tick now) := by
  have hal' : Aloof c (s.inCluster c) s' := by
    have := aloof_members c s'
    rwa [show s'.inCluster c = s.inCluster c from funext h.twin.inCluster] at this
  -- a slot whose turn has not come is as it was
  have hfold : ∀ (l : List Slot), l.Nodup → ∀ {t t'}, HeardSame c (s.inCluster c) s s' t t' →
      (∀ k ∈ l, t.inCluster c k = s.inCluster c k) →
      HeardSame c (s.inCluster c) s s' (l.foldl (Server.tickSlot now) t)
        (l.foldl (Server.tickSlot now) t') := by
    intro l
    induction l with
    | nil => exact fun _ _ _ ht _ => ht
    | cons j l ih =>
      intro hl t t' ht hturn
      obtain ⟨hjl, hl⟩ := List.nodup_cons.mp hl
      have hstep := ht.synced.tickSlot ht.aloof ht.aloof' now (hturn j List.mem_cons_self)
      refine ih hl (ht.trans hstep) fun k hk => ?_
      have hkj : k ≠ j := by
        rintro rfl
        exact hjl hk
      obtain ⟨-, new, hiso⟩ :=
        Moves.isolated (tickSlot_turn ht.synced.quiescent ht.synced.table now j).1 ht.synced.table
      rw [hiso.inCluster hkj]
      exact hturn k (List.mem_cons_of_mem j hk)
  exact hfold _ (List.nodup_finRange _) ⟨h, aloof_members c s, hal', [], [], rfl, rfl, rfl⟩
    fun _ _ => rfl

/-! ## Runs -/

/-- What a call says to the clients that are members of cluster `c` when it comes. -/
def Server.heardIn (c : Int) (s : Server) (k : Call) : List TransportCall :=
  spokenTo (s.inCluster c) (s.newEvents k)

/-- The calls that concern cluster `c`: those of its members, and the clock. -/
def Call.owned (c : Int) (s : Server) : Call → Bool
  | .tick _ => true
  | .onData slot _ _ | .onDisconnected slot _ =>
    (List.finRange MAX_CLIENTS).any fun i => slot = (i : Nat) && s.inCluster c i
  | .onConnect _ _ => false

theorem owned_iff {c : Int} {s : Server} {slot : Int} :
    ((List.finRange MAX_CLIENTS).any fun i : Slot => slot = (i : Nat) && s.inCluster c i) = true ↔
      ∃ i : Slot, slot = (i : Nat) ∧ s.inCluster c i = true := by
  simp

theorem Synced.inStep {c : Int} {s s' : Server} (h : Synced c s s') {k : Call}
    (hk : k.owned c s = true) :
    s'.heardIn c k = s.heardIn c k ∧ Synced c (s.call k) (s'.call k) := by
  have hmem : s'.inCluster c = s.inCluster c := funext h.twin.inCluster
  have hof : ∀ {i : Slot} {t t' : Server}, s.call k = t → s'.call k = t' →
      Moves i s t ∧ Quiescent t → Moves i s' t' ∧ Quiescent t' → Apace c s s' t t' →
      s'.heardIn c k = s.heardIn c k ∧ Synced c (s.call k) (s'.call k) := by
    rintro i t t' rfl rfl ⟨hm, hq⟩ ⟨hm', hq'⟩ hgo
    obtain ⟨new, htr, htr'⟩ := hgo.trace
    rw [Server.heardIn, Server.heardIn, Server.newEvents_eq htr, Server.newEvents_eq htr', hmem]
    exact ⟨rfl, hgo.twin, hq, hq', (Moves.isolated hm h.table).1, (Moves.isolated hm' h.table').1⟩
  cases k with
  | onConnect now peer => cases hk
  | tick now =>
    have hgo := h.tick now
    obtain ⟨new, new', htr, htr', hsame⟩ := hgo.said
    rw [Server.heardIn, Server.heardIn, Server.newEvents_eq (k := .tick now) htr,
      Server.newEvents_eq (k := .tick now) htr', hmem]
    exact ⟨hsame, hgo.synced⟩
  | onData slot data now =>
    obtain ⟨i, rfl, hi⟩ := owned_iff.mp hk
    exact hof rfl rfl (Server.onData_moves i data now h.quiescent)
      (Server.onData_moves i data now h.quiescent')
      (h.twin.onData hi (h.nonneg hi) h.quiescent h.quiescent' data now)
  | onDisconnected slot now =>
    obtain ⟨i, rfl, hi⟩ := owned_iff.mp hk
    exact hof rfl rfl (Server.onDisconnected_moves i h.quiescent)
      (Server.onDisconnected_moves i h.quiescent')
      (h.twin.onDisconnected hi (h.nonneg hi) h.quiescent h.quiescent')

theorem Synced.ignored {c : Int} {s s' : Server} (h : Synced c s s') {k : Call}
    (hjoin : ∀ t, .join t c ∉ s.newEvents k)
    (hk : k.owned c s = false) : s.heardIn c k = [] ∧ Synced c (s.call k) s' := by
  have hnone : s.call k = s → s.heardIn c k = [] ∧ Synced c (s.call k) s' := by
    intro heq
    have htr : (s.call k).trace = [] ++ s.trace := by rw [heq]; rfl
    rw [Server.heardIn, Server.newEvents_eq htr, heq]
    exact ⟨rfl, h⟩
  have hof : ∀ {i : Slot} {t : Server}, s.call k = t → Moves i s t → Quiescent t →
      s.inCluster c i = false → s.heardIn c k = [] ∧ Synced c (s.call k) s' := by
    rintro i t rfl hm hq hout
    obtain ⟨htw, new, htr, hnil⟩ := Twin.unvisited hm h.table hout hout (aloof_members c s)
      fun new htr => by
        have := hjoin i
        rwa [Server.newEvents_eq htr] at this
    rw [Server.heardIn, Server.newEvents_eq htr]
    exact ⟨hnil, htw.symm.trans h.twin, hq, h.quiescent', (Moves.isolated hm h.table).1, h.table'⟩
  have hslot : ∀ {i : Slot},
      ((List.finRange MAX_CLIENTS).any fun j : Slot => ((i : Nat) : Int) =
      (j : Nat) && s.inCluster c j) = false → s.inCluster c i = false := by
    intro i hany
    rw [← Bool.not_eq_true] at hany ⊢
    exact fun hin => hany (owned_iff.mpr ⟨i, rfl, hin⟩)
  cases k with
  | tick now => cases hk
  | onConnect now peer =>
    cases hf : (List.finRange MAX_CLIENTS).find? (fun i => (s.sessions i).phase = .free) with
    | none => exact hnone (by simp [Server.call, Server.onConnect, hf])
    | some i =>
      have hfree : (s.sessions i).phase = .free := by simpa using List.find?_some hf
      have hcall : s.call (.onConnect now peer) = (s.modify i fun _ =>
          { phase := .waitPreinit, peer := peer, deadlineMs := now + PREACTIVE_TIMEOUT_MS }).emit
            (.connect i) := by
        simp [Server.call, Server.onConnect, hf]
      refine hof hcall (Move.connect now peer hfree).moves
        (hcall ▸ (Server.onConnect_steps now peer h.quiescent).2) ?_
      rw [← Bool.not_eq_true, Server.inCluster_iff, hfree]
      exact fun hin => by cases hin.1
  | onData slot data now =>
    rcases Server.slot_cases slot with ⟨i, rfl⟩ | ⟨-, hout⟩
    · obtain ⟨hm, hq⟩ := Server.onData_moves i data now h.quiescent
      exact hof rfl hm hq (hslot hk)
    · exact hnone ((hout s).1 data now)
  | onDisconnected slot now =>
    rcases Server.slot_cases slot with ⟨i, rfl⟩ | ⟨-, hout⟩
    · obtain ⟨hm, hq⟩ := Server.onDisconnected_moves i h.quiescent
      exact hof rfl hm hq (hslot hk)
    · exact hnone (hout s).2

theorem synced_unwinds (c : Int) :
    Unwinds Server.call (fun s k => Call.owned c s k) (Server.heardIn c)
    (fun s k => ∀ t, .join t c ∉ s.newEvents k) (Synced c) where
  inStep h _ hk := h.inStep hk
  ignored h hjoin hk := h.ignored hjoin hk

theorem calls_suffix (l : List Call) {s : Server} (hq : Quiescent s) :
    s.trace <:+ (l.foldl Server.call s).trace := by
  induction l generalizing s with
  | nil => exact List.suffix_refl _
  | cons k l ih => exact (Server.call_suffix k hq).trans (ih (Server.call_steps k hq).2)

theorem along_joinless {c : Int} (l : List Call) {s : Server} (hq : Quiescent s)
    (h : ∀ new, (l.foldl Server.call s).trace = new ++ s.trace → ∀ t, .join t c ∉ new) :
    Along Server.call (fun s k => ∀ t, .join t c ∉ s.newEvents k) s l := by
  induction l generalizing s with
  | nil => trivial
  | cons k l ih =>
    have hq' := (Server.call_steps k hq).2
    obtain ⟨new, htr⟩ := Server.call_suffix k hq
    obtain ⟨later, htr'⟩ := calls_suffix l hq'
    have hnew : (s.call k).trace = new ++ s.trace := htr.symm
    have hall : ((k :: l).foldl Server.call s).trace = (later ++ new) ++ s.trace := by
      rw [List.append_assoc, ← hnew]
      exact htr'.symm
    refine ⟨fun t => ?_, ih hq' fun later' htr'' t hmem => ?_⟩
    · rw [Server.newEvents_eq hnew]
      exact fun hmem => h _ hall t (List.mem_append_right _ hmem)
    · obtain rfl : later' = later := List.append_cancel_right (htr''.symm.trans htr'.symm)
      exact h _ hall t (List.mem_append_left _ hmem)

/-- The other clusters make no difference. From any reachable state on, while nobody joins cluster
`c`, its members are sent the same frames, and closed at the same points, as if they were alone with
the clock: without the connections of others, without anything these send, and without their
disconnects. At the end the sessions and the record of the cluster are the same, too. -/
theorem others_make_no_difference (n : UInt32) (calls later : List Call) (c : Int)
    (hjoin : ∀ new, (run n (calls ++ later)).trace = new ++ (run n calls).trace →
      ∀ t, .join t c ∉ new) :
    let s := run n calls
    let alone := purge Server.call (fun s k => Call.owned c s k) s later
    heard Server.call (Server.heardIn c) s alone = heard Server.call (Server.heardIn c) s later ∧
      Twin c (run n (calls ++ later)) (run n (calls ++ alone)) := by
  intro s alone
  have hq := (run_steps n calls).2
  have hfold : ∀ l, run n (calls ++ l) = l.foldl Server.call s := fun l => List.foldl_append
  have hsync : Synced c s s := ⟨.refl c s, hq, hq, run_table n calls, run_table n calls⟩
  rw [hfold] at hjoin
  obtain ⟨hheard, hend⟩ :=
    Unwinding.purge_heard (synced_unwinds c) later hsync (along_joinless later hq hjoin)
  rw [hfold, hfold]
  exact ⟨hheard, hend.twin⟩

/-- A client of another cluster is admitted while node 2 answers its NACK, and then all of them are
silent for a minute. -/
def crowdedCalls : List Call :=
  Rig.join 2 [66] 7 {} ++ Rig.feed 1 [MockClient.voteInfoReply 1] ++
    Rig.feed 2 [MockClient.configList 3 .initialConfig [7]] ++ [.tick 61000]

/-- Two of the six calls concern the two nodes of the split. Node 1 is sent its ACK; in the end it
is closed, node 2 is sent a vote on that, and is closed. -/
theorem others_make_no_difference_crowded :
    let s := run 32768 splitCalls
    let alone := purge Server.call (fun s k => Call.owned 0 s k) s crowdedCalls
    crowdedCalls.length = 6 ∧ alone.length = 2 ∧
      (heard Server.call (Server.heardIn 0) s crowdedCalls).map TransportCall.slot = [0, 1, 0, 1] ∧
      heard Server.call (Server.heardIn 0) s alone =
        heard Server.call (Server.heardIn 0) s crowdedCalls := by
  intro s alone
  obtain ⟨hlen, halone, hslots, hcount⟩ : (let s := run 32768 splitCalls
      crowdedCalls.length = 6 ∧
        (purge Server.call (fun s k => Call.owned 0 s k) s crowdedCalls).length = 2 ∧
        (heard Server.call (Server.heardIn 0) s crowdedCalls).map TransportCall.slot =
          [0, 1, 0, 1] ∧
        ((run 32768 (splitCalls ++ crowdedCalls)).trace.filterMap (Event.turnover 0)).countP
          Prod.snd = (s.trace.filterMap (Event.turnover 0)).countP Prod.snd) := by
    decide +kernel
  refine ⟨hlen, halone, hslots,
    (others_make_no_difference 32768 splitCalls crowdedCalls 0 fun new htr t hmem => ?_).1⟩
  -- a join would be counted
  rw [htr, List.filterMap_append, List.countP_append, Nat.add_eq_right,
    List.countP_eq_zero] at hcount
  exact hcount (t, true) (List.mem_filterMap.mpr ⟨_, hmem, rfl⟩) rfl

end Qnetd
