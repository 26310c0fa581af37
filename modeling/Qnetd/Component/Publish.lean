import Qnetd.Component.Refine
import Qnetd.Invariant.Numbering
import Qnetd.Server.Status

/-!
# Publishing

The sensors of the component. The server's `on_state_change` sets `dirty_`, and an iteration that
ends with `dirty_` set publishes what the server shows. An iteration whose calls do not notify has
changed nothing, so the sensors are never behind.

* `TextSensor` : the text sensor of ESPHome, which is outside; `TextSensor.Plain` : its state is the
  text it was last given;
* `Sensors` : which sensors are configured; `Given` : what they were given; `publish` :
  `publish_()`;
* `Publisher` : the component with its flag and its sensors; `Publisher.loop` : an iteration, the
  end of it included;
* `sensors_current` : after every iteration what was last given to the sensors is the server as it
  is, in terms of what has happened: who is connected, the decisions taken, and the last vote of
  each member.
-/

namespace Qnetd

/-- A text sensor of ESPHome: what `publish_state` makes of it, and its `state`, where there is none
as long as `has_state` is false. -/
structure TextSensor where
  Entity : Type
  fresh : Entity
  publishState : Entity → Bytes → Entity
  state : Entity → Option Bytes

/-- The sensor has no filter, restores nothing, and nobody else publishes to it. -/
structure TextSensor.Plain (T : TextSensor) : Prop where
  fresh : T.state T.fresh = none
  publishState : ∀ x st, T.state (T.publishState x st) = some st

/-- The sensors that are configured, where the pointers of the source are not null. -/
structure Sensors where
  connected : Bool
  decisions : Bool
  voteGranted : Bool
  status : Bool

/-- The arguments that `publish_state` was last called with, as they are before the sensors convert
them; for the text sensor its own state, and all the texts it was given, newest first. -/
structure Given (T : TextSensor) where
  connected : Option Nat := none
  decisions : Option UInt32 := none
  voteGranted : Option Bool := none
  entity : T.Entity := T.fresh
  texts : List Bytes := []

/-- The last part of `publish_()`. -/
def Given.publishStatus {T : TextSensor} (st : Bytes) (g : Given T) : Given T :=
  if T.state g.entity ≠ some st then
    { g with entity := T.publishState g.entity st, texts := st :: g.texts }
  else g

/-- `publish_()`. -/
def Given.publish {T : TextSensor} (cfg : Sensors) (s : Server) (g : Given T) : Given T :=
  let g := if cfg.connected then { g with connected := some s.connectedClients } else g
  let g := if cfg.decisions then { g with decisions := some s.decisions } else g
  let g := if cfg.voteGranted then { g with voteGranted := some s.anyAck } else g
  if cfg.status then g.publishStatus s.statusString else g

/-- Whether one of the calls notifies. -/
def Server.notified (s : Server) : List Call → Bool
  | [] => false
  | k :: ks => s.notifies k || (s.call k).notified ks

structure Publisher (T : TextSensor) where
  component : QnetdComponent
  dirty : Bool
  given : Given T

namespace Publisher

variable {T : TextSensor}

def setup (listening : Bool) : Publisher T := ⟨.setup listening, false, {}⟩

/-- `loop()`, with what happens to `dirty_` in it. -/
def loop (w : Writes) (cfg : Sensors) (p : Publisher T) (it : Iteration) : Publisher T :=
  if p.component.failed then p
  else
    let dirty := p.dirty || p.component.server.notified (p.component.loopCalls w it)
    let c := p.component.loop w it
    if dirty then ⟨c, false, p.given.publish cfg c.server⟩ else ⟨c, dirty, p.given⟩

def run (T : TextSensor) (w : Writes) (cfg : Sensors) (listening : Bool) (its : List Iteration) :
    Publisher T :=
  its.foldl (loop w cfg) (setup listening)

theorem run_concat (w : Writes) (cfg : Sensors) (listening : Bool) (its : List Iteration)
    (it : Iteration) :
    run T w cfg listening (its ++ [it]) = (run T w cfg listening its).loop w cfg it :=
  List.foldl_concat ..

theorem loop_component (w : Writes) (cfg : Sensors) (p : Publisher T) (it : Iteration) :
    (p.loop w cfg it).component = p.component.loop w it := by
  simp only [loop]
  split_ifs with hfailed hdirty
  · rw [QnetdComponent.loop, if_pos hfailed]
  · rfl
  · rfl

theorem run_component (w : Writes) (cfg : Sensors) (listening : Bool) (its : List Iteration) :
    (run T w cfg listening its).component = .run w listening its := by
  induction its using List.reverseRecOn with
  | nil => rfl
  | append_singleton its it ih => rw [run_concat, loop_component, ih, QnetdComponent.run_concat]

end Publisher

/-! ## Nothing is missed -/

theorem Server.foldl_of_not_notified {l : List Call} {s : Server} (hq : Quiescent s)
    (h : s.notified l = false) : l.foldl Server.call s = s := by
  induction l generalizing s with
  | nil => rfl
  | cons k l ih =>
    rw [Server.notified, Bool.or_eq_false_iff] at h
    have hk := Server.call_of_not_notifies hq h.1
    rw [List.foldl_cons, hk]
    rw [hk] at h
    exact ih hq h.2

namespace Given

variable {T : TextSensor} {cfg : Sensors} {s : Server} {g : Given T}

theorem publish_connected (h : cfg.connected = true) :
    (g.publish cfg s).connected = some s.connectedClients := by
  simp only [publish, publishStatus, h, if_true]
  split_ifs <;> rfl

theorem publish_decisions (h : cfg.decisions = true) :
    (g.publish cfg s).decisions = some s.decisions := by
  simp only [publish, publishStatus, h, if_true]
  split_ifs <;> rfl

theorem publish_voteGranted (h : cfg.voteGranted = true) :
    (g.publish cfg s).voteGranted = some s.anyAck := by
  simp only [publish, publishStatus, h, if_true]
  split_ifs <;> rfl

theorem publish_status (h : cfg.status = true) :
    (g.publish cfg s).entity = (g.publishStatus s.statusString).entity ∧
      (g.publish cfg s).texts = (g.publishStatus s.statusString).texts := by
  simp only [publish, publishStatus, h, if_true]
  split_ifs <;> exact ⟨rfl, rfl⟩

theorem publish_of_no_status (h : cfg.status = false) :
    (g.publish cfg s).entity = g.entity ∧ (g.publish cfg s).texts = g.texts := by
  simp only [publish, h, Bool.false_eq_true, if_false]
  split_ifs <;> exact ⟨rfl, rfl⟩

/-- The state of the text sensor is the text it was last given, and no text was given to it twice in
a row. -/
structure InStep (g : Given T) : Prop where
  state : T.state g.entity = g.texts.head?
  changes : g.texts.IsChain (· ≠ ·)

theorem InStep.publishStatus (hT : T.Plain) (h : g.InStep) (st : Bytes) :
    (g.publishStatus st).InStep ∧ (g.publishStatus st).texts.head? = some st := by
  unfold Given.publishStatus
  split_ifs with hst
  · refine ⟨⟨hT.publishState _ _, ?_⟩, rfl⟩
    rw [h.state] at hst
    cases htexts : g.texts with
    | nil => exact .singleton _
    | cons last l =>
      refine List.isChain_cons_cons.mpr ⟨?_, htexts ▸ h.changes⟩
      rintro rfl
      exact hst (by rw [htexts, List.head?_cons])
  · exact ⟨h, h.state ▸ not_not.mp hst⟩

theorem InStep.publish (hT : T.Plain) (h : g.InStep) : (g.publish cfg s).InStep := by
  cases hcfg : cfg.status with
  | false =>
    obtain ⟨hentity, htexts⟩ := publish_of_no_status (g := g) (s := s) hcfg
    exact ⟨by rw [hentity, htexts, h.state], htexts ▸ h.changes⟩
  | true =>
    obtain ⟨hentity, htexts⟩ := publish_status (g := g) (s := s) hcfg
    have hst := (h.publishStatus hT s.statusString).1
    exact ⟨by rw [hentity, htexts, hst.state], htexts ▸ hst.changes⟩

/-- The sensors that are configured were last given what the server shows. -/
structure Shows (cfg : Sensors) (s : Server) (g : Given T) : Prop where
  connected : cfg.connected = true → g.connected = some s.connectedClients
  decisions : cfg.decisions = true → g.decisions = some s.decisions
  voteGranted : cfg.voteGranted = true → g.voteGranted = some s.anyAck
  status : cfg.status = true → g.texts.head? = some s.statusString

theorem InStep.shows (hT : T.Plain) (h : g.InStep) : (g.publish cfg s).Shows cfg s where
  connected := publish_connected
  decisions := publish_decisions
  voteGranted := publish_voteGranted
  status hcfg := by
    rw [(publish_status hcfg).2]
    exact (h.publishStatus hT s.statusString).2

end Given

/-- The sensors were given what the server shows now, or nothing has happened yet. -/
structure UpToDate {T : TextSensor} (cfg : Sensors) (p : Publisher T) : Prop where
  clean : p.dirty = false
  current : p.given.Shows cfg p.component.server ∨
    p.given = {} ∧ p.component.server = Server.init 32768
  inStep : p.given.InStep

theorem UpToDate.loop {T : TextSensor} (hT : T.Plain) {w : Writes} {cfg : Sensors} {p : Publisher T}
    (h : UpToDate cfg p) (hq : Quiescent p.component.server) (it : Iteration) :
    UpToDate cfg (p.loop w cfg it) := by
  simp only [Publisher.loop, h.clean, Bool.false_or]
  split_ifs with hfailed hdirty
  · exact h
  · exact ⟨rfl, Or.inl (h.inStep.shows hT), h.inStep.publish hT⟩
  · have hsame : (p.component.loop w it).server = p.component.server := by
      rw [QnetdComponent.loop_server]
      exact Server.foldl_of_not_notified hq (Bool.not_eq_true _ ▸ hdirty)
    refine ⟨Bool.not_eq_true _ ▸ hdirty, ?_, h.inStep⟩
    dsimp only
    rw [hsame]
    exact h.current

theorem run_upToDate {T : TextSensor} (hT : T.Plain) (w : Writes) (cfg : Sensors) (listening : Bool)
    (its : List Iteration) : UpToDate cfg (Publisher.run T w cfg listening its) := by
  induction its using List.reverseRecOn with
  | nil => exact ⟨rfl, Or.inr ⟨rfl, rfl⟩, hT.fresh, .nil⟩
  | append_singleton its it ih =>
    have hq : Quiescent (Publisher.run T w cfg listening its).component.server := by
      rw [Publisher.run_component, QnetdComponent.run_server]
      exact (run_steps 32768 _).2
    rw [Publisher.run_concat]
    exact ih.loop hT hq it

/-! ## What the sensors say -/

namespace Server

/-- The last vote sent to session `t` since it connected. -/
def voteOf (s : Server) (t : Slot) : Vote := lastVote (votesTo t s.trace)

def memberText (s : Server) (t : Slot) : Bytes :=
  ascii (" " ++ toString (s.sessions t).nodeId.toNat ++ "=" ++ voteStr (s.voteOf t))

/-- The clusters in use with their members, each with the last vote it was sent. -/
def statusText (s : Server) : Bytes :=
  if s.usedClusters = [] then ascii "idle"
  else (ascii " | ").intercalate (s.usedClusters.map fun c =>
    (s.clusters c).name ++ ascii ":" ++ ((List.finRange MAX_CLIENTS).filter (s.inCluster c)).flatMap
      s.memberText)

end Server

namespace Booked

variable {s : Server}

theorem lastAckNack (h : Booked s) {t : Slot} (hact : (s.sessions t).phase = .active) :
    (s.sessions t).lastAckNack = s.voteOf t :=
  (h.tallies t (by rw [hact]; decide)).lastAckNack

theorem anyAck (h : Booked s) :
    s.anyAck = decide (∃ t, (s.sessions t).phase = .active ∧ s.voteOf t = .ack) := by
  rw [Bool.eq_iff_iff, decide_eq_true_eq, Server.anyAck, List.any_eq_true]
  constructor
  · rintro ⟨t, -, ht⟩
    obtain ⟨hact, hack⟩ := of_decide_eq_true ht
    exact ⟨t, hact, (h.lastAckNack hact).symm.trans hack⟩
  · rintro ⟨t, hact, hack⟩
    exact ⟨t, List.mem_finRange t, decide_eq_true ⟨hact, (h.lastAckNack hact).trans hack⟩⟩

theorem clusterStatus (h : Booked s) (c : Int) :
    s.clusterStatus c = (s.clusters c).name ++ ascii ":" ++
      ((List.finRange MAX_CLIENTS).filter (s.inCluster c)).flatMap s.memberText := by
  have hmembers : ∀ l : List Slot, (l.flatMap fun i =>
      if (s.sessions i).phase ≠ .active ∨ (s.sessions i).cluster ≠ c then []
      else Server.memberStatus (s.sessions i)) =
      (l.filter (s.inCluster c)).flatMap s.memberText := by
    intro l
    induction l with
    | nil => rfl
    | cons t l ih =>
      rw [List.flatMap_cons, ih]
      by_cases hin : s.inCluster c t = true
      · obtain ⟨hact, hc⟩ := Server.inCluster_iff.mp hin
        rw [List.filter_cons_of_pos hin, List.flatMap_cons, if_neg (by simp [hact, hc]),
          Server.memberStatus_eq, h.lastAckNack hact]
        rfl
      · have hout : (s.sessions t).phase ≠ .active ∨ (s.sessions t).cluster ≠ c := by
          rw [Server.inCluster_iff, not_and_or] at hin
          exact hin
        rw [List.filter_cons_of_neg hin, if_pos hout, List.nil_append]
  rw [Server.clusterStatus, hmembers]

theorem statusString (h : Booked s) : s.statusString = s.statusText := by
  rw [Server.statusString_eq, Server.statusText, funext h.clusterStatus]

end Booked

/-- The sensors are given the server as it is. After every iteration, either nothing has happened
yet, nothing was published and the server is as it was set up, or `publish_state` of every sensor
that is configured was last called with what is so now: the number of members, the number of
decisions taken modulo `2^32`, whether some member's last vote was an ACK, and the clusters with
their members and the last vote of each. A plain text sensor is given no text twice in a row. -/
theorem sensors_current (T : TextSensor) (hT : T.Plain) (w : Writes) (cfg : Sensors)
    (listening : Bool) (its : List Iteration) :
    let g := (Publisher.run T w cfg listening its).given
    let s := (QnetdComponent.run w listening its).server
    (g = {} ∧ s = Server.init 32768 ∨
      (cfg.connected = true → g.connected =
        some ((List.finRange MAX_CLIENTS).filter fun t => (s.sessions t).phase = .active).length) ∧
      (cfg.decisions = true →
        g.decisions = some (UInt32.ofNat (s.trace.countP Event.decides))) ∧
      (cfg.voteGranted = true → g.voteGranted =
        some (decide (∃ t, (s.sessions t).phase = .active ∧ s.voteOf t = .ack))) ∧
      (cfg.status = true → g.texts.head? = some s.statusText)) ∧
    T.state g.entity = g.texts.head? ∧ g.texts.IsChain (· ≠ ·) := by
  dsimp only
  have hup := run_upToDate hT w cfg listening its
  have hbook : Booked (QnetdComponent.run w listening its).server := by
    rw [QnetdComponent.run_server]
    exact run_booked 32768 _
  refine ⟨?_, hup.inStep.state, hup.inStep.changes⟩
  have hcurrent := hup.current
  rw [Publisher.run_component] at hcurrent
  rcases hcurrent with hshow | hnew
  · right
    refine ⟨hshow.connected, fun hcfg => ?_, fun hcfg => ?_, fun hcfg => ?_⟩
    · rw [hshow.decisions hcfg, hbook.decisions]
    · rw [hshow.voteGranted hcfg, hbook.anyAck]
    · rw [hshow.status hcfg, hbook.statusString]
  · exact Or.inl hnew

/-- A text sensor that keeps the text it is given. -/
def plainText : TextSensor where
  Entity := Option Bytes
  fresh := none
  publishState _ st := some st
  state := id

theorem init_readable :
    MockClient.init 2 1 {} ≠ [] ∧ (MockClient.init 2 1 {}).length ≤ READ_BUF_LEN := by
  decide

/-- A peer connects and joins. -/
def onePeer : List Iteration :=
  [{ millis := 1000, accepted := [(7, "a")]
     reads := fun _ => [.data ⟨MockClient.preinit 1 [116], preinit_readable⟩,
       .data ⟨MockClient.init 2 1 {}, init_readable⟩] }]

theorem sensors_current_onePeer :
    let p := Publisher.run plainText (fun _ _ => .wouldBlock) ⟨true, true, true, true⟩ true onePeer
    p.given.connected = some 1 ∧ plainText.state p.given.entity = some (ascii "t: 1=undef") ∧
      p.given.texts.IsChain (· ≠ ·) := by
  obtain ⟨-, hstate, hchanges⟩ := sensors_current plainText ⟨rfl, fun _ _ => rfl⟩
    (fun _ _ => .wouldBlock) ⟨true, true, true, true⟩ true onePeer
  have hrun : (Publisher.run plainText (fun _ _ => .wouldBlock) ⟨true, true, true, true⟩ true
        onePeer).given.connected = some 1 ∧
      (Publisher.run plainText (fun _ _ => .wouldBlock) ⟨true, true, true, true⟩ true
        onePeer).given.texts = [ascii "t: 1=undef"] := by decide +kernel
  refine ⟨hrun.1, ?_, hchanges⟩
  rw [hstate, hrun.2]
  rfl

end Qnetd
