import Qnetd.Server.Outcomes

/-!
# What the handlers do not look at

The receive buffers, the close queue and the two flags are the business of `on_data`,
`disconnect_client` and `drain_closes`. The number of decisions and the history are written and
never read.

* `Plumbing`, `Server.overlay` : the buffers, the queue and the flags, and the server with them
  replaced;
* `Server.rebase` : the server on top of an earlier number of decisions and an earlier history;
* `Blind f` : `f` commutes with both at once. So it commutes with each, and leaves the plumbing as
  it is;
* `ffsplitDo_graft`, `answerReport_blind` : the algorithm and the reports are blind, and then the
  handlers (`handleMsg_blind`, `leaveCluster_blind`).
-/

namespace Qnetd

structure Plumbing where
  rx : Slot → Bytes
  scheduleDisconnect : Slot → Bool
  pendingClose : List Slot
  processing : Bool

def Session.overlay (rx : Bytes) (d : Bool) (x : Session) : Session :=
  { x with rx := rx, scheduleDisconnect := d }

namespace Server

def overlay (s : Server) (p : Plumbing) : Server :=
  { s with
    sessions := fun i => (s.sessions i).overlay (p.rx i) (p.scheduleDisconnect i)
    pendingClose := p.pendingClose
    processing := p.processing }

def plumbing (s : Server) : Plumbing where
  rx := fun i => (s.sessions i).rx
  scheduleDisconnect := fun i => (s.sessions i).scheduleDisconnect
  pendingClose := s.pendingClose
  processing := s.processing

@[simp] theorem overlay_plumbing (s : Server) : s.overlay s.plumbing = s := rfl

@[simp] theorem plumbing_overlay (s : Server) (p : Plumbing) : (s.overlay p).plumbing = p := rfl

/-- The server on top of `d` decisions and the history `tr`. -/
def rebase (s : Server) (d : UInt32) (tr : List Event) : Server :=
  { s with decisions := d + s.decisions, trace := s.trace ++ tr }

/-- Both at once. -/
def graft (s : Server) (p : Plumbing) (d : UInt32) (tr : List Event) : Server :=
  (s.overlay p).rebase d tr

/-- `f` neither reads nor writes the plumbing, and only adds to the number of decisions and to the
history. -/
def Blind (f : Server → Server) : Prop := ∀ s p d tr, f (graft s p d tr) = (f s).graft p d tr

namespace Blind

variable {f : Server → Server}

theorem overlay (hf : Blind f) (s : Server) (p : Plumbing) : f (s.overlay p) = (f s).overlay p := by
  have hplain : ∀ t : Server, t.graft p 0 [] = t.overlay p := by
    intro t
    simp [graft, rebase]
  rw [← hplain, hf, hplain]

theorem plumbing (hf : Blind f) (s : Server) : (f s).plumbing = s.plumbing := by
  have h := hf.overlay s s.plumbing
  rw [overlay_plumbing] at h
  rw [h, plumbing_overlay]

theorem rebase (hf : Blind f) (s : Server) (d : UInt32) (tr : List Event) :
    f (s.rebase d tr) = (f s).rebase d tr := by
  calc f (s.rebase d tr) = f (s.graft s.plumbing d tr) := rfl
    _ = (f s).graft s.plumbing d tr := hf s s.plumbing d tr
    _ = (f s).rebase d tr := by rw [← hf.plumbing s, graft, overlay_plumbing]

end Blind

/-! ## The updates -/

section Updates
variable (s : Server) (p : Plumbing) (d : UInt32) (tr : List Event)

theorem modify_graft (i : Slot) (f : Session → Session)
    (hf : ∀ r b x, f (Session.overlay r b x) = Session.overlay r b (f x)) :
    (s.graft p d tr).modify i f = (s.modify i f).graft p d tr := by
  simp only [modify, graft, rebase, overlay, Server.mk.injEq, true_and, and_true]
  funext j
  by_cases hj : j = i
  · subst hj; simp [hf]
  · simp [hj]

theorem emit_graft (e : Event) : (s.graft p d tr).emit e = (s.emit e).graft p d tr := rfl

theorem modifyCluster_graft (c : Int) (f : Cluster → Cluster) :
    (s.graft p d tr).modifyCluster c f = (s.modifyCluster c f).graft p d tr := rfl

theorem setState_graft (c : Int) (st : FfClusterState) :
    (s.graft p d tr).setState c st = (s.setState c st).graft p d tr := rfl

/-! ## The algorithm -/

theorem passed_graft (tv : TriggerView) (sendAcks : Bool) :
    (s.graft p d tr).passed tv sendAcks = (s.passed tv sendAcks).graft p d tr := by
  have ht : (s.graft p d tr).target tv sendAcks = s.target tv sendAcks := rfl
  have hs : ((s.graft p d tr).passed tv sendAcks).sessions =
      ((s.passed tv sendAcks).graft p d tr).sessions := by
    funext i
    change _ = ((s.passed tv sendAcks).sessions i).overlay (p.rx i) (p.scheduleDisconnect i)
    rw [passed_sessions, passed_sessions, ht]
    split_ifs <;> rfl
  have htr : ((s.graft p d tr).passed tv sendAcks).trace =
      ((s.passed tv sendAcks).graft p d tr).trace :=
    (List.append_assoc _ _ _).symm
  calc (s.graft p d tr).passed tv sendAcks
      = { (s.graft p d tr).passed tv sendAcks with
          sessions := ((s.graft p d tr).passed tv sendAcks).sessions
          trace := ((s.graft p d tr).passed tv sendAcks).trace } := rfl
    _ = (s.passed tv sendAcks).graft p d tr := by rw [hs, htr]; rfl

theorem ffsplitSendVotes_graft (tv : TriggerView) (sendAcks : Bool) :
    (s.graft p d tr).ffsplitSendVotes tv sendAcks =
      ((s.ffsplitSendVotes tv sendAcks).1, (s.ffsplitSendVotes tv sendAcks).2.graft p d tr) := by
  rw [ffsplitSendVotes_eq, ffsplitSendVotes_eq, passed_graft]
  rfl

theorem ffsplitVotes_graft (tv : TriggerView) :
    (s.graft p d tr).ffsplitVotes tv = (s.ffsplitVotes tv).graft p d tr := by
  simp only [ffsplitVotes, setState_graft, ffsplitSendVotes_graft,
    show ∀ t : Server, (t.graft p d tr).tvCluster tv = t.tvCluster tv from fun _ => rfl]
  split_ifs <;> rfl

theorem ffsplitIsStable_graft (tv : TriggerView) :
    (s.graft p d tr).ffsplitIsStable tv = s.ffsplitIsStable tv := by
  have hw : (s.graft p d tr).walk tv = s.walk tv := rfl
  have hc : (s.graft p d tr).effConfig tv = s.effConfig tv := rfl
  have hm : (s.graft p d tr).effMembership tv = s.effMembership tv := rfl
  have hr : (s.graft p d tr).effRing tv = s.effRing tv := rfl
  unfold ffsplitIsStable
  rw [hw, hc, hm, hr]
  rfl

theorem ffsplitPartitionBetter_graft (c₁ : Candidate) (c₂ : Option Candidate) (q : NodeList)
    (k : Bool) :
    (s.graft p d tr).ffsplitPartitionBetter c₁ c₂ q k = s.ffsplitPartitionBetter c₁ c₂ q k := by
  have hst : (s.graft p d tr).ffsplitPartitionStats = s.ffsplitPartitionStats := by
    unfold ffsplitPartitionStats
    rfl
  unfold ffsplitPartitionBetter
  rw [hst]
  rfl

theorem ffsplitScan_graft (tv : TriggerView) :
    (s.graft p d tr).ffsplitScan tv = s.ffsplitScan tv := by
  have hw : (s.graft p d tr).walk tv = s.walk tv := rfl
  have hstep : (s.graft p d tr).ffsplitScanStep tv = s.ffsplitScanStep tv := by
    funext best i
    have hc : (s.graft p d tr).candidate tv i = s.candidate tv i := rfl
    simp only [ffsplitScanStep, ffsplitPartitionBetter_graft, hc]
    rfl
  unfold ffsplitScan
  rw [hw, hstep]

theorem ffsplitUpdateStates_graft (tv : TriggerView) (winner : Option NodeList) :
    (s.graft p d tr).ffsplitUpdateStates tv winner =
      (s.ffsplitUpdateStates tv winner).graft p d tr := by
  have hs : ((s.graft p d tr).ffsplitUpdateStates tv winner).sessions =
      ((s.ffsplitUpdateStates tv winner).graft p d tr).sessions := by
    funext i
    change (if s.inCluster (s.tvCluster tv) i = true then _ else _) =
      Session.overlay (p.rx i) (p.scheduleDisconnect i)
        (if s.inCluster (s.tvCluster tv) i = true then _ else _)
    split_ifs <;> rfl
  calc (s.graft p d tr).ffsplitUpdateStates tv winner
      = { (s.graft p d tr).ffsplitUpdateStates tv winner with
          sessions := ((s.graft p d tr).ffsplitUpdateStates tv winner).sessions } := rfl
    _ = (s.ffsplitUpdateStates tv winner).graft p d tr := by rw [hs]; rfl

theorem ffsplitDecide_graft (tv : TriggerView) :
    (s.graft p d tr).ffsplitDecide tv = (s.ffsplitDecide tv).graft p d tr := by
  have hb := ffsplitScan_graft s p d tr tv
  have hw : (s.graft p d tr).ffsplitSelectPartition tv = s.ffsplitSelectPartition tv := by
    unfold ffsplitSelectPartition
    rw [hb]
  have hcount : ({ s.graft p d tr with decisions := (s.graft p d tr).decisions + 1 } : Server) =
      graft { s with decisions := s.decisions + 1 } p d tr := by
    simp only [graft, rebase, overlay, UInt32.add_assoc]
  have hu :=
    ffsplitUpdateStates_graft { s with decisions := s.decisions + 1 } p d tr tv
      (s.ffsplitSelectPartition tv)
  simp only [ffsplitDecide, hw, hb]
  rw [hcount, hu]
  rfl

theorem decided_graft (tv : TriggerView) :
    (s.graft p d tr).decided tv = (s.decided tv).graft p d tr :=
  ffsplitDecide_graft (s.setState (s.tvCluster tv) .waitingForStableMembership) p d tr tv

theorem ffsplitDo_graft (tv : TriggerView) :
    (s.graft p d tr).ffsplitDo tv =
      ((s.ffsplitDo tv).1, (s.ffsplitDo tv).2.1, (s.ffsplitDo tv).2.2.graft p d tr) := by
  have hst := ffsplitIsStable_graft s p d tr tv
  rcases ffsplitDo_cases s tv with ⟨h, he⟩ | ⟨h, he⟩
  · rcases ffsplitDo_cases (s.graft p d tr) tv with ⟨-, he'⟩ | ⟨h', -⟩
    · rw [he, he']
      rfl
    · rw [hst, h] at h'
      cases h'
  · rcases ffsplitDo_cases (s.graft p d tr) tv with ⟨h', -⟩ | ⟨-, he'⟩
    · rw [hst, h] at h'
      cases h'
    · rw [he, he', decided_graft, ffsplitVotes_graft]

end Updates

/-! ## The handlers -/

theorem rescheduleDpd_blind (i : Slot) (now : UInt64) : Blind fun s => s.rescheduleDpd i now := by
  intro s p d tr
  refine modify_graft s p d tr i _ fun r b x => ?_
  unfold Session.rescheduled
  change (if x.phase = .active ∧ x.heartbeatMs > 0 then _
    else if x.phase ≠ .free ∧ x.phase ≠ .active then _ else _) = _
  split_ifs <;> rfl

theorem handlePreinit_blind (i : Slot) (m : MsgDecoded) : Blind fun s => s.handlePreinit i m := by
  intro s p d tr
  have hphase : ((s.graft p d tr).sessions i).phase = (s.sessions i).phase := rfl
  have hmod :=
    modify_graft s p d tr i (fun x => { x with clusterName := m.clusterName, phase := .waitInit })
    fun _ _ _ => rfl
  simp only [handlePreinit, hphase, hmod]
  split_ifs <;> rfl

theorem initFields_overlay (m : MsgDecoded) (r : Bytes) (b : Bool) (x : Session) :
    initFields m (Session.overlay r b x) =
      ((initFields m x).1, (initFields m x).2.overlay r b) := by
  have hnode : ∀ a, initNodeId m (a.1, Session.overlay r b a.2) =
      ((initNodeId m a).1, (initNodeId m a).2.overlay r b) := by
    intro a
    unfold initNodeId
    split_ifs <;> rfl
  have hring : ∀ a, initRingId m (a.1, Session.overlay r b a.2) =
      ((initRingId m a).1, (initRingId m a).2.overlay r b) := by
    intro a
    unfold initRingId
    split_ifs <;> rfl
  have hbeat : ∀ a, initHeartbeat m (a.1, Session.overlay r b a.2) =
      ((initHeartbeat m a).1, (initHeartbeat m a).2.overlay r b) := by
    intro a
    unfold initHeartbeat
    split_ifs <;> rfl
  have htie : ∀ a, initTieBreaker m (a.1, Session.overlay r b a.2) =
      ((initTieBreaker m a).1, (initTieBreaker m a).2.overlay r b) := by
    intro a
    unfold initTieBreaker
    split_ifs <;> rfl
  have halg : ∀ a, initAlgorithm m (a.1, Session.overlay r b a.2) =
      ((initAlgorithm m a).1, (initAlgorithm m a).2.overlay r b) := by
    intro a
    unfold initAlgorithm
    split_ifs <;> rfl
  unfold initFields
  rw [← halg, ← htie, ← hbeat, ← hring, ← hnode]
  rfl

theorem initStored_blind (i : Slot) (m : MsgDecoded) : Blind fun s => s.initStored i m := by
  intro s p d tr
  simp only [initStored, initFields_overlay, modify, graft, rebase, overlay, Server.mk.injEq,
    true_and, and_true]
  funext j
  by_cases hj : j = i
  · subst hj; simp
  · simp [hj]

theorem findOrCreateCluster_graft (s : Server) (p : Plumbing) (d : UInt32) (tr : List Event)
    (name : Bytes) : (s.graft p d tr).findOrCreateCluster name =
      ((s.findOrCreateCluster name).1, (s.findOrCreateCluster name).2.graft p d tr) := by
  have hc : (s.graft p d tr).clusters = s.clusters := rfl
  simp only [findOrCreateCluster, hc]
  cases clusterIndices.find?
    (fun c => (s.clusters c).used && decide ((s.clusters c).name = name)) with
  | some c => rfl
  | none => cases clusterIndices.find? (fun c => !(s.clusters c).used) <;> rfl

theorem enterCluster_blind (i : Slot) (c : Int) (now : UInt64) :
    Blind fun s => s.enterCluster i c now := by
  intro s p d tr
  have hclusters : ∀ t : Server, (t.graft p d tr).clusters = t.clusters := fun _ => rfl
  have hcluster : ∀ t : Server, (t.graft p d tr).modify i (fun x => { x with cluster := c }) =
      (t.modify i fun x => { x with cluster := c }).graft p d tr :=
        fun t => modify_graft t p d tr i _ fun _ _ _ => rfl
  have hactive : ∀ t : Server, (t.graft p d tr).modify i (fun x => { x with phase := .active }) =
      (t.modify i fun x => { x with phase := .active }).graft p d tr :=
        fun t => modify_graft t p d tr i _ fun _ _ _ => rfl
  have hdpd : ∀ t : Server, (t.graft p d tr).rescheduleDpd i now =
      (t.rescheduleDpd i now).graft p d tr :=
    fun t => rescheduleDpd_blind i now t p d tr
  simp only [enterCluster, hcluster, hclusters, setState_graft, modifyCluster_graft]
  split_ifs <;> rw [modifyCluster_graft, hactive, hdpd, emit_graft]

theorem admitted_blind (i : Slot) (now : UInt64) : Blind fun s => s.admitted i now := by
  intro s p d tr
  have hx : ((s.graft p d tr).sessions i).clusterName = (s.sessions i).clusterName := rfl
  simp only [admitted, hx, findOrCreateCluster_graft]
  exact enterCluster_blind i _ now _ p d tr

theorem handleInit_blind (i : Slot) (m : MsgDecoded) (now : UInt64) :
    Blind fun s => s.handleInit i m now := by
  intro s p d tr
  have hstored : (s.graft p d tr).initStored i m = (s.initStored i m).graft p d tr :=
    initStored_blind i m s p d tr
  have hcode : (s.graft p d tr).initCode i m = s.initCode i m := by
    have hfields : (initFields m ((s.graft p d tr).sessions i)).1 =
        (initFields m (s.sessions i)).1 := by
      rw [show (s.graft p d tr).sessions i =
        (s.sessions i).overlay (p.rx i) (p.scheduleDisconnect i) from rfl, initFields_overlay]
    have hcheck : ∀ t : Server, (t.graft p d tr).initCheckNewClient i = t.initCheckNewClient i :=
      fun _ => rfl
    have hname : ∀ t : Server, ((t.graft p d tr).sessions i).clusterName =
        (t.sessions i).clusterName :=
      fun _ => rfl
    simp only [initCode, hfields, hstored, hcheck, hname, findOrCreateCluster_graft]
  have hadmitted : ((s.initStored i m).graft p d tr).admitted i now =
      ((s.initStored i m).admitted i now).graft p d tr :=
    admitted_blind i now _ p d tr
  simp only [handleInit_eq, hcode, hstored, hadmitted]
  split_ifs <;> rfl

theorem handleSetOption_blind (i : Slot) (m : MsgDecoded) (now : UInt64) :
    Blind fun s => s.handleSetOption i m now := by
  intro s p d tr
  have hopt : ∀ r b x, optioned m now (Session.overlay r b x) = (optioned m now x).overlay r b := by
    intro r b x
    unfold optioned Session.rescheduled Session.overlay
    split_ifs <;> rfl
  have hset : (s.graft p d tr).setOptions i m now = (s.setOptions i m now).graft p d tr := by
    have hx : (s.graft p d tr).sessions i =
        (s.sessions i).overlay (p.rx i) (p.scheduleDisconnect i) :=
      rfl
    simp only [setOptions, modify_graft s p d tr i (optioned m now) hopt, hx, hopt]
    rfl
  simp only [handleSetOption_eq, hset]
  split_ifs <;> rfl

/-! ## Reports -/

theorem reportView_graft (s : Server) (p : Plumbing) (d : UInt32) (tr : List Event) (i : Slot)
    (m : MsgDecoded) (r : Report) : (s.graft p d tr).reportView i m r = s.reportView i m r := by
  unfold reportView
  split <;> rfl

theorem runs_overlay (r : Report) (rx : Bytes) (b : Bool) (x : Session) :
    runs (x.overlay rx b) r = runs x r := by
  unfold runs
  split <;> rfl

theorem noteReport_overlay (m : MsgDecoded) (v : Vote) (r : Report) (rx : Bytes) (b : Bool)
    (x : Session) : noteReport m v r (x.overlay rx b) = (noteReport m v r x).overlay rx b := by
  unfold noteReport storeNodeList
  cases r with
  | list type => cases m.nodeListType <;> rfl
  | heuristics => rfl

theorem answerReport_blind (i : Slot) (r : Report) (m : MsgDecoded) :
    Blind fun s => s.answerReport i r m := by
  intro s p d tr
  have hx : (s.graft p d tr).sessions i =
      (s.sessions i).overlay (p.rx i) (p.scheduleDisconnect i) :=
    rfl
  have hran : (s.graft p d tr).ranReport i r m = (s.ranReport i r m).graft p d tr := by
    simp only [ranReport, hx, runs_overlay, emit_graft, reportView_graft, ffsplitDo_graft]
    split_ifs <;> rfl
  have hvote : (s.graft p d tr).reportVote i r m = s.reportVote i r m := by
    simp only [reportVote, hx, runs_overlay, emit_graft, reportView_graft, ffsplitDo_graft]
  have hnoted : (s.graft p d tr).noted i r m = (s.noted i r m).graft p d tr := by
    rw [noted, hran, hvote, modify_graft _ p d tr i _ (noteReport_overlay m _ r), noted]
  simp only [answerReport, hnoted, hvote]
  rfl

theorem handleNodeList_blind (i : Slot) (m : MsgDecoded) : Blind fun s => s.handleNodeList i m := by
  intro s p d tr
  have he : nodeListError m ((s.graft p d tr).sessions i) = nodeListError m (s.sessions i) := rfl
  simp only [handleNodeList_eq, he]
  split
  · rfl
  · exact answerReport_blind i _ m s p d tr

theorem handleHeuristicsChange_blind (i : Slot) (m : MsgDecoded) :
    Blind fun s => s.handleHeuristicsChange i m := by
  intro s p d tr
  simp only [handleHeuristicsChange_eq]
  split_ifs
  · rfl
  · exact answerReport_blind i .heuristics m s p d tr

theorem handleVoteInfoReply_blind (i : Slot) (m : MsgDecoded) :
    Blind fun s => s.handleVoteInfoReply i m := by
  intro s p d tr
  have hx : (s.graft p d tr).sessions i =
      (s.sessions i).overlay (p.rx i) (p.scheduleDisconnect i) :=
    rfl
  have hcount : ∀ (t : Server) (c : Int) (st : FfClientState),
      (t.graft p d tr).ffsplitCountState c st = t.ffsplitCountState c st := fun _ _ _ => rfl
  have hview : ∀ t : Server, (t.graft p d tr).storedView i false = t.storedView i false :=
    fun _ => rfl
  have hmod : ∀ t : Server,
      (t.graft p d tr).modify i (fun x => { x with ffState := .waitingForChange }) =
      (t.modify i fun x => { x with ffState := .waitingForChange }).graft p d tr :=
    fun t => modify_graft t p d tr i _ fun _ _ _ => rfl
  have hclusters : ∀ t : Server, (t.graft p d tr).clusters = t.clusters := fun _ => rfl
  simp only [handleVoteInfoReply, hx, Session.overlay, hclusters, emit_graft, hmod, hcount,
    setState_graft, hview, ffsplitSendVotes_graft]
  by_cases h0 : m.seqNumberSet = false
  · simp only [if_pos h0]
    rfl
  · by_cases h1 : m.seqNumber ≠ (s.sessions i).voteInfoSeq
    · simp only [if_neg h0, if_pos h1]
    · simp only [if_neg h0, if_neg h1]
      cases (((s.emit _).modify i _).clusters (s.sessions i).cluster).state with
      | waitingForChange => rfl
      | waitingForStableMembership => rfl
      | sendingNacks =>
        simp only
        split_ifs <;> rfl
      | sendingAcks =>
        simp only
        split_ifs <;> rfl

/-! ## Messages and leaving -/

theorem handleMsg_blind (i : Slot) (m : MsgDecoded) (f : Frame) (now : UInt64) :
    Blind fun s => s.handleMsg i m f now := by
  intro s p d tr
  have hphase : ((s.graft p d tr).sessions i).phase = (s.sessions i).phase := rfl
  simp only [handleMsg, hphase]
  split_ifs
  · rfl
  · split
    · exact handlePreinit_blind i m s p d tr
    · exact handleInit_blind i m now s p d tr
    · rfl
  · split
    · exact handlePreinit_blind i m s p d tr
    · exact handleInit_blind i m now s p d tr
    · split
      · exact handleSetOption_blind i m now s p d tr
      · rfl
      · exact handleNodeList_blind i m s p d tr
      · exact handleVoteInfoReply_blind i m s p d tr
      · exact handleHeuristicsChange_blind i m s p d tr
      · rfl
      · rfl
      · rfl

theorem leaveCluster_blind (i : Slot) : Blind fun s => s.leaveCluster i := by
  intro s p d tr
  have hmod : ∀ t : Server, (t.graft p d tr).modify i (fun x => { x with cluster := -1 }) =
      (t.modify i fun x => { x with cluster := -1 }).graft p d tr :=
    fun t => modify_graft t p d tr i _ fun _ _ _ => rfl
  have hclusters : ∀ t : Server, (t.graft p d tr).clusters = t.clusters := fun _ => rfl
  have hview : ∀ t : Server, (t.graft p d tr).storedView i true = t.storedView i true :=
    fun _ => rfl
  simp only [leaveCluster, show ((s.graft p d tr).sessions i).phase = (s.sessions i).phase from rfl,
    show ((s.graft p d tr).sessions i).cluster = (s.sessions i).cluster from rfl,
    emit_graft, hview, ffsplitDo_graft, modifyCluster_graft, hclusters]
  by_cases h0 : (s.sessions i).phase ≠ .active ∨ (s.sessions i).cluster < 0
  · rw [if_pos h0, if_pos h0]
  · rw [if_neg h0, if_neg h0]
    split_ifs
    · exact hmod _
    · exact hmod _

end Server

end Qnetd
