import Qnetd.Server.State

/-!
# The ffsplit algorithm

The decision functions of `server.cpp`, in the source's order. A `TriggerView` carries the
triggering client's incoming lists by value; a session pointer is the slot it points at.

* `effConfig` ... `effHeuristics` : the trigger's view for the trigger, the stored one for every
  other session;
* `ffsplitIsStable`, `ffsplitIsPreferredPartition`, `ffsplitPartitionStats`,
  `ffsplitPartitionBetter` : the pure part;
* `ffsplitScan`, `ffsplitSelectPartition` : the linear scan for the winner;
* `ffsplitUpdateStates`, `ffsplitSendVotes`, `ffsplitCountState`, `ffsplitDo` : the decision.
-/

namespace Qnetd

structure TriggerView where
  slot : Slot
  leaving : Bool
  ringId : RingId
  config : NodeList
  membership : NodeList
  heuristics : Heuristics
  deriving DecidableEq

/-- A session as `ffsplit_select_partition` compares it: the pointers `c`, `cfg`, `mem` and the
heuristics `h`. -/
structure Candidate where
  slot : Slot
  config : NodeList
  membership : NodeList
  heuristics : Heuristics
  deriving DecidableEq

structure PartitionStats where
  clients : Nat := 0
  pass : Nat := 0
  fail : Nat := 0
  deriving DecidableEq

/-- A session after the vote `v` was sent to it. -/
def Session.voted (v : Vote) (x : Session) : Session :=
  { x with voteInfoSeq := x.voteInfoSeq + 1, lastSentVote := v, lastAckNack := v }

namespace Server

/-! ## Effective views -/

def effConfig (s : Server) (tv : TriggerView) (i : Slot) : NodeList :=
  if !tv.leaving && i = tv.slot then tv.config else (s.sessions i).configList

def effMembership (s : Server) (tv : TriggerView) (i : Slot) : NodeList :=
  if !tv.leaving && i = tv.slot then tv.membership else (s.sessions i).membershipList

def effRing (s : Server) (tv : TriggerView) (i : Slot) : RingId :=
  if !tv.leaving && i = tv.slot then tv.ringId else (s.sessions i).lastRingId

def effHeuristics (s : Server) (tv : TriggerView) (i : Slot) : Heuristics :=
  if !tv.leaving && i = tv.slot then tv.heuristics else (s.sessions i).lastHeuristics

def skipInClusterWalk (s : Server) (tv : TriggerView) (i : Slot) : Bool :=
  tv.leaving && (s.sessions i).nodeId = (s.sessions tv.slot).nodeId

def tvCluster (s : Server) (tv : TriggerView) : Int := (s.sessions tv.slot).cluster

/-- The sessions the loops of the algorithm do not `continue` over. -/
def inWalk (s : Server) (tv : TriggerView) (i : Slot) : Bool :=
  s.inCluster (s.tvCluster tv) i && !s.skipInClusterWalk tv i

def walk (s : Server) (tv : TriggerView) : List Slot :=
  (List.finRange MAX_CLIENTS).filter (s.inWalk tv)

/-! ## Stability -/

/-- Every id of the first list is in the second. -/
def coveredBy (l1 l2 : NodeList) : Bool := l1.nodes.all fun n => (l2.find n.nodeId).isSome

def ffsplitIsStable (s : Server) (tv : TriggerView) : Bool :=
  -- 1. all active clients share the same config node-id set, by an inclusion for each ordered pair
  ((s.walk tv).all fun i => (s.walk tv).all fun j =>
    i = j || coveredBy (s.effConfig tv i) (s.effConfig tv j)) &&
  -- 2. clients within one partition share ring id and membership set
  ((s.walk tv).all fun i => (s.effMembership tv i).nodes.all fun n =>
    match (s.walk tv).find? (fun j => (s.sessions j).nodeId = n.nodeId) with
    | none => true
    | some j =>
      s.effRing tv i = s.effRing tv j && coveredBy (s.effMembership tv i) (s.effMembership tv j))

/-! ## Comparing partitions -/

def ffsplitIsPreferredPartition (s : Server) (c : Slot) (cfg mem : NodeList) : Bool :=
  let front := (cfg.nodes.head?.getD {}).nodeId
  let preferred :=
    match (s.sessions c).tieBreaker.mode with
    | .lowest => cfg.nodes.foldl (fun p n => if n.nodeId < p then n.nodeId else p) front
    | .highest => cfg.nodes.foldl (fun p n => if n.nodeId > p then n.nodeId else p) front
    | .nodeId => (s.sessions c).tieBreaker.nodeId
  (mem.find preferred).isSome

/-- The connected client with that node id, first slot first. -/
def clientOf (s : Server) (cluster : Int) (nodeId : UInt32) : Option Slot :=
  (List.finRange MAX_CLIENTS).find? fun i => s.inCluster cluster i && (s.sessions i).nodeId = nodeId

def ffsplitPartitionStats (s : Server) (cand : Option Candidate) : PartitionStats :=
  match cand with
  | none => {}
  | some c =>
    c.membership.nodes.foldl (fun st n =>
      match s.clientOf (s.sessions c.slot).cluster n.nodeId with
      | none => st
      | some i =>
        let eff := if i = c.slot then c.heuristics else (s.sessions i).lastHeuristics
        { clients := st.clients + 1
          pass := if eff = .pass then st.pass + 1 else st.pass
          fail := if eff = .fail then st.fail + 1 else st.fail }) {}

def ffsplitPartitionBetter (s : Server) (c1 : Candidate) (c2 : Option Candidate)
    (prevQuorate : NodeList) (keepActiveTb : Bool) : Bool :=
  if c1.config.size % 2 ≠ 0 then
    -- odd clusters never split 50:50: strict majority or nothing
    c1.membership.size > c1.config.size / 2
  else if c1.membership.size > c1.config.size / 2 then true
  else if c1.membership.size < c1.config.size / 2 then false
  else
    let st1 := s.ffsplitPartitionStats (some c1)
    let st2 := s.ffsplitPartitionStats c2
    let score1 : Int := st1.clients + (st1.pass - st1.fail)
    let score2 : Int := st2.clients + (st2.pass - st2.fail)
    if score1 ≠ score2 then score1 > score2
    else if st1.clients ≠ st2.clients then st1.clients > st2.clients
    else
      let preferred := s.ffsplitIsPreferredPartition c1.slot c1.config c1.membership
      match c2 with
      | none => preferred
      | some c2 =>
        let in1 := (prevQuorate.find (s.sessions c1.slot).nodeId).isSome
        let in2 := (prevQuorate.find (s.sessions c2.slot).nodeId).isSome
        if keepActiveTb && in1 != in2 then in1 else preferred

/-! ## The scan -/

def keepActiveTb (s : Server) (cluster : Int) : Bool :=
  !((List.finRange MAX_CLIENTS).any fun i =>
    s.inCluster cluster i && !(s.sessions i).keepActivePartitionTb)

def candidate (s : Server) (tv : TriggerView) (i : Slot) : Candidate where
  slot := i
  config := s.effConfig tv i
  membership := s.effMembership tv i
  heuristics := s.effHeuristics tv i

def ffsplitScanStep (s : Server) (tv : TriggerView) (best : Option Candidate) (i : Slot) :
    Option Candidate :=
  let c := s.candidate tv i
  if c.config.empty || c.membership.empty then best
  else if s.ffsplitPartitionBetter c best (s.clusters (s.tvCluster tv)).quoratePartition
      (s.keepActiveTb (s.tvCluster tv)) then some c
  else best

/-- The variables `best`, `best_cfg`, `best_mem`, `best_h` at the end of the scan. -/
def ffsplitScan (s : Server) (tv : TriggerView) : Option Candidate :=
  (s.walk tv).foldl (s.ffsplitScanStep tv) none

def ffsplitSelectPartition (s : Server) (tv : TriggerView) : Option NodeList :=
  (s.ffsplitScan tv).map Candidate.membership

/-! ## The decision -/

/-- The state `ffsplit_update_states` gives to an active session of the cluster. -/
def putState (s : Server) (tv : TriggerView) (winner : Option NodeList) (i : Slot) :
    FfClientState :=
  if s.skipInClusterWalk tv i then .waitingForChange
  else match winner with
    | none => .sendingNack
    | some l => if (l.find (s.sessions i).nodeId).isNone then .sendingNack else .sendingAck

def ffsplitUpdateStates (s : Server) (tv : TriggerView) (winner : Option NodeList) : Server :=
  { s with sessions := fun i =>
      if s.inCluster (s.tvCluster tv) i then { s.sessions i with ffState := s.putState tv winner i }
      else s.sessions i }

/-- The active sessions of the cluster other than the one whose disconnect is being processed. -/
def others (s : Server) (tv : TriggerView) (i : Slot) : Bool :=
  s.inCluster (s.tvCluster tv) i && !(tv.leaving && i = tv.slot)

/-- The vote a session is due in a pass over the NACKs or the ACKs, `UNDEFINED` for none. -/
def voteFor (sendAcks : Bool) (st : FfClientState) : Vote :=
  if sendAcks && st = .sendingAck then .ack
  else if !sendAcks && st = .sendingNack then .nack
  else .undefined

/-- One iteration of the loop of `ffsplit_send_votes`. -/
def ffsplitSendVote (tv : TriggerView) (sendAcks : Bool) (acc : Nat × Server) (i : Slot) :
    Nat × Server :=
  let (sent, s) := acc
  if !s.inWalk tv i then acc
  else
    let v := voteFor sendAcks (s.sessions i).ffState
    if v = .undefined then acc
    else
      let ring := s.effRing tv i
      let s := s.modify i (Session.voted v)
      (sent + 1, s.emit (.vote i
        { cluster := s.tvCluster tv, seq := (s.sessions i).voteInfoSeq, ring := ring, vote := v }))

/-- The number of votes sent, and the server after them. -/
def ffsplitSendVotes (s : Server) (tv : TriggerView) (sendAcks : Bool) : Nat × Server :=
  (List.finRange MAX_CLIENTS).foldl (ffsplitSendVote tv sendAcks) (0, s)

def ffsplitCountState (s : Server) (cluster : Int) (st : FfClientState) : Nat :=
  ((List.finRange MAX_CLIENTS).filter fun i =>
    s.inCluster cluster i && (s.sessions i).ffState = st).length

/-- The record of the decision, taken after the states were updated. -/
def decision (s : Server) (tv : TriggerView) (best : Option Candidate) : Decision where
  cluster := s.tvCluster tv
  winner := best.map fun c => (c.slot, c.membership)
  voters := fun i =>
    if s.others tv i then
      some { config := s.effConfig tv i, membership := s.effMembership tv i, ring := s.effRing tv i
             state := (s.sessions i).ffState }
    else none

/-- The stable branch of `ffsplit_do` up to the votes. -/
def ffsplitDecide (s : Server) (tv : TriggerView) : Server :=
  let winner := s.ffsplitSelectPartition tv
  let best := s.ffsplitScan tv
  let s := { s with decisions := s.decisions + 1 }
  let s := s.ffsplitUpdateStates tv winner
  let s := s.emit (.decide (s.decision tv best))
  s.modifyCluster (s.tvCluster tv) fun cl => { cl with quoratePartition := winner.getD {} }

/-- NACKs first; the ACKs only if there was no NACK to send. -/
def ffsplitVotes (s : Server) (tv : TriggerView) : Server :=
  let s := s.setState (s.tvCluster tv) .sendingNacks
  let (nacks, s) := s.ffsplitSendVotes tv false
  if nacks = 0 then
    let s := s.setState (s.tvCluster tv) .sendingAcks
    let (acks, s) := s.ffsplitSendVotes tv true
    if acks = 0 then s.setState (s.tvCluster tv) .waitingForChange else s
  else s

def ffsplitDo (s : Server) (tv : TriggerView) : ReplyErrorCode × Vote × Server :=
  let s := s.setState (s.tvCluster tv) .waitingForStableMembership
  if !s.ffsplitIsStable tv then (.noError, .waitForReply, s.emit (.unstable (s.tvCluster tv)))
  else (.noError, .noChange, (s.ffsplitDecide tv).ffsplitVotes tv)

end Server

end Qnetd
