import Mathlib.Data.Nat.Digits.Defs
import Qnetd.Server.Turns

/-!
# The status

What the server shows of itself, and when it says that this may have changed.

* `connectedClients`, `anyAck`, `statusString` : the accessors of the status section;
  `statusString_eq` : the text lists the clusters in use;
* `notifies` : whether a public call reaches `notify`. Every such call ends in it unless it finds
  nothing to do: `call_of_not_notifies` : a call that does not notify leaves the server as it was.
-/

namespace Qnetd

def voteStr : Vote → String
  | .undefined => "undef"
  | .ack => "ACK"
  | .nack => "NACK"
  | .askLater => "ask-later"
  | .waitForReply => "wait"
  | .noChange => "no-change"

/-- The bytes of a text without characters beyond ASCII. -/
def ascii (text : String) : Bytes := text.toList.map fun ch => UInt8.ofNat ch.toNat

/-- What `snprintf` leaves in a buffer of that size, which ends in a NUL. -/
def snprintf (size : Nat) (text : Bytes) : Bytes := text.take (size - 1)

namespace Server

/-! ## The accessors -/

def connectedClients (s : Server) : Nat :=
  ((List.finRange MAX_CLIENTS).filter fun i => (s.sessions i).phase = .active).length

def anyAck (s : Server) : Bool :=
  (List.finRange MAX_CLIENTS).any fun i =>
    (s.sessions i).phase = .active ∧ (s.sessions i).lastAckNack = .ack

/-- A member with its last vote. -/
def memberStatus (x : Session) : Bytes :=
  snprintf 48 (ascii (" " ++ toString x.nodeId.toNat ++ "=" ++ voteStr x.lastAckNack))

def clusterStatus (s : Server) (c : Int) : Bytes :=
  (s.clusters c).name ++ ascii ":" ++ (List.finRange MAX_CLIENTS).flatMap fun i =>
    if (s.sessions i).phase ≠ .active ∨ (s.sessions i).cluster ≠ c then []
    else memberStatus (s.sessions i)

def statusString (s : Server) : Bytes :=
  let out := clusterIndices.foldl (fun out c =>
    if (s.clusters c).used = false then out
    else (if out = [] then out else out ++ ascii " | ") ++ s.clusterStatus c) []
  if out = [] then ascii "idle" else out

/-! ## Notifications -/

/-- Whether the rest of the loop of `tick` reaches `notify`: a session that is due is disconnected,
and if no data is being processed its close is served at once. -/
def tickNotifies (now : UInt64) : List Slot → Server → Bool
  | [], _ => false
  | i :: l, s =>
    let x := s.sessions i
    (if x.phase = .free ∨ x.deadlineMs = 0 ∨ x.scheduleDisconnect then false
      else now ≥ x.deadlineMs && !s.processing) || tickNotifies now l (s.tickSlot now i)

/-- Whether the call reaches `notify`. `on_data` and `on_disconnected` end in it on a live slot. -/
def notifies (s : Server) : Call → Bool
  | .onConnect _ _ => (List.finRange MAX_CLIENTS).any fun i => (s.sessions i).phase = .free
  | .onData slot _ _ => (List.finRange MAX_CLIENTS).any fun i =>
    slot = i ∧ (s.sessions i).phase ≠ .free ∧ (s.sessions i).scheduleDisconnect = false
  | .onDisconnected slot _ =>
    (List.finRange MAX_CLIENTS).any fun i => slot = i ∧ (s.sessions i).phase ≠ .free
  | .tick now => s.tickNotifies now (List.finRange MAX_CLIENTS)

theorem foldl_tickSlot_of_not_notifies {now : UInt64} {s : Server} (hq : Quiescent s) :
    ∀ {l : List Slot}, s.tickNotifies now l = false → l.foldl (tickSlot now) s = s
  | [], _ => rfl
  | i :: l, h => by
    rw [tickNotifies, Bool.or_eq_false_iff] at h
    have hslot : s.tickSlot now i = s := by
      simp only [tickSlot, hq.processing] at h ⊢
      split_ifs with hskip hdue
      · rfl
      · simp [hskip, hdue] at h
      · rfl
    rw [List.foldl_cons, hslot]
    rw [hslot] at h
    exact foldl_tickSlot_of_not_notifies hq h.2

/-- A call that does not notify leaves the server as it was. -/
theorem call_of_not_notifies {s : Server} {k : Call} (hq : Quiescent s) (h : s.notifies k = false) :
    s.call k = s := by
  cases k with
  | onConnect now peer =>
    have hfull : (List.finRange MAX_CLIENTS).find?
        (fun i => (s.sessions i).phase = .free) = none := by
      simpa [notifies] using h
    rw [call, onConnect, hfull]
  | onData slot data now =>
    rcases slot_cases slot with ⟨i, rfl⟩ | ⟨-, hout⟩
    · have hnot : (s.sessions i).phase = .free ∨ (s.sessions i).scheduleDisconnect = true := by
        by_contra hlive
        simp only [notifies, List.any_eq_false, List.mem_finRange, true_implies] at h
        exact h i (by simpa [not_or] using hlive)
      rw [call, onData_slot, if_pos hnot]
    · exact (hout s).1 data now
  | onDisconnected slot now =>
    rcases slot_cases slot with ⟨i, rfl⟩ | ⟨-, hout⟩
    · have hnot : (s.sessions i).phase = .free := by
        by_contra hlive
        simp only [notifies, List.any_eq_false, List.mem_finRange, true_implies] at h
        exact h i (by simpa using hlive)
      rw [call, onDisconnected_slot, if_pos hnot]
    · exact (hout s).2
  | tick now => exact foldl_tickSlot_of_not_notifies hq h

/-! ## The text -/

theorem length_voteStr_le (v : Vote) : (voteStr v).length ≤ 9 := by cases v <;> decide

/-- The buffer of `status_string` is large enough for every member. -/
theorem memberStatus_eq (x : Session) :
    memberStatus x = ascii (" " ++ toString x.nodeId.toNat ++ "=" ++ voteStr x.lastAckNack) := by
  have hdigits : (toString x.nodeId.toNat).length ≤ 10 :=
    Nat.repr_length _ 10 (by decide) (x.nodeId.toNat_lt.trans (by decide))
  have hvote := length_voteStr_le x.lastAckNack
  have hlen : (ascii
      (" " ++ toString x.nodeId.toNat ++ "=" ++ voteStr x.lastAckNack)).length ≤ 47 := by
    rw [ascii, List.length_map, String.length_toList, String.length_append, String.length_append,
      String.length_append]
    have hblank : " ".length = 1 := rfl
    have hequals : "=".length = 1 := rfl
    omega
  exact List.take_of_length_le hlen

/-- The clusters in use, in the order of the table. -/
def usedClusters (s : Server) : List Int := clusterIndices.filter fun c => (s.clusters c).used

theorem clusterStatus_ne_nil (s : Server) (c : Int) : s.clusterStatus c ≠ [] := by
  simp [clusterStatus, ascii]

theorem foldl_separated {sep : Bytes} : ∀ {l : List Bytes} {out : Bytes}, out ≠ [] →
    l.foldl (fun out x => (if out = [] then out else out ++ sep) ++ x) out =
      sep.intercalate (out :: l)
  | [], out, _ => by simp [List.intercalate]
  | x :: l, out, hout => by
    have hmore : out ++ sep ++ x ≠ [] := by simp [hout]
    rw [List.foldl_cons, if_neg hout, foldl_separated hmore, List.intercalate_cons_cons]
    cases l with
    | nil => simp [List.intercalate]
    | cons y l => simp [List.intercalate_cons_cons]

/-- The text of the status: the clusters in use one after the other, or "idle". -/
theorem statusString_eq (s : Server) :
    s.statusString = if s.usedClusters = [] then ascii "idle"
      else (ascii " | ").intercalate (s.usedClusters.map s.clusterStatus) := by
  have hloop : clusterIndices.foldl (fun out c => if (s.clusters c).used = false then out
        else (if out = [] then out else out ++ ascii " | ") ++ s.clusterStatus c) [] =
      (s.usedClusters.map s.clusterStatus).foldl
        (fun out x => (if out = [] then out else out ++ ascii " | ") ++ x) [] := by
    rw [usedClusters, List.foldl_map, List.foldl_filter]
    congr 1
    funext out c
    cases (s.clusters c).used <;> rfl
  simp only [statusString, hloop]
  cases s.usedClusters with
  | nil => rfl
  | cons c l =>
    rw [List.map_cons, List.foldl_cons, if_pos rfl, List.nil_append,
      foldl_separated (s.clusterStatus_ne_nil c), if_neg (List.cons_ne_nil c l), if_neg]
    cases l <;> simp [List.intercalate, s.clusterStatus_ne_nil]

end Server

end Qnetd
