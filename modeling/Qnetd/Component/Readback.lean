import Qnetd.Component.Refine
import Qnetd.Component.Transmit
import Qnetd.Invariant.Outgoing

/-!
# What a client reads

The frames that the server passes to `send_frame` are written to the socket in pieces, wherever a
`write` stops. A client that cuts the bytes it has received into frames, with the reader of `tlv.h`,
has the frames of the server again.

* `run_framesFor_readable` : each of them is whole and decodes;
* `client_reads_frames` : a client reads the frames of the server, in order, and decodes each.
-/

namespace Qnetd

/-! ## The frames of a connection -/

theorem LoopEvent.of_mem_framesTo {i : Slot} {e : LoopEvent} {f : Frame} (h : f ∈ e.framesTo i) :
    ∃ x, e = .core x ∧ x.call = some (.sendFrame i f) := by
  cases e with
  | core x =>
    refine ⟨x, rfl, ?_⟩
    cases x with
    | send j g | vote j g =>
      simp only [LoopEvent.framesTo, Event.framesTo] at h
      split_ifs at h with hj
      · rw [List.mem_singleton.mp h, ← hj]
        rfl
      · cases h
    | _ => cases h
  | _ => cases h

theorem of_mem_framesFor {i : Slot} {f : Frame} {tr : List LoopEvent} (h : f ∈ framesFor i tr) :
    ∃ x, x ∈ tr.filterMap LoopEvent.core? ∧ x.call = some (.sendFrame i f) := by
  obtain ⟨e, he, hf⟩ := History.exists_of_mem_collected h
  obtain ⟨x, rfl, hx⟩ := LoopEvent.of_mem_framesTo hf
  exact ⟨x, List.mem_filterMap.mpr ⟨_, he, rfl⟩, hx⟩

/-! ## Runs -/

/-- A client whose limit is at least the server's can read every frame of its connection. -/
theorem run_framesFor_readable (w : Writes) (listening : Bool) (its : List Iteration) {max : UInt32}
    (hmax : 32768 ≤ max)
    {i : Slot} {f : Frame} (hf : f ∈ framesFor i (QnetdComponent.run w listening its).trace) :
    Readable max f := by
  obtain ⟨x, hx, hcall⟩ := of_mem_framesFor hf
  have hcore := run_coreEvents w listening its
  rw [QnetdComponent.coreEvents, QnetdComponent.run_server] at hcore
  rw [hcore] at hx
  have h128 : 128 ≤ max.toNat := by
    have hle : 32768 ≤ max.toNat := UInt32.le_iff_toNat_le.mp hmax
    omega
  exact run_sends_readable hmax h128 _ hx hcall

/-- A client reads the frames of the server, in order, and decodes each. Take a connection in use,
and sockets that accept some of the bytes of a `write` or would block. The client cuts what it has
received into frames, with a limit of at least the server's. What it has then are the first frames
that the server passed to `send_frame` for this connection; the rest of its bytes and the queue are
the later ones; and it can decode every frame it has. -/
theorem client_reads_frames (w : Writes) (hw : ∀ k len, w k len ≠ .failed) (listening : Bool)
    (its : List Iteration)
    (i : Slot) (hused : ((QnetdComponent.run w listening its).conns i).used = true) (max : UInt32)
    (hmax : 32768 ≤ max) : (∃ later, framesFor i (QnetdComponent.run w listening its).trace =
        ((frameFormat max).split
          (writtenFor i (QnetdComponent.run w listening its).trace)).1 ++ later ∧
      ((frameFormat max).split (writtenFor i (QnetdComponent.run w listening its).trace)).2 ++
        ((QnetdComponent.run w listening its).conns i).tx = later.flatten) ∧
    ∀ f ∈ ((frameFormat max).split (writtenFor i (QnetdComponent.run w listening its).trace)).1,
      ∃ m, decodeFrame f = some m := by
  have hread : ∀ f ∈ framesFor i (QnetdComponent.run w listening its).trace, Readable max f :=
    fun f hf => run_framesFor_readable w listening its hmax hf
  -- nothing is missing between `send_frame` and the socket
  obtain ⟨broken, hreached, hnone⟩ := run_reached w listening its
  have hexact :=
    (hreached.transmitting.lines i hused).exact (by rw [hnone hw]; exact List.not_mem_nil)
  rw [List.append_nil, passedFor] at hexact
  obtain ⟨later, hfs, hrest⟩ :=
    Framing.Format.split_part (fun f hf => (hread f hf).complete.cut) hexact
  refine ⟨⟨later, hfs, hrest⟩, fun f hf => ?_⟩
  exact (hread f (by rw [hfs]; exact List.mem_append_left _ hf)).decodes

/-- A socket that takes up to twenty bytes at a time. -/
def twentyBytes : Writes :=
  fun _ len => .wrote ⟨min 20 len, Nat.lt_succ_of_le (Nat.min_le_right 20 len)⟩

/-- A peer sends its PREINIT twice, and the loop runs once more. -/
def preinitTwice : List Iteration :=
  [{ millis := 1000, accepted := [(7, "a")]
     reads := fun _ => List.replicate 2 (.data ⟨MockClient.preinit 1 [116], preinit_readable⟩) },
   { millis := 1010, accepted := [], reads := fun _ => [] }]

/-- Two frames were sent and the socket has taken 40 bytes of them. -/
theorem client_reads_frames_twentyBytes :
    (framesFor 0 (QnetdComponent.run twentyBytes true preinitTwice).trace).length = 2 ∧
    (writtenFor 0 (QnetdComponent.run twentyBytes true preinitTwice).trace).length = 40 ∧
    ((QnetdComponent.run twentyBytes true preinitTwice).conns 0).tx ≠ [] ∧
    ∃ later, framesFor 0 (QnetdComponent.run twentyBytes true preinitTwice).trace =
      ((frameFormat 32768).split
        (writtenFor 0 (QnetdComponent.run twentyBytes true preinitTwice).trace)).1 ++ later := by
  have hrun : ((QnetdComponent.run twentyBytes true preinitTwice).conns 0).used = true ∧
      (framesFor 0 (QnetdComponent.run twentyBytes true preinitTwice).trace).length = 2 ∧
      (writtenFor 0 (QnetdComponent.run twentyBytes true preinitTwice).trace).length = 40 ∧
      ((QnetdComponent.run twentyBytes true preinitTwice).conns 0).tx ≠ [] := by decide +kernel
  obtain ⟨⟨later, hfs, -⟩, -⟩ :=
    client_reads_frames twentyBytes (fun _ _ => by simp [twentyBytes]) true preinitTwice 0 hrun.1
      32768 (by decide)
  exact ⟨hrun.2.1, hrun.2.2.1, hrun.2.2.2, later, hfs⟩

end Qnetd
