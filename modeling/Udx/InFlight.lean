import Udx.Lib.Runs
import Udx.LossAndAck

set_option autoImplicit false

namespace Udx

open Flight (Moves)

/-- What happens to the sending side of a connection: its own sends, an ACK
frame, and its timers. -/
inductive Connection.Event where
  | sendPacket (now : Time) (dstStreamID srcStreamID : UInt32) (frames : List Frame)
  | sendStreamFrames (now : Time) (streamID remoteID : UInt32) (offset : UInt64)
      (data : List UInt8) (chunkSize : Nat) (isSyn : Bool)
  | probeMTU (now : Time)
  | ack (now : Time) (frame : AckFrame)
  | lossTimer (now : Time)
  | pto (now : Time)
  | flushLost (now : Time)
  | blackhole (now : Time)

namespace Connection

variable {F : Type} [Float64 F]

def handle (c : Connection F) : Event → Connection F
  | .sendPacket now dst src frames => c.sendPacket now dst src frames
  | .sendStreamFrames now id remoteID offset data chunkSize isSyn =>
    c.sendStreamFrames now id remoteID offset data chunkSize isSyn
  | .probeMTU now => c.probeMTU now
  | .ack now frame => c.handleAckFrame now frame
  | .lossTimer now => c.onLossTimer now
  | .pto now => c.onPtoTimeout now
  | .flushLost now => c.flushLost now
  | .blackhole now => { c with mtu := c.mtu.blackholeLocked now }

def step (c : Connection F) (event : Event) : Option (Connection F) := some (c.handle event)

/-- The bytes of the tracked packets that are not path-MTU probes. -/
def trackedBytes (c : Connection F) : Nat :=
  totalSize c.pm (c.pm.outstanding.filter fun p => !(c.pm.heap p).probe)

/-- Nothing in hand and nothing owed, as between two steps. -/
def ground : Ghost := { extent := fun _ => 0 }

theorem sendable_any (dstStreamID srcStreamID : UInt32) (size : StreamFrame → Nat)
    (extent : UInt32 → Nat) (frames : List StreamFrame) :
    Sendable .any dstStreamID srcStreamID size extent frames := by
  induction frames generalizing extent with
  | nil => trivial
  | cons frame rest ih => exact ⟨trivial, ih _⟩

theorem keeps_handle (c : Connection F) (event : Event) :
    ∃ labels, Keeps labels c (c.handle event) := by
  cases event with
  | sendPacket now dst src frames =>
    exact ⟨[(src, dst)], (sends_sendPacket now dst src frames fun _ =>
      List.mem_singleton_self _).toKeeps⟩
  | sendStreamFrames now id remoteID offset data chunkSize isSyn =>
    exact ⟨_, (sends_sendStreamFrames now remoteID id offset data chunkSize isSyn).toKeeps⟩
  | probeMTU now => exact ⟨_, (sends_probeMTU now).toKeeps⟩
  | ack now frame => exact ⟨_, keeps_handleAckFrame now frame⟩
  | lossTimer now => exact ⟨_, keeps_onLossTimer now⟩
  | pto now => exact ⟨_, (sends_onPtoTimeout now).toKeeps⟩
  | flushLost now => exact ⟨_, (sends_flushLost now).toKeeps⟩
  | blackhole now => exact ⟨[], .quiet rfl rfl rfl rfl⟩

/-- No probe timeout has to cut a packet. -/
def Whole (c : Connection F) : Event → Prop
  | .pto now => c.ptoFits now = true
  | _ => True

instance (c : Connection F) : (event : Event) → Decidable (c.Whole event)
  | .pto now => inferInstanceAs (Decidable (c.ptoFits now = true))
  | .sendPacket .. | .sendStreamFrames .. | .probeMTU _ | .ack .. | .lossTimer _ | .flushLost _
  | .blackhole _ => inferInstanceAs (Decidable True)

/-- Every event moves the flight on, and ends with the bytes owed that it began
with unless a probe timeout cuts a packet. -/
theorem handle_spec (c : Connection F) (event : Event) (opened : c.state ≠ .closed)
    (room : (c.handle event).pm.nextSeq ≤ 2 ^ 32) (custody : c.Custody ground) :
    ∃ extent debt, (c.handle event).Custody ground ∧
      Moves .any (c.flight ground)
        ((c.handle event).flight { ground with extent := extent, debt := debt }) ∧
      (c.Whole event → debt = 0) := by
  have settles : ∀ {extent : UInt32 → Nat},
      Simulated .any c ground (c.handle event) { ground with extent := extent } →
      ∃ extent debt, (c.handle event).Custody ground ∧
        Moves .any (c.flight ground)
          ((c.handle event).flight { ground with extent := extent, debt := debt }) ∧
        (c.Whole event → debt = 0) := by
    intro extent simulated
    obtain ⟨kept, moves⟩ := simulated room custody
    exact ⟨extent, 0, kept, moves, fun _ => rfl⟩
  cases event with
  | sendPacket now dst src frames =>
    by_cases bears : frames.any Frame.bearsData = true
    · exact settles (simulated_sendPacket_data now dst src bears trivial)
    · exact settles (simulated_sendPacket_control now dst src (by simpa using bears) trivial)
  | sendStreamFrames now id remoteID offset data chunkSize isSyn =>
    exact settles (simulated_sendStreamFrames now remoteID id offset data chunkSize isSyn
      (sendable_any ..))
  | probeMTU now => exact settles (simulated_probeMTU now fun _ _ _ _ _ => trivial)
  | ack now frame =>
    exact settles (simulated_handleAckFrame now frame opened (Int.le_refl 0) (fun _ _ => trivial)
      fun _ _ _ _ _ => trivial)
  | lossTimer now => exact settles (simulated_onLossTimer now opened (Int.le_refl 0))
  | pto now =>
    obtain ⟨debt, ⟨kept, moves⟩, settled⟩ := onPtoTimeout_spec now room custody
    exact ⟨ground.extent, debt, kept, moves, settled⟩
  | flushLost now => exact settles (simulated_flushLost now opened)
  | blackhole now => exact settles (.aside rfl rfl rfl rfl)

/-- The booking of an open connection between two steps, as long as numbers do
not repeat. -/
structure Accounted (c : Connection F) : Prop where
  opened : c.state ≠ .closed
  books : c.pm.nextSeq ≤ 2 ^ 32 → c.Custody ground ∧ (c.flight ground).Balanced

theorem accounted_step {c c' : Connection F} {event : Event} (accounted : c.Accounted)
    (whole : c.Whole event) (taken : c.step event = some c') : c'.Accounted := by
  obtain rfl := Option.some.inj taken
  obtain ⟨_, keeps⟩ := c.keeps_handle event
  refine ⟨?_, fun room => ?_⟩
  · rw [show (c.handle event).state = c.state from congrArg Endpoint.state keeps.endpoint]
    exact accounted.opened
  · obtain ⟨custody, balanced⟩ := accounted.books (Nat.le_trans keeps.next room)
    obtain ⟨extent, debt, kept, moves, settled⟩ := c.handle_spec event accounted.opened room custody
    rw [settled whole] at moves
    exact ⟨kept, moves.keep (fun _ _ move => move.balanced) balanced⟩

omit [Float64 F] in
theorem booked_flight (c : Connection F) (g : Ghost) : (c.flight g).booked = c.trackedBytes := by
  rw [trackedBytes, ← sum_booked]
  simp only [Flight.booked, flight, PacketManager.tracked, PacketManager.outstanding,
    Multiset.map_coe, Multiset.sum_coe, List.map_map]
  rfl

theorem accounted_new (localCID remoteCID : ConnectionID) (addr : Addr)
    (isInitiator validated : Bool) (now : Time) :
    (newConnection localCID remoteCID addr isInitiator validated now : Connection F).Accounted :=
  ⟨by simp [newConnection], fun _ => ⟨PacketManager.custody_new, rfl⟩⟩

/-- In every run of a connection in which no probe timeout cuts a packet and
numbers do not repeat, the bytes in flight are the bytes tracked. -/
theorem inflight_eq_trackedBytes {localCID remoteCID : ConnectionID} {addr : Addr}
    {isInitiator validated : Bool} {start : Time} {events : List Event} {c : Connection F}
    (whole : Runs.Along step Whole
      (newConnection localCID remoteCID addr isInitiator validated start : Connection F) events)
    (reached : Runs.run step (newConnection localCID remoteCID addr isInitiator validated start)
      events = some c)
    (few : c.pm.nextSeq ≤ 2 ^ 32) : c.cc.inflight = c.trackedBytes := by
  have accounted := Runs.invariant Accounted (fun _ _ _ => accounted_step)
    (accounted_new ..) whole reached
  have balanced := (accounted.books few).2
  rw [Flight.Balanced, booked_flight] at balanced
  simpa [flight, ground] using balanced

def fresh : Connection ℚ := newConnection ⟨[], Nat.zero_le _⟩ ⟨[], Nat.zero_le _⟩ "peer" true true 0

def oneByte : Frame := .stream ⟨false, true, 0, [0]⟩

def fullSize : Frame := .stream ⟨false, false, 1, List.replicate 1442 0⟩

/-- The ACK of a peer that has received these numbers. -/
def received (seqs : List UInt32) : Event := .ack 0 ((RecvTracker.addAll {} seqs).frame 0)

/-- A full-size packet times out three times, until the path is taken to carry
less. -/
def blackHole : List Event :=
  [.sendPacket 0 0 1 [oneByte], received [0], received [0, 1],
    .sendPacket 0 0 1 [fullSize], .pto 0, .pto 0, .pto 0]

/-- The packet goes out again in two pieces of 1502 bytes together, and 1472
stay booked. -/
theorem blackHole_unbooked :
    ∃ c, Runs.run step fresh blackHole = some c ∧ c.pm.nextSeq = 7 ∧
      ¬ c.cc.inflight = c.trackedBytes := by
  have drifts : (Runs.run step fresh blackHole).any (fun c =>
      decide (c.pm.nextSeq = 7 ∧ ¬ c.cc.inflight = c.trackedBytes)) = true := by decide +kernel
  obtain ⟨c, reached, test⟩ := Runs.reaches_of_any drifts
  exact ⟨c, reached, of_decide_eq_true test⟩

/-- Two timeouts before the path shrinks leave the books in order. -/
theorem inflight_eq_trackedBytes_twice :
    ∃ c, Runs.run step fresh (blackHole.dropLast) = some c ∧ c.cc.inflight = c.trackedBytes ∧
      0 < c.trackedBytes := by
  have booked : (Runs.run step fresh blackHole.dropLast).any (fun c =>
      decide (c.pm.nextSeq ≤ 2 ^ 32 ∧ 0 < c.trackedBytes)) = true := by decide +kernel
  have whole : Runs.Along step Whole fresh blackHole.dropLast := by decide +kernel
  obtain ⟨c, reached, test⟩ := Runs.reaches_of_any booked
  have test := of_decide_eq_true test
  exact ⟨c, reached, inflight_eq_trackedBytes whole reached test.1, test.2⟩

end Connection

end Udx
