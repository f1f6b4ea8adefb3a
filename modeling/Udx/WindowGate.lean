import Udx.Serving

set_option autoImplicit false

/- What the congestion window lets out. The gate for new data counts the bytes of
the stream, and the flight the bytes of the datagrams, so a batch can end up past
the window; the gate for lost packets counts the same as the flight. -/

namespace Udx

namespace Connection

variable {F : Type} {c : Connection F}

/-- What a packet with stream data comes to besides the data. -/
def dataOverhead (c : Connection F) : Nat :=
  4 + 1 + c.remoteCID.len + 1 + c.localCID.len + 4 + 4 + 4 + streamFrameHeaderLen

/-- The datagrams of `n` bytes of stream data. -/
def datagramBytes (c : Connection F) (n : Nat) : Nat :=
  let chunkSize := Stream.chunkSizeLocked c.mtu.current
  (n + chunkSize - 1) / chunkSize * c.dataOverhead + n

theorem length_dataPacket (c : Connection F) (seq dstStreamID srcStreamID : UInt32)
    (frame : StreamFrame) :
    (marshalPacket (c.packet seq dstStreamID srcStreamID [.stream frame])).length =
      c.dataOverhead + frame.data.length := by
  rw [length_marshalPacket, dataOverhead, Packet.headerLen, Packet.framesLen]
  simp only [packet, List.map_cons, List.map_nil, List.sum_cons, List.sum_nil, Frame.len]
  omega

/-- How much of `remaining` bytes a batch takes: what is wanted and the window has
room for, in whole chunks unless the data ends with it. -/
def batchSize (room want chunkSize remaining : Nat) : Nat :=
  let granted := min room want
  if granted < remaining ∧ granted > chunkSize then granted - granted % chunkSize else granted

/-- How much `Write` asks for: the data there is, at most a batch of chunks, within
the peer's credit. -/
def wanted (c : Connection F) (s : Stream) (remaining : Nat) : Nat :=
  min (min remaining (sendBatchMax * Stream.chunkSizeLocked c.mtu.current))
    s.streamFC.sendWindowAvailable.toNat

theorem chunkSizeLocked_pos (c : Connection F) : 0 < Stream.chunkSizeLocked c.mtu.current := by
  have base := c.mtu.base
  simp only [Stream.chunkSizeLocked, streamChunkOverhead, safeDatagramSize] at base ⊢
  omega

theorem batchSize_le (room want chunkSize remaining : Nat) :
    batchSize room want chunkSize remaining ≤ want := by
  unfold batchSize
  dsimp only
  split <;> omega

theorem wanted_le (c : Connection F) (s : Stream) (remaining : Nat) :
    c.wanted s remaining ≤ remaining := by
  rw [wanted]
  omega

variable [Float64 F] (now : Time) (dstStreamID srcStreamID : UInt32)

/-- The window stays and the flight grows. -/
structure Books (bytes : Nat) (c c' : Connection F) : Prop where
  window : c'.cc.cwnd = c.cc.cwnd
  flight : c'.cc.inflight = c.cc.inflight + bytes
  overhead : c'.dataOverhead = c.dataOverhead

theorem books_prepareDataPacket (c : Connection F) (frame : StreamFrame) :
    Books (c.dataOverhead + frame.data.length) c
      (c.prepareDataPacket now dstStreamID srcStreamID [.stream frame]).1 := by
  have size := c.length_dataPacket (UInt32.ofNat c.pm.nextSeq) dstStreamID srcStreamID frame
  unfold prepareDataPacket
  dsimp only
  split
  all_goals
    refine ⟨rfl, ?_, rfl⟩
    rw [← size]
    rfl

theorem books_batch (frames : List StreamFrame) (acc : Connection F × List Packet) :
    Books (frames.length * acc.1.dataOverhead + (frames.map fun f => f.data.length).sum) acc.1
      (frames.foldl (batch now dstStreamID srcStreamID) acc).1 := by
  induction frames generalizing acc with
  | nil => exact ⟨rfl, by simp, rfl⟩
  | cons frame rest ih =>
    have first := books_prepareDataPacket now dstStreamID srcStreamID acc.1 frame
    obtain ⟨window, flight, overhead⟩ := ih (batch now dstStreamID srcStreamID acc frame)
    have after : (batch now dstStreamID srcStreamID acc frame).1 =
      (acc.1.prepareDataPacket now dstStreamID srcStreamID [.stream frame]).1 := rfl
    rw [after] at window flight overhead
    rw [List.foldl_cons]
    refine ⟨window.trans first.window, ?_, overhead.trans first.overhead⟩
    rw [flight, first.flight, first.overhead, List.map_cons, List.sum_cons, List.length_cons,
      Nat.add_mul]
    push_cast
    omega

/-- What a batch adds to the flight. -/
theorem books_sendStreamFrames (c : Connection F) (offset : UInt64) (data : List UInt8)
    {chunkSize : Nat} (positive : 0 < chunkSize) (isSyn : Bool) :
    Books ((data.length + chunkSize - 1) / chunkSize * c.dataOverhead + data.length) c
      (c.sendStreamFrames now srcStreamID dstStreamID offset data chunkSize isSyn) := by
  have parts := map_data_streamFrames false isSyn offset (Chunks.chunks chunkSize data)
  have count : (streamFrames false offset isSyn (Chunks.chunks chunkSize data)).length =
      (data.length + chunkSize - 1) / chunkSize := by
    rw [← List.length_map StreamFrame.data, parts, Chunks.length_chunks positive]
  have total : ((streamFrames false offset isSyn (Chunks.chunks chunkSize data)).map
      fun f => f.data.length).sum = data.length := by
    have lengths := congrArg (fun parts => (parts.map List.length).sum) parts
    simp only [List.map_map, ← List.length_flatten, Chunks.flatten_chunks positive] at lengths
    exact lengths
  have booked := books_batch now dstStreamID srcStreamID
    (streamFrames false offset isSyn (Chunks.chunks chunkSize data)) (c, [])
  rw [count, total] at booked
  exact ⟨booked.window, booked.flight, booked.overhead⟩

/-- The window grants what it has room for. -/
theorem awaitSendCreditUpTo_eq_some {minSize maxSize granted : Nat} (ordered : minSize ≤ maxSize)
    (positive : 0 < minSize)
    (admitted : c.awaitSendCreditUpTo now minSize maxSize = some granted) :
    0 < c.cc.cwnd - c.cc.inflight ∧
      granted = min (c.cc.cwnd - c.cc.inflight).toNat maxSize := by
  unfold awaitSendCreditUpTo at admitted
  split at admitted
  · cases admitted
  · split at admitted
    · rename_i credit
      have room : c.cc.inflight + minSize ≤ c.cc.cwnd := of_decide_eq_true credit.2
      have available : c.cc.available = c.cc.cwnd - c.cc.inflight := if_neg (by omega)
      dsimp only at admitted
      rw [available] at admitted
      cases admitted
      omega
    · cases admitted

/-- A batch is cut into chunks for the path, and is as large as the window's room and
what was wanted make it. -/
theorem batch_sized {s t : Stream} {ask : Stream.Ask} {granted remaining : Nat}
    {batch : Stream.Batch} (asked : s.writeAsk c.mtu.current remaining = some ask)
    (admitted : c.awaitSendCreditUpTo now ask.first ask.want = some granted)
    (committed : s.writeCommit ask granted remaining = some (t, batch)) :
    ask.chunkSize = Stream.chunkSizeLocked c.mtu.current ∧ 0 < c.cc.cwnd - c.cc.inflight ∧
      batch.granted = batchSize (c.cc.cwnd - c.cc.inflight).toNat (c.wanted s remaining)
        (Stream.chunkSizeLocked c.mtu.current) remaining := by
  obtain ⟨shape, some', -⟩ := s.writeAsk_eq_some asked
  obtain ⟨want, credit⟩ := s.want_writeAsk asked
  have chunk : ask.chunkSize = Stream.chunkSizeLocked c.mtu.current :=
    congrArg Stream.Ask.chunkSize shape
  have first : ask.first = min (Stream.chunkSizeLocked c.mtu.current) ask.want :=
    congrArg Stream.Ask.first shape
  have positive := c.chunkSizeLocked_pos
  obtain ⟨room, grant⟩ := awaitSendCreditUpTo_eq_some now (by omega) (by omega) admitted
  refine ⟨chunk, room, ?_⟩
  rw [s.granted_writeCommit (by omega) committed, grant, want, chunk]
  rfl

theorem batch_spec {s t : Stream} {ask : Stream.Ask} {granted remaining : Nat}
    {batch : Stream.Batch} (asked : s.writeAsk c.mtu.current remaining = some ask)
    (admitted : c.awaitSendCreditUpTo now ask.first ask.want = some granted)
    (committed : s.writeCommit ask granted remaining = some (t, batch)) :
    ask.chunkSize = Stream.chunkSizeLocked c.mtu.current ∧ 0 < ask.chunkSize ∧
      batch.granted ≤ remaining := by
  obtain ⟨chunk, -, size⟩ := batch_sized now asked admitted committed
  refine ⟨chunk, chunk ▸ c.chunkSizeLocked_pos, ?_⟩
  rw [size]
  exact (batchSize_le ..).trans (c.wanted_le s remaining)

/-- A batch ends within the window exactly if the datagrams of what the window has
room for and the write wants, headers and all, fit that room. -/
theorem inflight_le_cwnd_writeBatch {id : UInt32} {entering : Bool} {data : List UInt8}
    {c' : Connection F} {n : Nat} {s : Stream} (found : c.streams.lookup id = some s)
    (written : c.writeBatch now id entering data = some (c', n)) :
    let room := (c.cc.cwnd - c.cc.inflight).toNat
    let size := batchSize room (c.wanted s data.length)
      (Stream.chunkSizeLocked c.mtu.current) data.length
    n = size ∧ (c'.cc.inflight ≤ c'.cc.cwnd ↔ c.datagramBytes size ≤ room) := by
  intro room size
  obtain ⟨s', ask, granted, t, batch, found', asked, admitted, committed, sent⟩ :=
    writeBatch_eq_some now written
  obtain rfl : s' = s := Option.some.inj (found'.symm.trans found)
  obtain ⟨rfl, rfl⟩ := Prod.mk.inj sent
  obtain ⟨chunk, some', same⟩ := batch_sized now asked admitted committed
  have length : (data.take batch.granted).length = size := by
    rw [List.length_take, same]
    exact Nat.min_eq_left ((batchSize_le ..).trans (c.wanted_le s' _))
  obtain ⟨window, flight, -⟩ := books_sendStreamFrames now t.remoteID t.id (c.setStream t)
    (UInt64.ofNat batch.offset) (data.take batch.granted) (chunk ▸ c.chunkSizeLocked_pos)
    batch.isSyn
  refine ⟨same, ?_⟩
  rw [window, flight, length, chunk]
  have bytes : (c.setStream t).cc = c.cc := rfl
  rw [bytes, show (c.setStream t).dataOverhead = c.dataOverhead from rfl]
  have total : c.datagramBytes size = (size + Stream.chunkSizeLocked c.mtu.current - 1) /
    Stream.chunkSizeLocked c.mtu.current * c.dataOverhead + size := rfl
  rw [← total]
  omega

/-- Going round the loop of `flushLost` leaves the window, and what it re-sends is
within it. -/
def Admits (c c' : Connection F) : Prop :=
  c'.cc.cwnd = c.cc.cwnd ∧
    (c'.wire = c.wire ∧ c'.cc.inflight = c.cc.inflight ∨ c'.cc.inflight ≤ c'.cc.cwnd)

omit [Float64 F] in
theorem Admits.trans {a b c : Connection F} (first : Admits a b) (second : Admits b c) :
    Admits a c := by
  obtain ⟨window, flight⟩ := first
  obtain ⟨window', flight'⟩ := second
  refine ⟨window'.trans window, ?_⟩
  rcases flight' with ⟨wire', same'⟩ | within'
  · rcases flight with ⟨wire, same⟩ | within
    · exact .inl ⟨wire'.trans wire, same'.trans same⟩
    · exact .inr (by rw [same', window']; exact within)
  · exact .inr within'

theorem Round.admits {p : Ptr} {rest : List Ptr} {c' : Connection F}
    (round : Round now c p rest c') : Admits c c' := by
  cases round with
  | skipped | refused => exact ⟨rfl, .inl ⟨rfl, rfl⟩⟩
  | split sf limit out cut =>
    obtain ⟨⟨pm, only⟩, -⟩ := allocate_spec (c.pm.heap p) [] cut.allocated
    rw [only]
    exact ⟨rfl, .inl ⟨rfl, rfl⟩⟩
  | sent pm seq resent window =>
    have cargo := c.pm.cargo_resend now p
    rw [resent] at cargo
    have size : (pm.heap p).size = (c.pm.heap p).size := congrArg Cargo.size (congrFun cargo p)
    have room : c.cc.inflight + (c.pm.heap p).size ≤ c.cc.cwnd := of_decide_eq_true window
    rw [← size] at room
    exact ⟨rfl, .inr room⟩

theorem admits_flushLoop (rounds : Nat) : Admits c (flushLoop now rounds c) := by
  induction rounds generalizing c with
  | zero => exact ⟨rfl, .inl ⟨rfl, rfl⟩⟩
  | succ rounds ih =>
    rcases queue : c.lostQueue with _ | ⟨p, rest⟩
    · rw [flushLoop, queue]
      exact ⟨rfl, .inl ⟨rfl, rfl⟩⟩
    · by_cases closed : c.state = .closed
      · rw [flushLoop, queue]
        dsimp only
        rw [if_pos closed]
        exact ⟨rfl, .inl ⟨rfl, rfl⟩⟩
      · rcases flushLoop_cons now queue closed rounds with ⟨c', round, same⟩ | halt
        · rw [same]
          exact round.admits.trans ih
        · generalize flushLoop now (rounds + 1) c = last at halt
          cases halt with
          | paced | full => exact ⟨rfl, .inl ⟨rfl, rfl⟩⟩

/-- A writer's batch takes what the write wants and the window has room for, and
leaves the flight within the window exactly if its datagrams fit that room; a packet
that `flushLost` re-sends always does. The second part is about every number of
rounds of the loop, so about the state after each packet. -/
theorem inflight_le_cwnd (c : Connection F) :
    (∀ id entering data s c' n, c.streams.lookup id = some s →
      c.writeBatch now id entering data = some (c', n) →
        let room := (c.cc.cwnd - c.cc.inflight).toNat
        let size := batchSize room (c.wanted s data.length)
          (Stream.chunkSizeLocked c.mtu.current) data.length
        n = size ∧ (c'.cc.inflight ≤ c'.cc.cwnd ↔ c.datagramBytes size ≤ room)) ∧
    ∀ rounds, let c' := flushLoop now rounds { c with lostTimer := none }
      c'.wire ≠ c.wire → c'.cc.inflight ≤ c'.cc.cwnd := by
  refine ⟨fun id entering data s c' n found written => inflight_le_cwnd_writeBatch now found written,
    fun rounds => ?_⟩
  intro c' sent
  have admits : Admits { c with lostTimer := none } c' := admits_flushLoop now rounds
  rcases admits.2 with ⟨quiet, -⟩ | within
  · exact absurd quiet sent
  · exact within

/-- A connection just dialled, with a stream. -/
def dialled : Connection ℚ :=
  (newConnection ⟨[], Nat.zero_le _⟩ ⟨[], Nat.zero_le _⟩ "peer" true true 0 :
    Connection ℚ).openStream.1

/-- Three bytes and their header fit the initial window. -/
theorem inflight_le_cwnd_dialled :
    ∃ c' n, dialled.writeBatch 0 1 true [1, 2, 3] = some (c', n) ∧ n = 3 ∧
      c'.cc.inflight ≤ c'.cc.cwnd := by
  have goes : (dialled.writeBatch 0 1 true [1, 2, 3]).isSome = true := by decide
  obtain ⟨⟨c', n⟩, written⟩ := Option.isSome_iff_exists.mp goes
  obtain ⟨size, within⟩ := (inflight_le_cwnd 0 dialled).1 1 true [1, 2, 3] _ c' n rfl written
  exact ⟨c', n, written, size, within.mpr (by decide)⟩

/-- The initial window is ten large datagrams. A first write of as many bytes of data
passes the gate and goes out in fourteen datagrams, with thirty bytes more in each. -/
theorem firstWrite_overruns :
    ∃ c' n, dialled.writeBatch 0 1 true (List.replicate 14720 7) = some (c', n) ∧
      c'.cc.cwnd < c'.cc.inflight := by
  have length : (List.replicate 14720 (7 : UInt8)).length = 14720 := List.length_replicate
  generalize List.replicate 14720 (7 : UInt8) = data at length
  have goes : (dialled.writeBatch 0 1 true data).isSome = true := by
    unfold writeBatch
    rw [length]
    rfl
  obtain ⟨⟨c', n⟩, written⟩ := Option.isSome_iff_exists.mp goes
  refine ⟨c', n, written, ?_⟩
  rw [← not_le, (inflight_le_cwnd_writeBatch 0 rfl written).2, length]
  decide

end Connection

end Udx
