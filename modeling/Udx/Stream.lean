import Mathlib.Data.List.AList
import Udx.FlowControl
import Udx.Frame

set_option autoImplicit false

namespace Udx

inductive StreamState where
  | idle
  | opened
  | halfClosedLocal
  | halfClosedRemote
  | closed
  | reset
deriving DecidableEq, Repr

/-- A reliable, ordered byte stream. Offsets are 64-bit numbers; `recvOOO` maps
the offset of an early chunk to its bytes. -/
structure Stream where
  id : UInt32
  remoteID : UInt32
  state : StreamState := .idle
  resetCode : UInt32 := 0
  recvBuf : List UInt8 := []
  recvOOO : AList (fun _ : Nat => List UInt8) := ∅
  recvOffset : Nat := 0
  oooBytes : Int := 0
  flowControlViolation : Bool := false
  finReceived : Bool := false
  finSeen : Bool := false
  finalSize : Nat := 0
  streamFC : StreamFlowController
  bytesRead : Nat := 0
  bytesWritten : Nat := 0

def newStream (id remoteID : UInt32) (fc : StreamFlowController) : Stream :=
  { id := id, remoteID := remoteID, streamFC := fc }

inductive ReadResult where
  | data (bytes : List UInt8)
  | eof
  | streamReset
  | deadlineExceeded
  /-- The reader waits for the stream to change. -/
  | blocked
deriving DecidableEq

inductive WriteError where
  | streamReset
  | writeAfterClose
deriving DecidableEq

namespace Stream

variable (s : Stream)

/-- The loop that moves held chunks into `recvBuf` while one starts where the
delivered bytes end. It takes an entry out of `recvOOO` every time round. -/
def release : Nat → Stream → Stream
  | 0, s => s
  | fuel + 1, s =>
    match s.recvOOO.lookup s.recvOffset with
    | none => s
    | some chunk =>
      release fuel { s with
        recvOOO := s.recvOOO.erase s.recvOffset
        oooBytes := s.oooBytes - chunk.length
        recvBuf := s.recvBuf ++ chunk
        recvOffset := (s.recvOffset + chunk.length) % 2 ^ 64 }

/-- Puts a chunk at its offset and returns how many bytes were newly
accepted. -/
def placeLocked (offset : Nat) (data : List UInt8) : Stream × Nat :=
  let stop := (offset + data.length) % 2 ^ 64
  if stop ≤ s.recvOffset then (s, 0)
  else
    let (offset, data) :=
      if offset < s.recvOffset then (s.recvOffset, data.drop (s.recvOffset - offset))
      else (offset, data)
    if offset > s.recvOffset then
      if offset ∈ s.recvOOO then (s, 0)
      else if s.oooBytes + data.length > maxStreamRecvOOO then
        ({ s with flowControlViolation := true }, 0)
      else
        ({ s with
          recvOOO := s.recvOOO.insert offset data
          oooBytes := s.oooBytes + data.length }, data.length)
    else
      let s := { s with recvBuf := s.recvBuf ++ data, recvOffset := stop }
      (release s.recvOOO.entries.length s, data.length)

/-- Completes the stream once every byte up to `finalSize` has been
delivered. -/
def finishLocked : Stream :=
  if !s.finSeen || s.finReceived || s.recvOffset < s.finalSize then s
  else
    { s with
      finReceived := true
      state := if s.state = .halfClosedLocal then .closed else .halfClosedRemote }

def reset (errorCode : UInt32) : Stream × List Frame :=
  if s.state = .closed ∨ s.state = .reset then (s, [])
  else ({ s with state := .reset, resetCode := errorCode }, [.resetStream errorCode])

def deliverData (offset : Nat) (data : List UInt8) : Stream × List Frame :=
  let (s, accepted) := s.placeLocked offset data
  if s.flowControlViolation then s.reset errorFlowControlError
  else if accepted > 0 then
    ({ s with streamFC := s.streamFC.onDataReceived accepted }.finishLocked, [])
  else (s, [])

def deliverFin (finalSize : Nat) : Stream :=
  { s with finSeen := true, finalSize := finalSize }.finishLocked

def deliverReset (errorCode : UInt32) : Stream :=
  { s with state := .reset, resetCode := errorCode }

def onWindowUpdate (wire : UInt32) : Stream :=
  { s with streamFC := s.streamFC.applyWindowUpdate wire }

/-- Reads into a buffer of `size` bytes; `expired` says whether the read
deadline has passed. Returns the frames to send. -/
def read (size : Nat) (expired : Bool) : Stream × ReadResult × List Frame :=
  if s.recvBuf.length = 0 then
    if s.state = .reset then (s, .streamReset, [])
    else if s.finReceived then (s, .eof, [])
    else if s.state = .closed then (s, .eof, [])
    else if expired then (s, .deadlineExceeded, [])
    else (s, .blocked, [])
  else
    let bytes := s.recvBuf.take size
    let (fc, sendUpdate) := s.streamFC.onDataConsumed bytes.length
    let s := { s with
      recvBuf := s.recvBuf.drop bytes.length
      bytesRead := s.bytesRead + bytes.length
      streamFC := fc }
    if sendUpdate then
      let (fc, limit) := fc.advertiseLimit
      ({ s with streamFC := fc }, .data bytes, [.windowUpdate (UInt32.ofInt limit)])
    else (s, .data bytes, [])

/-- How much stream data one packet carries. -/
def chunkSizeLocked (maxDatagram : Nat) : Nat := maxDatagram - streamChunkOverhead

/-- What `Write` refuses on entry. -/
def writeError : Option WriteError :=
  if s.state = .reset then some .streamReset
  else if s.state = .halfClosedLocal ∨ s.state = .closed then some .writeAfterClose
  else none

/-- What a writer asks the congestion window for. -/
structure Ask where
  chunkSize : Nat
  want : Nat
  first : Nat
  isSyn : Bool

/-- The next batch of a write with `remaining` bytes to go, or none while the
peer grants no credit. -/
def writeAsk (maxDatagram remaining : Nat) : Option Ask :=
  if ¬ s.streamFC.canSend 1 then none
  else
    let chunkSize := chunkSizeLocked maxDatagram
    let want := min remaining (sendBatchMax * chunkSize)
    let want :=
      if s.streamFC.sendWindowAvailable < want then s.streamFC.sendWindowAvailable.toNat else want
    if want = 0 then none
    else some ⟨chunkSize, want, min chunkSize want, s.state = .idle⟩

/-- A batch on its way to the connection. -/
structure Batch where
  offset : Nat
  granted : Nat
  isSyn : Bool

/-- Books what the congestion window granted of `ask`, with the stream as it is
by then. -/
def writeCommit (ask : Ask) (granted remaining : Nat) : Option (Stream × Batch) :=
  if s.state = .reset then none
  else
    let granted :=
      if s.streamFC.sendWindowAvailable < granted then s.streamFC.sendWindowAvailable.toNat
      else granted
    if granted = 0 then none
    else
      let granted :=
        if granted < remaining ∧ granted > ask.chunkSize then granted - granted % ask.chunkSize
        else granted
      let isSyn := ask.isSyn && decide (s.state = .idle)
      some ({ s with
        state := if isSyn then .opened else s.state
        streamFC := s.streamFC.onDataSent granted
        bytesWritten := s.bytesWritten + granted }, ⟨s.bytesWritten, granted, isSyn⟩)

/-- Sends a FIN and closes the write side; returns the frames to send. -/
def close : Stream × List Frame :=
  if s.state = .closed ∨ s.state = .reset then (s, [])
  else
    ({ s with state := if s.state = .halfClosedRemote then .closed else .halfClosedLocal },
      [.stream ⟨true, false, UInt64.ofNat s.bytesWritten, []⟩])

theorem writeAsk_eq_some {maxDatagram remaining : Nat} {ask : Ask}
    (asked : s.writeAsk maxDatagram remaining = some ask) :
    ask = ⟨chunkSizeLocked maxDatagram, ask.want, min (chunkSizeLocked maxDatagram) ask.want,
      decide (s.state = .idle)⟩ ∧ 0 < ask.want ∧ ask.want ≤ remaining := by
  unfold writeAsk at asked
  split at asked
  · cases asked
  · dsimp only at asked
    generalize clamp : (if s.streamFC.sendWindowAvailable <
      ((min remaining (sendBatchMax * chunkSizeLocked maxDatagram) : Nat) : Int) then _
      else _ : Nat) = want at asked
    have within : want ≤ remaining := by
      rw [← clamp]
      split <;> omega
    split at asked
    · cases asked
    · cases asked
      exact ⟨rfl, by dsimp only; omega, within⟩

/-- A writer asks for as much as the data, the batch and the peer's credit allow. -/
theorem want_writeAsk {maxDatagram remaining : Nat} {ask : Ask}
    (asked : s.writeAsk maxDatagram remaining = some ask) :
    ask.want = min (min remaining (sendBatchMax * chunkSizeLocked maxDatagram))
        s.streamFC.sendWindowAvailable.toNat ∧
      (ask.want : Int) ≤ s.streamFC.sendWindowAvailable := by
  unfold writeAsk at asked
  split at asked
  · cases asked
  · dsimp only at asked
    generalize min remaining (sendBatchMax * chunkSizeLocked maxDatagram) = most at asked ⊢
    generalize clamp : (if s.streamFC.sendWindowAvailable < (most : Int) then _
      else _ : Nat) = want at asked
    split at asked
    · cases asked
    · cases asked
      dsimp only
      split at clamp <;> omega

theorem writeCommit_eq_some {ask : Ask} {granted remaining : Nat} {t : Stream} {batch : Batch}
    (committed : s.writeCommit ask granted remaining = some (t, batch)) :
    s.state ≠ .reset ∧ batch.granted ≤ granted ∧
      batch = ⟨s.bytesWritten, batch.granted, ask.isSyn && decide (s.state = .idle)⟩ ∧
      t = { s with
        state := if batch.isSyn then .opened else s.state
        streamFC := s.streamFC.onDataSent batch.granted
        bytesWritten := s.bytesWritten + batch.granted } := by
  unfold writeCommit at committed
  split at committed
  · cases committed
  · rename_i live
    have clamped : (if s.streamFC.sendWindowAvailable < granted then
        s.streamFC.sendWindowAvailable.toNat else granted) ≤ granted := by
      split <;> omega
    dsimp only at committed
    generalize (if s.streamFC.sendWindowAvailable < granted then _ else _ : Nat) = whole
      at committed clamped
    split at committed
    · cases committed
    · cases committed
      refine ⟨live, ?_, rfl, rfl⟩
      dsimp only
      split <;> omega

/-- `Write`'s rounding, where the peer's credit covers what was granted. -/
theorem granted_writeCommit {ask : Ask} {granted remaining : Nat} {t : Stream} {batch : Batch}
    (credit : (granted : Int) ≤ s.streamFC.sendWindowAvailable)
    (committed : s.writeCommit ask granted remaining = some (t, batch)) :
    batch.granted =
      if granted < remaining ∧ granted > ask.chunkSize then granted - granted % ask.chunkSize
      else granted := by
  unfold writeCommit at committed
  split at committed
  · cases committed
  · dsimp only at committed
    rw [if_neg (Int.not_lt.mpr credit)] at committed
    split at committed
    · cases committed
    · cases committed
      rfl

/-- The ways `placeLocked` can go, with the chunk's known head cut off before it
is appended. -/
inductive Placed (offset : Nat) (data : List UInt8) : Stream × Nat → Prop
  | known (behind : (offset + data.length) % 2 ^ 64 ≤ s.recvOffset) : Placed offset data (s, 0)
  | held (ahead : s.recvOffset < offset) (present : offset ∈ s.recvOOO) : Placed offset data (s, 0)
  | excess (beyond : s.recvOffset < (offset + data.length) % 2 ^ 64)
    (ahead : s.recvOffset < offset) (absent : offset ∉ s.recvOOO)
    (over' : maxStreamRecvOOO < s.oooBytes + data.length) :
    Placed offset data ({ s with flowControlViolation := true }, 0)
  | early (beyond : s.recvOffset < (offset + data.length) % 2 ^ 64)
    (ahead : s.recvOffset < offset) (absent : offset ∉ s.recvOOO)
    (room : s.oooBytes + data.length ≤ maxStreamRecvOOO) :
    Placed offset data
      ({ s with
        recvOOO := s.recvOOO.insert offset data
        oooBytes := s.oooBytes + data.length }, data.length)
  | next (beyond : s.recvOffset < (offset + data.length) % 2 ^ 64)
    (begun : offset ≤ s.recvOffset) :
    Placed offset data
      (release s.recvOOO.entries.length { s with
        recvBuf := s.recvBuf ++ data.drop (s.recvOffset - offset)
        recvOffset := (offset + data.length) % 2 ^ 64 }, data.length - (s.recvOffset - offset))

theorem placed_placeLocked (offset : Nat) (data : List UInt8) :
    s.Placed offset data (s.placeLocked offset data) := by
  unfold placeLocked
  dsimp only
  split
  · exact .known ‹_›
  · rename_i beyond
    rw [Nat.not_le] at beyond
    by_cases behind : offset < s.recvOffset
    · simp only [behind, ↓reduceIte, gt_iff_lt, Nat.lt_irrefl, List.length_drop]
      exact .next beyond (Nat.le_of_lt behind)
    · simp only [behind, ↓reduceIte, gt_iff_lt]
      split
      · rename_i ahead
        split
        · exact .held ahead ‹_›
        · split
          · exact .excess beyond ahead ‹_› ‹_›
          · exact .early beyond ahead ‹_› (Int.not_lt.mp ‹_›)
      · have here : s.recvOffset - offset = 0 := by omega
        have appended : s.Placed offset data _ := .next beyond (by omega)
        rw [here, List.drop_zero, Nat.sub_zero] at appended
        exact appended

/-- The ways `read` can go. What it hands over is counted as consumed; the update
sent to the peer may raise the limit first. -/
inductive Reads (size : Nat) (expired : Bool) : Stream × ReadResult × List Frame → Prop
  | aborted (empty : s.recvBuf = []) (reset : s.state = .reset) :
    Reads size expired (s, .streamReset, [])
  | ended (empty : s.recvBuf = []) (live : s.state ≠ .reset)
    (over' : s.finReceived = true ∨ s.state = .closed) : Reads size expired (s, .eof, [])
  | waits (empty : s.recvBuf = []) (live : s.state ≠ .reset) (unfinished : s.finReceived = false)
    (open' : s.state ≠ .closed) :
    Reads size expired (s, if expired then .deadlineExceeded else .blocked, [])
  | takes (full : s.recvBuf ≠ []) (fc : StreamFlowController) (frames : List Frame)
    (books : fc = (s.streamFC.onDataConsumed (s.recvBuf.take size).length).1 ∨
      fc = (s.streamFC.onDataConsumed (s.recvBuf.take size).length).1.advertiseLimit.1) :
    Reads size expired
      ({ s with
        recvBuf := s.recvBuf.drop (s.recvBuf.take size).length
        bytesRead := s.bytesRead + (s.recvBuf.take size).length
        streamFC := fc }, .data (s.recvBuf.take size), frames)

theorem reads_read (size : Nat) (expired : Bool) : s.Reads size expired (s.read size expired) := by
  unfold read
  by_cases empty : s.recvBuf = []
  · simp only [List.length_eq_zero_iff, empty, ↓reduceIte]
    split
    · exact .aborted empty ‹_›
    · split
      · exact .ended empty ‹_› (.inl ‹_›)
      · split
        · exact .ended empty ‹_› (.inr ‹_›)
        · have waiting : s.Reads size expired _ :=
            .waits empty ‹_› (Bool.eq_false_iff.mpr ‹_›) ‹_›
          split at waiting
          · rw [if_pos ‹_›]
            exact waiting
          · rw [if_neg ‹_›]
            exact waiting
  · simp only [List.length_eq_zero_iff, empty, ↓reduceIte]
    split
    · exact .takes empty _ _ (.inr rfl)
    · exact .takes empty _ _ (.inl rfl)

/-- `s'` differs from `s` in the reassembly buffers only. -/
def SameButBuffers (s s' : Stream) : Prop :=
  ∃ recvBuf recvOOO recvOffset oooBytes violation,
    s' = { s with
      recvBuf := recvBuf, recvOOO := recvOOO, recvOffset := recvOffset, oooBytes := oooBytes
      flowControlViolation := violation }

theorem sameButBuffers_release (fuel : Nat) : SameButBuffers s (release fuel s) := by
  induction fuel generalizing s with
  | zero => exact ⟨_, _, _, _, _, rfl⟩
  | succ fuel ih =>
    rw [release]
    split
    · exact ⟨_, _, _, _, _, rfl⟩
    · obtain ⟨_, _, _, _, _, same⟩ := ih _
      exact ⟨_, _, _, _, _, same⟩

theorem sameButBuffers_placeLocked (offset : Nat) (data : List UInt8) :
    SameButBuffers s (s.placeLocked offset data).1 := by
  have placed := s.placed_placeLocked offset data
  generalize s.placeLocked offset data = out at placed ⊢
  cases placed with
  | known | held | excess | early => exact ⟨_, _, _, _, _, rfl⟩
  | next =>
    obtain ⟨_, _, _, _, _, same⟩ := sameButBuffers_release { s with
      recvBuf := s.recvBuf ++ data.drop (s.recvOffset - offset)
      recvOffset := (offset + data.length) % 2 ^ 64 } s.recvOOO.entries.length
    exact ⟨_, _, _, _, _, same⟩

/-- The stream's own ID and the peer's, which no operation changes. -/
def ids : UInt32 × UInt32 := (s.id, s.remoteID)

theorem ids_finishLocked : s.finishLocked.ids = s.ids := by
  unfold finishLocked
  split <;> rfl

theorem ids_reset (errorCode : UInt32) : (s.reset errorCode).1.ids = s.ids := by
  unfold reset
  split <;> rfl

theorem ids_deliverData (offset : Nat) (data : List UInt8) :
    (s.deliverData offset data).1.ids = s.ids := by
  obtain ⟨_, _, _, _, _, same⟩ := s.sameButBuffers_placeLocked offset data
  unfold deliverData
  dsimp only
  rw [same]
  split
  · exact ids_reset _ _
  · split
    · exact ids_finishLocked _
    · rfl

theorem ids_deliverFin (finalSize : Nat) : (s.deliverFin finalSize).ids = s.ids :=
  ids_finishLocked _

theorem ids_read (size : Nat) (expired : Bool) : (s.read size expired).1.ids = s.ids := by
  unfold read
  dsimp only
  repeat' split
  all_goals rfl

theorem state_read (size : Nat) (expired : Bool) : (s.read size expired).1.state = s.state := by
  unfold read
  dsimp only
  repeat' split
  all_goals rfl

theorem ids_close : s.close.1.ids = s.ids := by
  unfold close
  split <;> rfl

theorem ids_writeCommit {ask : Ask} {granted remaining : Nat} {out : Stream × Batch}
    (committed : s.writeCommit ask granted remaining = some out) : out.1.ids = s.ids := by
  simp only [writeCommit, Option.ite_none_left_eq_some, Option.some.injEq] at committed
  obtain ⟨-, -, rfl⟩ := committed
  rfl

theorem finishLocked_finSeen : s.finishLocked.finSeen = s.finSeen := by
  unfold finishLocked
  split <;> rfl

theorem finishLocked_finalSize : s.finishLocked.finalSize = s.finalSize := by
  unfold finishLocked
  split <;> rfl

theorem finishLocked_bytesWritten : s.finishLocked.bytesWritten = s.bytesWritten := by
  unfold finishLocked
  split <;> rfl

theorem deliverData_finSeen (offset : Nat) (data : List UInt8) :
    (s.deliverData offset data).1.finSeen = s.finSeen := by
  obtain ⟨_, _, _, _, _, same⟩ := s.sameButBuffers_placeLocked offset data
  unfold deliverData reset
  dsimp only
  rw [same]
  split
  · split <;> rfl
  · split
    · exact finishLocked_finSeen _
    · rfl

theorem finishLocked_unended {s : Stream} (unended : s.finSeen = false) : s.finishLocked = s := by
  simp [finishLocked, unended]

theorem deliverData_unended {s : Stream} {offset : Nat} {data : List UInt8}
    (unended : s.finSeen = false) :
    (s.deliverData offset data).1 =
      if (s.placeLocked offset data).1.flowControlViolation then
        ((s.placeLocked offset data).1.reset errorFlowControlError).1
      else
        { (s.placeLocked offset data).1 with
          streamFC := s.streamFC.onDataReceived (s.placeLocked offset data).2 } := by
  obtain ⟨buf, ooo, off, bytes, violation, same⟩ := s.sameButBuffers_placeLocked offset data
  unfold deliverData
  generalize s.placeLocked offset data = out at same ⊢
  obtain ⟨t, accepted⟩ := out
  dsimp only at same ⊢
  subst same
  dsimp only
  split
  · rfl
  · split
    · exact finishLocked_unended unended
    · have none : accepted = 0 := by omega
      rw [none]
      simp [StreamFlowController.onDataReceived]

theorem read_finSeen (size : Nat) (expired : Bool) :
    (s.read size expired).1.finSeen = s.finSeen := by
  unfold read
  dsimp only
  repeat' split
  all_goals rfl

end Stream

end Udx
