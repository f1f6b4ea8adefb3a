import Udx.Lib.Bytes
import Udx.Constants

set_option autoImplicit false

namespace Udx

/-- What a decoder returns instead of a value. `outOfRange` is not an error of
the source: it is the run-time panic of an index or slice expression outside
its operand. -/
inductive DecodeError where
  | packetTooShort (detail : String)
  | invalidCIDLength (detail : String)
  | unknownFrameType (ft : UInt8)
  | parsingFrame (offset : Nat) (cause : DecodeError)
  | outOfRange
deriving DecidableEq, Repr

/-- A connection identifier. The source keeps twenty bytes and a length; the
bytes past the length are zero in every value its constructors build, so the
live bytes are the value. -/
structure ConnectionID where
  bytes : List UInt8
  bounded : bytes.length ≤ maxCIDLength
deriving DecidableEq

def newConnectionID (b : List UInt8) : Except DecodeError ConnectionID :=
  if bounded : b.length ≤ maxCIDLength then .ok ⟨b, bounded⟩
  else .error (.invalidCIDLength s!"got {b.length}, want {minCIDLength}-{maxCIDLength}")

def ConnectionID.len (cid : ConnectionID) : Nat := cid.bytes.length

structure AckRange where
  gap : UInt8
  ackRangeLength : UInt32
deriving DecidableEq, Repr

structure AckFrame where
  largestAcked : UInt32
  ackDelay : UInt16
  firstAckRangeLength : UInt32
  ackRanges : List AckRange
deriving DecidableEq, Repr

structure StreamFrame where
  isFin : Bool
  isSyn : Bool
  offset : UInt64
  data : List UInt8
deriving DecidableEq, Repr

structure ConnectionCloseFrame where
  errorCode : UInt32
  frameTypeVal : UInt32
  reasonPhrase : List UInt8
deriving DecidableEq, Repr

structure NewConnectionIDFrame where
  sequenceNumber : UInt64
  retirePriorTo : UInt64
  connectionID : ConnectionID
  resetToken : Vector UInt8 16
deriving DecidableEq

inductive Frame where
  | padding
  | ping
  | ack (f : AckFrame)
  | stream (f : StreamFrame)
  | windowUpdate (windowSize : UInt32)
  | maxData (limit : UInt64)
  | resetStream (errorCode : UInt32)
  | maxStreams (maxStreamCount : UInt32)
  | mtuProbe (probeSize : Int)
  | pathChallenge (data : Vector UInt8 8)
  | pathResponse (data : Vector UInt8 8)
  | connectionClose (f : ConnectionCloseFrame)
  | stopSending (streamID errorCode : UInt32)
  | dataBlocked (limit : UInt64)
  | streamDataBlocked (streamID : UInt32) (maxStreamData : UInt64)
  | newConnectionID (f : NewConnectionIDFrame)
  | retireConnectionID (sequenceNumber : UInt64)
deriving DecidableEq

/-- The type byte. 0x0c is unused. -/
def Frame.type : Frame → UInt8
  | .padding => 0x00
  | .ping => 0x01
  | .ack _ => 0x02
  | .stream _ => 0x03
  | .windowUpdate _ => 0x04
  | .maxData _ => 0x05
  | .resetStream _ => 0x06
  | .maxStreams _ => 0x07
  | .mtuProbe _ => 0x08
  | .pathChallenge _ => 0x09
  | .pathResponse _ => 0x0a
  | .connectionClose _ => 0x0b
  | .stopSending _ _ => 0x0d
  | .dataBlocked _ => 0x0e
  | .streamDataBlocked _ _ => 0x0f
  | .newConnectionID _ => 0x10
  | .retireConnectionID _ => 0x11

def streamFrameHeaderLen : Nat := 12

def Frame.len : Frame → Nat
  | .padding | .ping => 1
  | .ack f => 1 + 4 + 2 + 1 + 4 + f.ackRanges.length * 5
  | .stream f => streamFrameHeaderLen + f.data.length
  | .windowUpdate _ | .resetStream _ | .maxStreams _ => 5
  | .maxData _ | .dataBlocked _ | .retireConnectionID _ => 9
  | .mtuProbe probeSize => if probeSize < 1 then 1 else probeSize.toNat
  | .pathChallenge _ | .pathResponse _ => 9
  | .connectionClose f => 1 + 4 + 4 + 2 + f.reasonPhrase.length
  | .stopSending _ _ => 9
  | .streamDataBlocked _ _ => 13
  | .newConnectionID f => 1 + 8 + 8 + 1 + f.connectionID.len + statelessResetTokenLength

def streamFlagFIN : UInt8 := 0x01
def streamFlagSYN : UInt8 := 0x02

def StreamFrame.flags (f : StreamFrame) : UInt8 :=
  (if f.isFin then streamFlagFIN else 0) ||| (if f.isSyn then streamFlagSYN else 0)

def putUint16 (v : UInt16) : List UInt8 := Bytes.bigEndian 2 v.toNat
def putUint32 (v : UInt32) : List UInt8 := Bytes.bigEndian 4 v.toNat
def putUint64 (v : UInt64) : List UInt8 := Bytes.bigEndian 8 v.toNat

/-- The loop over the additional ranges, five bytes each from `offset`. -/
def ackRangeWrites : Nat → List AckRange → List Bytes.Write
  | _, [] => []
  | offset, r :: rest =>
    (offset, [r.gap]) :: (offset + 1, putUint32 r.ackRangeLength) ::
      ackRangeWrites (offset + 5) rest

/-- The assignments `Marshal` makes into its buffer, in order. -/
def Frame.writes : Frame → List Bytes.Write
  | .padding => [(0, [0x00])]
  | .ping => [(0, [0x01])]
  | .ack f =>
    [(0, [0x02]), (1, putUint32 f.largestAcked), (5, putUint16 f.ackDelay),
      (7, [UInt8.ofNat f.ackRanges.length]), (8, putUint32 f.firstAckRangeLength)] ++
      ackRangeWrites 12 f.ackRanges
  | .stream f =>
    [(0, [0x03]), (1, [f.flags]), (2, putUint64 f.offset),
      (10, putUint16 (UInt16.ofNat f.data.length)), (streamFrameHeaderLen, f.data)]
  | .windowUpdate windowSize => [(0, [0x04]), (1, putUint32 windowSize)]
  | .maxData limit => [(0, [0x05]), (1, putUint64 limit)]
  | .resetStream errorCode => [(0, [0x06]), (1, putUint32 errorCode)]
  | .maxStreams count => [(0, [0x07]), (1, putUint32 count)]
  | .mtuProbe _ => [(0, [0x08])]
  | .pathChallenge data => [(0, [0x09]), (1, data.toList)]
  | .pathResponse data => [(0, [0x0a]), (1, data.toList)]
  | .connectionClose f =>
    [(0, [0x0b]), (1, putUint32 f.errorCode), (5, putUint32 f.frameTypeVal),
      (9, putUint16 (UInt16.ofNat f.reasonPhrase.length)), (11, f.reasonPhrase)]
  | .stopSending streamID errorCode =>
    [(0, [0x0d]), (1, putUint32 streamID), (5, putUint32 errorCode)]
  | .dataBlocked limit => [(0, [0x0e]), (1, putUint64 limit)]
  | .streamDataBlocked streamID maxStreamData =>
    [(0, [0x0f]), (1, putUint32 streamID), (5, putUint64 maxStreamData)]
  | .newConnectionID f =>
    [(0, [0x10]), (1, putUint64 f.sequenceNumber), (9, putUint64 f.retirePriorTo),
      (17, [UInt8.ofNat f.connectionID.len]), (18, f.connectionID.bytes),
      (18 + f.connectionID.len, f.resetToken.toList)]
  | .retireConnectionID sequenceNumber => [(0, [0x11]), (1, putUint64 sequenceNumber)]

def Frame.marshal (f : Frame) : List UInt8 := Bytes.fill f.len f.writes

/- Positional reads. Each fails where the Go expression would panic. -/

def byteAt (data : List UInt8) (i : Nat) : Except DecodeError UInt8 :=
  match data[i]? with
  | some b => .ok b
  | none => .error .outOfRange

def slice (data : List UInt8) (lo hi : Nat) : Except DecodeError (List UInt8) :=
  if lo ≤ hi ∧ hi ≤ data.length then .ok ((data.drop lo).take (hi - lo))
  else .error .outOfRange

/-- `binary.BigEndian` on the `width` bytes from `offset`. -/
def uintAt (data : List UInt8) (offset width : Nat) : Except DecodeError Nat := do
  let bs ← slice data offset (offset + width)
  return Bytes.toNat bs

def uint16At (data : List UInt8) (offset : Nat) : Except DecodeError UInt16 := do
  return UInt16.ofNat (← uintAt data offset 2)

def uint32At (data : List UInt8) (offset : Nat) : Except DecodeError UInt32 := do
  return UInt32.ofNat (← uintAt data offset 4)

def uint64At (data : List UInt8) (offset : Nat) : Except DecodeError UInt64 := do
  return UInt64.ofNat (← uintAt data offset 8)

/-- `copy` into a zeroed array of `n` bytes. -/
def copyArray (n : Nat) (bs : List UInt8) : Vector UInt8 n :=
  Vector.ofFn fun i => bs.getD i 0

def readAckRanges (data : List UInt8) : Nat → Nat → Except DecodeError (List AckRange)
  | 0, _ => .ok []
  | count + 1, offset => do
    let gap ← byteAt data offset
    let ackRangeLength ← uint32At data (offset + 1)
    let rest ← readAckRanges data count (offset + 5)
    return ⟨gap, ackRangeLength⟩ :: rest

def unmarshalAckFrame (data : List UInt8) (offset : Nat) : Except DecodeError (Frame × Nat) := do
  if offset + 12 > data.length then throw (.packetTooShort "ACK frame")
  let largest ← uint32At data (offset + 1)
  let delay ← uint16At data (offset + 5)
  let rangeCount ← byteAt data (offset + 7)
  let firstRange ← uint32At data (offset + 8)
  if offset + 12 + rangeCount.toNat * 5 > data.length then
    throw (.packetTooShort "ACK frame ranges")
  let ranges ← readAckRanges data rangeCount.toNat (offset + 12)
  return (.ack ⟨largest, delay, firstRange, ranges⟩, 12 + rangeCount.toNat * 5)

def unmarshalStreamFrame (data : List UInt8) (offset : Nat) :
    Except DecodeError (Frame × Nat) := do
  if offset + streamFrameHeaderLen > data.length then
    throw (.packetTooShort "STREAM frame header")
  let flags ← byteAt data (offset + 1)
  let streamOffset ← uint64At data (offset + 2)
  let dataLen := (← uint16At data (offset + 10)).toNat
  if offset + streamFrameHeaderLen + dataLen > data.length then
    throw (.packetTooShort "STREAM frame data")
  let payload ← slice data (offset + streamFrameHeaderLen)
    (offset + streamFrameHeaderLen + dataLen)
  return (.stream {
    isFin := flags &&& streamFlagFIN != 0
    isSyn := flags &&& streamFlagSYN != 0
    offset := streamOffset
    data := payload }, streamFrameHeaderLen + dataLen)

/-- The parsers of the frames that are a type byte and one 32-bit field. -/
def unmarshalUint32Frame (what : String) (frame : UInt32 → Frame)
    (data : List UInt8) (offset : Nat) : Except DecodeError (Frame × Nat) := do
  if offset + 5 > data.length then throw (.packetTooShort what)
  return (frame (← uint32At data (offset + 1)), 5)

/-- The parsers of the frames that are a type byte and one 64-bit field. -/
def unmarshalUint64Frame (what : String) (frame : UInt64 → Frame)
    (data : List UInt8) (offset : Nat) : Except DecodeError (Frame × Nat) := do
  if offset + 9 > data.length then throw (.packetTooShort what)
  return (frame (← uint64At data (offset + 1)), 9)

/-- The parsers of the frames that are a type byte and eight bytes of data. -/
def unmarshalPathFrame (what : String) (frame : Vector UInt8 8 → Frame)
    (data : List UInt8) (offset : Nat) : Except DecodeError (Frame × Nat) := do
  if offset + 9 > data.length then throw (.packetTooShort what)
  return (frame (copyArray 8 (← slice data (offset + 1) (offset + 9))), 9)

def unmarshalWindowUpdateFrame := unmarshalUint32Frame "WINDOW_UPDATE frame" .windowUpdate
def unmarshalResetStreamFrame := unmarshalUint32Frame "RESET_STREAM frame" .resetStream
def unmarshalMaxStreamsFrame := unmarshalUint32Frame "MAX_STREAMS frame" .maxStreams
def unmarshalMaxDataFrame := unmarshalUint64Frame "MAX_DATA frame" .maxData
def unmarshalDataBlockedFrame := unmarshalUint64Frame "DATA_BLOCKED frame" .dataBlocked
def unmarshalRetireConnectionIDFrame :=
  unmarshalUint64Frame "RETIRE_CONNECTION_ID frame" .retireConnectionID
def unmarshalPathChallengeFrame := unmarshalPathFrame "PATH_CHALLENGE frame" .pathChallenge
def unmarshalPathResponseFrame := unmarshalPathFrame "PATH_RESPONSE frame" .pathResponse

/-- A path-MTU probe takes the rest of the packet, whatever it holds. -/
def unmarshalMTUProbeFrame (data : List UInt8) (offset : Nat) :
    Except DecodeError (Frame × Nat) := do
  let remaining : Int := data.length - offset
  if remaining < 1 then throw (.packetTooShort "MTU_PROBE frame")
  return (.mtuProbe remaining, remaining.toNat)

def unmarshalConnectionCloseFrame (data : List UInt8) (offset : Nat) :
    Except DecodeError (Frame × Nat) := do
  if offset + 11 > data.length then throw (.packetTooShort "CONNECTION_CLOSE frame header")
  let errCode ← uint32At data (offset + 1)
  let frameType ← uint32At data (offset + 5)
  let reasonLen := (← uint16At data (offset + 9)).toNat
  let total := 11 + reasonLen
  if offset + total > data.length then throw (.packetTooShort "CONNECTION_CLOSE frame reason")
  let reason ← slice data (offset + 11) (offset + 11 + reasonLen)
  return (.connectionClose ⟨errCode, frameType, reason⟩, total)

def unmarshalStopSendingFrame (data : List UInt8) (offset : Nat) :
    Except DecodeError (Frame × Nat) := do
  if offset + 9 > data.length then throw (.packetTooShort "STOP_SENDING frame")
  return (.stopSending (← uint32At data (offset + 1)) (← uint32At data (offset + 5)), 9)

def unmarshalStreamDataBlockedFrame (data : List UInt8) (offset : Nat) :
    Except DecodeError (Frame × Nat) := do
  if offset + 13 > data.length then throw (.packetTooShort "STREAM_DATA_BLOCKED frame")
  return (.streamDataBlocked (← uint32At data (offset + 1)) (← uint64At data (offset + 5)), 13)

def unmarshalNewConnectionIDFrame (data : List UInt8) (offset : Nat) :
    Except DecodeError (Frame × Nat) := do
  if offset + 18 > data.length then throw (.packetTooShort "NEW_CONNECTION_ID frame header")
  let seq ← uint64At data (offset + 1)
  let retire ← uint64At data (offset + 9)
  let cidLen := (← byteAt data (offset + 17)).toNat
  if cidLen > maxCIDLength ∨ offset + 18 + cidLen + statelessResetTokenLength > data.length then
    throw (.packetTooShort "NEW_CONNECTION_ID frame CID/token")
  let cid ← newConnectionID (← slice data (offset + 18) (offset + 18 + cidLen))
  let token ← slice data (offset + 18 + cidLen) (offset + 18 + cidLen + statelessResetTokenLength)
  return (.newConnectionID ⟨seq, retire, cid, copyArray 16 token⟩,
    18 + cidLen + statelessResetTokenLength)

/-- One frame from `offset`, with the number of bytes it takes. -/
def unmarshalFrame (data : List UInt8) (offset : Nat) : Except DecodeError (Frame × Nat) := do
  if offset ≥ data.length then throw (.packetTooShort "no data for frame")
  let ft ← byteAt data offset
  match ft.toNat with
  | 0x00 => return (.padding, 1)
  | 0x01 => return (.ping, 1)
  | 0x02 => unmarshalAckFrame data offset
  | 0x03 => unmarshalStreamFrame data offset
  | 0x04 => unmarshalWindowUpdateFrame data offset
  | 0x05 => unmarshalMaxDataFrame data offset
  | 0x06 => unmarshalResetStreamFrame data offset
  | 0x07 => unmarshalMaxStreamsFrame data offset
  | 0x08 => unmarshalMTUProbeFrame data offset
  | 0x09 => unmarshalPathChallengeFrame data offset
  | 0x0a => unmarshalPathResponseFrame data offset
  | 0x0b => unmarshalConnectionCloseFrame data offset
  | 0x0d => unmarshalStopSendingFrame data offset
  | 0x0e => unmarshalDataBlockedFrame data offset
  | 0x0f => unmarshalStreamDataBlockedFrame data offset
  | 0x10 => unmarshalNewConnectionIDFrame data offset
  | 0x11 => unmarshalRetireConnectionIDFrame data offset
  | _ => throw (.unknownFrameType ft)

end Udx
