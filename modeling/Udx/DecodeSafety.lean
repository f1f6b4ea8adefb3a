import Udx.Lib.Faults
import Udx.Reencoding

set_option autoImplicit false

/- Whatever the bytes, the decoders look before they read. The reads of the model
fail with `outOfRange` where an index or slice expression of the source would
panic. -/

namespace Udx

open Faults (Free free_ok free_error free_guard)

structure VersionNegotiationPacket where
  destinationCID : ConnectionID
  sourceCID : ConnectionID
  supportedVersions : List UInt32
deriving DecidableEq

/-- What the decoder of version negotiation returns instead of a value. -/
inductive NegotiationError where
  | decode (cause : DecodeError)
  | versionNotZero
deriving DecidableEq

/-- The loop over the versions, as long as four bytes are left. -/
def unmarshalVersions (data : List UInt8) (offset : Nat) : Except DecodeError (List UInt32) :=
  if _inside : offset + 4 ≤ data.length then do
    let version ← uint32At data offset
    let rest ← unmarshalVersions data (offset + 4)
    return version :: rest
  else
    .ok []
termination_by data.length - offset

/-- What follows the version of a version negotiation packet. -/
def unmarshalNegotiated (data : List UInt8) : Except DecodeError VersionNegotiationPacket := do
  let dcidLen := (← byteAt data 4).toNat
  if dcidLen > maxCIDLength ∨ 5 + dcidLen > data.length then throw (.invalidCIDLength "")
  let dcid ← newConnectionID (← slice data 5 (5 + dcidLen))
  let offset := 5 + dcidLen
  if offset ≥ data.length then throw (.packetTooShort "version negotiation packet")
  let scidLen := (← byteAt data offset).toNat
  if scidLen > maxCIDLength ∨ offset + 1 + scidLen > data.length then
    throw (.invalidCIDLength "")
  let scid ← newConnectionID (← slice data (offset + 1) (offset + 1 + scidLen))
  let versions ← unmarshalVersions data (offset + 1 + scidLen)
  return ⟨dcid, scid, versions⟩

def unmarshalVersionNegotiation (data : List UInt8) :
    Except NegotiationError VersionNegotiationPacket := do
  if data.length < 6 then throw (.decode (.packetTooShort "version negotiation packet"))
  let version ← (uint32At data 0).mapError .decode
  if version ≠ 0 then throw .versionNotZero
  (unmarshalNegotiated data).mapError .decode

/-- The error is a run-time panic, on its own or inside another. -/
def DecodeError.panics : DecodeError → Bool
  | .outOfRange => true
  | .parsingFrame _ cause => cause.panics
  | .packetTooShort _ | .invalidCIDLength _ | .unknownFrameType _ => false

def NegotiationError.panics : NegotiationError → Bool
  | .decode cause => cause.panics
  | .versionNotZero => false

/-- The decoder does not panic. -/
def DecodeError.InRange {α : Type} (x : Except DecodeError α) : Prop :=
  Free (fun e => e.panics = true) x

variable {data : List UInt8} {offset : Nat}

theorem inRange_guard {α : Type} {c : Prop} [Decidable c] {e : DecodeError}
    {next : PUnit → Except DecodeError α} (fine : e.panics = false)
    (rest : ¬ c → DecodeError.InRange (next ⟨⟩)) :
    DecodeError.InRange (if c then throw e >>= next else next ⟨⟩) :=
  free_guard (fine ▸ Bool.false_ne_true) rest

theorem inRange_byteAt (inside : offset < data.length) :
    DecodeError.InRange (byteAt data offset) := by
  rw [byteAt, List.getElem?_eq_getElem inside]
  exact free_ok _

theorem inRange_slice {lo hi : Nat} (ordered : lo ≤ hi) (inside : hi ≤ data.length) :
    DecodeError.InRange (slice data lo hi) := by
  rw [slice, if_pos ⟨ordered, inside⟩]
  exact free_ok _

theorem inRange_uintAt {width : Nat} (inside : offset + width ≤ data.length) :
    DecodeError.InRange (uintAt data offset width) :=
  (inRange_slice (Nat.le_add_right _ _) inside).bind fun _ _ => free_ok _

theorem inRange_uint16At (inside : offset + 2 ≤ data.length) :
    DecodeError.InRange (uint16At data offset) :=
  (inRange_uintAt inside).bind fun _ _ => free_ok _

theorem inRange_uint32At (inside : offset + 4 ≤ data.length) :
    DecodeError.InRange (uint32At data offset) :=
  (inRange_uintAt inside).bind fun _ _ => free_ok _

theorem inRange_uint64At (inside : offset + 8 ≤ data.length) :
    DecodeError.InRange (uint64At data offset) :=
  (inRange_uintAt inside).bind fun _ _ => free_ok _

theorem inRange_newConnectionID (b : List UInt8) : DecodeError.InRange (newConnectionID b) := by
  unfold newConnectionID
  split
  · exact free_ok _
  · exact free_error Bool.false_ne_true

theorem inRange_readAckRanges {count : Nat} (inside : offset + count * 5 ≤ data.length) :
    DecodeError.InRange (readAckRanges data count offset) := by
  induction count generalizing offset with
  | zero => exact free_ok _
  | succ count ih =>
    refine (inRange_byteAt (by omega)).bind fun gap _ => ?_
    refine (inRange_uint32At (by omega)).bind fun length _ => ?_
    exact (ih (by omega)).bind fun rest _ => free_ok _

theorem inRange_unmarshalAckFrame : DecodeError.InRange (unmarshalAckFrame data offset) := by
  unfold unmarshalAckFrame
  refine inRange_guard rfl fun header => ?_
  refine (inRange_uint32At (by omega)).bind fun largest _ => ?_
  refine (inRange_uint16At (by omega)).bind fun delay _ => ?_
  refine (inRange_byteAt (by omega)).bind fun rangeCount _ => ?_
  refine (inRange_uint32At (by omega)).bind fun firstRange _ => ?_
  refine inRange_guard rfl fun ranges => ?_
  exact (inRange_readAckRanges (by omega)).bind fun _ _ => free_ok _

theorem inRange_unmarshalStreamFrame : DecodeError.InRange (unmarshalStreamFrame data offset) := by
  unfold unmarshalStreamFrame
  refine inRange_guard rfl fun header => ?_
  rw [streamFrameHeaderLen] at header
  refine (inRange_byteAt (by omega)).bind fun flags _ => ?_
  refine (inRange_uint64At (by omega)).bind fun streamOffset _ => ?_
  refine (inRange_uint16At (by omega)).bind fun dataLen _ => ?_
  refine inRange_guard rfl fun payload => ?_
  exact (inRange_slice (by omega) (by omega)).bind fun _ _ => free_ok _

theorem inRange_unmarshalUint32Frame (what : String) (frame : UInt32 → Frame) :
    DecodeError.InRange (unmarshalUint32Frame what frame data offset) := by
  unfold unmarshalUint32Frame
  refine inRange_guard rfl fun whole => ?_
  exact (inRange_uint32At (by omega)).bind fun _ _ => free_ok _

theorem inRange_unmarshalUint64Frame (what : String) (frame : UInt64 → Frame) :
    DecodeError.InRange (unmarshalUint64Frame what frame data offset) := by
  unfold unmarshalUint64Frame
  refine inRange_guard rfl fun whole => ?_
  exact (inRange_uint64At (by omega)).bind fun _ _ => free_ok _

theorem inRange_unmarshalPathFrame (what : String) (frame : Vector UInt8 8 → Frame) :
    DecodeError.InRange (unmarshalPathFrame what frame data offset) := by
  unfold unmarshalPathFrame
  refine inRange_guard rfl fun whole => ?_
  exact (inRange_slice (by omega) (by omega)).bind fun _ _ => free_ok _

theorem inRange_unmarshalMTUProbeFrame : DecodeError.InRange (unmarshalMTUProbeFrame data offset) := by
  unfold unmarshalMTUProbeFrame
  exact inRange_guard rfl fun _ => free_ok _

theorem inRange_unmarshalConnectionCloseFrame :
    DecodeError.InRange (unmarshalConnectionCloseFrame data offset) := by
  unfold unmarshalConnectionCloseFrame
  refine inRange_guard rfl fun header => ?_
  refine (inRange_uint32At (by omega)).bind fun errCode _ => ?_
  refine (inRange_uint32At (by omega)).bind fun frameType _ => ?_
  refine (inRange_uint16At (by omega)).bind fun reasonLen _ => ?_
  refine inRange_guard rfl fun reason => ?_
  exact (inRange_slice (by omega) (by omega)).bind fun _ _ => free_ok _

theorem inRange_unmarshalStopSendingFrame : DecodeError.InRange (unmarshalStopSendingFrame data offset) := by
  unfold unmarshalStopSendingFrame
  refine inRange_guard rfl fun whole => ?_
  refine (inRange_uint32At (by omega)).bind fun streamID _ => ?_
  exact (inRange_uint32At (by omega)).bind fun _ _ => free_ok _

theorem inRange_unmarshalStreamDataBlockedFrame :
    DecodeError.InRange (unmarshalStreamDataBlockedFrame data offset) := by
  unfold unmarshalStreamDataBlockedFrame
  refine inRange_guard rfl fun whole => ?_
  refine (inRange_uint32At (by omega)).bind fun streamID _ => ?_
  exact (inRange_uint64At (by omega)).bind fun _ _ => free_ok _

theorem inRange_unmarshalNewConnectionIDFrame :
    DecodeError.InRange (unmarshalNewConnectionIDFrame data offset) := by
  unfold unmarshalNewConnectionIDFrame
  refine inRange_guard rfl fun header => ?_
  refine (inRange_uint64At (by omega)).bind fun seq _ => ?_
  refine (inRange_uint64At (by omega)).bind fun retire _ => ?_
  refine (inRange_byteAt (by omega)).bind fun cidLen _ => ?_
  refine inRange_guard rfl fun cidAndToken => ?_
  refine (inRange_slice (by omega) (by omega)).bind fun bytes _ => ?_
  refine (inRange_newConnectionID bytes).bind fun cid _ => ?_
  exact (inRange_slice (by omega) (by omega)).bind fun _ _ => free_ok _

theorem inRange_unmarshalFrame : DecodeError.InRange (unmarshalFrame data offset) := by
  unfold unmarshalFrame
  refine inRange_guard rfl fun inside => ?_
  refine (inRange_byteAt (by omega)).bind fun ft _ => ?_
  split
  case h_1 | h_2 => exact free_ok _
  case h_3 => exact inRange_unmarshalAckFrame
  case h_4 => exact inRange_unmarshalStreamFrame
  case h_5 | h_7 | h_8 => exact inRange_unmarshalUint32Frame _ _
  case h_6 | h_14 | h_17 => exact inRange_unmarshalUint64Frame _ _
  case h_9 => exact inRange_unmarshalMTUProbeFrame
  case h_10 | h_11 => exact inRange_unmarshalPathFrame _ _
  case h_12 => exact inRange_unmarshalConnectionCloseFrame
  case h_13 => exact inRange_unmarshalStopSendingFrame
  case h_15 => exact inRange_unmarshalStreamDataBlockedFrame
  case h_16 => exact inRange_unmarshalNewConnectionIDFrame
  case h_18 => exact free_error Bool.false_ne_true

theorem inRange_unmarshalFrames : DecodeError.InRange (unmarshalFrames data offset) := by
  -- The recursion of the loop: each round starts further on.
  induction offset using unmarshalFrames.induct data with
  | case1 offset inside e failed =>
    rw [unmarshalFrames, dif_pos inside]
    split
    · rename_i e' failed'
      exact free_error (inRange_unmarshalFrame e' failed')
    · rename_i frame consumed parsed
      rw [failed] at parsed
      cases parsed
  | case2 offset inside frame consumed parsed progress ih =>
    rw [unmarshalFrames, dif_pos inside]
    split
    · rename_i e failed
      rw [parsed] at failed
      cases failed
    · rename_i frame' consumed' parsed'
      rw [parsed] at parsed'
      cases parsed'
      exact ih.bind fun rest _ => free_ok _
  | case3 offset outside =>
    rw [unmarshalFrames, dif_neg outside]
    exact free_ok _

theorem inRange_unmarshalPacket : DecodeError.InRange (unmarshalPacket data) := by
  unfold unmarshalPacket
  refine inRange_guard rfl fun header => ?_
  rw [minHeaderLen] at header
  refine (inRange_uint32At (by omega)).bind fun version _ => ?_
  refine (inRange_byteAt (by omega)).bind fun dcidLen _ => ?_
  refine inRange_guard rfl fun _ => ?_
  refine inRange_guard rfl fun dcid => ?_
  refine (inRange_slice (by omega) (by omega)).bind fun dcidBytes _ => ?_
  refine (inRange_newConnectionID dcidBytes).bind fun dcid _ => ?_
  refine inRange_guard rfl fun scidLength => ?_
  refine (inRange_byteAt (by omega)).bind fun scidLen _ => ?_
  refine inRange_guard rfl fun _ => ?_
  refine inRange_guard rfl fun scid => ?_
  refine (inRange_slice (by omega) (by omega)).bind fun scidBytes _ => ?_
  refine (inRange_newConnectionID scidBytes).bind fun scid _ => ?_
  refine inRange_guard rfl fun ids => ?_
  refine (inRange_uint32At (by omega)).bind fun seq _ => ?_
  refine (inRange_uint32At (by omega)).bind fun dst _ => ?_
  refine (inRange_uint32At (by omega)).bind fun src _ => ?_
  exact inRange_unmarshalFrames.bind fun frames _ => free_ok _

theorem inRange_unmarshalVersions : DecodeError.InRange (unmarshalVersions data offset) := by
  induction offset using unmarshalVersions.induct data with
  | case1 offset inside ih =>
    rw [unmarshalVersions, dif_pos inside]
    refine (inRange_uint32At inside).bind fun version _ => ?_
    exact ih.bind fun rest _ => free_ok _
  | case2 offset outside =>
    rw [unmarshalVersions, dif_neg outside]
    exact free_ok _

theorem inRange_unmarshalNegotiated (long : 6 ≤ data.length) :
    DecodeError.InRange (unmarshalNegotiated data) := by
  unfold unmarshalNegotiated
  refine (inRange_byteAt (by omega)).bind fun dcidLen _ => ?_
  refine inRange_guard rfl fun dcid => ?_
  refine (inRange_slice (by omega) (by omega)).bind fun dcidBytes _ => ?_
  refine (inRange_newConnectionID dcidBytes).bind fun dcid _ => ?_
  refine inRange_guard rfl fun scidLength => ?_
  refine (inRange_byteAt (by omega)).bind fun scidLen _ => ?_
  refine inRange_guard rfl fun scid => ?_
  refine (inRange_slice (by omega) (by omega)).bind fun scidBytes _ => ?_
  refine (inRange_newConnectionID scidBytes).bind fun scid _ => ?_
  exact inRange_unmarshalVersions.bind fun versions _ => free_ok _

theorem free_unmarshalVersionNegotiation :
    Free (fun e => e.panics = true) (unmarshalVersionNegotiation data) := by
  unfold unmarshalVersionNegotiation
  refine free_guard Bool.false_ne_true fun header => ?_
  refine ((inRange_uint32At (by omega)).mapError fun _ broken => broken).bind fun version _ => ?_
  refine free_guard Bool.false_ne_true fun _ => ?_
  exact (inRange_unmarshalNegotiated (by omega)).mapError fun _ broken => broken

/-- The frames are those decoded one after the other from `offset` to the end,
each at least a byte long and none past the end. -/
def Frame.Tiled (data : List UInt8) : Nat → List Frame → Prop
  | offset, [] => offset = data.length
  | offset, f :: rest => ∃ n, unmarshalFrame data offset = .ok (f, n) ∧ 0 < n ∧
    offset + n ≤ data.length ∧ Frame.Tiled data (offset + n) rest

theorem tiled_unmarshalFrames {frames : List Frame} (within : offset ≤ data.length)
    (accepted : unmarshalFrames data offset = .ok frames) : Frame.Tiled data offset frames := by
  induction frames generalizing offset with
  | nil =>
    rw [unmarshalFrames] at accepted
    split at accepted
    · split at accepted
      · cases accepted
      · obtain ⟨rest, -, result⟩ := bind_eq_ok.mp accepted
        cases result
    · rename_i outside
      exact Nat.le_antisymm within (Nat.le_of_not_lt outside)
  | cons f rest ih =>
    rw [unmarshalFrames] at accepted
    split at accepted
    · split at accepted
      · cases accepted
      · rename_i frame consumed parsed
        obtain ⟨frames, loop, result⟩ := bind_eq_ok.mp accepted
        cases result
        have progress := unmarshalFrame_consumes data offset f consumed parsed
        exact ⟨consumed, parsed, progress.1, progress.2, ih progress.2 loop⟩
    · cases accepted

/-- No byte string makes a decoder panic, every accepted frame takes at least a
byte and none past the end, and the frames of an accepted packet tile what
follows its header. -/
theorem decoders_stay_in_range (data : List UInt8) :
    (∀ e, unmarshalPacket data = .error e → e.panics = false) ∧
      (∀ offset e, unmarshalFrame data offset = .error e → e.panics = false) ∧
      (∀ e, unmarshalVersionNegotiation data = .error e → e.panics = false) ∧
      (∀ offset frame n, unmarshalFrame data offset = .ok (frame, n) →
        0 < n ∧ offset + n ≤ data.length) ∧
      ∀ p, unmarshalPacket data = .ok p → Frame.Tiled data p.headerLen p.frames := by
  refine ⟨fun e failed => ?_, fun offset e failed => ?_, fun e failed => ?_, fun offset => ?_,
    fun p accepted => ?_⟩
  · exact Bool.eq_false_of_not_eq_true (inRange_unmarshalPacket e failed)
  · exact Bool.eq_false_of_not_eq_true (inRange_unmarshalFrame e failed)
  · exact Bool.eq_false_of_not_eq_true (free_unmarshalVersionNegotiation e failed)
  · exact unmarshalFrame_consumes data offset
  · obtain ⟨-, -, -, -, frames, within, -⟩ := unmarshalPacket_accepted accepted
    exact tiled_unmarshalFrames within frames

end Udx
