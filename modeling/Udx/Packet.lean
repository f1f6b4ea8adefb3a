import Udx.FrameCodec

set_option autoImplicit false

namespace Udx

open Bytes (Tiles drop_field drop_byte)

/-- A packet: header and frames. `wireLen` is the size of the datagram it was
decoded from, zero for one built in process; it is not serialized. -/
structure Packet where
  version : UInt32
  destinationCID : ConnectionID
  sourceCID : ConnectionID
  sequence : UInt32
  destinationStreamID : UInt32
  sourceStreamID : UInt32
  frames : List Frame
  wireLen : Nat := 0
deriving DecidableEq

def minHeaderLen : Nat := 18

def Packet.headerLen (p : Packet) : Nat :=
  4 + 1 + p.destinationCID.len + 1 + p.sourceCID.len + 4 + 4 + 4

def Packet.framesLen (p : Packet) : Nat := (p.frames.map Frame.len).sum

/-- The loop that appends the encoded frames from `offset`. -/
def frameWrites : Nat → List Frame → List Bytes.Write
  | _, [] => []
  | offset, f :: rest => (offset, f.marshal) :: frameWrites (offset + f.marshal.length) rest

/-- The assignments `MarshalPacket` makes into its buffer, in order. -/
def Packet.writes (p : Packet) : List Bytes.Write :=
  let dcid := 5
  let scid := dcid + p.destinationCID.len + 1
  let seq := scid + p.sourceCID.len
  [(0, putUint32 p.version),
    (4, [UInt8.ofNat p.destinationCID.len]), (dcid, p.destinationCID.bytes),
    (dcid + p.destinationCID.len, [UInt8.ofNat p.sourceCID.len]), (scid, p.sourceCID.bytes),
    (seq, putUint32 p.sequence), (seq + 4, putUint32 p.destinationStreamID),
    (seq + 8, putUint32 p.sourceStreamID)] ++
    frameWrites (seq + 12) p.frames

def marshalPacket (p : Packet) : List UInt8 :=
  Bytes.fill (p.headerLen + p.framesLen) p.writes

/-- The frame loop. It ends because every accepted frame takes at least a
byte. -/
def unmarshalFrames (data : List UInt8) (offset : Nat) : Except DecodeError (List Frame) :=
  if _inside : offset < data.length then
    match parsed : unmarshalFrame data offset with
    | .error e => .error (.parsingFrame offset e)
    | .ok (frame, consumed) => do
      have _progress := unmarshalFrame_consumes data offset frame consumed parsed
      let rest ← unmarshalFrames data (offset + consumed)
      return frame :: rest
  else
    .ok []
termination_by data.length - offset

def unmarshalPacket (data : List UInt8) : Except DecodeError Packet := do
  if data.length < minHeaderLen then
    throw (.packetTooShort s!"need at least {minHeaderLen} bytes, got {data.length}")
  let version ← uint32At data 0
  let dcidLen := (← byteAt data 4).toNat
  if dcidLen < minCIDLength ∨ dcidLen > maxCIDLength then
    throw (.invalidCIDLength s!"destination CID length {dcidLen}")
  if 5 + dcidLen > data.length then throw (.packetTooShort "destination CID data")
  let dcid ← newConnectionID (← slice data 5 (5 + dcidLen))
  let offset := 5 + dcidLen
  if offset ≥ data.length then throw (.packetTooShort "source CID length")
  let scidLen := (← byteAt data offset).toNat
  if scidLen < minCIDLength ∨ scidLen > maxCIDLength then
    throw (.invalidCIDLength s!"source CID length {scidLen}")
  if offset + 1 + scidLen > data.length then throw (.packetTooShort "source CID data")
  let scid ← newConnectionID (← slice data (offset + 1) (offset + 1 + scidLen))
  let offset := offset + 1 + scidLen
  if offset + 12 > data.length then throw (.packetTooShort "sequence and stream IDs")
  let seq ← uint32At data offset
  let dstStreamID ← uint32At data (offset + 4)
  let srcStreamID ← uint32At data (offset + 8)
  let frames ← unmarshalFrames data (offset + 12)
  return {
    version := version
    destinationCID := dcid
    sourceCID := scid
    sequence := seq
    destinationStreamID := dstStreamID
    sourceStreamID := srcStreamID
    frames := frames
    wireLen := data.length }

/-- Frames the format can carry in this order: each in range, and a path-MTU
probe only at the end. -/
structure Packet.Encodable (p : Packet) : Prop where
  frames : ∀ f ∈ p.frames, f.Encodable
  probeLast : ∀ f ∈ p.frames.dropLast, ∀ n, f ≠ .mtuProbe n

theorem frameWrites_bytes (offset : Nat) (frames : List Frame) :
    (frameWrites offset frames).flatMap Prod.snd = frames.flatMap Frame.marshal := by
  induction frames generalizing offset with
  | nil => rfl
  | cons f rest ih => rw [frameWrites, List.flatMap_cons, List.flatMap_cons, ih]

theorem frameWrites_tiles (offset : Nat) (frames : List Frame) :
    Tiles (offset + (frames.map Frame.len).sum) offset (frameWrites offset frames) := by
  induction frames generalizing offset with
  | nil => simp [frameWrites, Tiles]
  | cons f rest ih =>
    refine ⟨rfl, ?_⟩
    rw [List.map_cons, List.sum_cons, ← Nat.add_assoc, f.length_marshal]
    exact ih (offset + f.len)

theorem Packet.tiles (p : Packet) : Tiles (p.headerLen + p.framesLen) 0 p.writes := by
  have frames := frameWrites_tiles p.headerLen p.frames
  simp only [writes, headerLen, framesLen, List.cons_append, List.nil_append, Tiles,
    List.length_singleton, length_putUint32, ConnectionID.len, Nat.zero_add, Nat.reduceAdd,
    true_and, Nat.add_assoc] at frames ⊢
  exact frames

theorem marshalPacket_eq (p : Packet) : marshalPacket p = p.writes.flatMap Prod.snd :=
  Bytes.fill_tiles p.tiles

theorem length_marshalPacket (p : Packet) :
    (marshalPacket p).length = p.headerLen + p.framesLen := by
  rw [marshalPacket_eq, ← p.tiles.length, Nat.zero_add]

/-- The induction over the frame list. A frame that is not the last is no
probe, so it ends where its own encoding does. -/
theorem unmarshalFrames_marshal {data : List UInt8} {offset : Nat} (frames : List Frame)
    (suffix : data.drop offset = frames.flatMap Frame.marshal)
    (within : offset ≤ data.length)
    (encodable : ∀ f ∈ frames, f.Encodable)
    (probeLast : ∀ f ∈ frames.dropLast, ∀ n, f ≠ .mtuProbe n) :
    unmarshalFrames data offset = .ok frames := by
  induction frames generalizing offset with
  | nil =>
    have finished : ¬ offset < data.length := by
      have length := congrArg List.length suffix
      simp only [List.length_drop, List.flatMap_nil, List.length_nil] at length
      omega
    rw [unmarshalFrames, dif_neg finished]
  | cons f rest ih =>
    rw [List.flatMap_cons] at suffix
    have bound := end_of_marshal suffix
    have positive := f.len_pos
    have parsed : unmarshalFrame data offset = .ok (f, f.len) := by
      apply unmarshalFrame_marshal f suffix (encodable f (by simp))
      intro n probe
      cases rest with
      | nil => rfl
      | cons g rest => exact absurd probe (probeLast f (by simp) n)
    have tail : unmarshalFrames data (offset + f.len) = .ok rest := by
      apply ih (drop_field suffix (by rw [f.length_marshal])) (by omega)
      · exact fun g member => encodable g (List.mem_cons_of_mem f member)
      · intro g member
        cases rest with
        | nil => cases member
        | cons h rest => exact probeLast g (List.mem_cons_of_mem f member)
    rw [unmarshalFrames, dif_pos (by omega)]
    split
    · rename_i e failed
      rw [parsed] at failed
      cases failed
    · rename_i frame consumed accepted
      rw [parsed] at accepted
      cases accepted
      rw [tail]
      rfl

theorem unmarshalPacket_encoded (p : Packet) (encodable : p.Encodable) :
    unmarshalPacket (marshalPacket p) =
      .ok { p with wireLen := (marshalPacket p).length } := by
  have length := length_marshalPacket p
  have dcidShort : p.destinationCID.bytes.length ≤ 20 := p.destinationCID.bounded
  have scidShort : p.sourceCID.bytes.length ≤ 20 := p.sourceCID.bounded
  have whole : (marshalPacket p).drop 0 = p.writes.flatMap Prod.snd := marshalPacket_eq p
  generalize marshalPacket p = data at length whole ⊢
  simp only [Packet.writes, List.cons_append, List.nil_append, List.flatMap_cons,
    frameWrites_bytes] at whole
  simp only [Packet.headerLen, ConnectionID.len] at length
  have dcidLen : data.drop 4 = _ := drop_field whole (by simp)
  have dcid : data.drop 5 = _ := drop_byte dcidLen
  have scidLen : data.drop (5 + p.destinationCID.bytes.length) = _ := drop_field dcid rfl
  have scid : data.drop (5 + p.destinationCID.bytes.length + 1) = _ := drop_byte scidLen
  have seq : data.drop (5 + p.destinationCID.bytes.length + 1 + p.sourceCID.bytes.length) = _ :=
    drop_field scid rfl
  have dst := drop_field seq (by rw [length_putUint32])
  have src := drop_field dst (by rw [length_putUint32])
  have frames := drop_field src (by rw [length_putUint32])
  have dcidCounted : (UInt8.ofNat p.destinationCID.len).toNat = p.destinationCID.bytes.length := by
    rw [UInt8.toNat_ofNat', ConnectionID.len]
    omega
  have scidCounted : (UInt8.ofNat p.sourceCID.len).toNat = p.sourceCID.bytes.length := by
    rw [UInt8.toNat_ofNat', ConnectionID.len]
    omega
  have parsed := unmarshalFrames_marshal p.frames frames (by omega) encodable.frames
    encodable.probeLast
  simp only [unmarshalPacket, uint32At_of_drop whole, byteAt_of_drop dcidLen, dcidCounted,
    slice_of_drop dcid rfl (by omega), newConnectionID_bytes, byteAt_of_drop scidLen,
    scidCounted, slice_of_drop scid rfl (by omega), uint32At_of_drop seq, uint32At_of_drop dst,
    uint32At_of_drop src, parsed, ok_bind]
  rw [if_neg (by simp only [minHeaderLen]; omega),
    if_neg (by simp only [minCIDLength, maxCIDLength]; omega), if_neg (by omega),
    if_neg (by omega), if_neg (by simp only [minCIDLength, maxCIDLength]; omega),
    if_neg (by omega), if_neg (by omega)]
  rfl

/-- Decoding an encoded packet gives the packet back, with the length of its
encoding, and every frame is as long as it says. -/
theorem unmarshalPacket_marshalPacket (p : Packet) (encodable : p.Encodable) :
    unmarshalPacket (marshalPacket p) = .ok { p with wireLen := (marshalPacket p).length } ∧
      ∀ f : Frame, f.len = f.marshal.length :=
  ⟨unmarshalPacket_encoded p encodable, fun f => f.length_marshal.symm⟩

/-- A data frame, an ACK with a gap and a trailing probe, in one packet. -/
def samplePacket : Packet where
  version := versionCurrent
  destinationCID := ⟨[1, 2, 3, 4, 5, 6, 7, 8], by decide⟩
  sourceCID := ⟨[], by decide⟩
  sequence := 7
  destinationStreamID := 0
  sourceStreamID := 1
  frames := [.stream ⟨false, true, 0, [104, 105]⟩, .ack ⟨9, 3, 2, [⟨1, 4⟩]⟩, .mtuProbe 5]

theorem unmarshalPacket_samplePacket :
    samplePacket.Encodable ∧
      unmarshalPacket (marshalPacket samplePacket) = .ok { samplePacket with wireLen := 62 } := by
  have encodable : samplePacket.Encodable :=
    ⟨by simp [samplePacket, Frame.Encodable], by simp [samplePacket]⟩
  have length : (marshalPacket samplePacket).length = 62 := by
    rw [length_marshalPacket]
    decide
  exact ⟨encodable, length ▸ (unmarshalPacket_marshalPacket samplePacket encodable).1⟩

end Udx
