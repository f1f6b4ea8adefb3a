import Udx.Packet

set_option autoImplicit false

namespace Udx

open Bytes (bigEndian clear)

variable {data : List UInt8} {offset : Nat}

theorem drop_of_byteAt {b : UInt8} (read : byteAt data offset = .ok b) :
    data.drop offset = b :: data.drop (offset + 1) := by
  unfold byteAt at read
  split at read
  · rename_i byte found
    cases read
    obtain ⟨inside, value⟩ := List.getElem?_eq_some_iff.mp found
    rw [List.drop_eq_getElem_cons inside, value]
  · cases read

theorem drop_of_slice {bs : List UInt8} {lo hi : Nat} (read : slice data lo hi = .ok bs) :
    data.drop lo = bs ++ data.drop hi ∧ lo + bs.length = hi := by
  unfold slice at read
  split at read
  · rename_i within
    cases read
    have past : data.drop hi = (data.drop lo).drop (hi - lo) := by
      rw [List.drop_drop, Nat.add_sub_cancel' within.1]
    constructor
    · rw [past, List.take_append_drop]
    · rw [List.length_take, List.length_drop]
      omega
  · cases read

theorem drop_of_uintAt {width value : Nat} (read : uintAt data offset width = .ok value) :
    data.drop offset = bigEndian width value ++ data.drop (offset + width) ∧
      value < 256 ^ width := by
  obtain ⟨bs, sliced, result⟩ := bind_eq_ok.mp read
  cases result
  obtain ⟨suffix, length⟩ := drop_of_slice sliced
  have length : bs.length = width := by omega
  constructor
  · rw [suffix, ← length, Bytes.bigEndian_toNat]
  · rw [← length]
    exact Bytes.toNat_lt bs

theorem drop_of_uint16At {v : UInt16} (read : uint16At data offset = .ok v) :
    data.drop offset = putUint16 v ++ data.drop (offset + 2) := by
  obtain ⟨value, number, result⟩ := bind_eq_ok.mp read
  cases result
  obtain ⟨suffix, bound⟩ := drop_of_uintAt number
  rw [putUint16, UInt16.toNat_ofNat_of_lt' bound, suffix]

theorem drop_of_uint32At {v : UInt32} (read : uint32At data offset = .ok v) :
    data.drop offset = putUint32 v ++ data.drop (offset + 4) := by
  obtain ⟨value, number, result⟩ := bind_eq_ok.mp read
  cases result
  obtain ⟨suffix, bound⟩ := drop_of_uintAt number
  rw [putUint32, UInt32.toNat_ofNat_of_lt' bound, suffix]

theorem drop_of_uint64At {v : UInt64} (read : uint64At data offset = .ok v) :
    data.drop offset = putUint64 v ++ data.drop (offset + 8) := by
  obtain ⟨value, number, result⟩ := bind_eq_ok.mp read
  cases result
  obtain ⟨suffix, bound⟩ := drop_of_uintAt number
  rw [putUint64, UInt64.toNat_ofNat_of_lt' bound, suffix]

theorem toList_copyArray {n : Nat} {bs : List UInt8} (length : bs.length = n) :
    (copyArray n bs).toList = bs := by
  apply List.ext_getElem
  · rw [Vector.length_toList, length]
  · intro i _ inside
    simp [copyArray, inside]

theorem bytes_of_newConnectionID {bs : List UInt8} {cid : ConnectionID}
    (accepted : newConnectionID bs = .ok cid) : cid.bytes = bs := by
  unfold newConnectionID at accepted
  split at accepted
  · cases accepted
    rfl
  · cases accepted

/-- The bits of an encoded frame, byte by byte, that decoding does not look at:
the flag bits of a STREAM frame that mean nothing, and whatever pads a path-MTU
probe. -/
def Frame.ignored : Frame → Nat → UInt8
  | .stream _, 1 => ~~~ (streamFlagFIN ||| streamFlagSYN)
  | .mtuProbe _, _ + 1 => 0xff
  | _, _ => 0

/-- `n` bytes from `offset` are the encoding of `f`, up to what decoding
ignores, and `f` is a frame the format can carry there. -/
structure Frame.Taken (data : List UInt8) (offset : Nat) (f : Frame) (n : Nat) : Prop where
  len : f.len = n
  encodable : f.Encodable
  last : ∀ size, f = .mtuProbe size → offset + n = data.length
  bytes : ∃ wire, data.drop offset = wire ++ data.drop (offset + n) ∧
    clear f.ignored wire = clear f.ignored f.marshal

theorem Frame.Taken.of_writes {f : Frame} {n : Nat} (delimited : ∀ size, f ≠ .mtuProbe size)
    (encodable : f.Encodable) (len : f.len = n)
    (suffix : data.drop offset = f.writes.flatMap Prod.snd ++ data.drop (offset + n)) :
    Frame.Taken data offset f n where
  len := len
  encodable := encodable
  last size probe := absurd probe (delimited size)
  bytes := ⟨f.marshal, by rw [f.marshal_eq delimited, suffix], rfl⟩

theorem drop_of_readAckRanges {count : Nat} (start : Nat) {ranges : List AckRange}
    (read : readAckRanges data count offset = .ok ranges) :
    data.drop offset = (ackRangeWrites start ranges).flatMap Prod.snd ++
      data.drop (offset + count * 5) ∧ ranges.length = count := by
  induction count generalizing offset start ranges with
  | zero =>
    cases read
    simp [ackRangeWrites]
  | succ count ih =>
    simp only [readAckRanges, bind_eq_ok] at read
    obtain ⟨gap, gapRead, length, lengthRead, rest, restRead, result⟩ := read
    cases result
    obtain ⟨tail, counted⟩ := ih (start + 5) restRead
    constructor
    · rw [drop_of_byteAt gapRead, drop_of_uint32At lengthRead, tail,
        show offset + 5 + count * 5 = offset + (count + 1) * 5 by omega]
      simp [ackRangeWrites]
    · rw [List.length_cons, counted]

theorem unmarshalAckFrame_taken {f : Frame} {n : Nat}
    (typeByte : data.drop offset = 0x02 :: data.drop (offset + 1))
    (accepted : unmarshalAckFrame data offset = .ok (f, n)) : Frame.Taken data offset f n := by
  unfold unmarshalAckFrame at accepted
  split at accepted
  · cases accepted
  · simp only [bind_eq_ok] at accepted
    obtain ⟨largest, largestRead, delay, delayRead, count, countRead, first, firstRead,
      accepted⟩ := accepted
    split at accepted
    · cases accepted
    · obtain ⟨ranges, rangesRead, accepted⟩ := bind_eq_ok.mp accepted
      cases accepted
      obtain ⟨tail, counted⟩ := drop_of_readAckRanges 12 rangesRead
      have small : count.toNat < 256 := count.toNat_lt
      apply Frame.Taken.of_writes
      · simp
      · simp only [Frame.Encodable]
        omega
      · simp only [Frame.len]
        omega
      · rw [typeByte, drop_of_uint32At largestRead, drop_of_uint16At delayRead,
          drop_of_byteAt countRead, drop_of_uint32At firstRead, tail, Nat.add_assoc offset 12]
        simp [Frame.writes, counted]

/-- The two flags read from a byte are the two bits of it that count. -/
theorem flags_of_byte (b : UInt8) :
    ((if b &&& streamFlagFIN != 0 then streamFlagFIN else 0) |||
      (if b &&& streamFlagSYN != 0 then streamFlagSYN else 0)) &&&
        ~~~ ~~~ (streamFlagFIN ||| streamFlagSYN) =
      b &&& ~~~ ~~~ (streamFlagFIN ||| streamFlagSYN) := by
  have every : ∀ k : Fin 256,
      ((if UInt8.ofNat k &&& streamFlagFIN != 0 then streamFlagFIN else 0) |||
        (if UInt8.ofNat k &&& streamFlagSYN != 0 then streamFlagSYN else 0)) &&&
          ~~~ ~~~ (streamFlagFIN ||| streamFlagSYN) =
        UInt8.ofNat k &&& ~~~ ~~~ (streamFlagFIN ||| streamFlagSYN) := by
    decide +kernel
  simpa using every ⟨b.toNat, b.toNat_lt⟩

theorem unmarshalStreamFrame_taken {f : Frame} {n : Nat}
    (typeByte : data.drop offset = 0x03 :: data.drop (offset + 1))
    (accepted : unmarshalStreamFrame data offset = .ok (f, n)) : Frame.Taken data offset f n := by
  unfold unmarshalStreamFrame at accepted
  split at accepted
  · cases accepted
  · simp only [bind_eq_ok] at accepted
    obtain ⟨flags, flagsRead, position, positionRead, length, lengthRead, accepted⟩ := accepted
    split at accepted
    · cases accepted
    · obtain ⟨payload, payloadRead, accepted⟩ := bind_eq_ok.mp accepted
      cases accepted
      obtain ⟨tail, counted⟩ := drop_of_slice payloadRead
      have small : length.toNat < 65536 := length.toNat_lt
      have counted : payload.length = length.toNat := by omega
      refine ⟨by simp only [Frame.len, counted], by simp only [Frame.Encodable]; omega, nofun,
        0x03 :: flags :: (putUint64 position ++ (putUint16 length ++ payload)), ?_, ?_⟩
      · rw [typeByte, drop_of_byteAt flagsRead, drop_of_uint64At positionRead,
          drop_of_uint16At lengthRead, ← Nat.add_assoc offset]
        simp only [streamFrameHeaderLen] at tail ⊢
        rw [tail]
        simp
      · rw [Frame.marshal_eq _ (by simp)]
        simp only [Frame.writes, List.flatMap_cons, List.flatMap_nil, List.cons_append,
          List.nil_append, List.append_nil, counted, UInt16.ofNat_toNat, clear,
          List.mapIdx_cons, Frame.ignored, Nat.zero_add]
        rw [StreamFrame.flags, flags_of_byte flags]

theorem unmarshalUint32Frame_taken {t : UInt8} {what : String} (frame : UInt32 → Frame)
    {f : Frame} {n : Nat} (delimited : ∀ v size, frame v ≠ .mtuProbe size)
    (encodable : ∀ v, (frame v).Encodable) (len : ∀ v, (frame v).len = 5)
    (writes : ∀ v, (frame v).writes = [(0, [t]), (1, putUint32 v)])
    (typeByte : data.drop offset = t :: data.drop (offset + 1))
    (accepted : unmarshalUint32Frame what frame data offset = .ok (f, n)) :
    Frame.Taken data offset f n := by
  unfold unmarshalUint32Frame at accepted
  split at accepted
  · cases accepted
  · obtain ⟨v, read, accepted⟩ := bind_eq_ok.mp accepted
    cases accepted
    apply Frame.Taken.of_writes (delimited v) (encodable v) (len v)
    rw [typeByte, drop_of_uint32At read, writes]
    simp

theorem unmarshalUint64Frame_taken {t : UInt8} {what : String} (frame : UInt64 → Frame)
    {f : Frame} {n : Nat} (delimited : ∀ v size, frame v ≠ .mtuProbe size)
    (encodable : ∀ v, (frame v).Encodable) (len : ∀ v, (frame v).len = 9)
    (writes : ∀ v, (frame v).writes = [(0, [t]), (1, putUint64 v)])
    (typeByte : data.drop offset = t :: data.drop (offset + 1))
    (accepted : unmarshalUint64Frame what frame data offset = .ok (f, n)) :
    Frame.Taken data offset f n := by
  unfold unmarshalUint64Frame at accepted
  split at accepted
  · cases accepted
  · obtain ⟨v, read, accepted⟩ := bind_eq_ok.mp accepted
    cases accepted
    apply Frame.Taken.of_writes (delimited v) (encodable v) (len v)
    rw [typeByte, drop_of_uint64At read, writes]
    simp

theorem unmarshalPathFrame_taken {t : UInt8} {what : String} (frame : Vector UInt8 8 → Frame)
    {f : Frame} {n : Nat} (delimited : ∀ v size, frame v ≠ .mtuProbe size)
    (encodable : ∀ v, (frame v).Encodable) (len : ∀ v, (frame v).len = 9)
    (writes : ∀ v, (frame v).writes = [(0, [t]), (1, v.toList)])
    (typeByte : data.drop offset = t :: data.drop (offset + 1))
    (accepted : unmarshalPathFrame what frame data offset = .ok (f, n)) :
    Frame.Taken data offset f n := by
  unfold unmarshalPathFrame at accepted
  split at accepted
  · cases accepted
  · obtain ⟨v, read, accepted⟩ := bind_eq_ok.mp accepted
    cases accepted
    obtain ⟨tail, length⟩ := drop_of_slice read
    apply Frame.Taken.of_writes (delimited _) (encodable _) (len _)
    rw [typeByte, tail, writes, toList_copyArray (by omega)]
    simp

theorem unmarshalMTUProbeFrame_taken {f : Frame} {n : Nat}
    (typeByte : data.drop offset = 0x08 :: data.drop (offset + 1))
    (accepted : unmarshalMTUProbeFrame data offset = .ok (f, n)) : Frame.Taken data offset f n := by
  unfold unmarshalMTUProbeFrame at accepted
  dsimp only at accepted
  split at accepted
  · cases accepted
  · cases accepted
    have remaining : ((data.length : Int) - offset).toNat = data.length - offset := by omega
    have len : (Frame.mtuProbe ((data.length : Int) - offset)).len = data.length - offset := by
      rw [Frame.len, if_neg (by omega), remaining]
    rw [remaining]
    refine ⟨len, by simp only [Frame.Encodable]; omega, fun _ _ => by omega,
      0x08 :: data.drop (offset + 1), ?_, ?_⟩
    · rw [List.drop_eq_nil_of_le (by omega : data.length ≤ offset + (data.length - offset)),
        List.append_nil, typeByte]
    · rw [marshal_mtuProbe, len]
      apply List.ext_getElem
      · simp only [Bytes.length_clear, List.length_cons, List.length_drop, List.length_replicate]
        omega
      · intro i _ _
        cases i with
        | zero => simp [clear]
        | succ i =>
          have none : ~~~ (0xff : UInt8) = 0 := by decide
          simp [clear, Frame.ignored, none]

theorem unmarshalConnectionCloseFrame_taken {f : Frame} {n : Nat}
    (typeByte : data.drop offset = 0x0b :: data.drop (offset + 1))
    (accepted : unmarshalConnectionCloseFrame data offset = .ok (f, n)) :
    Frame.Taken data offset f n := by
  unfold unmarshalConnectionCloseFrame at accepted
  split at accepted
  · cases accepted
  · simp only [bind_eq_ok] at accepted
    obtain ⟨code, codeRead, cause, causeRead, length, lengthRead, accepted⟩ := accepted
    split at accepted
    · cases accepted
    · obtain ⟨reason, reasonRead, accepted⟩ := bind_eq_ok.mp accepted
      cases accepted
      obtain ⟨tail, counted⟩ := drop_of_slice reasonRead
      have small : length.toNat < 65536 := length.toNat_lt
      have counted : reason.length = length.toNat := by omega
      apply Frame.Taken.of_writes
      · simp
      · simp only [Frame.Encodable]
        omega
      · simp only [Frame.len, counted]
      · rw [typeByte, drop_of_uint32At codeRead, drop_of_uint32At causeRead,
          drop_of_uint16At lengthRead, tail, Nat.add_assoc offset 11]
        simp [Frame.writes, counted]

theorem unmarshalStopSendingFrame_taken {f : Frame} {n : Nat}
    (typeByte : data.drop offset = 0x0d :: data.drop (offset + 1))
    (accepted : unmarshalStopSendingFrame data offset = .ok (f, n)) :
    Frame.Taken data offset f n := by
  unfold unmarshalStopSendingFrame at accepted
  split at accepted
  · cases accepted
  · simp only [bind_eq_ok] at accepted
    obtain ⟨stream, streamRead, code, codeRead, accepted⟩ := accepted
    cases accepted
    apply Frame.Taken.of_writes
    · simp
    · trivial
    · rfl
    · rw [typeByte, drop_of_uint32At streamRead, drop_of_uint32At codeRead]
      simp [Frame.writes]

theorem unmarshalStreamDataBlockedFrame_taken {f : Frame} {n : Nat}
    (typeByte : data.drop offset = 0x0f :: data.drop (offset + 1))
    (accepted : unmarshalStreamDataBlockedFrame data offset = .ok (f, n)) :
    Frame.Taken data offset f n := by
  unfold unmarshalStreamDataBlockedFrame at accepted
  split at accepted
  · cases accepted
  · simp only [bind_eq_ok] at accepted
    obtain ⟨stream, streamRead, limit, limitRead, accepted⟩ := accepted
    cases accepted
    apply Frame.Taken.of_writes
    · simp
    · trivial
    · rfl
    · rw [typeByte, drop_of_uint32At streamRead, drop_of_uint64At limitRead]
      simp [Frame.writes]

theorem unmarshalNewConnectionIDFrame_taken {f : Frame} {n : Nat}
    (typeByte : data.drop offset = 0x10 :: data.drop (offset + 1))
    (accepted : unmarshalNewConnectionIDFrame data offset = .ok (f, n)) :
    Frame.Taken data offset f n := by
  unfold unmarshalNewConnectionIDFrame at accepted
  split at accepted
  · cases accepted
  · simp only [bind_eq_ok] at accepted
    obtain ⟨seq, seqRead, retire, retireRead, length, lengthRead, accepted⟩ := accepted
    split at accepted
    · cases accepted
    · simp only [bind_eq_ok] at accepted
      obtain ⟨bytes, bytesRead, cid, cidRead, token, tokenRead, accepted⟩ := accepted
      cases accepted
      obtain ⟨cidTail, counted⟩ := drop_of_slice bytesRead
      obtain ⟨tokenTail, tokenLength⟩ := drop_of_slice tokenRead
      have same := bytes_of_newConnectionID cidRead
      have counted : bytes.length = length.toNat := by omega
      apply Frame.Taken.of_writes
      · simp
      · trivial
      · simp only [Frame.len, ConnectionID.len, same, counted]
      · rw [typeByte, drop_of_uint64At seqRead, drop_of_uint64At retireRead,
          drop_of_byteAt lengthRead, cidTail, tokenTail]
        simp only [statelessResetTokenLength] at tokenLength
        simp [Frame.writes, ConnectionID.len, same, counted,
          toList_copyArray (show token.length = 16 by omega), Nat.add_assoc]

/-- Whatever the type byte, an accepted frame is the decoding of the bytes it
took. -/
theorem unmarshalFrame_taken {f : Frame} {n : Nat}
    (accepted : unmarshalFrame data offset = .ok (f, n)) : Frame.Taken data offset f n := by
  unfold unmarshalFrame at accepted
  split at accepted
  · cases accepted
  · obtain ⟨ft, typeRead, accepted⟩ := bind_eq_ok.mp accepted
    have typeByte := drop_of_byteAt typeRead
    have named (t : UInt8) (same : ft.toNat = t.toNat) :
        data.drop offset = t :: data.drop (offset + 1) := by
      rw [typeByte, UInt8.toNat_inj.mp same]
    split at accepted <;> rename_i kind
    case h_1 =>
      cases accepted
      exact Frame.Taken.of_writes nofun trivial rfl (named 0x00 kind)
    case h_2 =>
      cases accepted
      exact Frame.Taken.of_writes nofun trivial rfl (named 0x01 kind)
    case h_3 => exact unmarshalAckFrame_taken (named 0x02 kind) accepted
    case h_4 => exact unmarshalStreamFrame_taken (named 0x03 kind) accepted
    case h_5 =>
      exact unmarshalUint32Frame_taken .windowUpdate nofun (fun _ => trivial) (fun _ => rfl)
        (fun _ => rfl) (named 0x04 kind) accepted
    case h_6 =>
      exact unmarshalUint64Frame_taken .maxData nofun (fun _ => trivial) (fun _ => rfl)
        (fun _ => rfl) (named 0x05 kind) accepted
    case h_7 =>
      exact unmarshalUint32Frame_taken .resetStream nofun (fun _ => trivial) (fun _ => rfl)
        (fun _ => rfl) (named 0x06 kind) accepted
    case h_8 =>
      exact unmarshalUint32Frame_taken .maxStreams nofun (fun _ => trivial) (fun _ => rfl)
        (fun _ => rfl) (named 0x07 kind) accepted
    case h_9 => exact unmarshalMTUProbeFrame_taken (named 0x08 kind) accepted
    case h_10 =>
      exact unmarshalPathFrame_taken .pathChallenge nofun (fun _ => trivial) (fun _ => rfl)
        (fun _ => rfl) (named 0x09 kind) accepted
    case h_11 =>
      exact unmarshalPathFrame_taken .pathResponse nofun (fun _ => trivial) (fun _ => rfl)
        (fun _ => rfl) (named 0x0a kind) accepted
    case h_12 => exact unmarshalConnectionCloseFrame_taken (named 0x0b kind) accepted
    case h_13 => exact unmarshalStopSendingFrame_taken (named 0x0d kind) accepted
    case h_14 =>
      exact unmarshalUint64Frame_taken .dataBlocked nofun (fun _ => trivial) (fun _ => rfl)
        (fun _ => rfl) (named 0x0e kind) accepted
    case h_15 => exact unmarshalStreamDataBlockedFrame_taken (named 0x0f kind) accepted
    case h_16 => exact unmarshalNewConnectionIDFrame_taken (named 0x10 kind) accepted
    case h_17 =>
      exact unmarshalUint64Frame_taken .retireConnectionID nofun (fun _ => trivial) (fun _ => rfl)
        (fun _ => rfl) (named 0x11 kind) accepted
    case h_18 => cases accepted

/-- What decoding ignores in the encodings of the frames, one after the other. -/
def ignoredIn : List Frame → Nat → UInt8
  | [], _ => 0
  | f :: rest, i => if i < f.len then f.ignored i else ignoredIn rest (i - f.len)

/-- What decoding ignores in an encoded packet: nothing of the header. -/
def Packet.ignored (p : Packet) (i : Nat) : UInt8 :=
  if i < p.headerLen then 0 else ignoredIn p.frames (i - p.headerLen)

theorem clear_frames (f : Frame) (rest : List Frame) {front back : List UInt8}
    (len : front.length = f.len) :
    clear (ignoredIn (f :: rest)) (front ++ back) =
      clear f.ignored front ++ clear (ignoredIn rest) back := by
  rw [Bytes.clear_append]
  congr 1
  · apply Bytes.clear_congr
    intro i inside
    rw [ignoredIn, if_pos (by omega)]
  · apply Bytes.clear_congr
    intro i _
    rw [ignoredIn, if_neg (by omega), len, Nat.add_sub_cancel]

theorem clear_packet (p : Packet) {front back : List UInt8} (len : front.length = p.headerLen) :
    clear p.ignored (front ++ back) = clear (fun _ => 0) front ++ clear (ignoredIn p.frames) back := by
  rw [Bytes.clear_append]
  congr 1
  · apply Bytes.clear_congr
    intro i inside
    rw [Packet.ignored, if_pos (by omega)]
  · apply Bytes.clear_congr
    intro i _
    rw [Packet.ignored, if_neg (by omega), len, Nat.add_sub_cancel]

/-- The frame loop, one frame at a time. A probe takes what is left, so nothing
comes after it. -/
theorem unmarshalFrames_taken {frames : List Frame} (within : offset ≤ data.length)
    (accepted : unmarshalFrames data offset = .ok frames) :
    (∀ f ∈ frames, f.Encodable) ∧ (∀ f ∈ frames.dropLast, ∀ size, f ≠ .mtuProbe size) ∧
      clear (ignoredIn frames) (data.drop offset) =
        clear (ignoredIn frames) (frames.flatMap Frame.marshal) := by
  induction frames generalizing offset with
  | nil =>
    have finished : ¬ offset < data.length := by
      intro inside
      rw [unmarshalFrames, dif_pos inside] at accepted
      split at accepted
      · cases accepted
      · obtain ⟨rest, -, result⟩ := bind_eq_ok.mp accepted
        cases result
    rw [List.drop_eq_nil_of_le (by omega)]
    simp
  | cons f rest ih =>
    rw [unmarshalFrames] at accepted
    split at accepted
    · split at accepted
      · cases accepted
      · rename_i inside frame consumed parsed
        obtain ⟨frames, loop, result⟩ := bind_eq_ok.mp accepted
        cases result
        have taken := unmarshalFrame_taken parsed
        have progress := unmarshalFrame_consumes data offset f consumed parsed
        obtain ⟨encodable, probeLast, bytes⟩ := ih progress.2 loop
        obtain ⟨wire, suffix, same⟩ := taken.bytes
        have length : wire.length = f.len := by
          have lengths := congrArg List.length same
          rwa [Bytes.length_clear, Bytes.length_clear, f.length_marshal] at lengths
        refine ⟨?_, ?_, ?_⟩
        · intro g member
          rcases List.mem_cons.mp member with rfl | later
          · exact taken.encodable
          · exact encodable g later
        · intro g member size probe
          cases rest with
          | nil => cases member
          | cons h rest =>
            rcases List.mem_cons.mp member with rfl | later
            · have finished := taken.last size probe
              rw [unmarshalFrames, dif_neg (by omega)] at loop
              cases loop
            · exact probeLast g later size probe
        · rw [suffix, List.flatMap_cons, clear_frames f rest length,
            clear_frames f rest f.length_marshal, same, bytes]
    · cases accepted

theorem of_guard {ε α : Type} {c : Prop} [Decidable c] {e : ε} {next : PUnit → Except ε α} {a : α}
    (accepted : (if c then throw e >>= next else next ⟨⟩) = .ok a) :
    ¬ c ∧ next ⟨⟩ = .ok a := by
  split at accepted
  · cases accepted
  · exact ⟨‹¬ c›, accepted⟩

/-- The fields of an accepted datagram: its header as it would be written, and
the frames from there on. -/
theorem unmarshalPacket_accepted {p : Packet} (accepted : unmarshalPacket data = .ok p) :
    ∃ header, data = header ++ data.drop p.headerLen ∧ header.length = p.headerLen ∧
      marshalPacket p = header ++ p.frames.flatMap Frame.marshal ∧
      unmarshalFrames data p.headerLen = .ok p.frames ∧ p.headerLen ≤ data.length ∧
      p.wireLen = data.length := by
  unfold unmarshalPacket at accepted
  obtain ⟨-, accepted⟩ := of_guard accepted
  obtain ⟨version, versionRead, accepted⟩ := bind_eq_ok.mp accepted
  obtain ⟨dcidLen, dcidLenRead, accepted⟩ := bind_eq_ok.mp accepted
  obtain ⟨-, accepted⟩ := of_guard accepted
  obtain ⟨-, accepted⟩ := of_guard accepted
  obtain ⟨dcidBytes, dcidRead, accepted⟩ := bind_eq_ok.mp accepted
  obtain ⟨dcid, dcidMade, accepted⟩ := bind_eq_ok.mp accepted
  obtain ⟨-, accepted⟩ := of_guard accepted
  obtain ⟨scidLen, scidLenRead, accepted⟩ := bind_eq_ok.mp accepted
  obtain ⟨-, accepted⟩ := of_guard accepted
  obtain ⟨-, accepted⟩ := of_guard accepted
  obtain ⟨scidBytes, scidRead, accepted⟩ := bind_eq_ok.mp accepted
  obtain ⟨scid, scidMade, accepted⟩ := bind_eq_ok.mp accepted
  obtain ⟨long, accepted⟩ := of_guard accepted
  obtain ⟨seq, seqRead, accepted⟩ := bind_eq_ok.mp accepted
  obtain ⟨dst, dstRead, accepted⟩ := bind_eq_ok.mp accepted
  obtain ⟨src, srcRead, accepted⟩ := bind_eq_ok.mp accepted
  obtain ⟨frames, framesRead, result⟩ := bind_eq_ok.mp accepted
  cases result
  have dcidSame := bytes_of_newConnectionID dcidMade
  have scidSame := bytes_of_newConnectionID scidMade
  obtain ⟨dcidTail, dcidCounted⟩ := drop_of_slice dcidRead
  obtain ⟨scidTail, scidCounted⟩ := drop_of_slice scidRead
  have dcidCounted : dcidBytes.length = dcidLen.toNat := by omega
  have scidCounted : scidBytes.length = scidLen.toNat := by omega
  have headerLen : 4 + 1 + dcidBytes.length + 1 + scidBytes.length + 4 + 4 + 4 =
      5 + dcidLen.toNat + 1 + scidLen.toNat + 12 := by omega
  simp only [Packet.headerLen, ConnectionID.len, dcidSame, scidSame, headerLen]
  refine ⟨putUint32 version ++ dcidLen :: (dcidBytes ++ scidLen :: (scidBytes ++ (putUint32 seq ++
    (putUint32 dst ++ putUint32 src)))), ?_, ?_, ?_, framesRead, by omega, trivial⟩
  · have whole := drop_of_uint32At versionRead
    rw [List.drop_zero] at whole
    nth_rewrite 1 [whole]
    rw [drop_of_byteAt dcidLenRead, dcidTail, drop_of_byteAt scidLenRead, scidTail,
      drop_of_uint32At seqRead, drop_of_uint32At dstRead, drop_of_uint32At srcRead]
    simp
  · simp
    omega
  · rw [marshalPacket_eq]
    simp [Packet.writes, ConnectionID.len, frameWrites_bytes, dcidSame, scidSame, dcidCounted,
      scidCounted]

/-- Encoding what was decoded from a datagram gives the datagram back, except
where decoding does not look, and decodes to the same packet. -/
theorem marshalPacket_unmarshalPacket {d : List UInt8} {p : Packet}
    (accepted : unmarshalPacket d = .ok p) :
    (marshalPacket p).length = d.length ∧ p.wireLen = d.length ∧
      clear p.ignored (marshalPacket p) = clear p.ignored d ∧
      unmarshalPacket (marshalPacket p) = .ok p := by
  obtain ⟨header, suffix, headerLen, encoded, frames, within, wireLen⟩ :=
    unmarshalPacket_accepted accepted
  obtain ⟨encodable, probeLast, bytes⟩ := unmarshalFrames_taken within frames
  have same : clear p.ignored (marshalPacket p) = clear p.ignored d := by
    rw [suffix, encoded, clear_packet p headerLen, clear_packet p headerLen, bytes]
  have length : (marshalPacket p).length = d.length := by
    have lengths := congrArg List.length same
    rwa [Bytes.length_clear, Bytes.length_clear] at lengths
  refine ⟨length, wireLen, same, ?_⟩
  rw [unmarshalPacket_encoded p ⟨encodable, probeLast⟩, length, ← wireLen]

/-- A STREAM frame with reserved flag bits set, then a probe padded with
something else than zeros. -/
def sampleDatagram : List UInt8 :=
  [0, 0, 0, 1, 0, 0, 0, 0, 0, 7, 0, 0, 0, 0, 0, 0, 0, 1] ++
    [0x03, 0xf5, 0, 0, 0, 0, 0, 0, 0, 0, 0, 1, 104] ++ [0x08, 0xaa]

def decodedDatagram : Packet where
  version := 1
  destinationCID := ⟨[], Nat.zero_le _⟩
  sourceCID := ⟨[], Nat.zero_le _⟩
  sequence := 7
  destinationStreamID := 0
  sourceStreamID := 1
  frames := [.stream ⟨true, false, 0, [104]⟩, .mtuProbe 2]
  wireLen := 33

theorem marshalPacket_sampleDatagram :
    unmarshalPacket sampleDatagram = .ok decodedDatagram ∧
      marshalPacket decodedDatagram ≠ sampleDatagram ∧
      clear decodedDatagram.ignored (marshalPacket decodedDatagram) =
        clear decodedDatagram.ignored sampleDatagram := by
  have accepted : unmarshalPacket sampleDatagram = .ok decodedDatagram := by decide +kernel
  exact ⟨accepted, by decide +kernel, (marshalPacket_unmarshalPacket accepted).2.2.1⟩

end Udx
