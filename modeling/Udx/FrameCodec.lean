import Udx.Frame

set_option autoImplicit false

namespace Udx

open Bytes (bigEndian Tiles drop_field drop_byte)

@[simp] theorem ok_bind {ε α β : Type} (a : α) (f : α → Except ε β) :
    (Except.ok a >>= f) = f a := rfl

theorem bind_eq_ok {ε α β : Type} {x : Except ε α} {f : α → Except ε β} {b : β} :
    (x >>= f) = .ok b ↔ ∃ a, x = .ok a ∧ f a = .ok b := by
  cases x with
  | error e => simp [bind, Except.bind]
  | ok a => simp

theorem length_of_drop {data front rest : List UInt8} {offset : Nat}
    (suffix : data.drop offset = front ++ rest) (nonempty : front ≠ []) :
    offset + front.length + rest.length = data.length := by
  have lengths := congrArg List.length suffix
  have positive := List.length_pos_iff.mpr nonempty
  simp only [List.length_drop, List.length_append] at lengths
  omega

theorem byteAt_of_drop {data rest : List UInt8} {offset : Nat} {b : UInt8}
    (suffix : data.drop offset = b :: rest) : byteAt data offset = .ok b := by
  have first : data[offset]? = some b := by
    rw [← List.head?_drop, suffix, List.head?_cons]
  simp only [byteAt, first]

theorem slice_of_drop {data bs rest : List UInt8} {lo hi : Nat}
    (suffix : data.drop lo = bs ++ rest) (len : hi = lo + bs.length) (within : hi ≤ data.length) :
    slice data lo hi = .ok bs := by
  rw [slice, if_pos ⟨by omega, within⟩, suffix, len, Nat.add_sub_cancel_left, List.take_left]

theorem uintAt_of_drop {data rest : List UInt8} {offset width value : Nat}
    (suffix : data.drop offset = bigEndian width value ++ rest) (positive : 0 < width) :
    uintAt data offset width = .ok (value % 256 ^ width) := by
  have nonempty : bigEndian width value ≠ [] := by
    intro empty
    have := congrArg List.length empty
    simp only [Bytes.length_bigEndian, List.length_nil] at this
    omega
  have lengths := length_of_drop suffix nonempty
  rw [Bytes.length_bigEndian] at lengths
  rw [uintAt, slice_of_drop suffix (by rw [Bytes.length_bigEndian]) (by omega), ok_bind,
    Bytes.toNat_bigEndian]
  rfl

theorem uint16At_of_drop {data rest : List UInt8} {offset : Nat} {v : UInt16}
    (suffix : data.drop offset = putUint16 v ++ rest) : uint16At data offset = .ok v := by
  have bound : v.toNat < 256 ^ 2 := v.toNat_lt
  rw [uint16At, uintAt_of_drop suffix (by decide), Nat.mod_eq_of_lt bound]
  simp [pure, Except.pure]

theorem uint32At_of_drop {data rest : List UInt8} {offset : Nat} {v : UInt32}
    (suffix : data.drop offset = putUint32 v ++ rest) : uint32At data offset = .ok v := by
  have bound : v.toNat < 256 ^ 4 := v.toNat_lt
  rw [uint32At, uintAt_of_drop suffix (by decide), Nat.mod_eq_of_lt bound]
  simp [pure, Except.pure]

theorem uint64At_of_drop {data rest : List UInt8} {offset : Nat} {v : UInt64}
    (suffix : data.drop offset = putUint64 v ++ rest) : uint64At data offset = .ok v := by
  have bound : v.toNat < 256 ^ 8 := v.toNat_lt
  rw [uint64At, uintAt_of_drop suffix (by decide), Nat.mod_eq_of_lt bound]
  simp [pure, Except.pure]

@[simp] theorem length_putUint16 (v : UInt16) : (putUint16 v).length = 2 :=
  Bytes.length_bigEndian ..

@[simp] theorem length_putUint32 (v : UInt32) : (putUint32 v).length = 4 :=
  Bytes.length_bigEndian ..

@[simp] theorem length_putUint64 (v : UInt64) : (putUint64 v).length = 8 :=
  Bytes.length_bigEndian ..

@[simp] theorem copyArray_toList {n : Nat} (v : Vector UInt8 n) : copyArray n v.toList = v := by
  apply Vector.ext
  intro i inside
  simp [copyArray]

theorem ackRangeWrites_tiles (offset : Nat) (ranges : List AckRange) :
    Tiles (offset + ranges.length * 5) offset (ackRangeWrites offset ranges) := by
  induction ranges generalizing offset with
  | nil => simp [ackRangeWrites, Tiles]
  | cons r rest ih =>
    have tail := ih (offset + 5)
    simp only [ackRangeWrites, Tiles, List.length_cons, List.length_nil, length_putUint32,
      true_and, Nat.add_assoc, Nat.reduceAdd]
    rwa [show offset + (rest.length + 1) * 5 = offset + 5 + rest.length * 5 by omega]

/-- Every frame but a path-MTU probe fills its buffer field by field, with no
byte left over and none written twice. -/
theorem Frame.tiles (f : Frame) (delimited : ∀ n, f ≠ .mtuProbe n) : Tiles f.len 0 f.writes := by
  cases f with
  | mtuProbe n => exact absurd rfl (delimited n)
  | ack f =>
    have ranges := ackRangeWrites_tiles 12 f.ackRanges
    simpa [writes, len, Tiles] using ranges
  | _ =>
    simp [writes, len, Tiles, streamFrameHeaderLen, ConnectionID.len, statelessResetTokenLength]
    try omega

theorem Frame.marshal_eq (f : Frame) (delimited : ∀ n, f ≠ .mtuProbe n) :
    f.marshal = f.writes.flatMap Prod.snd :=
  Bytes.fill_tiles (f.tiles delimited)

theorem marshal_mtuProbe (n : Int) :
    (Frame.mtuProbe n).marshal = 0x08 :: List.replicate ((Frame.mtuProbe n).len - 1) 0 := by
  have room : 1 ≤ (Frame.mtuProbe n).len := by
    simp only [Frame.len]
    split <;> omega
  simpa [Frame.marshal, Frame.writes, Bytes.fill] using
    Bytes.copyAt_blank [] [0x08] (Frame.mtuProbe n).len room

/-- The buffer `Marshal` allocates is exactly the bytes it writes. -/
theorem Frame.length_marshal (f : Frame) : f.marshal.length = f.len := by
  by_cases probe : ∃ n, f = .mtuProbe n
  · obtain ⟨n, rfl⟩ := probe
    have room : 1 ≤ (Frame.mtuProbe n).len := by
      simp only [Frame.len]
      split <;> omega
    rw [marshal_mtuProbe, List.length_cons, List.length_replicate]
    omega
  · have delimited : ∀ n, f ≠ .mtuProbe n := fun n same => probe ⟨n, same⟩
    rw [f.marshal_eq delimited, ← (f.tiles delimited).length, Nat.zero_add]

/- Each lemma reads the fields back one position at a time: `suffix` says what
follows `offset`, and every field moves it on by the field's width. -/

/-- The values whose length fields hold them, and a probe that is at least its
own type byte. -/
def Frame.Encodable : Frame → Prop
  | .ack f => f.ackRanges.length ≤ 255
  | .stream f => f.data.length ≤ 65535
  | .connectionClose f => f.reasonPhrase.length ≤ 65535
  | .mtuProbe n => 1 ≤ n
  | _ => True

theorem Frame.len_pos (f : Frame) : 0 < f.len := by
  cases f <;> simp [len, streamFrameHeaderLen]
  all_goals first
    | omega
    | (split <;> omega)

theorem end_of_marshal {data rest : List UInt8} {offset : Nat} {f : Frame}
    (suffix : data.drop offset = f.marshal ++ rest) :
    offset + f.len + rest.length = data.length := by
  have nonempty : f.marshal ≠ [] := by
    intro empty
    have length := f.length_marshal
    have positive := f.len_pos
    rw [empty, List.length_nil] at length
    omega
  rw [← length_of_drop suffix nonempty, f.length_marshal]

theorem readAckRanges_of_drop {data rest : List UInt8} {offset start : Nat}
    (ranges : List AckRange)
    (suffix : data.drop offset = (ackRangeWrites start ranges).flatMap Prod.snd ++ rest) :
    readAckRanges data ranges.length offset = .ok ranges := by
  induction ranges generalizing offset start with
  | nil => rfl
  | cons r ranges ih =>
    simp only [ackRangeWrites, List.flatMap_cons, List.cons_append, List.nil_append,
      List.append_assoc] at suffix
    have length := drop_byte suffix
    have tail : data.drop (offset + 5) = _ := drop_field length (by simp)
    simp only [List.length_cons, readAckRanges, byteAt_of_drop suffix, uint32At_of_drop length,
      ih tail, ok_bind]
    rfl

theorem unmarshalAckFrame_marshal {data rest : List UInt8} {offset : Nat} (f : AckFrame)
    (suffix : data.drop offset = (Frame.ack f).marshal ++ rest)
    (encodable : f.ackRanges.length ≤ 255) :
    unmarshalAckFrame data offset = .ok (.ack f, (Frame.ack f).len) := by
  have bound := end_of_marshal suffix
  rw [Frame.marshal_eq _ (by simp)] at suffix
  simp only [Frame.len] at bound
  simp only [Frame.writes, List.flatMap_cons, List.cons_append, List.nil_append,
    List.append_assoc] at suffix
  have largest := drop_byte suffix
  have delay : data.drop (offset + 5) = _ := drop_field largest (by simp)
  have count : data.drop (offset + 7) = _ := drop_field delay (by simp)
  have first : data.drop (offset + 8) = _ := drop_byte count
  have ranges : data.drop (offset + 12) = _ := drop_field first (by simp)
  have counted : (UInt8.ofNat f.ackRanges.length).toNat = f.ackRanges.length := by
    rw [UInt8.toNat_ofNat']
    omega
  simp only [unmarshalAckFrame, uint32At_of_drop largest, uint16At_of_drop delay,
    byteAt_of_drop count, uint32At_of_drop first, counted, ok_bind,
    readAckRanges_of_drop f.ackRanges ranges]
  rw [if_neg (by omega), if_neg (by omega)]
  rfl

theorem flags_fin (f : StreamFrame) : (f.flags &&& streamFlagFIN != 0) = f.isFin := by
  cases fin : f.isFin <;> cases syn : f.isSyn <;> simp [StreamFrame.flags, fin, syn] <;> decide

theorem flags_syn (f : StreamFrame) : (f.flags &&& streamFlagSYN != 0) = f.isSyn := by
  cases fin : f.isFin <;> cases syn : f.isSyn <;> simp [StreamFrame.flags, fin, syn] <;> decide

theorem unmarshalStreamFrame_marshal {data rest : List UInt8} {offset : Nat} (f : StreamFrame)
    (suffix : data.drop offset = (Frame.stream f).marshal ++ rest)
    (encodable : f.data.length ≤ 65535) :
    unmarshalStreamFrame data offset = .ok (.stream f, (Frame.stream f).len) := by
  have bound := end_of_marshal suffix
  rw [Frame.marshal_eq _ (by simp)] at suffix
  simp only [Frame.len, streamFrameHeaderLen] at bound
  simp only [Frame.writes, List.flatMap_cons, List.flatMap_nil, List.cons_append,
    List.nil_append, List.append_assoc] at suffix
  have flags := drop_byte suffix
  have position : data.drop (offset + 2) = _ := drop_byte flags
  have length : data.drop (offset + 10) = _ := drop_field position (by simp)
  have payload : data.drop (offset + 12) = _ := drop_field length (by simp)
  have counted : (UInt16.ofNat f.data.length).toNat = f.data.length := by
    rw [UInt16.toNat_ofNat']
    omega
  simp only [unmarshalStreamFrame, streamFrameHeaderLen, byteAt_of_drop flags,
    uint64At_of_drop position, uint16At_of_drop length, counted, ok_bind, flags_fin, flags_syn,
    slice_of_drop payload rfl (by omega)]
  rw [if_neg (by omega), if_neg (by omega)]
  rfl

theorem unmarshalUint32Frame_marshal {data rest : List UInt8} {offset : Nat} {t : UInt8}
    (what : String) (frame : UInt32 → Frame) (v : UInt32)
    (fields : data.drop offset = [(0, [t]), (1, putUint32 v)].flatMap Prod.snd ++ rest) :
    unmarshalUint32Frame what frame data offset = .ok (frame v, 5) := by
  have suffix : data.drop offset = t :: (putUint32 v ++ rest) := by simpa using fields
  have bound := congrArg List.length suffix
  simp only [List.length_drop, List.length_cons, List.length_append, length_putUint32] at bound
  have field := drop_byte suffix
  simp only [unmarshalUint32Frame, uint32At_of_drop field, ok_bind]
  rw [if_neg (by omega)]
  rfl

theorem unmarshalUint64Frame_marshal {data rest : List UInt8} {offset : Nat} {t : UInt8}
    (what : String) (frame : UInt64 → Frame) (v : UInt64)
    (fields : data.drop offset = [(0, [t]), (1, putUint64 v)].flatMap Prod.snd ++ rest) :
    unmarshalUint64Frame what frame data offset = .ok (frame v, 9) := by
  have suffix : data.drop offset = t :: (putUint64 v ++ rest) := by simpa using fields
  have bound := congrArg List.length suffix
  simp only [List.length_drop, List.length_cons, List.length_append, length_putUint64] at bound
  have field := drop_byte suffix
  simp only [unmarshalUint64Frame, uint64At_of_drop field, ok_bind]
  rw [if_neg (by omega)]
  rfl

theorem unmarshalPathFrame_marshal {data rest : List UInt8} {offset : Nat} {t : UInt8}
    (what : String) (frame : Vector UInt8 8 → Frame) (v : Vector UInt8 8)
    (fields : data.drop offset = [(0, [t]), (1, v.toList)].flatMap Prod.snd ++ rest) :
    unmarshalPathFrame what frame data offset = .ok (frame v, 9) := by
  have suffix : data.drop offset = t :: (v.toList ++ rest) := by simpa using fields
  have bound := congrArg List.length suffix
  simp only [List.length_drop, List.length_cons, List.length_append, Vector.length_toList] at bound
  have field : slice data (offset + 1) (offset + 9) = .ok v.toList :=
    slice_of_drop (drop_byte suffix) (by simp) (by omega)
  simp only [unmarshalPathFrame, field, ok_bind, copyArray_toList]
  rw [if_neg (by omega)]
  rfl

theorem unmarshalConnectionCloseFrame_marshal {data rest : List UInt8} {offset : Nat}
    (f : ConnectionCloseFrame)
    (suffix : data.drop offset = (Frame.connectionClose f).marshal ++ rest)
    (encodable : f.reasonPhrase.length ≤ 65535) :
    unmarshalConnectionCloseFrame data offset =
      .ok (.connectionClose f, (Frame.connectionClose f).len) := by
  have bound := end_of_marshal suffix
  rw [Frame.marshal_eq _ (by simp)] at suffix
  simp only [Frame.len] at bound
  simp only [Frame.writes, List.flatMap_cons, List.flatMap_nil, List.cons_append,
    List.nil_append, List.append_assoc] at suffix
  have code := drop_byte suffix
  have cause : data.drop (offset + 5) = _ := drop_field code (by simp)
  have length : data.drop (offset + 9) = _ := drop_field cause (by simp)
  have reason : data.drop (offset + 11) = _ := drop_field length (by simp)
  have counted : (UInt16.ofNat f.reasonPhrase.length).toNat = f.reasonPhrase.length := by
    rw [UInt16.toNat_ofNat']
    omega
  simp only [unmarshalConnectionCloseFrame, uint32At_of_drop code, uint32At_of_drop cause,
    uint16At_of_drop length, counted, ok_bind, slice_of_drop reason rfl (by omega)]
  rw [if_neg (by omega), if_neg (by omega)]
  rfl

theorem unmarshalStopSendingFrame_marshal {data rest : List UInt8} {offset : Nat}
    (streamID errorCode : UInt32)
    (suffix : data.drop offset = (Frame.stopSending streamID errorCode).marshal ++ rest) :
    unmarshalStopSendingFrame data offset = .ok (.stopSending streamID errorCode, 9) := by
  have bound := end_of_marshal suffix
  rw [Frame.marshal_eq _ (by simp)] at suffix
  simp only [Frame.len] at bound
  simp only [Frame.writes, List.flatMap_cons, List.flatMap_nil, List.cons_append,
    List.nil_append, List.append_assoc] at suffix
  have stream := drop_byte suffix
  have code : data.drop (offset + 5) = _ := drop_field stream (by simp)
  simp only [unmarshalStopSendingFrame, uint32At_of_drop stream, uint32At_of_drop code, ok_bind]
  rw [if_neg (by omega)]
  rfl

theorem unmarshalStreamDataBlockedFrame_marshal {data rest : List UInt8} {offset : Nat}
    (streamID : UInt32) (limit : UInt64)
    (suffix : data.drop offset = (Frame.streamDataBlocked streamID limit).marshal ++ rest) :
    unmarshalStreamDataBlockedFrame data offset = .ok (.streamDataBlocked streamID limit, 13) := by
  have bound := end_of_marshal suffix
  rw [Frame.marshal_eq _ (by simp)] at suffix
  simp only [Frame.len] at bound
  simp only [Frame.writes, List.flatMap_cons, List.flatMap_nil, List.cons_append,
    List.nil_append, List.append_assoc] at suffix
  have stream := drop_byte suffix
  have field : data.drop (offset + 5) = _ := drop_field stream (by simp)
  simp only [unmarshalStreamDataBlockedFrame, uint32At_of_drop stream, uint64At_of_drop field,
    ok_bind]
  rw [if_neg (by omega)]
  rfl

theorem newConnectionID_bytes (cid : ConnectionID) : newConnectionID cid.bytes = .ok cid := by
  rw [newConnectionID, dif_pos cid.bounded]

theorem unmarshalNewConnectionIDFrame_marshal {data rest : List UInt8} {offset : Nat}
    (f : NewConnectionIDFrame)
    (suffix : data.drop offset = (Frame.newConnectionID f).marshal ++ rest) :
    unmarshalNewConnectionIDFrame data offset =
      .ok (.newConnectionID f, (Frame.newConnectionID f).len) := by
  have bound := end_of_marshal suffix
  have short : f.connectionID.bytes.length ≤ 20 := f.connectionID.bounded
  rw [Frame.marshal_eq _ (by simp)] at suffix
  simp only [Frame.len, ConnectionID.len, statelessResetTokenLength] at bound
  simp only [Frame.writes, List.flatMap_cons, List.flatMap_nil, List.cons_append,
    List.nil_append, List.append_assoc] at suffix
  have seq := drop_byte suffix
  have retire : data.drop (offset + 9) = _ := drop_field seq (by simp)
  have length : data.drop (offset + 17) = _ := drop_field retire (by simp)
  have cid : data.drop (offset + 18) = _ := drop_byte length
  have token : data.drop (offset + 18 + f.connectionID.bytes.length) = _ := drop_field cid rfl
  have counted : (UInt8.ofNat f.connectionID.len).toNat = f.connectionID.bytes.length := by
    rw [UInt8.toNat_ofNat', ConnectionID.len]
    omega
  have tokenSlice : slice data (offset + 18 + f.connectionID.bytes.length)
      (offset + 18 + f.connectionID.bytes.length + 16) = .ok f.resetToken.toList :=
    slice_of_drop token (by simp) (by omega)
  simp only [unmarshalNewConnectionIDFrame, statelessResetTokenLength, uint64At_of_drop seq,
    uint64At_of_drop retire, byteAt_of_drop length, counted, ok_bind,
    slice_of_drop cid rfl (by omega), newConnectionID_bytes, tokenSlice, copyArray_toList]
  rw [if_neg (by omega), if_neg (by simp only [maxCIDLength]; omega)]
  rfl

theorem unmarshalMTUProbeFrame_marshal {data : List UInt8} {offset : Nat} (n : Int)
    (suffix : data.drop offset = (Frame.mtuProbe n).marshal) (encodable : 1 ≤ n) :
    unmarshalMTUProbeFrame data offset = .ok (.mtuProbe n, (Frame.mtuProbe n).len) := by
  have bound : offset + (Frame.mtuProbe n).len + ([] : List UInt8).length = data.length :=
    end_of_marshal (by simpa using suffix)
  have size : (Frame.mtuProbe n).len = n.toNat := by
    rw [Frame.len, if_neg (by omega)]
  have remaining : (data.length : Int) - offset = n := by
    rw [List.length_nil, size] at bound
    omega
  simp only [unmarshalMTUProbeFrame, remaining, size]
  rw [if_neg (by omega)]
  rfl

theorem byteAt_marshal {data rest : List UInt8} {offset : Nat} {f : Frame}
    (suffix : data.drop offset = f.marshal ++ rest) : byteAt data offset = .ok f.type := by
  by_cases probe : ∃ n, f = .mtuProbe n
  · obtain ⟨n, rfl⟩ := probe
    rw [marshal_mtuProbe] at suffix
    exact byteAt_of_drop suffix
  · rw [f.marshal_eq (fun n same => probe ⟨n, same⟩)] at suffix
    cases f <;> exact byteAt_of_drop suffix

/-- Decoding at an encoded frame returns the frame and its length, whatever
follows it. A path-MTU probe has no length of its own and must be last. -/
theorem unmarshalFrame_marshal {data rest : List UInt8} {offset : Nat} (f : Frame)
    (suffix : data.drop offset = f.marshal ++ rest) (encodable : f.Encodable)
    (last : ∀ n, f = .mtuProbe n → rest = []) :
    unmarshalFrame data offset = .ok (f, f.len) := by
  have bound := end_of_marshal suffix
  have positive := f.len_pos
  have typeByte := byteAt_marshal suffix
  have fields (delimited : ∀ n, f ≠ .mtuProbe n) :
      data.drop offset = f.writes.flatMap Prod.snd ++ rest := by
    rw [← f.marshal_eq delimited, suffix]
  simp only [unmarshalFrame, typeByte, ok_bind]
  rw [if_neg (by omega)]
  cases f with
  | padding => rfl
  | ping => rfl
  | ack f => exact unmarshalAckFrame_marshal f suffix encodable
  | stream f => exact unmarshalStreamFrame_marshal f suffix encodable
  | windowUpdate v => exact unmarshalUint32Frame_marshal _ _ v (fields (by simp))
  | maxData v => exact unmarshalUint64Frame_marshal _ _ v (fields (by simp))
  | resetStream v => exact unmarshalUint32Frame_marshal _ _ v (fields (by simp))
  | maxStreams v => exact unmarshalUint32Frame_marshal _ _ v (fields (by simp))
  | mtuProbe n =>
    rw [last n rfl, List.append_nil] at suffix
    exact unmarshalMTUProbeFrame_marshal n suffix encodable
  | pathChallenge v => exact unmarshalPathFrame_marshal _ _ v (fields (by simp))
  | pathResponse v => exact unmarshalPathFrame_marshal _ _ v (fields (by simp))
  | connectionClose f => exact unmarshalConnectionCloseFrame_marshal f suffix encodable
  | stopSending streamID code => exact unmarshalStopSendingFrame_marshal streamID code suffix
  | dataBlocked v => exact unmarshalUint64Frame_marshal _ _ v (fields (by simp))
  | streamDataBlocked streamID limit =>
    exact unmarshalStreamDataBlockedFrame_marshal streamID limit suffix
  | newConnectionID f => exact unmarshalNewConnectionIDFrame_marshal f suffix
  | retireConnectionID v => exact unmarshalUint64Frame_marshal _ _ v (fields (by simp))

/- The parsers look before they read, so a frame they accept lies inside the
data, and every frame is at least its type byte. -/

/-- The outcome of a parser that started at `offset`, when it accepts. -/
def Frame.Consumes (data : List UInt8) (offset : Nat)
    (parsed : Except DecodeError (Frame × Nat)) : Prop :=
  ∀ frame n, parsed = .ok (frame, n) → 0 < n ∧ offset + n ≤ data.length

theorem unmarshalAckFrame_consumes (data : List UInt8) (offset : Nat) :
    Frame.Consumes data offset (unmarshalAckFrame data offset) := by
  intro frame n accepted
  unfold unmarshalAckFrame at accepted
  split at accepted
  · cases accepted
  · simp only [bind_eq_ok] at accepted
    obtain ⟨largest, -, delay, -, count, -, first, -, accepted⟩ := accepted
    split at accepted
    · cases accepted
    · obtain ⟨ranges, -, accepted⟩ := bind_eq_ok.mp accepted
      cases accepted
      omega

theorem unmarshalStreamFrame_consumes (data : List UInt8) (offset : Nat) :
    Frame.Consumes data offset (unmarshalStreamFrame data offset) := by
  intro frame n accepted
  unfold unmarshalStreamFrame at accepted
  split at accepted
  · cases accepted
  · simp only [bind_eq_ok] at accepted
    obtain ⟨flags, -, position, -, length, -, accepted⟩ := accepted
    split at accepted
    · cases accepted
    · obtain ⟨payload, -, accepted⟩ := bind_eq_ok.mp accepted
      cases accepted
      simp only [streamFrameHeaderLen] at *
      omega

theorem unmarshalUint32Frame_consumes (what : String) (frame : UInt32 → Frame)
    (data : List UInt8) (offset : Nat) :
    Frame.Consumes data offset (unmarshalUint32Frame what frame data offset) := by
  intro parsed n accepted
  unfold unmarshalUint32Frame at accepted
  split at accepted
  · cases accepted
  · obtain ⟨v, -, accepted⟩ := bind_eq_ok.mp accepted
    cases accepted
    omega

theorem unmarshalUint64Frame_consumes (what : String) (frame : UInt64 → Frame)
    (data : List UInt8) (offset : Nat) :
    Frame.Consumes data offset (unmarshalUint64Frame what frame data offset) := by
  intro parsed n accepted
  unfold unmarshalUint64Frame at accepted
  split at accepted
  · cases accepted
  · obtain ⟨v, -, accepted⟩ := bind_eq_ok.mp accepted
    cases accepted
    omega

theorem unmarshalPathFrame_consumes (what : String) (frame : Vector UInt8 8 → Frame)
    (data : List UInt8) (offset : Nat) :
    Frame.Consumes data offset (unmarshalPathFrame what frame data offset) := by
  intro parsed n accepted
  unfold unmarshalPathFrame at accepted
  split at accepted
  · cases accepted
  · obtain ⟨v, -, accepted⟩ := bind_eq_ok.mp accepted
    cases accepted
    omega

theorem unmarshalMTUProbeFrame_consumes (data : List UInt8) (offset : Nat) :
    Frame.Consumes data offset (unmarshalMTUProbeFrame data offset) := by
  intro frame n accepted
  unfold unmarshalMTUProbeFrame at accepted
  dsimp only at accepted
  split at accepted
  · cases accepted
  · cases accepted
    omega

theorem unmarshalConnectionCloseFrame_consumes (data : List UInt8) (offset : Nat) :
    Frame.Consumes data offset (unmarshalConnectionCloseFrame data offset) := by
  intro frame n accepted
  unfold unmarshalConnectionCloseFrame at accepted
  split at accepted
  · cases accepted
  · simp only [bind_eq_ok] at accepted
    obtain ⟨code, -, cause, -, length, -, accepted⟩ := accepted
    split at accepted
    · cases accepted
    · obtain ⟨reason, -, accepted⟩ := bind_eq_ok.mp accepted
      cases accepted
      omega

theorem unmarshalStopSendingFrame_consumes (data : List UInt8) (offset : Nat) :
    Frame.Consumes data offset (unmarshalStopSendingFrame data offset) := by
  intro frame n accepted
  unfold unmarshalStopSendingFrame at accepted
  split at accepted
  · cases accepted
  · simp only [bind_eq_ok] at accepted
    obtain ⟨stream, -, code, -, accepted⟩ := accepted
    cases accepted
    omega

theorem unmarshalStreamDataBlockedFrame_consumes (data : List UInt8) (offset : Nat) :
    Frame.Consumes data offset (unmarshalStreamDataBlockedFrame data offset) := by
  intro frame n accepted
  unfold unmarshalStreamDataBlockedFrame at accepted
  split at accepted
  · cases accepted
  · simp only [bind_eq_ok] at accepted
    obtain ⟨stream, -, limit, -, accepted⟩ := accepted
    cases accepted
    omega

theorem unmarshalNewConnectionIDFrame_consumes (data : List UInt8) (offset : Nat) :
    Frame.Consumes data offset (unmarshalNewConnectionIDFrame data offset) := by
  intro frame n accepted
  unfold unmarshalNewConnectionIDFrame at accepted
  split at accepted
  · cases accepted
  · simp only [bind_eq_ok] at accepted
    obtain ⟨seq, -, retire, -, length, -, accepted⟩ := accepted
    split at accepted
    · cases accepted
    · simp only [bind_eq_ok] at accepted
      obtain ⟨bytes, -, cid, -, token, -, accepted⟩ := accepted
      cases accepted
      omega

theorem unmarshalFrame_consumes (data : List UInt8) (offset : Nat) :
    Frame.Consumes data offset (unmarshalFrame data offset) := by
  unfold unmarshalFrame
  split
  · intro frame n accepted
    cases accepted
  · intro frame n accepted
    obtain ⟨ft, -, accepted⟩ := bind_eq_ok.mp accepted
    split at accepted
    case h_1 | h_2 =>
      cases accepted
      omega
    case h_3 => exact unmarshalAckFrame_consumes data offset frame n accepted
    case h_4 => exact unmarshalStreamFrame_consumes data offset frame n accepted
    case h_5 | h_7 | h_8 => exact unmarshalUint32Frame_consumes _ _ data offset frame n accepted
    case h_6 | h_14 | h_17 => exact unmarshalUint64Frame_consumes _ _ data offset frame n accepted
    case h_9 => exact unmarshalMTUProbeFrame_consumes data offset frame n accepted
    case h_10 | h_11 => exact unmarshalPathFrame_consumes _ _ data offset frame n accepted
    case h_12 => exact unmarshalConnectionCloseFrame_consumes data offset frame n accepted
    case h_13 => exact unmarshalStopSendingFrame_consumes data offset frame n accepted
    case h_15 => exact unmarshalStreamDataBlockedFrame_consumes data offset frame n accepted
    case h_16 => exact unmarshalNewConnectionIDFrame_consumes data offset frame n accepted
    case h_18 => cases accepted

end Udx
