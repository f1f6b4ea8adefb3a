import Udx.DecodeSafety

set_option autoImplicit false

/- Version negotiation: the packet that lists versions, and the choice of one. -/

namespace Udx

open Bytes (Tiles drop_field drop_byte)

/-- The supported versions in order of preference. -/
def supportedVersions : List UInt32 := [versionV3, versionV2, versionV1]

def isVersionSupported (version : UInt32) : Bool :=
  supportedVersions.any fun v => v == version

/-- The first of the supported versions that the client lists, or zero. -/
def negotiateVersion (clientVersions : List UInt32) : UInt32 :=
  (supportedVersions.find? fun sv => clientVersions.any fun cv => sv == cv).getD 0

theorem isVersionSupported_iff {version : UInt32} :
    isVersionSupported version = true ↔ version ∈ supportedVersions := by
  simp only [isVersionSupported, List.any_eq_true, beq_iff_eq, exists_eq_right]

theorem supportedVersions_descending : supportedVersions.Pairwise (· ≥ ·) := by decide

/-- In a list that descends, what is found first is the greatest. -/
theorem le_of_find? {versions : List UInt32} {test : UInt32 → Bool} {found v : UInt32}
    (descending : versions.Pairwise (· ≥ ·)) (first : versions.find? test = some found)
    (member : v ∈ versions) (passes : test v = true) : v ≤ found := by
  obtain ⟨-, before, after, rfl, none⟩ := List.find?_eq_some_iff_append.mp first
  rcases List.mem_append.mp member with early | late
  · have fails := none v early
    rw [passes] at fails
    cases fails
  · rcases List.mem_cons.mp late with rfl | later
    · exact UInt32.le_refl v
    · exact (List.pairwise_cons.mp (List.pairwise_append.mp descending).2.1).1 v later

/-- The version chosen is zero or one that both sides have, and no version that both
sides have is above it. -/
theorem negotiateVersion_highest (clientVersions : List UInt32) :
    (negotiateVersion clientVersions = 0 ∨ negotiateVersion clientVersions ∈ clientVersions ∧
        isVersionSupported (negotiateVersion clientVersions) = true) ∧
      ∀ v ∈ clientVersions, isVersionSupported v = true → v ≤ negotiateVersion clientVersions := by
  have lists : ∀ sv, clientVersions.any (fun cv => sv == cv) = true ↔ sv ∈ clientVersions := by
    simp
  unfold negotiateVersion
  cases first : supportedVersions.find? fun sv => clientVersions.any fun cv => sv == cv with
  | none =>
    refine ⟨.inl rfl, fun v member supported => ?_⟩
    have absent := List.find?_eq_none.mp first v (isVersionSupported_iff.mp supported)
    exact absurd ((lists v).mpr member) absent
  | some found =>
    have listed := (lists found).mp (List.find?_eq_some_iff_append.mp first).1
    have supported := isVersionSupported_iff.mpr (List.mem_of_find?_eq_some first)
    refine ⟨.inr ⟨listed, supported⟩, fun v member supported => ?_⟩
    exact le_of_find? supportedVersions_descending first (isVersionSupported_iff.mp supported)
      ((lists v).mpr member)

/-- The loop that appends the versions from `offset`. -/
def versionWrites : Nat → List UInt32 → List Bytes.Write
  | _, [] => []
  | offset, v :: rest => (offset, putUint32 v) :: versionWrites (offset + 4) rest

namespace VersionNegotiationPacket

variable (p : VersionNegotiationPacket)

def size : Nat :=
  4 + 1 + p.destinationCID.len + 1 + p.sourceCID.len + p.supportedVersions.length * 4

/-- The assignments `Marshal` makes into its buffer, in order. -/
def writes : List Bytes.Write :=
  let dcid := 5
  let scid := dcid + p.destinationCID.len + 1
  [(0, putUint32 0),
    (4, [UInt8.ofNat p.destinationCID.len]), (dcid, p.destinationCID.bytes),
    (dcid + p.destinationCID.len, [UInt8.ofNat p.sourceCID.len]), (scid, p.sourceCID.bytes)] ++
    versionWrites (scid + p.sourceCID.len) p.supportedVersions

def marshal : List UInt8 := Bytes.fill p.size p.writes

end VersionNegotiationPacket

theorem versionWrites_bytes (offset : Nat) (versions : List UInt32) :
    (versionWrites offset versions).flatMap Prod.snd = versions.flatMap putUint32 := by
  induction versions generalizing offset with
  | nil => rfl
  | cons v rest ih => rw [versionWrites, List.flatMap_cons, List.flatMap_cons, ih]

theorem versionWrites_tiles (offset : Nat) (versions : List UInt32) :
    Tiles (offset + versions.length * 4) offset (versionWrites offset versions) := by
  induction versions generalizing offset with
  | nil => simp [versionWrites, Tiles]
  | cons v rest ih =>
    refine ⟨rfl, ?_⟩
    have length : offset + (v :: rest).length * 4 = offset + 4 + rest.length * 4 := by
      rw [List.length_cons]
      omega
    rw [length, length_putUint32]
    exact ih (offset + 4)

theorem VersionNegotiationPacket.tiles (p : VersionNegotiationPacket) :
    Tiles p.size 0 p.writes := by
  have versions := versionWrites_tiles
    (4 + 1 + p.destinationCID.len + 1 + p.sourceCID.len) p.supportedVersions
  simp only [writes, size, List.cons_append, List.nil_append, Tiles, List.length_singleton,
    length_putUint32, ConnectionID.len, Nat.zero_add, Nat.reduceAdd, true_and,
    Nat.add_assoc] at versions ⊢
  exact versions

theorem VersionNegotiationPacket.marshal_eq (p : VersionNegotiationPacket) :
    p.marshal = putUint32 0 ++ UInt8.ofNat p.destinationCID.len :: (p.destinationCID.bytes ++
      UInt8.ofNat p.sourceCID.len :: (p.sourceCID.bytes ++
        p.supportedVersions.flatMap putUint32)) := by
  rw [marshal, Bytes.fill_tiles p.tiles]
  simp only [writes, List.cons_append, List.nil_append, List.flatMap_cons, versionWrites_bytes]

variable {data : List UInt8} {offset : Nat}

/-- The versions read are those written from `offset` on, and what is left is too
short for another. -/
theorem unmarshalVersions_iff {versions : List UInt32} :
    unmarshalVersions data offset = .ok versions ↔
      ∃ rest, data.drop offset = versions.flatMap putUint32 ++ rest ∧ rest.length < 4 := by
  induction versions generalizing offset with
  | nil =>
    rw [unmarshalVersions]
    split
    · rename_i inside
      constructor
      · intro read
        obtain ⟨version, -, read⟩ := bind_eq_ok.mp read
        obtain ⟨versions, -, result⟩ := bind_eq_ok.mp read
        cases result
      · rintro ⟨rest, suffix, short⟩
        have length := congrArg List.length suffix
        simp only [List.flatMap_nil, List.nil_append, List.length_drop] at length
        omega
    · rename_i outside
      refine ⟨fun _ => ⟨data.drop offset, rfl, ?_⟩, fun _ => rfl⟩
      rw [List.length_drop]
      omega
  | cons v versions ih =>
    rw [unmarshalVersions]
    constructor
    · intro read
      split at read
      · obtain ⟨version, first, read⟩ := bind_eq_ok.mp read
        obtain ⟨others, loop, result⟩ := bind_eq_ok.mp read
        cases result
        obtain ⟨rest, suffix, short⟩ := ih.mp loop
        refine ⟨rest, ?_, short⟩
        rw [drop_of_uint32At first, suffix, List.flatMap_cons, List.append_assoc]
      · cases read
    · rintro ⟨rest, suffix, short⟩
      rw [List.flatMap_cons, List.append_assoc] at suffix
      have length := congrArg List.length suffix
      simp only [List.length_drop, List.length_append, length_putUint32] at length
      have loop := ih.mpr ⟨rest, drop_field suffix (by rw [length_putUint32]), short⟩
      rw [dif_pos (by omega), uint32At_of_drop suffix, ok_bind, loop]
      rfl

theorem mapError_eq_ok {ε δ α : Type} {wrap : ε → δ} {x : Except ε α} {a : α} :
    x.mapError wrap = .ok a ↔ x = .ok a := by
  cases x <;> simp [Except.mapError]

/-- The packet's own bytes are accepted, whatever short tail follows them. -/
theorem unmarshalVersionNegotiation_marshal (p : VersionNegotiationPacket) {rest : List UInt8}
    (short : rest.length < 4) : unmarshalVersionNegotiation (p.marshal ++ rest) = .ok p := by
  have dcidShort : p.destinationCID.bytes.length ≤ 20 := p.destinationCID.bounded
  have scidShort : p.sourceCID.bytes.length ≤ 20 := p.sourceCID.bounded
  have whole : (p.marshal ++ rest).drop 0 = _ := congrArg (· ++ rest) p.marshal_eq
  generalize p.marshal ++ rest = data at whole ⊢
  simp only [List.append_assoc, List.cons_append, ConnectionID.len] at whole
  have length := congrArg List.length whole
  simp only [List.drop_zero, List.length_append, List.length_cons, length_putUint32] at length
  have dcidLen : data.drop 4 = _ := drop_field whole (by simp)
  have dcid : data.drop 5 = _ := drop_byte dcidLen
  have scidLen : data.drop (5 + p.destinationCID.bytes.length) = _ := drop_field dcid rfl
  have scid : data.drop (5 + p.destinationCID.bytes.length + 1) = _ := drop_byte scidLen
  have versions := unmarshalVersions_iff.mpr ⟨rest, drop_field scid rfl, short⟩
  have dcidCounted : (UInt8.ofNat p.destinationCID.bytes.length).toNat =
      p.destinationCID.bytes.length := by
    rw [UInt8.toNat_ofNat']
    omega
  have scidCounted : (UInt8.ofNat p.sourceCID.bytes.length).toNat = p.sourceCID.bytes.length := by
    rw [UInt8.toNat_ofNat']
    omega
  have negotiated : unmarshalNegotiated data = .ok p := by
    simp only [unmarshalNegotiated, byteAt_of_drop dcidLen, dcidCounted,
      slice_of_drop dcid rfl (by omega), newConnectionID_bytes, byteAt_of_drop scidLen,
      scidCounted, slice_of_drop scid rfl (by omega), versions, ok_bind]
    rw [if_neg (by simp only [maxCIDLength]; omega), if_neg (by omega),
      if_neg (by simp only [maxCIDLength]; omega)]
    rfl
  rw [unmarshalVersionNegotiation, if_neg (by omega), mapError_eq_ok.mpr (uint32At_of_drop whole),
    ok_bind, if_neg (not_not_intro rfl), mapError_eq_ok.mpr negotiated]

/-- A byte string is accepted exactly if it is the encoding of the packet it is decoded
to, followed by at most three bytes. -/
theorem unmarshalVersionNegotiation_iff (data : List UInt8) (p : VersionNegotiationPacket) :
    unmarshalVersionNegotiation data = .ok p ↔
      ∃ rest, data = p.marshal ++ rest ∧ rest.length < 4 := by
  constructor
  · intro accepted
    unfold unmarshalVersionNegotiation at accepted
    obtain ⟨-, accepted⟩ := of_guard accepted
    obtain ⟨version, versionRead, accepted⟩ := bind_eq_ok.mp accepted
    obtain ⟨zero, accepted⟩ := of_guard accepted
    obtain rfl := not_not.mp zero
    have whole := drop_of_uint32At (mapError_eq_ok.mp versionRead)
    have accepted := mapError_eq_ok.mp accepted
    unfold unmarshalNegotiated at accepted
    obtain ⟨dcidLen, dcidLenRead, accepted⟩ := bind_eq_ok.mp accepted
    obtain ⟨-, accepted⟩ := of_guard accepted
    obtain ⟨dcidBytes, dcidRead, accepted⟩ := bind_eq_ok.mp accepted
    obtain ⟨dcid, dcidMade, accepted⟩ := bind_eq_ok.mp accepted
    obtain ⟨-, accepted⟩ := of_guard accepted
    obtain ⟨scidLen, scidLenRead, accepted⟩ := bind_eq_ok.mp accepted
    obtain ⟨-, accepted⟩ := of_guard accepted
    obtain ⟨scidBytes, scidRead, accepted⟩ := bind_eq_ok.mp accepted
    obtain ⟨scid, scidMade, accepted⟩ := bind_eq_ok.mp accepted
    obtain ⟨versions, loop, result⟩ := bind_eq_ok.mp accepted
    cases result
    obtain ⟨dcidTail, dcidCounted⟩ := drop_of_slice dcidRead
    obtain ⟨scidTail, scidCounted⟩ := drop_of_slice scidRead
    have dcidCounted : dcidBytes.length = dcidLen.toNat := by omega
    have scidCounted : scidBytes.length = scidLen.toNat := by omega
    obtain ⟨rest, suffix, short⟩ := unmarshalVersions_iff.mp loop
    refine ⟨rest, ?_, short⟩
    rw [List.drop_zero, drop_of_byteAt dcidLenRead, dcidTail, drop_of_byteAt scidLenRead, scidTail,
      suffix] at whole
    rw [whole, VersionNegotiationPacket.marshal_eq]
    simp [ConnectionID.len, bytes_of_newConnectionID dcidMade, bytes_of_newConnectionID scidMade,
      dcidCounted, scidCounted]
  · rintro ⟨rest, rfl, short⟩
    exact unmarshalVersionNegotiation_marshal p short

end Udx
