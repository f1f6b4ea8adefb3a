import Mathlib.Order.Interval.Finset.Nat
import Udx.FlowLimits
import Udx.Reception
import Udx.StreamReassembly

set_option autoImplicit false

/- The accounts of the out-of-order buffer: which bytes it holds, against which
bytes have been received. -/

namespace Udx

open Slices

namespace Stream

/-- The offsets of the bytes held, a byte held twice listed twice. -/
def heldOffsets (s : Stream) : List Nat :=
  s.recvOOO.entries.flatMap fun c => List.range' c.1 c.2.length

/-- Every missing byte is held once, and counted once. -/
structure Tidy (s : Stream) (received : Finset Nat) : Prop where
  above : ∀ offset ∈ s.recvOOO, s.recvOffset < offset
  disjoint : s.recvOOO.entries.Pairwise fun a b =>
    Disjoint (Finset.Ico a.1 (a.1 + a.2.length)) (Finset.Ico b.1 (b.1 + b.2.length))
  total : s.oooBytes = (s.recvOOO.entries.map fun c => c.2.length).sum
  buffered : s.streamFC.bufferedBytes = (received.filter (s.bytesRead ≤ ·)).card

/-- The chunk has no byte in common with those held. One that starts where a held
chunk starts is dropped, so it must add nothing to them. -/
def FitsHeld (s : Stream) (offset : Nat) (data : List UInt8) : Prop :=
  if offset ∈ s.recvOOO then
    ∀ x, offset ≤ x → x < offset + data.length → x ∈ s.heldOffsets
  else
    (data ≠ [] ∨ offset ≤ s.recvOffset) ∧
      ∀ x, offset ≤ x → x < offset + data.length → x ∉ s.heldOffsets

/-- A stream, open, whose bytes received are those delivered and those held, none
of them twice. -/
structure ByteAccounts (n : Nat) (s : Stream) (received : Finset Nat) : Prop where
  once : (List.range s.recvOffset ++ s.heldOffsets).Nodup
  whole : received = (List.range s.recvOffset ++ s.heldOffsets).toFinset
  inside : ∀ x ∈ received, x < n
  filled : ∀ c ∈ s.recvOOO.entries, c.2 ≠ []
  next : s.recvOffset ∉ s.recvOOO
  total : s.oooBytes = s.heldOffsets.length
  recvd : s.streamFC.dataRecvd = received.card
  consumed : s.streamFC.dataConsumed = s.bytesRead
  read : s.bytesRead + s.recvBuf.length = s.recvOffset
  unended : s.finSeen = false
  lawful : s.flowControlViolation = false
  live : s.state ≠ .closed ∧ s.state ≠ .reset

variable {s : Stream} {n offset : Nat} {data : List UInt8} {received : Finset Nat}

theorem mem_heldOffsets {x : Nat} :
    x ∈ s.heldOffsets ↔ ∃ c ∈ s.recvOOO.entries, c.1 ≤ x ∧ x < c.1 + c.2.length := by
  simp only [heldOffsets, List.mem_flatMap, List.mem_range'_1]

theorem length_heldOffsets :
    s.heldOffsets.length = (s.recvOOO.entries.map fun c => c.2.length).sum := by
  simp [heldOffsets, List.length_flatMap]

theorem perm_heldOffsets {chunk : List UInt8} (found : s.recvOOO.lookup offset = some chunk)
    {t : Stream} (rest : t.recvOOO = s.recvOOO.erase offset) :
    s.heldOffsets.Perm (List.range' offset chunk.length ++ t.heldOffsets) := by
  unfold heldOffsets
  rw [rest]
  exact (Tables.perm_erase found).flatMap_right _

namespace ByteAccounts

variable (accounts : s.ByteAccounts n received)
include accounts

theorem mem_received {x : Nat} : x ∈ received ↔ x < s.recvOffset ∨ x ∈ s.heldOffsets := by
  rw [accounts.whole, List.mem_toFinset, List.mem_append, List.mem_range]

theorem above_of_held {x : Nat} (held : x ∈ s.heldOffsets) : s.recvOffset ≤ x := by
  by_contra below
  exact (List.nodup_append'.mp accounts.once).2.2 (List.mem_range.mpr (Nat.lt_of_not_le below)) held

theorem held_of_mem (member : offset ∈ s.recvOOO) : offset ∈ s.heldOffsets := by
  obtain ⟨chunk, found⟩ := Option.isSome_iff_exists.mp (AList.lookup_isSome.mpr member)
  have entry := Tables.mem_entries_iff.mpr found
  have filled := List.length_pos_iff.mpr (accounts.filled _ entry)
  exact mem_heldOffsets.mpr ⟨_, entry, Nat.le_refl _, by dsimp only at filled ⊢; omega⟩

theorem above (member : offset ∈ s.recvOOO) : s.recvOffset < offset := by
  refine Nat.lt_of_le_of_ne (accounts.above_of_held (accounts.held_of_mem member)) ?_
  rintro rfl
  exact accounts.next member

theorem card_unread {more : Finset Nat} (grown : received ⊆ more) :
    ((more.filter (s.bytesRead ≤ ·)).card : Int) = more.card - s.bytesRead := by
  have split := Finset.card_filter_add_card_filter_not (s := more) (s.bytesRead ≤ ·)
  have below : more.filter (¬ s.bytesRead ≤ ·) = Finset.range s.bytesRead := by
    ext x
    rw [Finset.mem_filter, Finset.mem_range, Nat.not_le, and_iff_right_iff_imp]
    intro before
    have := accounts.read
    exact grown (accounts.mem_received.mpr (.inl (by omega)))
  rw [below, Finset.card_range] at split
  omega

theorem tidy : s.Tidy received := by
  refine ⟨fun offset member => accounts.above member, ?_, ?_, ?_⟩
  · have disjoint := (List.nodup_flatMap.mp (List.nodup_append'.mp accounts.once).2.1).2
    refine disjoint.imp fun {a b} apart => ?_
    rw [Finset.disjoint_left]
    intro x inA inB
    rw [Finset.mem_Ico] at inA inB
    exact apart (List.mem_range'_1.mpr inA) (List.mem_range'_1.mpr inB)
  · rw [accounts.total, length_heldOffsets]
  · rw [StreamFlowController.bufferedBytes, accounts.recvd, accounts.consumed,
      accounts.card_unread (Finset.Subset.refl _)]

end ByteAccounts

/-- The bytes up to the delivered end and those held, as the release loop sees
them. -/
structure SameOffsets (n : Nat) (s t : Stream) : Prop where
  same : (List.range t.recvOffset ++ t.heldOffsets).Perm
    (List.range s.recvOffset ++ s.heldOffsets)
  filled : ∀ c ∈ t.recvOOO.entries, c.2 ≠ []
  total : t.oooBytes - t.heldOffsets.length = s.oooBytes - s.heldOffsets.length
  buffer : t.recvBuf.length + s.recvOffset = s.recvBuf.length + t.recvOffset

/-- One round: the chunk at the delivered end moves from the held to the
delivered bytes. -/
theorem sameOffsets_take (small : n < 2 ^ 64) (inside : ∀ x ∈ s.heldOffsets, x < n)
    (filled : ∀ c ∈ s.recvOOO.entries, c.2 ≠ []) {chunk : List UInt8}
    (found : s.recvOOO.lookup s.recvOffset = some chunk) :
    SameOffsets n s { s with
      recvOOO := s.recvOOO.erase s.recvOffset
      oooBytes := s.oooBytes - chunk.length
      recvBuf := s.recvBuf ++ chunk
      recvOffset := (s.recvOffset + chunk.length) % 2 ^ 64 } := by
  have entry := Tables.mem_entries_iff.mpr found
  have some' := List.length_pos_iff.mpr (filled _ entry)
  dsimp only at some'
  have last : s.recvOffset + chunk.length - 1 < n :=
    inside _ (mem_heldOffsets.mpr ⟨_, entry, by dsimp only; omega⟩)
  have stop : (s.recvOffset + chunk.length) % 2 ^ 64 = s.recvOffset + chunk.length :=
    Nat.mod_eq_of_lt (by omega)
  rw [stop]
  generalize settled : ({ s with
    recvOOO := s.recvOOO.erase s.recvOffset
    oooBytes := s.oooBytes - chunk.length
    recvBuf := s.recvBuf ++ chunk
    recvOffset := s.recvOffset + chunk.length } : Stream) = t
  have held := perm_heldOffsets found (t := t) (by rw [← settled])
  refine ⟨?_, ?_, ?_, ?_⟩
  · have front : List.range t.recvOffset =
        List.range s.recvOffset ++ List.range' s.recvOffset chunk.length := by
      rw [← settled, List.range'_eq_map_range]
      exact List.range_add
    rw [front, List.append_assoc]
    exact held.symm.append_left _
  · rw [← settled]
    intro c member
    exact filled c ((List.kerase_sublist _ _).subset member)
  · have fewer := held.length_eq
    rw [List.length_append, List.length_range'] at fewer
    rw [← settled] at fewer ⊢
    dsimp only at fewer ⊢
    omega
  · rw [← settled]
    dsimp only
    rw [List.length_append]
    omega

theorem sameOffsets_release (small : n < 2 ^ 64) (fuel : Nat) {s : Stream}
    (inside : ∀ x ∈ List.range s.recvOffset ++ s.heldOffsets, x < n)
    (filled : ∀ c ∈ s.recvOOO.entries, c.2 ≠ []) : SameOffsets n s (release fuel s) := by
  induction fuel generalizing s with
  | zero => exact ⟨.refl _, filled, rfl, rfl⟩
  | succ fuel ih =>
    rw [release]
    split
    · exact ⟨.refl _, filled, rfl, rfl⟩
    · rename_i chunk found
      have first := sameOffsets_take small (fun x held => inside x (List.mem_append_right _ held))
        filled found
      have rest := ih (fun x member => inside x (first.same.subset member)) first.filled
      have one := first.buffer
      have more := rest.buffer
      exact ⟨rest.same.trans first.same, rest.filled, rest.total.trans first.total, by omega⟩

def span (offset : Nat) (data : List UInt8) : Finset Nat :=
  Finset.Ico offset (offset + data.length)

namespace ByteAccounts

variable (accounts : s.ByteAccounts n received)
include accounts

/-- The chunk adds to the bytes received what is neither delivered nor held. -/
theorem mem_added {x : Nat} :
    x ∈ span offset data \ received ↔
      (offset ≤ x ∧ x < offset + data.length) ∧ s.recvOffset ≤ x ∧ x ∉ s.heldOffsets := by
  rw [Finset.mem_sdiff, span, Finset.mem_Ico, accounts.mem_received, not_or, Nat.not_lt]

/-- All of the chunk from the delivered end on is new exactly if none of it is
held. -/
theorem card_added_iff {start : Nat} (least : start = max offset s.recvOffset) :
    (span offset data \ received).card = offset + data.length - start ↔
      ∀ x, offset ≤ x → x < offset + data.length → x ∉ s.heldOffsets := by
  have part : span offset data \ received ⊆ Finset.Ico start (offset + data.length) := by
    intro x new
    have := accounts.mem_added.mp new
    rw [Finset.mem_Ico]
    omega
  rw [← Nat.card_Ico]
  constructor
  · intro all x from' to' held
    have same := Finset.eq_of_subset_of_card_le part all.ge
    have delivered := accounts.above_of_held held
    have new : x ∈ span offset data \ received := by
      rw [same, Finset.mem_Ico]
      omega
    exact (accounts.mem_added.mp new).2.2 held
  · intro none
    refine congrArg Finset.card (Finset.Subset.antisymm part fun x later => ?_)
    rw [Finset.mem_Ico] at later
    exact accounts.mem_added.mpr ⟨by omega, by omega, none x (by omega) later.2⟩

/-- A delivery that leaves the stream open: the bytes counted are those that were
new exactly if the chunk fits. -/
theorem fitsHeld_iff (small : n < 2 ^ 64) (within : offset + data.length ≤ n)
    (nonempty : offset ∉ s.recvOOO → data ≠ [] ∨ offset ≤ s.recvOffset)
    (lawful : (s.placeLocked offset data).1.flowControlViolation = false) :
    s.FitsHeld offset data ↔
      (span offset data \ received).card = (s.placeLocked offset data).2 := by
  have stop : (offset + data.length) % 2 ^ 64 = offset + data.length :=
    Nat.mod_eq_of_lt (by omega)
  have placed := s.placed_placeLocked offset data
  generalize s.placeLocked offset data = out at placed lawful ⊢
  -- a chunk that starts among the delivered bytes starts no held one
  have absent : offset ≤ s.recvOffset → offset ∉ s.recvOOO := fun begun member =>
    Nat.not_lt.mpr begun (accounts.above member)
  cases placed with
  | known behind =>
    rw [stop] at behind
    have none : span offset data \ received = ∅ := by
      refine Finset.eq_empty_of_forall_notMem fun x new => ?_
      have := accounts.mem_added.mp new
      omega
    rw [none, FitsHeld, if_neg (absent (by omega))]
    refine iff_of_true ⟨nonempty (absent (by omega)), fun x from' to' held => ?_⟩ rfl
    have := accounts.above_of_held held
    omega
  | held ahead present =>
    rw [FitsHeld, if_pos present, Finset.card_eq_zero, Finset.eq_empty_iff_forall_notMem]
    refine forall_congr' fun x => ?_
    rw [accounts.mem_added]
    constructor
    · rintro all ⟨⟨from', to'⟩, -, new⟩
      exact new (all from' to')
    · intro none from' to'
      by_contra new
      exact none ⟨⟨from', to'⟩, by omega, new⟩
  | excess => cases lawful
  | early beyond ahead absent' =>
    rw [FitsHeld, if_neg absent', and_iff_right (nonempty absent'),
      ← accounts.card_added_iff (Nat.max_eq_left (Nat.le_of_lt ahead)).symm,
      Nat.add_sub_cancel_left]
  | next beyond begun =>
    rw [stop] at beyond
    rw [FitsHeld, if_neg (absent begun), and_iff_right (nonempty (absent begun)),
      ← accounts.card_added_iff (Nat.max_eq_right begun).symm]
    have : offset + data.length - s.recvOffset = data.length - (s.recvOffset - offset) := by omega
    rw [this]

theorem hold (fits : s.FitsHeld offset data) (absent : offset ∉ s.recvOOO)
    (ahead : s.recvOffset < offset) (within : offset + data.length ≤ n) {fc : StreamFlowController}
    (recvd : fc.dataRecvd = (received ∪ span offset data).card)
    (consumed : fc.dataConsumed = s.bytesRead) :
    ByteAccounts n
      { s with
        recvOOO := s.recvOOO.insert offset data
        oooBytes := s.oooBytes + data.length
        streamFC := fc } (received ∪ span offset data) := by
  rw [FitsHeld, if_neg absent] at fits
  obtain ⟨nonempty, new⟩ := fits
  generalize stored : ({ s with
    recvOOO := s.recvOOO.insert offset data
    oooBytes := s.oooBytes + data.length
    streamFC := fc } : Stream) = t
  have entries : t.recvOOO.entries = ⟨offset, data⟩ :: s.recvOOO.entries := by
    rw [← stored]
    exact AList.entries_insert_of_notMem absent
  have held : t.heldOffsets = List.range' offset data.length ++ s.heldOffsets := by
    rw [heldOffsets, entries]
    rfl
  have offset' : t.recvOffset = s.recvOffset := by rw [← stored]
  have perm : (List.range t.recvOffset ++ t.heldOffsets).Perm
      (List.range' offset data.length ++ (List.range s.recvOffset ++ s.heldOffsets)) := by
    rw [offset', held]
    exact List.perm_append_comm_assoc _ _ _
  refine ⟨perm.nodup_iff.mpr ?_, ?_, fun x member => ?_, fun c member => ?_, ?_, ?_, ?_, ?_, ?_, ?_,
    ?_, ?_⟩
  · refine List.nodup_append'.mpr ⟨List.nodup_range', accounts.once, fun x inChunk old => ?_⟩
    rw [List.mem_range'_1] at inChunk
    rcases List.mem_append.mp old with delivered | heldBefore
    · rw [List.mem_range] at delivered
      omega
    · exact new x inChunk.1 inChunk.2 heldBefore
  · ext x
    rw [Finset.mem_union, List.mem_toFinset, perm.mem_iff, List.mem_append, List.mem_range'_1,
      accounts.whole, List.mem_toFinset, span, Finset.mem_Ico]
    exact or_comm
  · rcases Finset.mem_union.mp member with old | inChunk
    · exact accounts.inside x old
    · exact (Finset.mem_Ico.mp inChunk).2.trans_le within
  · rw [entries] at member
    rcases List.mem_cons.mp member with rfl | old
    · exact nonempty.resolve_right (Nat.not_le.mpr ahead)
    · exact accounts.filled c old
  · rw [offset', ← stored]
    rintro member
    rcases AList.mem_insert _ |>.mp member with same | old
    · omega
    · exact accounts.next old
  · rw [held, List.length_append, List.length_range', ← stored]
    have := accounts.total
    dsimp only
    omega
  · rw [← stored]
    exact recvd
  · rw [← stored]
    exact consumed
  · rw [← stored]
    exact accounts.read
  · rw [← stored]
    exact accounts.unended
  · rw [← stored]
    exact accounts.lawful
  · rw [← stored]
    exact accounts.live

theorem append (small : n < 2 ^ 64) (fits : s.FitsHeld offset data) (begun : offset ≤ s.recvOffset)
    (beyond : s.recvOffset < offset + data.length) (within : offset + data.length ≤ n)
    {fc : StreamFlowController} (recvd : fc.dataRecvd = (received ∪ span offset data).card)
    (consumed : fc.dataConsumed = s.bytesRead) :
    ByteAccounts n
      { release s.recvOOO.entries.length { s with
          recvBuf := s.recvBuf ++ data.drop (s.recvOffset - offset)
          recvOffset := offset + data.length } with
        streamFC := fc } (received ∪ span offset data) := by
  have absent : offset ∉ s.recvOOO := fun member => Nat.not_lt.mpr begun (accounts.above member)
  rw [FitsHeld, if_neg absent] at fits
  generalize appended : ({ s with
    recvBuf := s.recvBuf ++ data.drop (s.recvOffset - offset)
    recvOffset := offset + data.length } : Stream) = t
  have table : t.recvOOO = s.recvOOO := by rw [← appended]
  have held : t.heldOffsets = s.heldOffsets := by rw [heldOffsets, table]; rfl
  have stop : t.recvOffset = offset + data.length := by rw [← appended]
  have beyond' {x : Nat} (member : x ∈ s.heldOffsets) : offset + data.length ≤ x := by
    by_contra inside
    have := accounts.above_of_held member
    exact fits.2 x (by omega) (by omega) member
  have once : (List.range t.recvOffset ++ t.heldOffsets).Nodup := by
    rw [stop, held]
    refine List.nodup_append'.mpr ⟨List.nodup_range, (List.nodup_append'.mp accounts.once).2.1,
      fun x delivered member => ?_⟩
    have := List.mem_range.mp delivered
    have := beyond' member
    omega
  have whole : received ∪ span offset data = (List.range t.recvOffset ++ t.heldOffsets).toFinset := by
    ext x
    rw [Finset.mem_union, List.mem_toFinset, List.mem_append, List.mem_range,
      accounts.mem_received, span, Finset.mem_Ico, stop, held]
    constructor
    · rintro ((delivered | member) | inChunk)
      · exact .inl (by omega)
      · exact .inr member
      · exact .inl inChunk.2
    · rintro (delivered | member)
      · by_cases old : x < s.recvOffset
        · exact .inl (.inl old)
        · exact .inr ⟨by omega, delivered⟩
      · exact .inl (.inr member)
  have inside : ∀ x ∈ received ∪ span offset data, x < n := by
    intro x member
    rcases Finset.mem_union.mp member with old | inChunk
    · exact accounts.inside x old
    · exact (Finset.mem_Ico.mp inChunk).2.trans_le within
  have settled := sameOffsets_release small s.recvOOO.entries.length (s := t)
    (fun x member => inside x (by rw [whole, List.mem_toFinset]; exact member))
    (by rw [table]; exact accounts.filled)
  have next : (release s.recvOOO.entries.length t).recvOOO.lookup
      (release s.recvOOO.entries.length t).recvOffset = none :=
    lookup_release (by rw [table])
  have lawful := violation_release t s.recvOOO.entries.length
  obtain ⟨_, _, _, _, _, same⟩ := sameButBuffers_release t s.recvOOO.entries.length
  generalize release s.recvOOO.entries.length t = u at settled next lawful same ⊢
  refine ⟨settled.same.nodup_iff.mpr once, ?_, inside, settled.filled, AList.lookup_eq_none.mp next,
    ?_, recvd, ?_, ?_, ?_, ?_, ?_⟩
  · rw [whole]
    exact (List.toFinset_eq_of_perm _ _ settled.same).symm
  · have total := settled.total
    rw [held, ← appended] at total
    have := accounts.total
    show u.oooBytes = u.heldOffsets.length
    dsimp only at total
    omega
  · rw [consumed, same, ← appended]
  · have buffer := settled.buffer
    have read := accounts.read
    have bytes : u.bytesRead = s.bytesRead := by rw [same, ← appended]
    rw [← appended] at buffer
    dsimp only at buffer
    rw [List.length_append, List.length_drop] at buffer
    show u.bytesRead + u.recvBuf.length = u.recvOffset
    omega
  · rw [same, ← appended]
    exact accounts.unended
  · show u.flowControlViolation = false
    rw [lawful, ← appended]
    exact accounts.lawful
  · rw [same, ← appended]
    exact accounts.live

theorem placeLocked (small : n < 2 ^ 64) (within : offset + data.length ≤ n)
    (fits : s.FitsHeld offset data)
    (lawful : (s.placeLocked offset data).1.flowControlViolation = false) :
    ByteAccounts n
      { (s.placeLocked offset data).1 with
        streamFC := s.streamFC.onDataReceived (s.placeLocked offset data).2 }
      (received ∪ span offset data) := by
  have nonempty : offset ∉ s.recvOOO → data ≠ [] ∨ offset ≤ s.recvOffset := by
    intro absent
    rw [FitsHeld, if_neg absent] at fits
    exact fits.1
  have counted := (accounts.fitsHeld_iff small within nonempty lawful).mp fits
  have recvd : (s.streamFC.onDataReceived (s.placeLocked offset data).2).dataRecvd =
      (received ∪ span offset data).card := by
    have card := Finset.card_sdiff_add_card (span offset data) received
    rw [Finset.union_comm, ← card, counted, StreamFlowController.onDataReceived, accounts.recvd]
    push_cast
    exact Int.add_comm _ _
  have stop : (offset + data.length) % 2 ^ 64 = offset + data.length :=
    Nat.mod_eq_of_lt (by omega)
  have placed := s.placed_placeLocked offset data
  generalize s.placeLocked offset data = out at placed lawful counted recvd ⊢
  -- nothing new was accepted, so nothing new was received
  have known (none : (span offset data \ received).card = 0)
      (recvd : (s.streamFC.onDataReceived 0).dataRecvd = (received ∪ span offset data).card) :
      ByteAccounts n { s with streamFC := s.streamFC.onDataReceived 0 }
        (received ∪ span offset data) := by
    rw [Finset.card_eq_zero, Finset.sdiff_eq_empty_iff_subset] at none
    rw [Finset.union_eq_left.mpr none] at recvd ⊢
    exact ⟨accounts.once, accounts.whole, accounts.inside, accounts.filled, accounts.next,
      accounts.total, recvd, accounts.consumed, accounts.read, accounts.unended, accounts.lawful,
      accounts.live⟩
  cases placed with
  | known | held => exact known counted recvd
  | excess => cases lawful
  | early beyond ahead absent =>
    exact accounts.hold fits absent ahead within recvd accounts.consumed
  | next beyond begun =>
    rw [stop] at beyond ⊢
    exact accounts.append small fits begun beyond within recvd accounts.consumed

end ByteAccounts

/-- The stream was reset because the buffer overflowed. -/
def Overrun (s : Stream) : Prop := s.state = .reset ∧ s.flowControlViolation = true

theorem violated_placeLocked (violated : s.flowControlViolation = true) (offset : Nat)
    (data : List UInt8) :
    (s.placeLocked offset data).1.flowControlViolation = true := by
  have placed := s.placed_placeLocked offset data
  generalize s.placeLocked offset data = out at placed ⊢
  cases placed with
  | known | held | early => exact violated
  | excess => rfl
  | next => exact (violation_release _ _).trans violated

theorem overrun_reset (open' : s.state ≠ .closed) (violated : s.flowControlViolation = true)
    (code : UInt32) : (s.reset code).1.Overrun := by
  unfold reset
  split
  · exact ⟨‹_ ∨ _›.resolve_left open', violated⟩
  · exact ⟨rfl, violated⟩

theorem state_placeLocked : (s.placeLocked offset data).1.state = s.state := by
  obtain ⟨_, _, _, _, _, same⟩ := s.sameButBuffers_placeLocked offset data
  rw [same]

theorem Overrun.deliverData (overrun : s.Overrun) : (s.deliverData offset data).1.Overrun := by
  have violated := violated_placeLocked overrun.2 offset data
  unfold Stream.deliverData
  dsimp only
  rw [if_pos violated]
  refine overrun_reset ?_ violated _
  rw [state_placeLocked, overrun.1]
  exact nofun

theorem Overrun.read (overrun : s.Overrun) (size : Nat) (expired : Bool) :
    (s.read size expired).1.Overrun := by
  have reads := s.reads_read size expired
  generalize s.read size expired = out at reads ⊢
  cases reads with
  | aborted | ended | waits | takes => exact overrun

/-- A delivery overflows the buffer, or the accounts are those after placing. -/
theorem ByteAccounts.deliverData_cases (accounts : s.ByteAccounts n received) (offset : Nat)
    (data : List UInt8) :
    (s.deliverData offset data).1.Overrun ∨
      (s.placeLocked offset data).1.flowControlViolation = false ∧
        (s.deliverData offset data).1 =
          { (s.placeLocked offset data).1 with
            streamFC := s.streamFC.onDataReceived (s.placeLocked offset data).2 } := by
  rw [deliverData_unended accounts.unended]
  split
  · refine .inl (overrun_reset ?_ ‹_› _)
    rw [state_placeLocked]
    exact accounts.live.1
  · exact .inr ⟨Bool.eq_false_iff.mpr ‹_›, rfl⟩

theorem ByteAccounts.deliverData (accounts : s.ByteAccounts n received) (small : n < 2 ^ 64)
    (within : offset + data.length ≤ n)
    (fits : (s.deliverData offset data).1.state ≠ .reset → s.FitsHeld offset data) :
    (s.deliverData offset data).1.Overrun ∨
      (s.deliverData offset data).1.ByteAccounts n (received ∪ span offset data) := by
  rcases accounts.deliverData_cases offset data with overrun | ⟨lawful, same⟩
  · exact .inl overrun
  · have open' : (s.deliverData offset data).1.state ≠ .reset := by
      rw [same]
      show (s.placeLocked offset data).1.state ≠ .reset
      rw [state_placeLocked]
      exact accounts.live.2
    right
    rw [same]
    exact accounts.placeLocked small within (fits open') lawful

/-- What is counted as received gives a delivery away that does not fit. -/
theorem ByteAccounts.fitsHeld_of_tidy (accounts : s.ByteAccounts n received) (small : n < 2 ^ 64)
    (within : offset + data.length ≤ n) (nonempty : data ≠ [])
    (lawful : (s.placeLocked offset data).1.flowControlViolation = false)
    (tidy : Tidy { (s.placeLocked offset data).1 with
      streamFC := s.streamFC.onDataReceived (s.placeLocked offset data).2 }
      (received ∪ span offset data)) : s.FitsHeld offset data := by
  refine (accounts.fitsHeld_iff small within (fun _ => .inl nonempty) lawful).mpr ?_
  have buffered := tidy.buffered
  have bytes : (s.placeLocked offset data).1.bytesRead = s.bytesRead := by
    obtain ⟨_, _, _, _, _, same⟩ := s.sameButBuffers_placeLocked offset data
    rw [same]
  dsimp only at buffered
  rw [bytes, accounts.card_unread Finset.subset_union_left, StreamFlowController.bufferedBytes,
    StreamFlowController.onDataReceived, accounts.recvd, accounts.consumed] at buffered
  have card := Finset.card_sdiff_add_card (span offset data) received
  rw [Finset.union_comm] at card
  rw [← card] at buffered
  push_cast at buffered
  omega

theorem ByteAccounts.reading (accounts : s.ByteAccounts n received) (size : Nat) (expired : Bool) :
    (s.read size expired).1.ByteAccounts n received := by
  have reads := s.reads_read size expired
  generalize s.read size expired = out at reads ⊢
  cases reads with
  | aborted | ended | waits => exact accounts
  | takes full fc frames books =>
    have counters : fc.dataRecvd = s.streamFC.dataRecvd ∧
        fc.dataConsumed = s.streamFC.dataConsumed + (s.recvBuf.take size).length := by
      rcases books with rfl | rfl
      · exact ⟨rfl, rfl⟩
      · exact StreamFlowController.counters_advertiseLimit _
    have read := accounts.read
    have consumed := accounts.consumed
    have part : (s.recvBuf.take size).length ≤ s.recvBuf.length := by
      rw [List.length_take]
      exact Nat.min_le_right _ _
    refine ⟨accounts.once, accounts.whole, accounts.inside, accounts.filled, accounts.next,
      accounts.total, counters.1.trans accounts.recvd, ?_, ?_, accounts.unended, accounts.lawful,
      accounts.live⟩
    · dsimp only
      rw [counters.2, consumed]
      push_cast
      rfl
    · dsimp only
      rw [List.length_drop]
      omega

def Op.span : Op → Finset Nat
  | .deliverData offset chunk => Stream.span offset.toNat chunk
  | _ => ∅

/-- The offsets the peer's chunks have covered. -/
def receivedOffsets (ops : List Op) : Finset Nat :=
  ops.foldl (fun known op => known ∪ op.span) ∅

/-- Every chunk fits that does not overflow the buffer. -/
def Lived.AllFit (h : Lived) (ops : List Op) : Prop :=
  ∀ before offset chunk, before ++ [Op.deliverData offset chunk] <+: ops →
    (h.run (before ++ [.deliverData offset chunk])).stream.state ≠ .reset →
      (h.run before).stream.FitsHeld offset.toNat chunk

/-- In every state on the way, the stream is tidy unless it was reset. -/
def Lived.AllTidy (h : Lived) (ops : List Op) : Prop :=
  ∀ before, before <+: ops →
    (h.run before).stream.state = .reset ∨
      (h.run before).stream.Tidy (receivedOffsets before)

theorem receivedOffsets_append (ops : List Op) (op : Op) :
    receivedOffsets (ops ++ [op]) = receivedOffsets ops ∪ op.span := by
  rw [receivedOffsets, List.foldl_append]
  rfl

theorem accounts_fresh (id remoteID : UInt32) (limit window : Int) (accepted : Bool) :
    (fresh id remoteID (newStreamFlowController limit window) accepted).ByteAccounts n ∅ := by
  refine ⟨List.nodup_nil, rfl, ?_, ?_, ?_, rfl, rfl, rfl, rfl, rfl, rfl, ?_⟩
  · exact fun x member => absurd member (Finset.notMem_empty x)
  · exact List.forall_mem_nil _
  · exact AList.notMem_empty _
  · cases accepted <;> exact ⟨nofun, nofun⟩

variable {bytes : List UInt8} {h : Lived} {ops : List Op}

theorem ByteAccounts.step {op : Op} (accounts : h.stream.ByteAccounts bytes.length received)
    (small : bytes.length < 2 ^ 64) (honest : op.Honest bytes)
    (unended : ∀ size, op ≠ .deliverFin size)
    (fits : ∀ offset chunk, op = .deliverData offset chunk →
      (h.after op).stream.state ≠ .reset → h.stream.FitsHeld offset.toNat chunk) :
    (h.after op).stream.Overrun ∨
      (h.after op).stream.ByteAccounts bytes.length (received ∪ op.span) := by
  cases op with
  | deliverData offset chunk =>
    exact accounts.deliverData small honest.within (fits offset chunk rfl)
  | deliverFin size => exact absurd rfl (unended size)
  | read size expired =>
    right
    show ByteAccounts bytes.length _ (received ∪ ∅)
    rw [Finset.union_empty]
    exact accounts.reading size expired
  | write | close | reset | deliverReset | windowUpdate => exact honest.elim

theorem Overrun.step {op : Op} (overrun : h.stream.Overrun) (honest : op.Honest bytes)
    (unended : ∀ size, op ≠ .deliverFin size) : (h.after op).stream.Overrun := by
  cases op with
  | deliverData offset chunk => exact overrun.deliverData
  | deliverFin size => exact absurd rfl (unended size)
  | read size expired => exact overrun.read size expired
  | write | close | reset | deliverReset | windowUpdate => exact honest.elim

/-- As long as chunks fit, the accounts are kept or the stream has been reset. -/
theorem accounts_run (small : bytes.length < 2 ^ 64) (honest : ∀ op ∈ ops, op.Honest bytes)
    (unended : ∀ size, Op.deliverFin size ∉ ops)
    (start : h.stream.ByteAccounts bytes.length ∅) (fits : h.AllFit ops) :
    (h.run ops).stream.Overrun ∨
      (h.run ops).stream.ByteAccounts bytes.length (receivedOffsets ops) := by
  induction ops using List.reverseRecOn with
  | nil => exact .inr start
  | append_singleton before op ih =>
    have unended' : ∀ size, op ≠ .deliverFin size := fun size same =>
      unended size (List.mem_append_right _ (same ▸ List.mem_singleton_self _))
    rw [Lived.run_append, receivedOffsets_append]
    rcases ih (fun e member => honest e (List.mem_append_left _ member))
      (fun size member => unended size (List.mem_append_left _ member))
      (fun earlier offset chunk front =>
        fits earlier offset chunk (front.trans (List.prefix_append _ _))) with overrun | accounts
    · exact .inl (overrun.step (honest op (List.mem_append_right _ (List.mem_singleton_self _))) unended')
    · refine accounts.step small (honest op (List.mem_append_right _ (List.mem_singleton_self _)))
        unended' fun offset chunk same open' => ?_
      subst same
      rw [← Lived.run_append] at open'
      exact fits before offset chunk (List.prefix_refl _) open'

theorem AllFit.front {before : List Op} (fits : h.AllFit ops)
    (front : before <+: ops) : h.AllFit before :=
  fun earlier offset chunk part => fits earlier offset chunk (part.trans front)

theorem allFit_nil : h.AllFit [] := fun _ _ _ front =>
  absurd (List.prefix_nil.mp front) (List.append_ne_nil_of_right_ne_nil _ (List.cons_ne_nil _ _))

/-- A history that is tidy all along has only had chunks that fit. -/
theorem allFit_of_allTidy (small : bytes.length < 2 ^ 64)
    (honest : ∀ op ∈ ops, op.Honest bytes) (unended : ∀ size, Op.deliverFin size ∉ ops)
    (filled : ∀ offset, Op.deliverData offset [] ∉ ops)
    (start : h.stream.ByteAccounts bytes.length ∅) (tidy : h.AllTidy ops) :
    h.AllFit ops := by
  induction ops using List.reverseRecOn with
  | nil => exact allFit_nil
  | append_singleton ops op ih =>
    have honest' : ∀ e ∈ ops, e.Honest bytes := fun e member =>
      honest e (List.mem_append_left _ member)
    have unended' : ∀ size, Op.deliverFin size ∉ ops := fun size member =>
      unended size (List.mem_append_left _ member)
    have fits := ih honest' unended' (fun offset member => filled offset (List.mem_append_left _ member))
      (fun before front => tidy before (front.trans (List.prefix_append _ _)))
    intro before offset chunk front open'
    rcases List.prefix_concat_iff.mp front with last | earlier
    · obtain ⟨rfl, same⟩ := List.append_inj' last rfl
      obtain rfl : Op.deliverData offset chunk = op := by simpa using same
      have member : Op.deliverData offset chunk ∈ before ++ [.deliverData offset chunk] :=
        List.mem_append_right _ (List.mem_singleton_self _)
      have slice : Slice bytes offset.toNat chunk := honest _ member
      have now := (tidy _ (List.prefix_refl _)).resolve_left open'
      rw [receivedOffsets_append, Lived.run_append] at now
      rw [Lived.run_append] at open'
      rcases accounts_run small honest' unended' start fits with overrun | accounts
      · exact absurd overrun.deliverData.1 open'
      · rcases accounts.deliverData_cases offset.toNat chunk with over' | ⟨lawful, same⟩
        · exact absurd over'.1 open'
        · refine accounts.fitsHeld_of_tidy small slice.within ?_ lawful (same ▸ now)
          rintro rfl
          exact filled offset member
    · exact fits before offset chunk earlier open'

/-- For chunks of one byte sequence, in any order, with any duplication and
overlap, and reads: the buffer is tidy in every state before a reset if every
chunk fits what is held by then; and, empty chunks apart, only if. -/
theorem tidy_iff_chunks_fit (id remoteID : UInt32) (limit window : Int) (accepted : Bool)
    (small : bytes.length < 2 ^ 64) (honest : ∀ op ∈ ops, op.Honest bytes)
    (unended : ∀ size, Op.deliverFin size ∉ ops) :
    let h : Lived :=
      { stream := fresh id remoteID (newStreamFlowController limit window) accepted }
    (h.AllFit ops → h.AllTidy ops) ∧
      ((∀ offset, Op.deliverData offset [] ∉ ops) →
        (h.AllTidy ops ↔ h.AllFit ops)) := by
  intro h
  have start : h.stream.ByteAccounts bytes.length ∅ :=
    accounts_fresh id remoteID limit window accepted
  have tidy (fits : h.AllFit ops) : h.AllTidy ops := by
    intro before front
    rcases accounts_run small (fun e member => honest e (front.subset member))
      (fun size member => unended size (front.subset member)) start (AllFit.front fits front)
      with overrun | accounts
    · exact .inl overrun.1
    · exact .inr accounts.tidy
  exact ⟨tidy, fun filled =>
    ⟨allFit_of_allTidy small honest unended filled start, tidy⟩⟩

theorem allFit_cons {op : Op} {rest : List Op}
    (now : ∀ offset chunk, op = .deliverData offset chunk → h.stream.FitsHeld offset.toNat chunk)
    (later : (h.after op).AllFit rest) : h.AllFit (op :: rest) := by
  intro before offset chunk front open'
  cases before with
  | nil => exact now offset chunk (List.cons_prefix_cons.mp front).1.symm
  | cons first before =>
    obtain ⟨rfl, part⟩ := List.cons_prefix_cons.mp front
    exact later before offset chunk part open'

/-- Three bytes, the last two before the first, which makes them deliverable. -/
theorem tidy_iff_chunks_fit_overtaken :
    let h : Lived := { stream := fresh 1 0 (newStreamFlowController 65536 65536) true }
    let ops : List Op := [.deliverData 1 [2, 3], .deliverData 0 [1], .read 2 false]
    h.AllTidy ops := by
  intro h ops
  have honest : ∀ op ∈ ops, op.Honest [1, 2, 3] := by
    simp only [ops, List.forall_mem_cons, List.not_mem_nil, false_implies, implies_true,
      Op.Honest, and_true]
    exact ⟨⟨by decide, rfl⟩, ⟨by decide, rfl⟩⟩
  have fits : h.AllFit ops := by
    refine allFit_cons ?_ (allFit_cons ?_ (allFit_cons (fun _ _ same => by cases same) allFit_nil))
    · rintro offset chunk same
      cases same
      exact ⟨.inl (List.cons_ne_nil _ _), fun x _ _ => List.not_mem_nil⟩
    · rintro offset chunk same
      cases same
      refine ⟨.inr (Nat.le_refl _), fun x _ small => ?_⟩
      obtain rfl : x = 0 := Nat.lt_one_iff.mp small
      decide +kernel
  exact (tidy_iff_chunks_fit 1 0 65536 65536 true (by decide) honest (by simp [ops])).1 fits

/-- A chunk that reaches into a held one leaves it behind the delivered end, where
nothing takes it out, so two bytes stay counted after all three were read; two
held chunks that overlap count their common byte twice. -/
theorem overlap_untidy :
    let h : Lived := { stream := fresh 1 0 (newStreamFlowController 65536 65536) true }
    let left : List Op := [.deliverData 1 [2, 3], .deliverData 0 [1, 2], .deliverData 2 [3],
      .read 3 false]
    let twice : List Op := [.deliverData 1 [2, 3], .deliverData 2 [3, 4]]
    ((∀ op ∈ left, op.Honest [1, 2, 3]) ∧ (h.run left).stream.state = .opened ∧
        (h.run left).stream.recvOffset = 3 ∧ 1 ∈ (h.run left).stream.recvOOO ∧
        (h.run left).returned = [1, 2, 3] ∧
        (h.run left).stream.streamFC.bufferedBytes = 2 ∧ ¬ h.AllTidy left) ∧
      (∀ op ∈ twice, op.Honest [1, 2, 3, 4]) ∧ (h.run twice).stream.state = .opened ∧
        (h.run twice).stream.streamFC.bufferedBytes = 4 ∧ (receivedOffsets twice).card = 3 ∧
        ¬ h.AllTidy twice := by
  intro h left twice
  refine ⟨⟨?_, by decide +kernel, by decide +kernel, by decide +kernel, by decide +kernel,
    by decide +kernel, fun tidy => ?_⟩, ?_, by decide +kernel, by decide +kernel, by decide +kernel,
    fun tidy => ?_⟩
  · simp only [left, List.forall_mem_cons, List.not_mem_nil, false_implies, implies_true,
      Op.Honest, and_true]
    exact ⟨⟨by decide, rfl⟩, ⟨by decide, rfl⟩, ⟨by decide, rfl⟩⟩
  · have now := (tidy left (List.prefix_refl _)).resolve_left (by decide +kernel)
    exact absurd (now.above 1 (by decide +kernel)) (by decide +kernel)
  · simp only [twice, List.forall_mem_cons, List.not_mem_nil, false_implies, implies_true,
      Op.Honest, and_true]
    exact ⟨⟨by decide, rfl⟩, ⟨by decide, rfl⟩⟩
  · have now := (tidy twice (List.prefix_refl _)).resolve_left (by decide +kernel)
    exact absurd now.buffered (by decide +kernel)

end Stream

end Udx
