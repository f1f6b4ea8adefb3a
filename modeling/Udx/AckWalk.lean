import Mathlib.Algebra.Order.Group.Int
import Udx.Lib.Bytes
import Udx.PacketManager

set_option autoImplicit false

namespace Udx

/- The ranges of an ACK frame as integers, and what the reader makes of those
below zero. -/

/-- The integers of one range, `count` of them down from `top`. -/
def walkDown (top : Int) (count : UInt32) : List Int :=
  (List.range count.toNat).map fun i : Nat => top - i

/-- The integers of the additional ranges, below `current`. -/
def walkRanges : Int → List AckRange → List Int
  | _, [] => []
  | current, r :: rest =>
    let rangeEnd := current - r.gap.toNat
    walkDown rangeEnd r.ackRangeLength ++ walkRanges (rangeEnd - r.ackRangeLength.toNat) rest

namespace AckFrame

variable (frame : AckFrame)

/-- Every integer of the frame's ranges, counting down from `largestAcked`. -/
def walk : List Int :=
  walkDown frame.largestAcked.toNat frame.firstAckRangeLength ++
    walkRanges (frame.largestAcked.toNat - frame.firstAckRangeLength.toNat) frame.ackRanges

/-- The sequence lies in one of the frame's ranges, read as natural numbers. -/
def Names (s : UInt32) : Prop := (s.toNat : Int) ∈ frame.walk

end AckFrame

theorem mem_walkDown {top z : Int} {count : UInt32} :
    z ∈ walkDown top count ↔ z ≤ top ∧ top < z + count.toNat := by
  simp only [walkDown, List.mem_map, List.mem_range]
  constructor
  · rintro ⟨i, inside, rfl⟩
    omega
  · rintro ⟨low, high⟩
    exact ⟨(top - z).toNat, by omega, by omega⟩

theorem le_of_mem_walkRanges {current z : Int} {ranges : List AckRange}
    (member : z ∈ walkRanges current ranges) : z ≤ current := by
  induction ranges generalizing current with
  | nil => cases member
  | cons r rest ih =>
    rcases List.mem_append.mp member with here | later
    · have := (mem_walkDown.mp here).1
      omega
    · have := ih later
      omega

theorem rangesDown_eq (current : Int) (ranges : List AckRange) :
    rangesDown current ranges = (walkRanges current ranges).map UInt32.ofInt := by
  induction ranges generalizing current with
  | nil => rfl
  | cons r rest ih =>
    rw [rangesDown, walkRanges, List.map_append, ih, rangeDown, walkDown, List.map_map]
    rfl

/-- The first range's subtraction wraps as the others' conversion does. -/
theorem sub_ofNat_eq (top : UInt32) {i : Nat} (small : i < 2 ^ 32) :
    top - UInt32.ofNat i = UInt32.ofInt (top.toNat - i) := by
  rw [← UInt32.toNat_inj, ← Int.natCast_inj, Bytes.toNat_ofInt, UInt32.toNat_sub,
    UInt32.toNat_ofNat_of_lt' small]
  have := top.toNat_lt
  omega

namespace AckFrame

variable {frame : AckFrame}

/-- The reader visits the integers of the ranges modulo `2 ^ 32`. -/
theorem sequences_eq : frame.sequences = frame.walk.map UInt32.ofInt := by
  rw [sequences, walk, List.map_append, rangesDown_eq, walkDown, List.map_map]
  congr 1
  refine List.map_congr_left fun i inside => ?_
  have := frame.firstAckRangeLength.toNat_lt
  have := List.mem_range.mp inside
  exact sub_ofNat_eq frame.largestAcked (by omega)

theorem le_of_mem_walk {z : Int} (member : z ∈ frame.walk) : z ≤ frame.largestAcked.toNat := by
  rcases List.mem_append.mp member with first | later
  · exact (mem_walkDown.mp first).1
  · have := le_of_mem_walkRanges later
    omega

theorem Names.le {s : UInt32} (named : frame.Names s) : s ≤ frame.largestAcked := by
  have := le_of_mem_walk named
  rw [UInt32.le_iff_toNat_le]
  omega

/-- A range that runs past zero comes back to the sequence from above. -/
def Wraps (frame : AckFrame) (s : UInt32) : Prop := ∃ z ∈ frame.walk, z < 0 ∧ UInt32.ofInt z = s

theorem mem_sequences_iff {s : UInt32} : s ∈ frame.sequences ↔ frame.Names s ∨ frame.Wraps s := by
  rw [sequences_eq, List.mem_map]
  constructor
  · rintro ⟨z, member, rfl⟩
    by_cases below : z < 0
    · exact .inr ⟨z, member, below, rfl⟩
    · have high := le_of_mem_walk member
      have := frame.largestAcked.toNat_lt
      have same : ((UInt32.ofInt z).toNat : Int) = z := by
        rw [Bytes.toNat_ofInt]
        omega
      refine .inl ?_
      rw [Names, same]
      exact member
  · rintro (named | ⟨z, member, -, same⟩)
    · refine ⟨_, named, ?_⟩
      rw [← UInt32.toNat_inj, ← Int.natCast_inj, Bytes.toNat_ofInt]
      have := s.toNat_lt
      omega
    · exact ⟨z, member, same⟩

end AckFrame

namespace PacketManager

variable (pm : PacketManager) (now : Time) (frame : AckFrame)

/-- The packet tracked under `s` leaves the table with the frame. -/
def Acknowledges (s : UInt32) : Prop :=
  s ∈ pm.sentPackets ∧ s ∉ (pm.handleAckFrame now frame).1.sentPackets

variable {pm now frame}

theorem acknowledges_iff {s : UInt32} :
    pm.Acknowledges now frame s ↔ s ∈ pm.sentPackets ∧ (frame.Names s ∨ frame.Wraps s) := by
  rw [Acknowledges, ← AckFrame.mem_sequences_iff,
    ← AList.lookup_isSome (s := (handleAckFrame _ _ _).1.sentPackets),
    handleAckFrame_sentPackets, lookup_foldl_take]
  refine and_congr_right fun tracked => ?_
  split
  · rename_i named
    simp [named]
  · rename_i unnamed
    simp [unnamed, AList.lookup_isSome.mpr tracked]

theorem largestAcked_foldl_take (seqs : List UInt32) (acc : PacketManager × List Ptr) :
    (seqs.foldl take acc).1.largestAcked = acc.1.largestAcked := by
  induction seqs generalizing acc with
  | nil => rfl
  | cons seq rest ih =>
    rw [List.foldl_cons, ih]
    unfold take
    split <;> rfl

/-- A frame that acknowledges anything raises `largestAcked` to its own. -/
theorem largestAcked_handleAckFrame_le_iff {top : Int} :
    (pm.handleAckFrame now frame).1.largestAcked ≤ top ↔
      pm.largestAcked ≤ top ∧
        ((∃ s, pm.Acknowledges now frame s) → (frame.largestAcked.toNat : Int) ≤ top) := by
  have taken : (frame.sequences.foldl take (pm, [])).2.length > 0 ↔
      ∃ s, pm.Acknowledges now frame s := by
    rw [gt_iff_lt, List.length_pos_iff_exists_mem]
    constructor
    · rintro ⟨p, member⟩
      rw [mem_foldl_take] at member
      obtain ⟨s, named, found⟩ := member.resolve_left List.not_mem_nil
      refine ⟨s, acknowledges_iff.mpr ⟨?_, AckFrame.mem_sequences_iff.mp named⟩⟩
      exact AList.lookup_isSome.mp (Option.isSome_iff_exists.mpr ⟨p, found⟩)
    · rintro ⟨s, acked⟩
      obtain ⟨tracked, named⟩ := acknowledges_iff.mp acked
      obtain ⟨p, found⟩ := Option.isSome_iff_exists.mp (AList.lookup_isSome.mpr tracked)
      exact ⟨p, mem_foldl_take _ _ _ |>.mpr (.inr ⟨s, AckFrame.mem_sequences_iff.mpr named, found⟩)⟩
  have same := largestAcked_foldl_take frame.sequences (pm, [])
  unfold handleAckFrame
  dsimp only
  split
  · rename_i some
    have any := taken.mp some
    dsimp only
    rw [same]
    dsimp only
    constructor
    · intro high
      split at high <;> exact ⟨by omega, fun _ => by omega⟩
    · rintro ⟨before, after⟩
      have := after any
      split <;> omega
  · rename_i none
    have silent : ¬ ∃ s, pm.Acknowledges now frame s := fun any => none (taken.mpr any)
    dsimp only
    rw [same]
    exact ⟨fun before => ⟨before, fun any => absurd any silent⟩, fun both => both.1⟩

/-- An ACK takes only what its ranges name, and leaves `largestAcked` at what was
sent, exactly if no tracked sequence is reached by a range that runs past zero
and a frame that takes anything counts from a sequence that was sent. `top` is
the largest sequence ever sent. -/
theorem acknowledges_named_iff (pm : PacketManager) (now : Time) (frame : AckFrame) (top : Int) :
    ((∀ s, pm.Acknowledges now frame s → frame.Names s ∧ s ≤ frame.largestAcked) ∧
        (pm.handleAckFrame now frame).1.largestAcked ≤ top) ↔
      (∀ s ∈ pm.sentPackets, frame.Wraps s → frame.Names s) ∧ pm.largestAcked ≤ top ∧
        ((∃ s ∈ pm.sentPackets, frame.Names s ∨ frame.Wraps s) →
          (frame.largestAcked.toNat : Int) ≤ top) := by
  rw [largestAcked_handleAckFrame_le_iff]
  simp only [acknowledges_iff]
  refine and_congr_left' ⟨fun named s tracked wraps => ?_, fun apart s acked => ?_⟩
  · exact (named s ⟨tracked, .inr wraps⟩).1
  · have named : frame.Names s := acked.2.elim id (apart s acked.1)
    exact ⟨named, named.le⟩

/-- Packets 0 to 5 have been sent and are tracked. -/
def sixSent : PacketManager :=
  (List.range 6).foldl (fun pm n =>
    let (pm, seq) := pm.nextSequence
    let (pm, p) := pm.new { sequence := seq, fits := blank_fits }
    pm.sendPacket n p) { heap := fun _ => { fits := blank_fits } }

/-- A first range of almost all numbers down from 3 takes packet 5 as well, and a
frame for 9 and below raises `largestAcked` past everything sent. -/
theorem sixSent_malformed :
    sixSent.lastSentSeq = 5 ∧
      (sixSent.Acknowledges 6 ⟨3, 0, 0xFFFFFFFF, []⟩ 5 ∧
        ¬ AckFrame.Names ⟨3, 0, 0xFFFFFFFF, []⟩ 5 ∧ ¬ (5 : UInt32) ≤ 3) ∧
      (sixSent.handleAckFrame 6 ⟨9, 0, 10, []⟩).1.largestAcked = 9 := by
  refine ⟨by decide +kernel, ⟨acknowledges_iff.mpr ⟨by decide +kernel, .inr ?_⟩, ?_, by decide⟩,
    by decide +kernel⟩
  · refine ⟨5 - 2 ^ 32, List.mem_append_left _ (mem_walkDown.mpr ?_), by decide, by decide⟩
    decide
  · intro named
    exact absurd named.le (by decide)

end PacketManager

end Udx
