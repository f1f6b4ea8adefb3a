import Udx.Frame
import Udx.Lib.Bitmap
import Udx.Lib.RunLength

set_option autoImplicit false

namespace Udx

/-- Which data-bearing packets have arrived: the largest sequence, and a bitmap
of the `ackHistory` sequences up to it, indexed modulo the history. -/
structure RecvTracker where
  largest : UInt32 := 0
  any : Bool := false
  bits : Vector UInt64 8 := Vector.replicate 8 0
deriving DecidableEq

def RecvTracker.slot (seq : UInt32) : Fin (8 * 64) :=
  ⟨seq.toNat % ackHistory, Nat.mod_lt _ (by decide)⟩

namespace RecvTracker

def has (r : RecvTracker) (seq : UInt32) : Bool :=
  if !r.any || seq > r.largest || (r.largest - seq).toNat ≥ ackHistory then false
  else Bitmap.test r.bits (slot seq)

/-- The loop that clears the slots of `count` sequences from `seq` up. -/
def clearFrom (bits : Vector UInt64 8) (seq : UInt32) : Nat → Vector UInt64 8
  | 0 => bits
  | count + 1 => clearFrom (Bitmap.clear bits (slot seq)) (seq + 1) count

/-- Records `seq` and reports whether it arrived out of order. -/
def add (r : RecvTracker) (seq : UInt32) : RecvTracker × Bool :=
  if !r.any then
    ({ r with any := true, largest := seq, bits := Bitmap.set r.bits (slot seq) }, false)
  else if seq > r.largest then
    let gap := seq - r.largest - 1
    let bits :=
      if (seq - r.largest).toNat ≥ ackHistory then Vector.replicate 8 0
      else clearFrom r.bits (r.largest + 1) gap.toNat
    ({ r with largest := seq, bits := Bitmap.set bits (slot seq) }, gap > 0)
  else if seq = r.largest then
    (r, false)
  else if (r.largest - seq).toNat ≥ ackHistory then
    (r, true)
  else if r.has seq then
    (r, false)
  else
    ({ r with bits := Bitmap.set r.bits (slot seq) }, true)

/-- The received run from `cursor` down, with the cursor and the steps of the
history left after it. Sequence 0 ends the walk. -/
def run (r : RecvTracker) : Nat → UInt32 → Nat × UInt32 × Nat
  | 0, cursor => (0, cursor, 0)
  | left + 1, cursor =>
    if r.has cursor then
      if cursor = 0 then (1, cursor, 0)
      else
        let (n, cursor, left) := run r left (cursor - 1)
        (n + 1, cursor, left)
    else (0, cursor, left + 1)

/-- The missing run from `cursor` down, of at most `room` sequences. -/
def gap (r : RecvTracker) : Nat → Nat → UInt32 → Nat × UInt32 × Nat
  | 0, _, cursor => (0, cursor, 0)
  | left + 1, 0, cursor => (0, cursor, left + 1)
  | left + 1, room + 1, cursor =>
    if !r.has cursor then
      if cursor = 0 then (1, cursor, 0)
      else
        let (n, cursor, left) := gap r left room (cursor - 1)
        (n + 1, cursor, left)
    else (0, cursor, left + 1)

/-- The additional ranges, at most `count`, from `cursor` down. -/
def ackRanges (r : RecvTracker) : Nat → UInt32 → Nat → List AckRange
  | 0, _, _ => []
  | count + 1, cursor, left =>
    if left = 0 then []
    else
      let (g, cursor, left) := r.gap left 255 cursor
      if g = 0 then []
      else
        let (n, cursor, left) := r.run left cursor
        if n = 0 then []
        else ⟨UInt8.ofNat g, UInt32.ofNat n⟩ :: ackRanges r count cursor left

/-- The ACK for everything received: the run at the largest sequence, then up
to five pairs of a gap and a run, walking down. -/
def frame (r : RecvTracker) (ackDelay : UInt16) : AckFrame :=
  if !r.any then ⟨0, ackDelay, 1, []⟩
  else
    let (n, cursor, left) := r.run ackHistory r.largest
    ⟨r.largest, ackDelay, UInt32.ofNat n, r.ackRanges 5 cursor left⟩

theorem toNat_sub_of_le {a b : UInt32} (le : b ≤ a) : (a - b).toNat = a.toNat - b.toNat :=
  UInt32.toNat_sub_of_le a b le

theorem toNat_gap {a b : UInt32} (above : b < a) :
    (a - b - 1).toNat = a.toNat - b.toNat - 1 := by
  have above' : b.toNat < a.toNat := above
  have distance := toNat_sub_of_le (UInt32.le_of_lt above)
  have one : (1 : UInt32) ≤ a - b := by
    rw [UInt32.le_iff_toNat_le, distance, UInt32.toNat_one]
    omega
  rw [toNat_sub_of_le one, distance, UInt32.toNat_one]

theorem slot_inj {s t : UInt32} (near : s.toNat < t.toNat + ackHistory)
    (close : t.toNat < s.toNat + ackHistory) : slot s = slot t ↔ s = t := by
  simp only [slot, Fin.mk.injEq, ackHistory, ← UInt32.toNat_inj] at *
  omega

/-- `r` is the tracker after exactly the sequences `added` arrived. -/
structure Represents (r : RecvTracker) (added : List UInt32) : Prop where
  any : r.any = true ↔ added ≠ []
  fresh : r.any = false → r.bits = Vector.replicate 8 0
  largest_mem : r.any = true → r.largest ∈ added
  le_largest : ∀ s ∈ added, s.toNat ≤ r.largest.toNat
  bit : r.any = true → ∀ s : UInt32, s.toNat ≤ r.largest.toNat →
    r.largest.toNat < s.toNat + ackHistory → (Bitmap.test r.bits (slot s) = true ↔ s ∈ added)

theorem represents_empty : Represents {} [] where
  any := by simp
  fresh := fun _ => rfl
  largest_mem := by simp
  le_largest := by simp
  bit := by simp

theorem test_clearFrom (bits : Vector UInt64 8) (seq s : UInt32) (count : Nat) :
    Bitmap.test (clearFrom bits seq count) (slot s) = true ↔
      (∀ k < count, slot (seq + UInt32.ofNat k) ≠ slot s) ∧
        Bitmap.test bits (slot s) = true := by
  induction count generalizing bits seq with
  | zero => simp [clearFrom]
  | succ count ih =>
    have shift : ∀ k, seq + UInt32.ofNat (k + 1) = seq + 1 + UInt32.ofNat k := by
      intro k
      rw [Nat.add_comm k, UInt32.ofNat_add, UInt32.add_assoc]
      rfl
    rw [clearFrom, ih, Bitmap.test_clear, Bool.and_eq_true]
    simp only [Bool.not_eq_true', decide_eq_false_iff_not]
    constructor
    · rintro ⟨rest, first, bit⟩
      refine ⟨?_, bit⟩
      intro k inside
      cases k with
      | zero => simpa using first
      | succ k => simpa only [shift] using rest k (by omega)
    · rintro ⟨all, bit⟩
      refine ⟨fun k inside => ?_, by simpa using all 0 (by omega), bit⟩
      simpa only [shift] using all (k + 1) (by omega)

/-- The bitmap after a jump past the largest sequence, before `seq` is set:
what lies between reads as missing, what lay below keeps its bit. -/
theorem Represents.jump {r : RecvTracker} {added : List UInt32} (rep : Represents r added)
    (any : r.any = true) {seq s : UInt32} (above : r.largest < seq) (below : s.toNat < seq.toNat)
    (recent : seq.toNat < s.toNat + ackHistory) :
    Bitmap.test (if (seq - r.largest).toNat ≥ ackHistory then Vector.replicate 8 0
      else clearFrom r.bits (r.largest + 1) (seq - r.largest - 1).toNat) (slot s) = true ↔
      s ∈ added := by
  have above' : r.largest.toNat < seq.toNat := above
  have distance : (seq - r.largest).toNat = seq.toNat - r.largest.toNat :=
    toNat_sub_of_le (UInt32.le_of_lt above)
  split
  · rename_i far
    have new : s ∉ added := by
      intro old
      have := rep.le_largest s old
      omega
    simp [Bitmap.test_replicate_zero, new]
  · rename_i near
    have between := toNat_gap above
    have reused : ∀ k < (seq - r.largest - 1).toNat,
        (r.largest + 1 + UInt32.ofNat k).toNat = r.largest.toNat + 1 + k := by
      intro k inside
      have bound := seq.toNat_lt
      rw [UInt32.add_assoc, UInt32.toNat_add, UInt32.toNat_add, UInt32.toNat_ofNat',
        UInt32.toNat_one]
      omega
    rw [test_clearFrom]
    by_cases old : s.toNat ≤ r.largest.toNat
    · rw [rep.bit any s old (by omega), and_iff_right]
      intro k inside same
      have position := reused k inside
      rw [slot_inj (by omega) (by omega), ← UInt32.toNat_inj] at same
      omega
    · have new : s ∉ added := fun member => old (rep.le_largest s member)
      simp only [new, iff_false, not_and]
      intro distinct
      have inside : s.toNat - r.largest.toNat - 1 < (seq - r.largest - 1).toNat := by omega
      have same : r.largest + 1 + UInt32.ofNat (s.toNat - r.largest.toNat - 1) = s := by
        rw [← UInt32.toNat_inj, reused _ inside]
        omega
      exact absurd (congrArg slot same) (distinct _ inside)

theorem has_iff (r : RecvTracker) (s : UInt32) :
    r.has s = true ↔ r.any = true ∧ s.toNat ≤ r.largest.toNat ∧
      r.largest.toNat < s.toNat + ackHistory ∧ Bitmap.test r.bits (slot s) = true := by
  unfold has
  split
  · rename_i outside
    simp only [Bool.or_eq_true, Bool.not_eq_true', decide_eq_true_eq] at outside
    refine iff_of_false (by simp) ?_
    rintro ⟨any, within, recent, -⟩
    rcases outside with (none | above) | old
    · rw [any] at none
      cases none
    · exact Nat.lt_irrefl _ (Nat.lt_of_lt_of_le above within)
    · rw [toNat_sub_of_le within] at old
      omega
  · rename_i inside
    simp only [Bool.or_eq_true, Bool.not_eq_true', decide_eq_true_eq, not_or,
      Bool.not_eq_false] at inside
    obtain ⟨⟨any, notAbove⟩, recent⟩ := inside
    have within : s.toNat ≤ r.largest.toNat := Nat.le_of_not_lt notAbove
    rw [toNat_sub_of_le within] at recent
    simp only [any, within, true_and, iff_and_self]
    omega

/-- The tracker remembers exactly the arrivals of its history. -/
theorem Represents.has_iff {r : RecvTracker} {added : List UInt32} (rep : Represents r added)
    (s : UInt32) :
    r.has s = true ↔ s ∈ added ∧ r.largest.toNat < s.toNat + ackHistory := by
  rw [RecvTracker.has_iff]
  constructor
  · rintro ⟨any, within, recent, bit⟩
    exact ⟨(rep.bit any s within recent).mp bit, recent⟩
  · rintro ⟨member, recent⟩
    have any : r.any = true := rep.any.mpr (List.ne_nil_of_mem member)
    have within := rep.le_largest s member
    exact ⟨any, within, recent, (rep.bit any s within recent).mpr member⟩

/-- A sequence the tracker already holds, or one too old to hold, changes
nothing. -/
theorem Represents.cons {r : RecvTracker} {added : List UInt32} (rep : Represents r added)
    (any : r.any = true) {seq : UInt32} (within : seq.toNat ≤ r.largest.toNat)
    (known : r.largest.toNat < seq.toNat + ackHistory → seq ∈ added) :
    Represents r (seq :: added) := by
  refine ⟨by simp [any], rep.fresh, fun any => List.mem_cons_of_mem _ (rep.largest_mem any), ?_, ?_⟩
  · intro s member
    rcases List.mem_cons.mp member with rfl | old
    · exact within
    · exact rep.le_largest s old
  · intro any s within recent
    rw [rep.bit any s within recent, List.mem_cons]
    constructor
    · exact Or.inr
    · rintro (rfl | old)
      · exact known recent
      · exact old

/-- Recording a sequence keeps the representation. -/
theorem Represents.add {r : RecvTracker} {added : List UInt32} (rep : Represents r added)
    (seq : UInt32) : Represents (r.add seq).1 (seq :: added) := by
  unfold RecvTracker.add
  by_cases any : r.any = true
  · have nonempty : added ≠ [] := rep.any.mp any
    simp only [any, Bool.not_true, Bool.false_eq_true, ↓reduceIte]
    split
    · rename_i above
      have above' : r.largest.toNat < seq.toNat := above
      refine ⟨by simp, by simp, fun _ => by simp, ?_, ?_⟩
      · intro s member
        rcases List.mem_cons.mp member with rfl | old
        · exact Nat.le_refl _
        · have := rep.le_largest s old
          dsimp only
          omega
      · intro _ s within recent
        dsimp only at within recent ⊢
        rw [Bitmap.test_set, Bool.or_eq_true, decide_eq_true_eq,
          slot_inj (by omega) (by omega), List.mem_cons]
        by_cases same : s = seq
        · simp [same]
        · have below : s.toNat < seq.toNat := by
            have : s.toNat ≠ seq.toNat := fun equal => same (UInt32.toNat_inj.mp equal)
            omega
          rw [rep.jump any above below recent, eq_comm]
    · rename_i notAbove
      have within : seq.toNat ≤ r.largest.toNat := Nat.le_of_not_lt notAbove
      split
      · rename_i same
        exact rep.cons any within fun _ => same ▸ rep.largest_mem any
      · split
        · rename_i old
          rw [toNat_sub_of_le within] at old
          exact rep.cons any within fun recent => by omega
        · rename_i recent
          rw [toNat_sub_of_le within] at recent
          split
          · rename_i known
            exact rep.cons any within fun _ => ((rep.has_iff seq).mp known).1
          · refine ⟨by simp, by simp,
              fun _ => List.mem_cons_of_mem _ (rep.largest_mem any), ?_, ?_⟩
            · intro s member
              rcases List.mem_cons.mp member with rfl | old
              · exact within
              · exact rep.le_largest s old
            · intro _ s below near
              dsimp only at below near ⊢
              rw [Bitmap.test_set, Bool.or_eq_true, decide_eq_true_eq,
                slot_inj (by omega) (by omega), List.mem_cons, rep.bit any s below near, eq_comm]
  · have none : r.any = false := by simpa using any
    have empty : added = [] := by
      by_contra nonempty
      exact any (rep.any.mpr nonempty)
    simp only [none, Bool.not_false, ↓reduceIte, empty]
    refine ⟨by simp, by simp, fun _ => by simp, by simp, ?_⟩
    intro _ s within recent
    dsimp only at within recent ⊢
    rw [Bitmap.test_set, rep.fresh none, Bitmap.test_replicate_zero, Bool.or_false,
      decide_eq_true_eq, slot_inj (by omega) (by omega), List.mem_singleton, eq_comm]

theorem Represents.outOfOrder_iff {r : RecvTracker} {added : List UInt32}
    (rep : Represents r added) (seq : UInt32) :
    (r.add seq).2 = true ↔ added ≠ [] ∧ (r.largest.toNat + 1 < seq.toNat ∨
      seq < r.largest ∧ (ackHistory ≤ r.largest.toNat - seq.toNat ∨ seq ∉ added)) := by
  unfold RecvTracker.add
  by_cases any : r.any = true
  · rw [and_iff_right (rep.any.mp any)]
    simp only [any, Bool.not_true, Bool.false_eq_true, ↓reduceIte]
    split
    · rename_i above
      have above' : r.largest.toNat < seq.toNat := above
      rw [decide_eq_true_eq, gt_iff_lt, UInt32.lt_iff_toNat_lt, toNat_gap above, UInt32.toNat_zero,
        UInt32.lt_iff_toNat_lt]
      omega
    · rename_i notAbove
      have within : seq.toNat ≤ r.largest.toNat := Nat.le_of_not_lt notAbove
      split
      · rename_i same
        subst same
        simp
      · rename_i distinct
        have below : seq < r.largest := UInt32.lt_of_le_of_ne within distinct
        have late : ¬ r.largest.toNat + 1 < seq.toNat := by omega
        rw [toNat_sub_of_le (UInt32.le_of_lt below)]
        simp only [late, below, false_or, true_and]
        split
        · rename_i old
          simp [old]
        · rename_i recent
          have known := rep.has_iff seq
          split
          · rename_i held
            have member := (known.mp held).1
            simp [recent, member]
          · rename_i missing
            have absent : seq ∉ added := fun member =>
              missing (known.mpr ⟨member, by omega⟩)
            simp [absent]
  · have empty : added = [] := not_not.mp fun nonempty => any (rep.any.mpr nonempty)
    simp [any, empty]

def addAll (r : RecvTracker) (seqs : List UInt32) : RecvTracker :=
  seqs.foldl (fun r seq => (r.add seq).1) r

theorem Represents.congr {r : RecvTracker} {added seqs : List UInt32} (rep : Represents r added)
    (same : ∀ s, s ∈ added ↔ s ∈ seqs) : Represents r seqs := by
  have nil : added = [] ↔ seqs = [] := by
    simp only [List.eq_nil_iff_forall_not_mem, same]
  obtain ⟨any, fresh, largest_mem, le_largest, bit⟩ := rep
  simp only [same] at largest_mem le_largest bit
  exact ⟨by rw [any, Ne, nil], fresh, largest_mem, le_largest, bit⟩

theorem represents_addAll (seqs : List UInt32) : Represents (addAll {} seqs) seqs := by
  have run : ∀ {r : RecvTracker} {added : List UInt32}, Represents r added →
      Represents (r.addAll seqs) (seqs.reverse ++ added) := by
    induction seqs with
    | nil => exact fun rep => rep
    | cons seq rest ih =>
      intro r added rep
      rw [List.reverse_cons, List.append_assoc]
      exact ih (rep.add seq)
  exact (run represents_empty).congr (by simp)

/-- After any arrivals, the bitmap has exactly the recent ones, and the next is
reported out of order exactly if it leaves a gap, fills one or is too old to tell. -/
theorem bitmap_exact (seqs : List UInt32) :
    ((addAll {} seqs).any = true ↔ seqs ≠ []) ∧
    (seqs ≠ [] → (addAll {} seqs).largest ∈ seqs ∧ ∀ s ∈ seqs, s ≤ (addAll {} seqs).largest) ∧
    (∀ s, (addAll {} seqs).has s = true ↔ s ∈ seqs ∧ s ≤ (addAll {} seqs).largest ∧
      (addAll {} seqs).largest.toNat - s.toNat < ackHistory) ∧
    ∀ seq, ((addAll {} seqs).add seq).2 = true ↔
      seqs ≠ [] ∧ ((addAll {} seqs).largest.toNat + 1 < seq.toNat ∨
        seq < (addAll {} seqs).largest ∧
          (ackHistory ≤ (addAll {} seqs).largest.toNat - seq.toNat ∨ seq ∉ seqs)) := by
  have rep := represents_addAll seqs
  refine ⟨rep.any, fun nonempty => ⟨rep.largest_mem (rep.any.mpr nonempty), rep.le_largest⟩,
    fun s => ?_, rep.outOfOrder_iff⟩
  rw [rep.has_iff]
  constructor
  · rintro ⟨member, recent⟩
    have within := rep.le_largest s member
    exact ⟨member, within, by omega⟩
  · rintro ⟨member, within, recent⟩
    have within' : s.toNat ≤ (addAll {} seqs).largest.toNat := within
    exact ⟨member, by omega⟩

end RecvTracker

end Udx
