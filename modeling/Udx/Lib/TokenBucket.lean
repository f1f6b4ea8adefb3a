import Mathlib.Algebra.Order.Field.Basic
import Mathlib.Tactic.Linarith
import Mathlib.Tactic.Ring

set_option autoImplicit false

/- A token bucket. Its level rises at a constant rate up to a capacity. A draw may
take more than there is, and the level is below zero until that is made up. -/

namespace TokenBucket

variable {K : Type*} [Field K] [LinearOrder K]

/-- The level after the last draw, and when that was. -/
structure Bucket (K : Type*) where
  level : K
  time : K

variable (capacity rate : K)

def Bucket.levelAt (b : Bucket K) (t : K) : K := min capacity (b.level + rate * (t - b.time))

def Bucket.draw (b : Bucket K) (t amount : K) : Bucket K := ⟨b.levelAt capacity rate t - amount, t⟩

section

variable {capacity rate} {b : Bucket K} {s t : K}

theorem Bucket.levelAt_le : b.levelAt capacity rate t ≤ capacity := min_le_left _ _

variable [IsStrictOrderedRing K]

theorem Bucket.levelAt_mono (nonneg : 0 ≤ rate) (later : s ≤ t) :
    b.levelAt capacity rate s ≤ b.levelAt capacity rate t := by
  refine min_le_min_left capacity ?_
  have gained := mul_le_mul_of_nonneg_left (sub_le_sub_right later b.time) nonneg
  linarith

/-- Right after a draw the level is what is left. -/
theorem Bucket.levelAt_draw {amount : K} (nonneg : 0 ≤ amount) :
    (b.draw capacity rate t amount).levelAt capacity rate t = b.levelAt capacity rate t - amount := by
  have most : b.levelAt capacity rate t ≤ capacity := Bucket.levelAt_le
  show min capacity (b.levelAt capacity rate t - amount + rate * (t - t)) = _
  rw [sub_self, mul_zero, add_zero, min_eq_right (by linarith)]

end

/-- What has been drawn in the time from `start` to `stop`. The level was never more
than `debt` below zero. -/
inductive Spent (start stop debt : K) (b : Bucket K) (sum : K) : Prop
  | idle (none : sum = 0)
  | inside (after : start ≤ b.time) (before : b.time ≤ stop)
    (most : sum + b.level ≤ capacity + rate * (b.time - start))
  | past (after : stop < b.time) (most : sum ≤ capacity + rate * (stop - start) + debt)

variable {capacity rate} {start stop debt sum : K} {b : Bucket K} [IsStrictOrderedRing K]

theorem Spent.draw (spent : Spent capacity rate start stop debt b sum) (nonneg : 0 ≤ rate)
    {t : K} (earlier : sum = 0 ∨ b.time ≤ t ∧ -debt ≤ b.level) (amount : K) :
    Spent capacity rate start stop debt (b.draw capacity rate t amount)
      (if start ≤ t ∧ t ≤ stop then sum + amount else sum) := by
  have most : b.levelAt capacity rate t ≤ capacity := Bucket.levelAt_le
  have risen : b.levelAt capacity rate t ≤ b.level + rate * (t - b.time) := min_le_right _ _
  have fresh (none : sum = 0) : Spent capacity rate start stop debt (b.draw capacity rate t amount)
      (if start ≤ t ∧ t ≤ stop then sum + amount else sum) := by
    split
    · rename_i within
      have gained := mul_nonneg nonneg (sub_nonneg.mpr within.1)
      refine .inside within.1 within.2 ?_
      show sum + amount + (b.levelAt capacity rate t - amount) ≤ capacity + rate * (t - start)
      rw [none]
      linarith
    · exact .idle none
  rcases earlier with none | ⟨later, floor⟩
  · exact fresh none
  · cases spent with
    | idle none => exact fresh none
    | inside after before spent =>
      split
      · rename_i within
        refine .inside within.1 within.2 ?_
        show sum + amount + (b.levelAt capacity rate t - amount) ≤ capacity + rate * (t - start)
        have steps : rate * (t - start) = rate * (b.time - start) + rate * (t - b.time) := by ring
        linarith
      · rename_i outside
        have beyond : stop < t := not_le.mp fun within => outside ⟨le_trans after later, within⟩
        have longer := mul_le_mul_of_nonneg_left (sub_le_sub_right before start) nonneg
        exact .past beyond (by linarith)
    | past after spent =>
      have beyond := lt_of_lt_of_le after later
      rw [if_neg fun within => absurd beyond (not_lt.mpr within.2)]
      exact .past beyond spent

theorem Spent.total (spent : Spent capacity rate start stop debt b sum) (nonneg : 0 ≤ rate)
    (room : 0 ≤ capacity + rate * (stop - start) + debt) (floor : sum = 0 ∨ -debt ≤ b.level) :
    sum ≤ capacity + rate * (stop - start) + debt := by
  rcases floor with none | floor
  · exact none ▸ room
  · cases spent with
    | idle none => exact none ▸ room
    | inside after before spent =>
      have longer := mul_le_mul_of_nonneg_left (sub_le_sub_right before start) nonneg
      linarith
    | past after spent => exact spent

end TokenBucket
