import Udx.FlowLimits

set_option autoImplicit false

/- The offset a WINDOW_UPDATE stands for, in the 64-bit arithmetic of the source:
the reference's upper half, the wire value and a comparison with the two neighbours. -/

namespace Udx

def windowOffsetModulus64 : Int64 := 1 <<< (32 : Int64)

def absInt64 (v : Int64) : Int64 := if v < 0 then -v else v

/-- `reconstructWindowOffset` as the source computes it. -/
def reconstructWindowOffset64 (wire : UInt32) (reference : Int64) : Int64 :=
  let base := reference &&& ~~~(windowOffsetModulus64 - 1)
  let best := base + wire.toUInt64.toInt64
  [best - windowOffsetModulus64, best + windowOffsetModulus64].foldl (fun best cand =>
    if absInt64 (cand - reference) < absInt64 (best - reference) then cand else best) best

/-- The exact values of what it computes on the way: the base, the three candidates
and how far each is from the reference. -/
def windowOffsetTerms (wire : UInt32) (reference : Int) : List Int :=
  let base := reference - reference % windowOffsetModulus
  let best := base + wire.toNat
  let candidates := [best, best - windowOffsetModulus, best + windowOffsetModulus]
  base :: candidates ++ candidates.map (· - reference) ++
    candidates.map fun c => ((c - reference).natAbs : Int)

theorem toNat_and_not_mask {k : Nat} (x mask : BitVec 64)
    (low : ∀ i, mask.getLsbD i = decide (i < k)) :
    (x &&& ~~~mask).toNat = x.toNat - x.toNat % 2 ^ k := by
  have halves : x &&& ~~~mask = (x >>> k) <<< k := by
    apply BitVec.eq_of_getLsbD_eq
    intro i below
    rw [BitVec.getLsbD_and, BitVec.getLsbD_not, low, BitVec.getLsbD_shiftLeft,
      BitVec.getLsbD_ushiftRight]
    by_cases cleared : i < k
    · simp [cleared]
    · simp [cleared, below, Nat.add_sub_cancel' (Nat.le_of_not_lt cleared)]
  have exact : x.toNat - x.toNat % 2 ^ k = x.toNat / 2 ^ k * 2 ^ k := by
    have whole := Nat.div_add_mod' x.toNat (2 ^ k)
    omega
  rw [halves, BitVec.toNat_shiftLeft, BitVec.toNat_ushiftRight, Nat.shiftRight_eq_div_pow,
    Nat.shiftLeft_eq, exact]
  exact Nat.mod_eq_of_lt (Nat.lt_of_le_of_lt (Nat.div_mul_le_self _ _) x.isLt)

theorem toInt_add_of_fits {a b : Int64} (low : -2 ^ 63 ≤ a.toInt + b.toInt)
    (high : a.toInt + b.toInt < 2 ^ 63) : (a + b).toInt = a.toInt + b.toInt := by
  rw [Int64.toInt_add]
  exact Int.bmod_eq_of_le_mul_two (by omega) (by omega)

theorem toInt_sub_of_fits {a b : Int64} (low : -2 ^ 63 ≤ a.toInt - b.toInt)
    (high : a.toInt - b.toInt < 2 ^ 63) : (a - b).toInt = a.toInt - b.toInt := by
  rw [Int64.toInt_sub]
  exact Int.bmod_eq_of_le_mul_two (by omega) (by omega)

theorem toInt_absInt64 {v : Int64} (low : -2 ^ 63 < v.toInt) :
    (absInt64 v).toInt = v.toInt.natAbs := by
  have high := v.toInt_lt
  unfold absInt64
  split
  · rename_i negative
    have negative : v.toInt < 0 := Int64.lt_iff_toInt_lt.mp negative
    rw [Int64.toInt_neg, Int.bmod_eq_of_le_mul_two (by omega) (by omega)]
    omega
  · rename_i positive
    have positive : ¬ v.toInt < 0 := fun negative => positive (Int64.lt_iff_toInt_lt.mpr negative)
    omega

theorem toInt_toInt64 (wire : UInt32) : wire.toUInt64.toInt64.toInt = wire.toNat := by
  have below := wire.toNat_lt
  have same : wire.toUInt64.toBitVec.toNat = wire.toNat := UInt32.toNat_toUInt64 wire
  rw [← Int64.toInt_toBitVec, UInt64.toBitVec_toInt64, BitVec.toInt_eq_toNat_of_lt (by omega), same]

theorem toInt_base {reference : Int64} (nonneg : 0 ≤ reference.toInt) :
    (reference &&& ~~~(windowOffsetModulus64 - 1)).toInt =
      reference.toInt - reference.toInt % windowOffsetModulus := by
  have whole : reference.toInt = reference.toBitVec.toNat := by
    rw [← Int64.toInt_toBitVec, BitVec.toInt_eq_toNat_cond] at nonneg ⊢
    split at nonneg
    · rename_i small
      rw [if_pos small]
    · have := reference.toBitVec.isLt
      omega
  have mask : ∀ i, (windowOffsetModulus64 - 1).toBitVec.getLsbD i = decide (i < 32) := by
    intro i
    have same : (windowOffsetModulus64 - 1).toBitVec = BitVec.setWidth 64 (BitVec.allOnes 32) := by
      decide
    rw [same, BitVec.getLsbD_setWidth, BitVec.getLsbD_allOnes]
    by_cases low : i < 32
    · simp [low, show i < 64 by omega]
    · simp [low]
  have rounded := toNat_and_not_mask reference.toBitVec _ mask
  rw [← Int64.toInt_toBitVec, Int64.toBitVec_and, Int64.toBitVec_not, BitVec.toInt_eq_toNat_cond,
    rounded, whole, windowOffsetModulus]
  have := reference.toInt_lt
  rw [whole] at this
  omega

section

variable {reference best cand : Int64}

theorem toInt_nearer (bestNear : (best.toInt - reference.toInt).natAbs < 2 ^ 63)
    (candNear : (cand.toInt - reference.toInt).natAbs < 2 ^ 63) :
    (if absInt64 (cand - reference) < absInt64 (best - reference) then cand else best).toInt =
      if (cand.toInt - reference.toInt).natAbs < (best.toInt - reference.toInt).natAbs
      then cand.toInt else best.toInt := by
  have distance {a : Int64} (near : (a.toInt - reference.toInt).natAbs < 2 ^ 63) :
      (absInt64 (a - reference)).toInt = (a.toInt - reference.toInt).natAbs := by
    have exact := toInt_sub_of_fits (a := a) (b := reference) (by omega) (by omega)
    rw [toInt_absInt64 (by omega), exact]
  have same : absInt64 (cand - reference) < absInt64 (best - reference) ↔
      (cand.toInt - reference.toInt).natAbs < (best.toInt - reference.toInt).natAbs := by
    rw [Int64.lt_iff_toInt_lt, distance bestNear, distance candNear, Int.ofNat_lt]
  by_cases nearer : (cand.toInt - reference.toInt).natAbs < (best.toInt - reference.toInt).natAbs
  · rw [if_pos nearer, if_pos (same.mpr nearer)]
  · rw [if_neg nearer, if_neg fun less => nearer (same.mp less)]

theorem toInt_foldl_nearer (candidates : List Int64)
    (bestNear : (best.toInt - reference.toInt).natAbs < 2 ^ 63)
    (near : ∀ cand ∈ candidates, (cand.toInt - reference.toInt).natAbs < 2 ^ 63) :
    (candidates.foldl (fun best cand =>
      if absInt64 (cand - reference) < absInt64 (best - reference) then cand else best) best).toInt =
      (candidates.map Int64.toInt).foldl (fun best cand =>
        if (cand - reference.toInt).natAbs < (best - reference.toInt).natAbs then cand else best)
        best.toInt := by
  induction candidates generalizing best with
  | nil => rfl
  | cons cand rest ih =>
    obtain ⟨candNear, restNear⟩ := List.forall_mem_cons.mp near
    have chosen := toInt_nearer bestNear candNear
    rw [List.map_cons, List.foldl_cons, List.foldl_cons, ih ?_ restNear, chosen]
    rw [chosen]
    split
    · exact candNear
    · exact bestNear

variable (wire : UInt32)

/-- Every value on the way is well within 64 bits. -/
theorem windowOffsetTerms_fit {r : Int} (nonneg : 0 ≤ r) (below : r < 2 ^ 62) :
    ∀ v ∈ windowOffsetTerms wire r, -2 ^ 63 ≤ v ∧ v < 2 ^ 63 := by
  have small := wire.toNat_lt
  simp only [windowOffsetTerms, windowOffsetModulus, List.map_cons, List.map_nil, List.cons_append,
    List.nil_append, List.forall_mem_cons]
  refine ⟨?_, ?_, ?_, ?_, ?_, ?_, ?_, ?_, ?_, ?_, List.forall_mem_nil _⟩ <;> omega

theorem toInt_reconstructWindowOffset64 (nonneg : 0 ≤ reference.toInt)
    (below : reference.toInt < 2 ^ 62) :
    (reconstructWindowOffset64 wire reference).toInt =
      reconstructWindowOffset wire reference.toInt := by
  have small := wire.toNat_lt
  have modulus : windowOffsetModulus64.toInt = 2 ^ 32 := by decide
  have start := toInt_base nonneg
  rw [windowOffsetModulus] at start
  rw [reconstructWindowOffset64, reconstructWindowOffset, windowOffsetModulus, ← start]
  generalize reference &&& ~~~(windowOffsetModulus64 - 1) = base at start ⊢
  have middle : (base + wire.toUInt64.toInt64).toInt = base.toInt + wire.toNat := by
    rw [toInt_add_of_fits, toInt_toInt64] <;> rw [toInt_toInt64] <;> omega
  rw [← middle]
  generalize base + wire.toUInt64.toInt64 = best at middle ⊢
  have lower : (best - windowOffsetModulus64).toInt = best.toInt - 2 ^ 32 := by
    rw [toInt_sub_of_fits, modulus] <;> rw [modulus] <;> omega
  have upper : (best + windowOffsetModulus64).toInt = best.toInt + 2 ^ 32 := by
    rw [toInt_add_of_fits, modulus] <;> rw [modulus] <;> omega
  rw [toInt_foldl_nearer, List.map_cons, List.map_cons, List.map_nil, lower, upper]
  · omega
  · simp only [List.forall_mem_cons, lower, upper]
    refine ⟨?_, ?_, List.forall_mem_nil _⟩ <;> omega

/-- Exactly computed, it stands for the wire value and is nearest the reference. -/
theorem reconstructWindowOffset_spec (r : Int) :
    reconstructWindowOffset wire r % 2 ^ 32 = wire.toNat ∧
      (reconstructWindowOffset wire r - r).natAbs ≤ 2 ^ 31 := by
  have small := wire.toNat_lt
  simp only [reconstructWindowOffset, windowOffsetModulus, List.foldl_cons, List.foldl_nil]
  split <;> split <;> omega

end

/-- The reconstruction finds the offset that was truncated, within half the modulus
of the reference. Whatever the wire value, it finds the nearest offset with it, and no
value it computes on the way overflows. -/
theorem reconstructWindowOffset_nearest {reference : Int64} (nonneg : 0 ≤ reference.toInt)
    (below : reference.toInt < 2 ^ 62) :
    (∀ f : Int, 0 ≤ f → |f - reference.toInt| < 2 ^ 31 →
      (reconstructWindowOffset64 (UInt32.ofInt f) reference).toInt = f) ∧
    ∀ wire : UInt32,
      (reconstructWindowOffset64 wire reference).toInt % 2 ^ 32 = wire.toNat ∧
      |(reconstructWindowOffset64 wire reference).toInt - reference.toInt| ≤ 2 ^ 31 ∧
      (∀ v ∈ windowOffsetTerms wire reference.toInt, -2 ^ 63 ≤ v ∧ v < 2 ^ 63) ∧
      (reconstructWindowOffset64 wire reference).toInt =
        reconstructWindowOffset wire reference.toInt := by
  have exact (wire : UInt32) := toInt_reconstructWindowOffset64 wire nonneg below
  refine ⟨fun f _ near => ?_, fun wire => ?_⟩
  · rw [abs_lt] at near
    rw [exact]
    exact reconstructWindowOffset_ofInt (by omega) (by omega)
  · obtain ⟨residue, distance⟩ := reconstructWindowOffset_spec wire reference.toInt
    rw [exact]
    refine ⟨residue, ?_, windowOffsetTerms_fit wire nonneg below, rfl⟩
    rw [Int.abs_eq_natAbs]
    omega

/-- A reference just below a multiple of the modulus, and an offset just past it. -/
theorem reconstructWindowOffset_nearest_carry :
    (reconstructWindowOffset64 (UInt32.ofInt (2 ^ 33 + 5)) 8589934589).toInt = 2 ^ 33 + 5 := by
  have nonneg : 0 ≤ (8589934589 : Int64).toInt := by decide
  have below : (8589934589 : Int64).toInt < 2 ^ 62 := by decide
  exact (reconstructWindowOffset_nearest nonneg below).1 (2 ^ 33 + 5) (by decide) (by decide)

end Udx
