import Mathlib.Data.Nat.Bitwise

set_option autoImplicit false

/- A bitmap kept in 64-bit words: bit `i` is bit `i % 64` of word `i / 64`. -/

namespace Bitmap

variable {n : Nat}

theorem word_lt (i : Fin (n * 64)) : i.val / 64 < n := by
  have := i.isLt
  omega

def mask (i : Nat) : UInt64 := 1 <<< UInt64.ofNat (i % 64)

def test (words : Vector UInt64 n) (i : Fin (n * 64)) : Bool :=
  have := word_lt i
  words[i.val / 64] &&& mask i.val != 0

def set (words : Vector UInt64 n) (i : Fin (n * 64)) : Vector UInt64 n :=
  have := word_lt i
  words.set (i.val / 64) (words[i.val / 64] ||| mask i.val)

def clear (words : Vector UInt64 n) (i : Fin (n * 64)) : Vector UInt64 n :=
  have := word_lt i
  words.set (i.val / 64) (words[i.val / 64] &&& ~~~mask i.val)

theorem toNat_mask (i : Nat) : (mask i).toNat = 2 ^ (i % 64) := by
  have small : 2 ^ (i % 64) < 2 ^ 64 := Nat.pow_lt_pow_right (by decide) (Nat.mod_lt _ (by decide))
  rw [mask, UInt64.toNat_shiftLeft, UInt64.toNat_ofNat', UInt64.toNat_one, Nat.shiftLeft_eq,
    Nat.one_mul, Nat.mod_eq_of_lt (show i % 64 < 2 ^ 64 by omega), Nat.mod_mod,
    Nat.mod_eq_of_lt small]

theorem and_mask_ne_zero (w : UInt64) (i : Nat) :
    (w &&& mask i != 0) = w.toNat.testBit (i % 64) := by
  have positive := Nat.two_pow_pos (i % 64)
  have value : (w &&& mask i).toNat = (w.toNat.testBit (i % 64)).toNat * 2 ^ (i % 64) := by
    rw [UInt64.toNat_and, toNat_mask, Nat.and_two_pow]
  cases bit : w.toNat.testBit (i % 64) with
  | false =>
    rw [bit, Bool.toNat_false, Nat.zero_mul] at value
    simpa [bne, ← UInt64.toNat_inj] using value
  | true =>
    rw [bit, Bool.toNat_true, Nat.one_mul] at value
    simp [bne, ← UInt64.toNat_inj, value]

theorem testBit_not_mask (i j : Nat) (inside : j < 64) :
    (~~~mask i).toNat.testBit j = !decide (i % 64 = j) := by
  have small : 2 ^ (i % 64) < 2 ^ 64 := Nat.pow_lt_pow_right (by decide) (Nat.mod_lt _ (by decide))
  have complement : (~~~mask i).toNat = 2 ^ 64 - (2 ^ (i % 64) + 1) := by
    rw [UInt64.toNat_not, toNat_mask, Nat.add_comm (2 ^ (i % 64)), ← Nat.sub_sub]
    rfl
  rw [complement, Nat.testBit_two_pow_sub_succ small, Nat.testBit_two_pow]
  simp [inside]

theorem test_eq (words : Vector UInt64 n) (i : Fin (n * 64)) (bound : i.val / 64 < n) :
    test words i = words[i.val / 64].toNat.testBit (i.val % 64) :=
  and_mask_ne_zero _ _

theorem mod_eq_iff {i j : Fin (n * 64)} (word : i.val / 64 = j.val / 64) :
    i.val % 64 = j.val % 64 ↔ i = j := by
  rw [Fin.ext_iff]
  omega

theorem test_set (words : Vector UInt64 n) (i j : Fin (n * 64)) :
    test (set words i) j = (decide (i = j) || test words j) := by
  have bound := word_lt j
  rw [test_eq _ _ bound, test_eq _ _ bound, set]
  by_cases word : i.val / 64 = j.val / 64
  · simp [word, toNat_mask, Nat.testBit_two_pow, mod_eq_iff word, Bool.or_comm]
  · have different : i ≠ j := fun same => word (same ▸ rfl)
    simp [Vector.getElem_set_ne, word, different]

theorem test_clear (words : Vector UInt64 n) (i j : Fin (n * 64)) :
    test (clear words i) j = (!decide (i = j) && test words j) := by
  have bound := word_lt j
  have inside : j.val % 64 < 64 := Nat.mod_lt _ (by decide)
  rw [test_eq _ _ bound, test_eq _ _ bound, clear]
  by_cases word : i.val / 64 = j.val / 64
  · simp only [word, Vector.getElem_set_self, UInt64.toNat_and, Nat.testBit_and,
      testBit_not_mask _ _ inside, mod_eq_iff word, Bool.and_comm]
  · have different : i ≠ j := fun same => word (same ▸ rfl)
    simp [Vector.getElem_set_ne, word, different]

theorem test_replicate_zero (i : Fin (n * 64)) : test (Vector.replicate n 0) i = false := by
  simp [test]

end Bitmap
