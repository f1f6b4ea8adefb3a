import Mathlib.Data.List.Basic
import Mathlib.Tactic.Linarith

set_option autoImplicit false

/- A list cut into pieces of one size, the last perhaps shorter. -/

namespace Chunks

variable {α : Type*}

def cut (size : Nat) : Nat → List α → List (List α)
  | 0, _ => []
  | fuel + 1, data =>
    if data.isEmpty then [] else data.take size :: cut size fuel (data.drop size)

/-- The pieces of `data`. Every piece takes at least one entry, so the length of
`data` bounds their number. -/
def chunks (size : Nat) (data : List α) : List (List α) := cut size data.length data

theorem flatten_cut {size : Nat} (positive : 0 < size) {fuel : Nat} {data : List α}
    (enough : data.length ≤ fuel) : (cut size fuel data).flatten = data := by
  induction fuel generalizing data with
  | zero => simp [cut, List.eq_nil_of_length_eq_zero (Nat.le_zero.mp enough)]
  | succ fuel ih =>
    rw [cut]
    split
    · rename_i empty
      simp [List.isEmpty_iff.mp empty]
    · rename_i nonempty
      have : data ≠ [] := fun nil => nonempty (List.isEmpty_iff.mpr nil)
      have := List.length_pos_iff.mpr this
      rw [List.flatten_cons, ih (by rw [List.length_drop]; omega), List.take_append_drop]

theorem flatten_chunks {size : Nat} (positive : 0 < size) (data : List α) :
    (chunks size data).flatten = data :=
  flatten_cut positive (Nat.le_refl _)

theorem length_of_mem_cut {size fuel : Nat} (positive : 0 < size) {data piece : List α}
    (member : piece ∈ cut size fuel data) : 0 < piece.length ∧ piece.length ≤ size := by
  induction fuel generalizing data with
  | zero => cases member
  | succ fuel ih =>
    rw [cut] at member
    split at member
    · cases member
    · rename_i nonempty
      rcases List.mem_cons.mp member with rfl | later
      · have : data ≠ [] := fun nil => nonempty (List.isEmpty_iff.mpr nil)
        have := List.length_pos_iff.mpr this
        rw [List.length_take]
        omega
      · exact ih later

theorem length_of_mem_chunks {size : Nat} (positive : 0 < size) {data piece : List α}
    (member : piece ∈ chunks size data) : 0 < piece.length ∧ piece.length ≤ size :=
  length_of_mem_cut positive member

theorem length_cut {size : Nat} (positive : 0 < size) {fuel : Nat} {data : List α}
    (enough : data.length ≤ fuel) :
    (cut size fuel data).length = (data.length + size - 1) / size := by
  have none : (0 + size - 1) / size = 0 := Nat.div_eq_of_lt (by omega)
  induction fuel generalizing data with
  | zero =>
    rw [Nat.le_zero.mp enough, none]
    rfl
  | succ fuel ih =>
    rw [cut]
    split
    · rename_i empty
      obtain rfl := List.isEmpty_iff.mp empty
      exact none.symm
    · rename_i nonempty
      have : data ≠ [] := fun nil => nonempty (List.isEmpty_iff.mpr nil)
      have := List.length_pos_iff.mpr this
      rw [List.length_cons, ih (by rw [List.length_drop]; omega), List.length_drop]
      by_cases short : data.length ≤ size
      · have one : (data.length + size - 1) / size = 1 :=
          Nat.div_eq_of_lt_le (by omega) (by omega)
        rw [one, Nat.sub_eq_zero_of_le short, none]
      · rw [← Nat.add_div_right _ positive]
        congr 1
        omega

/-- How many pieces there are: the length over the size, rounded up. -/
theorem length_chunks {size : Nat} (positive : 0 < size) (data : List α) :
    (chunks size data).length = (data.length + size - 1) / size :=
  length_cut positive (Nat.le_refl _)

theorem length_le_sum {size : Nat} {pieces : List (List α)}
    (short : ∀ piece ∈ pieces, piece.length ≤ size) :
    pieces.flatten.length ≤ pieces.length * size := by
  induction pieces with
  | nil => simp
  | cons piece rest ih =>
    have here := short piece List.mem_cons_self
    have later := ih fun piece member => short piece (List.mem_cons_of_mem _ member)
    rw [List.flatten_cons, List.length_append, List.length_cons, Nat.add_mul]
    omega

theorem one_lt_length_chunks {size : Nat} (positive : 0 < size) {data : List α}
    (long : size < data.length) : 1 < (chunks size data).length := by
  have bound : (chunks size data).flatten.length ≤ (chunks size data).length * size :=
    length_le_sum fun piece member => (length_of_mem_chunks positive member).2
  rw [flatten_chunks positive] at bound
  by_contra few
  have : (chunks size data).length * size ≤ 1 * size := Nat.mul_le_mul_right _ (by omega)
  omega

/-- Cutting a list into several nonempty pieces lowers the sum of the squares,
even with one added for every piece. -/
theorem sum_sq_succ_le {pieces : List (List α)} (several : 1 < pieces.length)
    (nonempty : ∀ piece ∈ pieces, 0 < piece.length) :
    (pieces.map fun piece => piece.length ^ 2 + 1).sum ≤ pieces.flatten.length ^ 2 := by
  induction pieces with
  | nil => simp at several
  | cons first rest ih =>
    have here := nonempty first List.mem_cons_self
    have later := fun piece member => nonempty piece (List.mem_cons_of_mem first member)
    rw [List.map_cons, List.sum_cons, List.flatten_cons, List.length_append]
    match rest, several, ih, later with
    | [second], _, _, later =>
      have there := later second List.mem_cons_self
      simp only [List.map_cons, List.map_nil, List.sum_cons, List.sum_nil, List.flatten_cons,
        List.flatten_nil, List.append_nil]
      nlinarith
    | second :: third :: more, _, ih, later =>
      have bound := ih (by simp) later
      have there := later second List.mem_cons_self
      have positive : 0 < (second :: third :: more).flatten.length := by
        rw [List.flatten_cons, List.length_append]
        omega
      nlinarith

end Chunks
