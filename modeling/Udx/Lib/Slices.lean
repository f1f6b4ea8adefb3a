import Mathlib.Data.List.Infix

set_option autoImplicit false

/- A list that stands at an offset in another. -/

namespace Slices

/-- `part` is what stands at `offset` in `whole`. -/
structure Slice {α : Type*} (whole : List α) (offset : Nat) (part : List α) : Prop where
  within : offset + part.length ≤ whole.length
  same : (whole.drop offset).take part.length = part

namespace Slice

variable {α : Type*} {whole part : List α} {offset : Nat}

theorem take_append (slice : Slice whole offset part) :
    whole.take offset ++ part = whole.take (offset + part.length) := by
  rw [List.take_add, slice.same]

theorem drop (slice : Slice whole offset part) {skip : Nat} (inside : skip ≤ part.length) :
    Slice whole (offset + skip) (part.drop skip) := by
  have within := slice.within
  refine ⟨by rw [List.length_drop]; omega, ?_⟩
  rw [List.length_drop, ← List.drop_drop, ← List.drop_take, slice.same]

theorem append (slice : Slice whole offset part) (more : List α) :
    Slice (whole ++ more) offset part := by
  have within := slice.within
  refine ⟨by rw [List.length_append]; omega, ?_⟩
  rw [List.drop_append_of_le_length (by omega), List.take_append_of_le_length (by
    rw [List.length_drop]; omega)]
  exact slice.same

theorem mono {more : List α} (slice : Slice whole offset part) (grown : whole <+: more) :
    Slice more offset part := by
  obtain ⟨rest, rfl⟩ := grown
  exact slice.append rest

theorem of_append (whole part : List α) : Slice (whole ++ part) whole.length part :=
  ⟨by rw [List.length_append], by rw [List.drop_left, List.take_length]⟩

theorem take {limit : Nat} (slice : Slice whole offset part)
    (inside : offset + part.length ≤ limit) : Slice (whole.take limit) offset part := by
  have within := slice.within
  refine ⟨by rw [List.length_take]; omega, ?_⟩
  rw [List.drop_take, List.take_take, Nat.min_eq_left (by omega)]
  exact slice.same

theorem left {rest : List α} (slice : Slice whole offset (part ++ rest)) :
    Slice whole offset part := by
  have within := slice.within
  rw [List.length_append] at within
  refine ⟨by omega, ?_⟩
  have whole := congrArg (List.take part.length) slice.same
  rwa [List.take_take, List.length_append, Nat.min_eq_left (by omega), List.take_left] at whole

theorem right {front : List α} (slice : Slice whole offset (front ++ part)) :
    Slice whole (offset + front.length) part := by
  have inside : front.length ≤ (front ++ part).length := by
    rw [List.length_append]
    omega
  have tail := slice.drop inside
  rwa [List.drop_left] at tail

end Slice

end Slices
