import Mathlib.Algebra.BigOperators.Ring.Finset
import Mathlib.Algebra.Order.BigOperators.Group.List
import Mathlib.Algebra.Order.Ring.Nat
import Mathlib.Data.List.Count
import Mathlib.Data.List.Pairwise
import Mathlib.Data.Set.Insert
import Mathlib.Order.Interval.Finset.Nat

set_option autoImplicit false

/- Families of intervals that are cut ever finer. Two intervals of such a family
are nested or apart, and the finest ones lie within whatever they meet. -/

namespace Spans

/-- The numbers from `start` up to `stop`. -/
structure Span where
  start : Nat
  stop : Nat
deriving DecidableEq

namespace Span

instance : Membership Nat Span := ⟨fun s x => s.start ≤ x ∧ x < s.stop⟩

theorem mem_iff {x : Nat} {s : Span} : x ∈ s ↔ s.start ≤ x ∧ x < s.stop := Iff.rfl

instance (x : Nat) (s : Span) : Decidable (x ∈ s) := inferInstanceAs (Decidable (_ ∧ _))

def Within (inner outer : Span) : Prop := outer.start ≤ inner.start ∧ inner.stop ≤ outer.stop

theorem Within.mem {inner outer : Span} (within : inner.Within outer) {x : Nat}
    (inside : x ∈ inner) : x ∈ outer :=
  ⟨Nat.le_trans within.1 inside.1, Nat.lt_of_lt_of_le inside.2 within.2⟩

theorem Within.trans {a b c : Span} (first : a.Within b) (second : b.Within c) : a.Within c :=
  ⟨Nat.le_trans second.1 first.1, Nat.le_trans first.2 second.2⟩

/-- `c` begins before `d` and ends inside it. -/
def Crosses (c d : Span) : Prop := c.start < d.start ∧ d.start < c.stop ∧ c.stop < d.stop

instance (c d : Span) : Decidable (c.Crosses d) := inferInstanceAs (Decidable (_ ∧ _ ∧ _))

def Laminar (family : Set Span) : Prop := ∀ c ∈ family, ∀ d ∈ family, ¬ c.Crosses d

/-- `l` lies within every member of the family that it meets. -/
def Finest (family : Set Span) (l : Span) : Prop := ∀ c ∈ family, ∀ x ∈ l, x ∈ c → l.Within c

def Apart (s t : Span) : Prop := s.stop ≤ t.start ∨ t.stop ≤ s.start

instance : Std.Symm Apart := ⟨fun _ _ => Or.symm⟩

theorem Apart.not_mem {s t : Span} (apart : s.Apart t) {x : Nat} (inside : x ∈ s) : x ∉ t := by
  rw [mem_iff] at inside ⊢
  rcases apart with before | after <;> omega

section Grow

variable {family grown : Set Span} {l new : Span}

theorem Laminar.mono (laminar : Laminar family) (fewer : grown ⊆ family) : Laminar grown :=
  fun c member d other => laminar c (fewer member) d (fewer other)

theorem Finest.mono (finest : Finest family l) (fewer : grown ⊆ family) : Finest grown l :=
  fun c member => finest c (fewer member)

theorem Laminar.beyond (laminar : Laminar family) (ended : ∀ c ∈ family, c.stop ≤ new.start)
    (only : ∀ c ∈ grown, c = new ∨ c ∈ family) : Laminar grown := by
  intro c member d other crosses
  obtain ⟨first, inside, last⟩ := crosses
  rcases only c member with rfl | old <;> rcases only d other with rfl | there
  · omega
  · have := ended d there
    omega
  · have := ended c old
    omega
  · exact laminar c old d there ⟨first, inside, last⟩

theorem Finest.beyond (finest : Finest family l) (before : l.stop ≤ new.start)
    (only : ∀ c ∈ grown, c = new ∨ c ∈ family) : Finest grown l := by
  intro c member x inside met
  rcases only c member with rfl | old
  · have := inside.2
    have := met.1
    omega
  · exact finest c old x inside met

theorem finest_beyond (ended : ∀ c ∈ family, c.stop ≤ new.start)
    (only : ∀ c ∈ grown, c = new ∨ c ∈ family) : Finest grown new := by
  intro c member x inside met
  rcases only c member with rfl | old
  · exact ⟨Nat.le_refl _, Nat.le_refl _⟩
  · have := ended c old
    have := met.2
    have := inside.1
    omega

variable {pieces : List Span}

theorem Laminar.cut (laminar : Laminar family) (finest : Finest family l)
    (within : ∀ p ∈ pieces, p.Within l) (apart : pieces.Pairwise Apart)
    (only : ∀ c ∈ grown, c ∈ pieces ∨ c ∈ family) : Laminar grown := by
  intro c member d other crosses
  obtain ⟨first, inside, last⟩ := crosses
  rcases only c member with piece | old <;> rcases only d other with part | there
  · have distinct : c ≠ d := by
      rintro rfl
      omega
    rcases apart.forall piece part distinct with before | after <;> omega
  · -- A member that begins inside a piece contains the whole span.
    have all := finest d there d.start
      ((within c piece).mem ⟨Nat.le_of_lt first, inside⟩) ⟨Nat.le_refl _, by omega⟩
    have := (within c piece).1
    have := all.1
    omega
  · have all := finest c old d.start
      ((within d part).mem ⟨Nat.le_refl _, by omega⟩) ⟨Nat.le_of_lt first, inside⟩
    have := (within d part).2
    have := all.2
    omega
  · exact laminar c old d there ⟨first, inside, last⟩

theorem Finest.piece (finest : Finest family l) (within : ∀ p ∈ pieces, p.Within l)
    (apart : pieces.Pairwise Apart) (only : ∀ c ∈ grown, c ∈ pieces ∨ c ∈ family) {p : Span}
    (piece : p ∈ pieces) : Finest grown p := by
  intro c member x inside met
  rcases only c member with other | old
  · by_cases same : p = c
    · exact same ▸ ⟨Nat.le_refl _, Nat.le_refl _⟩
    · exact absurd met ((apart.forall piece other same).not_mem inside)
  · exact (within p piece).trans (finest c old x ((within p piece).mem inside) met)

theorem Finest.aside {other : Span} (finest : Finest family other)
    (distinct : ∀ x ∈ other, x ∉ l) (within : ∀ p ∈ pieces, p.Within l)
    (only : ∀ c ∈ grown, c ∈ pieces ∨ c ∈ family) : Finest grown other := by
  intro c member x inside met
  rcases only c member with piece | old
  · exact absurd ((within c piece).mem met) (distinct x inside)
  · exact finest c old x inside met

end Grow

/-- A front that moves from inside a member to its end passes no other member
in the middle. -/
theorem Laminar.advance {family : Set Span} (laminar : Laminar family) {c h : Span} {front : Nat}
    (member : c ∈ family) (held : h ∈ family) (begun : c.start ≤ front) (further : front ≤ c.stop)
    (clear : h.stop ≤ front ∨ front < h.start) : h.stop ≤ c.stop ∨ c.stop ≤ h.start := by
  by_contra stuck
  rw [not_or] at stuck
  exact laminar c member h held ⟨by omega, by omega, by omega⟩

/-- Spans of these lengths, one after the other. -/
def tile : Nat → List Nat → List Span
  | _, [] => []
  | start, n :: rest => ⟨start, start + n⟩ :: tile (start + n) rest

theorem within_of_mem_tile {start : Nat} {lengths : List Nat} {s : Span}
    (member : s ∈ tile start lengths) : s.Within ⟨start, start + lengths.sum⟩ := by
  induction lengths generalizing start with
  | nil => cases member
  | cons n rest ih =>
    rw [List.sum_cons]
    rcases List.mem_cons.mp member with rfl | later
    · exact ⟨Nat.le_refl _, by dsimp only; omega⟩
    · obtain ⟨after, before⟩ := ih later
      exact ⟨by dsimp only at after ⊢; omega, by dsimp only at before ⊢; omega⟩

theorem apart_tile (start : Nat) (lengths : List Nat) : (tile start lengths).Pairwise Apart := by
  induction lengths generalizing start with
  | nil => exact .nil
  | cons n rest ih =>
    exact .cons (fun s later => .inl (within_of_mem_tile later).1) (ih _)

/-- Each number of the whole is in one piece. -/
theorem countP_tile (start : Nat) (lengths : List Nat) (x : Nat) :
    (tile start lengths).countP (fun s => x ∈ s) =
      if x ∈ (⟨start, start + lengths.sum⟩ : Span) then 1 else 0 := by
  induction lengths generalizing start with
  | nil =>
    simp only [tile, List.countP_nil, mem_iff, List.sum_nil]
    split <;> omega
  | cons n rest ih =>
    rw [tile, List.countP_cons, ih]
    simp only [mem_iff, List.sum_cons, decide_eq_true_eq]
    repeat' split
    all_goals omega

theorem sum_countP {spans : List Span} {n : Nat} (below : ∀ s ∈ spans, s.stop ≤ n) :
    ∑ x ∈ Finset.range n, spans.countP (fun s => x ∈ s) =
      (spans.map fun s => s.stop - s.start).sum := by
  induction spans with
  | nil => simp
  | cons s rest ih =>
    obtain ⟨here, later⟩ := List.forall_mem_cons.mp below
    have inside : (Finset.range n).filter (fun x => x ∈ s) = Finset.Ico s.start s.stop := by
      ext x
      rw [Finset.mem_filter, Finset.mem_range, Finset.mem_Ico, mem_iff]
      omega
    simp only [List.countP_cons, decide_eq_true_eq]
    rw [Finset.sum_add_distrib, ih later, Finset.sum_boole, inside, Nat.card_Ico, List.map_cons,
      List.sum_cons, Nat.cast_id, Nat.add_comm]

/-- Spans that hold every number below `n` once, and no other, are `n` long together. -/
theorem sum_length_eq {spans : List Span} {n : Nat}
    (once : ∀ x, spans.countP (fun s => x ∈ s) = if x < n then 1 else 0) :
    (spans.map fun s => s.stop - s.start).sum = n := by
  let bound := n + (spans.map Span.stop).sum
  have below : ∀ s ∈ spans, s.stop ≤ bound := fun s member =>
    Nat.le_add_left_of_le (List.le_sum_of_mem (List.mem_map_of_mem member))
  have within : (Finset.range bound).filter (fun x => x < n) = Finset.range n := by
    ext x
    rw [Finset.mem_filter, Finset.mem_range, Finset.mem_range]
    omega
  rw [← sum_countP below, Finset.sum_congr rfl fun x _ => once x, Finset.sum_boole, within,
    Finset.card_range, Nat.cast_id]

end Span

end Spans
