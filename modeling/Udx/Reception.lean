import Udx.Lib.Spans
import Udx.Lib.Tables
import Udx.Stream

set_option autoImplicit false

namespace Udx

open Spans

namespace Stream

/- What a stream has of its peer's bytes: those delivered, and those in early
chunks that start at or after the delivered ones. -/

/-- The byte was delivered, or is in a chunk that will be. -/
def Has (s : Stream) (offset : Nat) : Prop :=
  offset < s.recvOffset ∨ ∃ start chunk, s.recvOOO.lookup start = some chunk ∧
    s.recvOffset ≤ start ∧ start ≤ offset ∧ offset < start + chunk.length

/-- The early chunks are spans of the family, and the delivered bytes end inside
none of them. -/
structure Ordered (s : Stream) (family : Set Span) : Prop where
  early : ∀ start chunk, s.recvOOO.lookup start = some chunk →
    0 < chunk.length ∧ (⟨start, start + chunk.length⟩ : Span) ∈ family
  clear : ∀ start chunk, s.recvOOO.lookup start = some chunk →
    start + chunk.length ≤ s.recvOffset ∨ s.recvOffset ≤ start

/-- Nothing held was lost on the way from `s` to `t`. -/
structure Advances (s t : Stream) : Prop where
  front : s.recvOffset ≤ t.recvOffset
  kept : ∀ start chunk, s.recvOOO.lookup start = some chunk →
    t.recvOOO.lookup start = some chunk ∨ start + chunk.length ≤ t.recvOffset

variable {s t u : Stream} {family : Set Span}

theorem Advances.refl : Advances s s := ⟨Nat.le_refl _, fun _ _ found => .inl found⟩

theorem Advances.trans (first : Advances s t) (second : Advances t u) : Advances s u := by
  refine ⟨Nat.le_trans first.front second.front, fun start chunk found => ?_⟩
  rcases first.kept start chunk found with still | passed
  · exact second.kept start chunk still
  · exact .inr (Nat.le_trans passed second.front)

theorem Advances.has (advances : Advances s t) (ordered : t.Ordered family) {offset : Nat}
    (has : s.Has offset) : t.Has offset := by
  rcases has with delivered | ⟨start, chunk, found, ahead, after, before⟩
  · exact .inl (Nat.lt_of_lt_of_le delivered advances.front)
  · rcases advances.kept start chunk found with still | passed
    · rcases ordered.clear start chunk still with passed | waits
      · exact .inl (by omega)
      · exact .inr ⟨start, chunk, still, waits, after, before⟩
    · exact .inl (by omega)

theorem Ordered.advance (laminar : Span.Laminar family) {c : Span} (member : c ∈ family)
    (begun : c.start ≤ s.recvOffset) (further : s.recvOffset ≤ c.stop)
    (early : ∀ start chunk, t.recvOOO.lookup start = some chunk →
      s.recvOOO.lookup start = some chunk ∧ start ≠ s.recvOffset)
    (front : t.recvOffset = c.stop) (ordered : s.Ordered family) : t.Ordered family := by
  refine ⟨fun start chunk found => ordered.early start chunk (early start chunk found).1,
    fun start chunk found => ?_⟩
  obtain ⟨old, distinct⟩ := early start chunk found
  have clear : start + chunk.length ≤ s.recvOffset ∨ s.recvOffset < start := by
    rcases ordered.clear start chunk old with passed | waits <;> omega
  rw [front]
  exact laminar.advance member (ordered.early start chunk old).2 begun further clear

theorem Ordered.take (laminar : Span.Laminar family) (small : ∀ c ∈ family, c.stop < 2 ^ 64)
    (ordered : s.Ordered family) {chunk : List UInt8}
    (found : s.recvOOO.lookup s.recvOffset = some chunk)
    (taken : t.recvOOO = s.recvOOO.erase s.recvOffset)
    (front : t.recvOffset = (s.recvOffset + chunk.length) % 2 ^ 64) :
    t.Ordered family ∧ Advances s t := by
  have member := (ordered.early _ _ found).2
  rw [Nat.mod_eq_of_lt (small _ member)] at front
  have further := Nat.le_add_right s.recvOffset chunk.length
  refine ⟨ordered.advance laminar member (Nat.le_refl _) further ?_ front,
    front ▸ further, ?_⟩
  · intro start held lookup
    rw [taken] at lookup
    by_cases same : start = s.recvOffset
    · rw [same, AList.lookup_erase] at lookup
      cases lookup
    · exact ⟨by rwa [AList.lookup_erase_ne same] at lookup, same⟩
  · intro start held lookup
    by_cases same : start = s.recvOffset
    · rw [same, found, Option.some.injEq] at lookup
      exact .inr (by rw [front, same, lookup])
    · exact .inl (by rwa [taken, AList.lookup_erase_ne same])

theorem Ordered.release (laminar : Span.Laminar family) (small : ∀ c ∈ family, c.stop < 2 ^ 64)
    (ordered : s.Ordered family) (fuel : Nat) :
    (release fuel s).Ordered family ∧ Advances s (release fuel s) := by
  induction fuel generalizing s with
  | zero => exact ⟨ordered, .refl⟩
  | succ fuel ih =>
    rw [Stream.release]
    split
    · exact ⟨ordered, .refl⟩
    · rename_i chunk found
      obtain ⟨next, first⟩ := Ordered.take (t := { s with
        recvOOO := s.recvOOO.erase s.recvOffset
        oooBytes := s.oooBytes - chunk.length
        recvBuf := s.recvBuf ++ chunk
        recvOffset := (s.recvOffset + chunk.length) % 2 ^ 64 }) laminar small ordered found rfl rfl
      obtain ⟨last, later⟩ := ih next
      exact ⟨last, first.trans later⟩

theorem violation_release (s : Stream) (fuel : Nat) :
    (release fuel s).flowControlViolation = s.flowControlViolation := by
  induction fuel generalizing s with
  | zero => rfl
  | succ fuel ih =>
    rw [Stream.release]
    split
    · rfl
    · exact ih _

/-- The loop has rounds enough: it ends where no chunk starts. -/
theorem lookup_release {fuel : Nat} (enough : s.recvOOO.entries.length ≤ fuel) :
    (release fuel s).recvOOO.lookup (release fuel s).recvOffset = none := by
  induction fuel generalizing s with
  | zero =>
    have empty : s.recvOOO.entries = [] := List.length_eq_zero_iff.mp (Nat.le_zero.mp enough)
    rw [Stream.release, AList.lookup, empty]
    rfl
  | succ fuel ih =>
    rw [Stream.release]
    split
    · rename_i none
      exact none
    · rename_i chunk found
      refine ih ?_
      have fewer := (Tables.perm_erase found).length_eq
      rw [List.length_cons] at fewer
      dsimp only
      omega

section Place

variable {offset : Nat} {data : List UInt8}

theorem Ordered.append (laminar : Span.Laminar family) (small : ∀ c ∈ family, c.stop < 2 ^ 64)
    (ordered : s.Ordered family) (idle : s.recvOOO.lookup s.recvOffset = none)
    (member : (⟨offset, offset + data.length⟩ : Span) ∈ family) (begun : offset ≤ s.recvOffset)
    (further : s.recvOffset ≤ offset + data.length) (early : t.recvOOO = s.recvOOO)
    (front : t.recvOffset = offset + data.length) {fuel : Nat}
    (enough : t.recvOOO.entries.length ≤ fuel) :
    let out := Stream.release fuel t
    out.Ordered family ∧ out.recvOOO.lookup out.recvOffset = none ∧ Advances s out ∧
      offset + data.length ≤ out.recvOffset := by
  intro out
  have placed : t.Ordered family := by
    refine ordered.advance laminar member begun further (fun start chunk found => ?_) front
    rw [early] at found
    refine ⟨found, ?_⟩
    rintro rfl
    rw [idle] at found
    cases found
  obtain ⟨last, later⟩ := placed.release laminar small fuel
  have first : Advances s t :=
    ⟨front ▸ further, fun start chunk found => .inl (early ▸ found)⟩
  exact ⟨last, lookup_release enough, first.trans later, front ▸ later.front⟩

/-- What placing a chunk of the family leaves: everything held still is, and the
chunk with it unless a shorter one stands at its offset or the stream is over
its limit. -/
structure Takes (family : Set Span) (s : Stream) (offset : Nat) (data : List UInt8)
    (t : Stream) : Prop where
  ordered : t.Ordered family
  idle : t.recvOOO.lookup t.recvOffset = none
  advances : Advances s t
  broken : s.flowControlViolation = true → t.flowControlViolation = true
  holds : t.flowControlViolation = true ∨
    ((∀ chunk, s.recvOOO.lookup offset = some chunk → data.length ≤ chunk.length) →
      ∀ x, offset ≤ x → x < offset + data.length → t.Has x)

theorem takes_append (laminar : Span.Laminar family) (small : ∀ c ∈ family, c.stop < 2 ^ 64)
    (ordered : s.Ordered family) (idle : s.recvOOO.lookup s.recvOffset = none)
    (member : (⟨offset, offset + data.length⟩ : Span) ∈ family) (begun : offset ≤ s.recvOffset)
    (further : s.recvOffset ≤ offset + data.length) (early : t.recvOOO = s.recvOOO)
    (front : t.recvOffset = offset + data.length)
    (flag : t.flowControlViolation = s.flowControlViolation) {fuel : Nat}
    (enough : t.recvOOO.entries.length ≤ fuel) : Takes family s offset data (release fuel t) := by
  obtain ⟨last, ended, advances, reached⟩ :=
    ordered.append laminar small idle member begun further early front enough
  have same := (violation_release t fuel).trans flag
  exact ⟨last, ended, advances, fun broken => same.trans broken,
    .inr fun _ x _ before => .inl (Nat.lt_of_lt_of_le before reached)⟩

theorem takes_insert (ordered : s.Ordered family)
    (idle : s.recvOOO.lookup s.recvOffset = none)
    (member : (⟨offset, offset + data.length⟩ : Span) ∈ family) (nonempty : 0 < data.length)
    (ahead : s.recvOffset < offset) (absent : offset ∉ s.recvOOO)
    (early : t.recvOOO = s.recvOOO.insert offset data) (front : t.recvOffset = s.recvOffset)
    (flag : t.flowControlViolation = s.flowControlViolation) :
    Takes family s offset data t := by
  have here : t.recvOOO.lookup offset = some data := early ▸ AList.lookup_insert _
  have there : ∀ start, start ≠ offset → t.recvOOO.lookup start = s.recvOOO.lookup start :=
    fun start distinct => by rw [early, AList.lookup_insert_ne distinct]
  refine ⟨⟨fun start chunk found => ?_, fun start chunk found => ?_⟩, ?_,
    ⟨front.ge, fun start chunk found => .inl ?_⟩, fun broken => flag.trans broken,
    .inr fun _ x after before => .inr
      ⟨offset, data, here, front ▸ Nat.le_of_lt ahead, after, before⟩⟩
  · by_cases same : start = offset
    · subst same
      rw [here, Option.some.injEq] at found
      exact found ▸ ⟨nonempty, member⟩
    · exact ordered.early start chunk (there start same ▸ found)
  · rw [front]
    by_cases same : start = offset
    · exact .inr (same ▸ Nat.le_of_lt ahead)
    · exact ordered.clear start chunk (there start same ▸ found)
  · rw [front, there _ (Nat.ne_of_lt ahead)]
    exact idle
  · rw [there]
    · exact found
    · rintro rfl
      exact absent (AList.lookup_isSome.mp (by rw [found]; rfl))

theorem takes_placeLocked (laminar : Span.Laminar family) (small : ∀ c ∈ family, c.stop < 2 ^ 64)
    (ordered : s.Ordered family) (idle : s.recvOOO.lookup s.recvOffset = none)
    (member : (⟨offset, offset + data.length⟩ : Span) ∈ family) (nonempty : 0 < data.length) :
    Takes family s offset data (s.placeLocked offset data).1 := by
  have stop : (offset + data.length) % 2 ^ 64 = offset + data.length :=
    Nat.mod_eq_of_lt (small _ member)
  have placed := s.placed_placeLocked offset data
  generalize s.placeLocked offset data = out at placed ⊢
  cases placed with
  | known behind =>
    rw [stop] at behind
    exact ⟨ordered, idle, .refl, fun broken => broken,
      .inr fun _ x _ before => .inl (by dsimp only; omega)⟩
  | held ahead present =>
    obtain ⟨held, found⟩ := Option.isSome_iff_exists.mp (AList.lookup_isSome.mpr present)
    refine ⟨ordered, idle, .refl, fun broken => broken,
      .inr fun longer x after before => .inr ?_⟩
    have := longer held found
    exact ⟨offset, held, found, Nat.le_of_lt ahead, after, by omega⟩
  | excess =>
    exact ⟨⟨ordered.early, ordered.clear⟩, idle, ⟨Nat.le_refl _, fun _ _ found => .inl found⟩,
      fun _ => rfl, .inl rfl⟩
  | early beyond ahead absent =>
    exact takes_insert ordered idle member nonempty ahead absent rfl rfl rfl
  | next beyond begun =>
    rw [stop] at beyond ⊢
    refine takes_append laminar small ordered idle member begun (Nat.le_of_lt beyond)
      ?_ ?_ ?_ ?_ <;> rfl

end Place

end Stream

end Udx
