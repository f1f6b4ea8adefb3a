import Mathlib.Data.Nat.Count

set_option autoImplicit false

/- Alternating run lengths of a bit sequence, as selective acknowledgements
carry them: the number of pairs is bounded, and so is the length of a run of
`false`. -/

namespace RunLength

/-- How many entries at the front equal `b`. -/
def leading (b : Bool) : List Bool → Nat
  | [] => 0
  | c :: rest => if c = b then leading b rest + 1 else 0

/-- At most `k` pairs of a gap of at most `width` and the run after it. -/
def ranges (width : Nat) : Nat → List Bool → List (Nat × Nat)
  | 0, _ => []
  | k + 1, bits =>
    let gap := min width (leading false bits)
    let run := leading true (bits.drop gap)
    if gap = 0 ∨ run = 0 then [] else (gap, run) :: ranges width k (bits.drop (gap + run))

/-- The positions the runs of `ranges` occupy, counted from `start`. -/
def Covers : Nat → List (Nat × Nat) → Nat → Prop
  | _, [], _ => False
  | start, (gap, run) :: rest, d =>
    (start + gap ≤ d ∧ d < start + gap + run) ∨ Covers (start + gap + run) rest d

/-- The pairs lie within `room` entries, with gaps within `width` and no empty
run. -/
def WithinRoom (width : Nat) : Nat → List (Nat × Nat) → Prop
  | _, [] => True
  | room, (gap, run) :: rest =>
    gap ≤ width ∧ 0 < run ∧ gap + run ≤ room ∧ WithinRoom width (room - (gap + run)) rest

/-- A gap begins at `t`: the entry is `false` and none before it continues it. -/
def GapAt (bits : List Bool) (t : Nat) : Prop :=
  bits[t]? = some false ∧ (t = 0 ∨ bits[t - 1]? = some true)

instance (bits : List Bool) : DecidablePred (GapAt bits) :=
  fun _ => inferInstanceAs (Decidable (_ ∧ _))

/-- More than `width` consecutive `false` entries, all before position `d`. -/
def LongGap (width : Nat) (bits : List Bool) (d : Nat) : Prop :=
  ∃ t, t + width < d ∧ ∀ i ≤ width, bits[t + i]? = some false

theorem leading_le (b : Bool) (bits : List Bool) : leading b bits ≤ bits.length := by
  induction bits with
  | nil => exact Nat.le_refl 0
  | cons c rest ih =>
    rw [leading, List.length_cons]
    split <;> omega

theorem getElem?_lt_leading {b : Bool} {bits : List Bool} {i : Nat} (inside : i < leading b bits) :
    bits[i]? = some b := by
  induction bits generalizing i with
  | nil => simp [leading] at inside
  | cons c rest ih =>
    rw [leading] at inside
    split at inside
    · rename_i same
      cases i with
      | zero => simp [same]
      | succ i => exact ih (by omega)
    · omega

theorem getElem?_leading (b : Bool) (bits : List Bool) : bits[leading b bits]? ≠ some b := by
  induction bits with
  | nil => simp
  | cons c rest ih =>
    rw [leading]
    split
    · simpa using ih
    · simpa

theorem leading_eq {b : Bool} {bits : List Bool} {n : Nat}
    (front : ∀ i < n, bits[i]? = some b) (stop : bits[n]? ≠ some b) : leading b bits = n := by
  rcases Nat.lt_trichotomy (leading b bits) n with less | same | more
  · exact absurd (front _ less) (getElem?_leading b bits)
  · exact same
  · exact absurd (getElem?_lt_leading more) stop

theorem Covers.le {start d : Nat} {pairs : List (Nat × Nat)} (covered : Covers start pairs d) :
    start ≤ d := by
  induction pairs generalizing start with
  | nil => exact covered.elim
  | cons pair rest ih =>
    obtain ⟨gap, run⟩ := pair
    rcases covered with inside | later
    · omega
    · have := ih later
      omega

section Split

variable {bits : List Bool} {gap run : Nat}

theorem count_gapAt_first (missing : ∀ i < gap, bits[i]? = some false) (positive : 0 < gap)
    (present : ∀ i < run, bits[gap + i]? = some true) {d : Nat} (nonzero : 0 < d)
    (within : d ≤ gap + run) : Nat.count (GapAt bits) d = 1 := by
  obtain ⟨d, rfl⟩ := Nat.exists_eq_add_one.mpr nonzero
  have start : GapAt bits 0 := ⟨missing 0 positive, Or.inl rfl⟩
  have rest : Nat.count (fun t => GapAt bits (t + 1)) d = 0 := by
    rw [Nat.count_iff_forall_not]
    rintro t before ⟨absent, zero | above⟩
    · omega
    · rw [Nat.add_sub_cancel] at above
      by_cases inGap : t < gap
      · rw [missing t inGap] at above
        cases above
      · have here := present (t + 1 - gap) (by omega)
        rw [show gap + (t + 1 - gap) = t + 1 by omega, absent] at here
        cases here
  rw [Nat.count_succ', rest, if_pos start]

theorem gapAt_drop (present : ∀ i < run, bits[gap + i]? = some true) (nonempty : 0 < run)
    (t : Nat) : GapAt bits (gap + run + t) ↔ GapAt (bits.drop (gap + run)) t := by
  have last := present (run - 1) (by omega)
  rw [show gap + (run - 1) = gap + run - 1 by omega] at last
  cases t with
  | zero => simp [GapAt, last]
  | succ t =>
    simp only [GapAt, List.getElem?_drop, Nat.add_sub_cancel,
      show gap + run + (t + 1) - 1 = gap + run + t by omega]
    constructor <;> rintro ⟨absent, zero | above⟩
    · omega
    · exact ⟨absent, Or.inr above⟩
    · omega
    · exact ⟨absent, Or.inr above⟩

/-- The gaps past a run are those of what the run leaves. -/
theorem count_gapAt_drop (present : ∀ i < run, bits[gap + i]? = some true) (nonempty : 0 < run)
    (d : Nat) :
    Nat.count (GapAt bits) (gap + run + d) =
      Nat.count (GapAt bits) (gap + run) + Nat.count (GapAt (bits.drop (gap + run))) d := by
  rw [Nat.count_add]
  congr 1
  apply Nat.le_antisymm
  · exact Nat.count_mono_left fun t _ => (gapAt_drop present nonempty t).mp
  · exact Nat.count_mono_left fun t _ => (gapAt_drop present nonempty t).mpr

/-- A run of `false` longer than the first gap cannot touch it or the run. -/
theorem past_of_long {width t : Nat} (narrow : gap ≤ width)
    (present : ∀ i < run, bits[gap + i]? = some true) (nonempty : 0 < run)
    (absent : ∀ i ≤ width, bits[t + i]? = some false) : gap + run ≤ t := by
  by_contra short
  by_cases inGap : t ≤ gap
  · have here := absent (gap - t) (by omega)
    rw [show t + (gap - t) = gap + 0 by omega, present 0 nonempty] at here
    cases here
  · have here := absent 0 (by omega)
    rw [show t + 0 = gap + (t - gap) by omega, present (t - gap) (by omega)] at here
    cases here

theorem longGap_split {width : Nat} (narrow : gap ≤ width)
    (present : ∀ i < run, bits[gap + i]? = some true) (nonempty : 0 < run) (d : Nat) :
    LongGap width bits (gap + run + d) ↔ LongGap width (bits.drop (gap + run)) d := by
  constructor
  · rintro ⟨t, before, absent⟩
    have past := past_of_long narrow present nonempty absent
    refine ⟨t - (gap + run), by omega, ?_⟩
    intro i inside
    rw [List.getElem?_drop, show gap + run + (t - (gap + run) + i) = t + i by omega]
    exact absent i inside
  · rintro ⟨t, before, absent⟩
    refine ⟨gap + run + t, by omega, ?_⟩
    intro i inside
    have here := absent i inside
    rwa [List.getElem?_drop, ← Nat.add_assoc] at here

end Split

theorem getElem?_eq_none_of_ne {bits : List Bool} {i : Nat} (unset : bits[i]? ≠ some true)
    (set : bits[i]? ≠ some false) : bits[i]? = none := by
  cases entry : bits[i]? with
  | none => rfl
  | some b => cases b <;> contradiction

/-- The pairs cover the set entries that at most `k` gaps precede, up to the
first gap that is too long. The front must be a gap: the caller has already
taken the leading run. -/
theorem covers_ranges (width k start : Nat) (bits : List Bool) (head : bits[0]? ≠ some true)
    (d : Nat) :
    Covers start (ranges width k bits) (start + d) ↔
      bits[d]? = some true ∧ Nat.count (GapAt bits) d ≤ k ∧ ¬ LongGap width bits d := by
  induction k generalizing start bits d with
  | zero =>
    simp only [ranges, Covers, false_iff]
    rintro ⟨set, few, -⟩
    have nonzero : d ≠ 0 := fun zero => head (zero ▸ set)
    have gapped : GapAt bits 0 := by
      refine ⟨?_, Or.inl rfl⟩
      have within : 0 < bits.length := by
        have := (List.getElem?_eq_some_iff.mp set).1
        omega
      rw [List.getElem?_eq_getElem within] at head ⊢
      simpa using head
    have counted := Nat.count_strict_mono gapped (Nat.pos_of_ne_zero nonzero)
    omega
  | succ k ih =>
    have stop := getElem?_leading false bits
    have missing : ∀ i < leading false bits, bits[i]? = some false :=
      fun i inside => getElem?_lt_leading inside
    simp only [ranges]
    generalize leading false bits = gap at stop missing
    by_cases wide : width < gap
    · -- The walk stops inside the gap, which any later entry has behind it.
      have blocked : leading true (bits.drop (min width gap)) = 0 := by
        apply leading_eq (by simp)
        rw [List.getElem?_drop, Nat.min_eq_left (by omega), Nat.add_zero, missing width wide]
        simp
      rw [if_pos (Or.inr blocked)]
      simp only [Covers, false_iff]
      rintro ⟨set, -, short⟩
      refine short ⟨0, ?_, fun i inside => by simpa using missing i (by omega)⟩
      by_contra near
      rw [missing d (by omega)] at set
      cases set
    · rw [Nat.min_eq_right (by omega)]
      have present : ∀ i < leading true (bits.drop gap), bits[gap + i]? = some true := by
        intro i inside
        rw [← List.getElem?_drop]
        exact getElem?_lt_leading inside
      have runStop : bits[gap + leading true (bits.drop gap)]? ≠ some true := by
        rw [← List.getElem?_drop]
        exact getElem?_leading true (bits.drop gap)
      generalize leading true (bits.drop gap) = run at present runStop
      split
      · rename_i ended
        simp only [Covers, false_iff]
        rintro ⟨set, -⟩
        have ended : bits[gap]? = none := by
          apply getElem?_eq_none_of_ne _ stop
          rcases ended with zero | zero
          · rwa [zero]
          · simpa [zero] using runStop
        by_cases before : d < gap
        · rw [missing d before] at set
          cases set
        · rw [List.getElem?_eq_none (by
            have := List.getElem?_eq_none_iff.mp ended
            omega)] at set
          cases set
      · rename_i both
        have positive : 0 < gap := by omega
        have nonempty : 0 < run := by omega
        have later := ih (start + gap + run) (bits.drop (gap + run))
          (by simpa [List.getElem?_drop] using runStop)
        rw [Covers]
        by_cases before : d < gap
        · rw [missing d before]
          have notLater : ¬ Covers (start + gap + run)
              (ranges width k (bits.drop (gap + run))) (start + d) := by
            intro covered
            have := covered.le
            omega
          simp only [Option.some.injEq, Bool.false_eq_true, false_and, iff_false, not_or]
          exact ⟨by omega, notLater⟩
        · by_cases inRun : d < gap + run
          · have set : bits[d]? = some true := by
              rw [show d = gap + (d - gap) by omega]
              exact present _ (by omega)
            have one := count_gapAt_first missing positive present (show 0 < d by omega) (by omega)
            have short : ¬ LongGap width bits d := by
              rintro ⟨t, near, absent⟩
              have past := past_of_long (by omega) present nonempty absent
              omega
            rw [set, one]
            exact iff_of_true (Or.inl (by omega)) ⟨rfl, by omega, short⟩
          · obtain ⟨e, rfl⟩ := Nat.exists_eq_add_of_le (Nat.le_of_not_lt inRun)
            rw [count_gapAt_drop present nonempty,
              count_gapAt_first missing positive present (by omega) (Nat.le_refl _), longGap_split (by omega) present nonempty, ← List.getElem?_drop,
              Nat.add_comm 1, Nat.add_le_add_iff_right, ← later e,
              show start + (gap + run + e) = start + gap + run + e by omega, or_iff_right (by omega)]

/-- The leading run and the pairs after it, together. -/
theorem leading_or_covers (width k : Nat) (bits : List Bool) (head : bits[0]? = some true)
    (d : Nat) :
    (d < leading true bits ∨
        Covers (leading true bits) (ranges width k (bits.drop (leading true bits))) d) ↔
      bits[d]? = some true ∧ Nat.count (GapAt bits) d ≤ k ∧ ¬ LongGap width bits d := by
  have stop := getElem?_leading true bits
  have present : ∀ i < leading true bits, bits[0 + i]? = some true := by
    intro i inside
    rw [Nat.zero_add]
    exact getElem?_lt_leading inside
  have nonempty : 0 < leading true bits := by
    by_contra empty
    rw [Nat.eq_zero_of_not_pos empty] at stop
    exact stop head
  have noGap : ∀ e ≤ leading true bits, Nat.count (GapAt bits) e = 0 := by
    intro e inside
    rw [Nat.count_iff_forall_not]
    rintro t before ⟨absent, -⟩
    rw [getElem?_lt_leading (Nat.lt_of_lt_of_le before inside)] at absent
    cases absent
  generalize leading true bits = run at *
  by_cases inRun : d < run
  · refine iff_of_true (Or.inl inRun) ⟨?_, by rw [noGap d (by omega)]; omega, ?_⟩
    · simpa using present d inRun
    · rintro ⟨t, before, absent⟩
      have here := absent 0 (Nat.zero_le _)
      rw [Nat.add_zero, ← Nat.zero_add t, present t (by omega)] at here
      cases here
  · obtain ⟨e, rfl⟩ := Nat.exists_eq_add_of_le (Nat.le_of_not_lt inRun)
    rw [or_iff_right inRun,
      covers_ranges width k run (bits.drop run) (by simpa [List.getElem?_drop] using stop),
      List.getElem?_drop]
    have counted := count_gapAt_drop present nonempty e
    have long := longGap_split (Nat.zero_le width) present nonempty e
    simp only [Nat.zero_add] at counted long
    rw [counted, long, noGap run (Nat.le_refl _), Nat.zero_add]

theorem withinRoom_ranges (width k : Nat) (bits : List Bool) :
    WithinRoom width bits.length (ranges width k bits) := by
  induction k generalizing bits with
  | zero => trivial
  | succ k ih =>
    rw [ranges]
    split
    · trivial
    · rename_i nonempty
      have bound := leading_le false bits
      have inside := leading_le true (bits.drop (min width (leading false bits)))
      rw [List.length_drop] at inside
      refine ⟨Nat.min_le_left _ _, by omega, by omega, ?_⟩
      rw [← List.length_drop]
      exact ih _

end RunLength
