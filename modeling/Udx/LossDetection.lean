import Mathlib.Data.List.MinMax
import Udx.PacketManager

set_option autoImplicit false

namespace Udx

namespace PacketManager

/- One run of loss detection, for any table and whatever the order its entries
are visited in. -/

variable (pm : PacketManager) (now : Time) (delay : Int)

/-- Every packet is tracked under the number it was last sent under. -/
def Keyed : Prop := ∀ s p, pm.sentPackets.lookup s = some p → (pm.heap p).sequence = s

/-- The packet is at or below the largest acknowledged. -/
def Passed (s : UInt32) : Prop := (s.toNat : Int) ≤ pm.largestAcked

def due (p : Ptr) : Time := (pm.heap p).sentTime + delay

/-- A packet passed by the largest acknowledged is far enough behind it or old
enough. -/
def Overdue (s : UInt32) (p : Ptr) : Prop :=
  pm.Passed s ∧
    (lossReorderThreshold ≤ pm.largestAcked - s.toNat ∨ (pm.heap p).sentTime + delay ≤ now)

/-- It is neither yet. -/
def Waiting (s : UInt32) (p : Ptr) : Prop := pm.Passed s ∧ ¬ pm.Overdue now delay s p

instance (s : UInt32) : Decidable (pm.Passed s) := inferInstanceAs (Decidable (_ ≤ _))

instance (s : UInt32) (p : Ptr) : Decidable (pm.Overdue now delay s p) :=
  inferInstanceAs (Decidable (_ ∧ _))

instance (s : UInt32) (p : Ptr) : Decidable (pm.Waiting now delay s p) :=
  inferInstanceAs (Decidable (_ ∧ _))

def overdue (entries : List ((_ : UInt32) × Ptr)) : List Ptr :=
  (entries.filter fun e => pm.Overdue now delay e.1 e.2).map Sigma.snd

/-- When the packets that wait become old enough. -/
def dues (entries : List ((_ : UInt32) × Ptr)) : List Time :=
  (entries.filter fun e => pm.Waiting now delay e.1 e.2).map fun e => pm.due delay e.2

theorem lossScan_cases (acc : List Ptr × Option Time) (e : (_ : UInt32) × Ptr) :
    (¬ pm.Passed e.1 ∧ pm.lossScan now delay acc e = acc) ∨
      (pm.Overdue now delay e.1 e.2 ∧ pm.lossScan now delay acc e = (acc.1 ++ [e.2], acc.2)) ∨
      (pm.Waiting now delay e.1 e.2 ∧ pm.lossScan now delay acc e =
        (acc.1, (acc.2.toList ++ [pm.due delay e.2]).min?)) := by
  unfold lossScan
  dsimp only
  split
  · rename_i beyond
    exact .inl ⟨Int.not_le.mpr beyond, rfl⟩
  · rename_i passed
    have passed : pm.Passed e.1 := Int.not_lt.mp passed
    split
    · rename_i lost
      exact .inr (.inl ⟨⟨passed, lost.imp_right Int.not_lt.mp⟩, rfl⟩)
    · rename_i kept
      have waiting : pm.Waiting now delay e.1 e.2 :=
        ⟨passed, fun tardy => kept (tardy.2.imp_right Int.not_lt.mpr)⟩
      refine .inr (.inr ⟨waiting, ?_⟩)
      cases acc.2 with
      | none => rfl
      | some nextLoss =>
        simp only [Option.toList_some, List.cons_append, List.nil_append, List.min?_cons',
          List.foldl_cons, List.foldl_nil, due, min_def]
        congr 1
        split
        · rename_i sooner
          rw [if_neg (Int.not_le.mpr sooner)]
        · rename_i later
          rw [if_pos (Int.not_lt.mp later)]

/-- The scan collects the overdue packets and the earliest time at which one
that waits becomes old enough. -/
theorem foldl_lossScan_eq (entries : List ((_ : UInt32) × Ptr)) (acc : List Ptr × Option Time) :
    entries.foldl (pm.lossScan now delay) acc =
      (acc.1 ++ pm.overdue now delay entries,
        (acc.2.toList ++ pm.dues now delay entries).min?) := by
  induction entries generalizing acc with
  | nil =>
    simp only [List.foldl_nil, overdue, dues, List.filter_nil, List.map_nil, List.append_nil]
    cases hacc : acc.2 <;> simp [Prod.ext_iff, hacc]
  | cons e rest ih =>
    rw [List.foldl_cons, ih]
    rcases pm.lossScan_cases now delay acc e with ⟨beyond, same⟩ | ⟨tardy, same⟩ | ⟨waits, same⟩
    · have kept : ¬ pm.Overdue now delay e.1 e.2 := fun tardy => beyond tardy.1
      have idle : ¬ pm.Waiting now delay e.1 e.2 := fun waits => beyond waits.1
      rw [same, overdue, overdue, dues, dues, List.filter_cons_of_neg (by simpa using kept),
        List.filter_cons_of_neg (by simpa using idle)]
    · have idle : ¬ pm.Waiting now delay e.1 e.2 := fun waits => waits.2 tardy
      rw [same, overdue, overdue, dues, dues, List.filter_cons_of_pos (by simpa using tardy),
        List.filter_cons_of_neg (by simpa using idle), List.map_cons, List.append_assoc]
      rfl
    · rw [same, overdue, overdue, dues, dues, List.filter_cons_of_neg (by simpa using waits.2),
        List.filter_cons_of_pos (by simpa using waits), List.map_cons]
      cases acc.2 with
      | none => rfl
      | some first =>
        simp only [Option.toList_some, List.cons_append, List.nil_append, List.min?_cons',
          List.foldl_cons, List.foldl_nil]

theorem foldl_forget_eq (ps : List Ptr) (pm : PacketManager) :
    ps.foldl forget pm = { pm with sentPackets := (ps.foldl forget pm).sentPackets } := by
  induction ps generalizing pm with
  | nil => rfl
  | cons p rest ih =>
    rw [List.foldl_cons, ih]
    rfl

/-- Loss detection as one expression: nothing is overdue or waits as long as
nothing has been acknowledged. -/
theorem detectLostLocked_eq :
    pm.detectLostLocked now delay =
      let lost := pm.overdue now delay pm.sentPackets.entries
      let pm' := lost.foldl forget pm
      ({ pm' with
          lossTimer := (pm.dues now delay pm.sentPackets.entries).min?.map fun next =>
            now + max (next - now) lossTimerGranularity },
        pm'.sortBySequence lost) := by
  unfold detectLostLocked
  split
  · rename_i none
    have early : ∀ s, ¬ pm.Passed s := by
      intro s passed
      rw [Passed] at passed
      omega
    have quiet : pm.overdue now delay pm.sentPackets.entries = [] := by
      rw [overdue, List.filter_eq_nil_iff.mpr, List.map_nil]
      exact fun e _ tardy => early e.1 (of_decide_eq_true tardy).1
    have idle : pm.dues now delay pm.sentPackets.entries = [] := by
      rw [dues, List.filter_eq_nil_iff.mpr, List.map_nil]
      exact fun e _ waits => early e.1 (of_decide_eq_true waits).1
    simp only [quiet, idle]
    rfl
  · rw [foldl_lossScan_eq]
    simp only [List.nil_append, Option.toList_none]
    generalize pm.overdue now delay pm.sentPackets.entries = lost
    have table : (lost.foldl forget { pm with lossTimer := none }).sentPackets =
        (lost.foldl forget pm).sentPackets := by
      have forgets : ∀ (ps : List Ptr) (a b : PacketManager), a.sentPackets = b.sentPackets →
          a.heap = b.heap → (ps.foldl forget a).sentPackets = (ps.foldl forget b).sentPackets := by
        intro ps
        induction ps with
        | nil => exact fun _ _ same _ => same
        | cons p rest ih => exact fun a b same heap => ih _ _ (by simp only [forget, same, heap]) heap
      exact forgets lost _ _ rfl rfl
    rw [foldl_forget_eq lost { pm with lossTimer := none }, table, foldl_forget_eq lost pm]
    rfl

variable {pm now delay}

theorem lookup_foldl_forget (ps : List Ptr) (s : UInt32) :
    (ps.foldl forget pm).sentPackets.lookup s =
      if s ∈ ps.map (fun p => (pm.heap p).sequence) then none else pm.sentPackets.lookup s := by
  induction ps generalizing pm with
  | nil => rfl
  | cons p rest ih =>
    have step : (pm.forget p).sentPackets.lookup s =
        if s = (pm.heap p).sequence then none else pm.sentPackets.lookup s := by
      split
      · rename_i same
        rw [same]
        exact AList.lookup_erase _ _
      · rename_i other
        exact AList.lookup_erase_ne other
    rw [List.foldl_cons, ih, step, List.map_cons]
    by_cases later : s ∈ rest.map fun p => (pm.heap p).sequence
    · rw [if_pos (show s ∈ rest.map fun q => ((pm.forget p).heap q).sequence from later),
        if_pos (List.mem_cons_of_mem _ later)]
    · rw [if_neg (show s ∉ rest.map fun q => ((pm.forget p).heap q).sequence from later)]
      by_cases same : s = (pm.heap p).sequence
      · rw [if_pos same, if_pos (same ▸ List.mem_cons_self)]
      · rw [if_neg same, if_neg (fun member => (List.mem_cons.mp member).elim same later)]

theorem mem_overdue_iff {p : Ptr} :
    p ∈ pm.overdue now delay pm.sentPackets.entries ↔
      ∃ s, pm.sentPackets.lookup s = some p ∧ pm.Overdue now delay s p := by
  simp only [overdue, List.mem_map, List.mem_filter, decide_eq_true_eq]
  constructor
  · rintro ⟨e, ⟨member, tardy⟩, rfl⟩
    exact ⟨e.1, Tables.lookup_of_mem e member, tardy⟩
  · rintro ⟨s, found, tardy⟩
    exact ⟨⟨s, p⟩, ⟨Tables.mem_entries_iff.mpr found, tardy⟩, rfl⟩

theorem mem_dues_iff {t : Time} :
    t ∈ pm.dues now delay pm.sentPackets.entries ↔
      ∃ s p, pm.sentPackets.lookup s = some p ∧ pm.Waiting now delay s p ∧ pm.due delay p = t := by
  simp only [dues, List.mem_map, List.mem_filter, decide_eq_true_eq]
  constructor
  · rintro ⟨e, ⟨member, waits⟩, rfl⟩
    exact ⟨e.1, e.2, Tables.lookup_of_mem e member, waits, rfl⟩
  · rintro ⟨s, p, found, waits, rfl⟩
    exact ⟨⟨s, p⟩, ⟨Tables.mem_entries_iff.mpr found, waits⟩, rfl⟩

theorem detectLostLocked_fst_eq :
    (pm.detectLostLocked now delay).1 =
      { pm with
        sentPackets := (pm.detectLostLocked now delay).1.sentPackets
        lossTimer := (pm.detectLostLocked now delay).1.lossTimer } := by
  rw [detectLostLocked_eq]
  dsimp only
  rw [foldl_forget_eq]

theorem heap_detectLostLocked : (pm.detectLostLocked now delay).1.heap = pm.heap := by
  rw [detectLostLocked_fst_eq]

theorem mem_detectLostLocked_iff {p : Ptr} :
    p ∈ (pm.detectLostLocked now delay).2 ↔
      ∃ s, pm.sentPackets.lookup s = some p ∧ pm.Overdue now delay s p := by
  rw [detectLostLocked_eq, ← mem_overdue_iff]
  exact List.mem_insertionSort _

/-- What is declared lost leaves the table, and nothing else does. -/
theorem lookup_detectLostLocked (keyed : pm.Keyed) (s : UInt32) :
    (pm.detectLostLocked now delay).1.sentPackets.lookup s =
      (pm.sentPackets.lookup s).filter fun p => ¬ pm.Overdue now delay s p := by
  rw [detectLostLocked_eq]
  dsimp only
  rw [lookup_foldl_forget]
  have named : s ∈ (pm.overdue now delay pm.sentPackets.entries).map
      (fun p => (pm.heap p).sequence) ↔
      ∃ p, pm.sentPackets.lookup s = some p ∧ pm.Overdue now delay s p := by
    simp only [List.mem_map, mem_overdue_iff]
    constructor
    · rintro ⟨p, ⟨t, found, tardy⟩, same⟩
      obtain rfl : t = s := (keyed t p found).symm.trans same
      exact ⟨p, found, tardy⟩
    · rintro ⟨p, found, tardy⟩
      exact ⟨p, ⟨s, found, tardy⟩, keyed s p found⟩
  cases found : pm.sentPackets.lookup s with
  | none => exact ite_self none
  | some p =>
    by_cases tardy : pm.Overdue now delay s p
    · rw [if_pos (named.mpr ⟨p, found, tardy⟩), Option.filter_some, if_neg (by simpa using tardy)]
    · rw [if_neg (fun member => ?_), Option.filter_some, if_pos (by simpa using tardy)]
      · obtain ⟨q, same, lost⟩ := named.mp member
        obtain rfl := Option.some.inj (found.symm.trans same)
        exact tardy lost

theorem pairwise_detectLostLocked (keyed : pm.Keyed) :
    ((pm.detectLostLocked now delay).2.map fun p => (pm.heap p).sequence).Pairwise (· < ·) := by
  have ordered : ((pm.detectLostLocked now delay).2.map fun p => (pm.heap p).sequence).Pairwise
      (· ≤ ·) := by
    have : Std.Total fun p q : Ptr => (pm.heap p).sequence ≤ (pm.heap q).sequence :=
      ⟨fun _ _ => UInt32.le_total _ _⟩
    have : IsTrans Ptr fun p q => (pm.heap p).sequence ≤ (pm.heap q).sequence :=
      ⟨fun _ _ _ => UInt32.le_trans⟩
    rw [detectLostLocked_eq, List.pairwise_map]
    dsimp only
    rw [foldl_forget_eq]
    exact List.pairwise_insertionSort _ _
  have distinct : ((pm.detectLostLocked now delay).2.map fun p => (pm.heap p).sequence).Nodup := by
    have keys : ((pm.overdue now delay pm.sentPackets.entries).map
        fun p => (pm.heap p).sequence).Nodup := by
      have same : (pm.overdue now delay pm.sentPackets.entries).map
          (fun p => (pm.heap p).sequence) =
          (pm.sentPackets.entries.filter fun e => pm.Overdue now delay e.1 e.2).map Sigma.fst := by
        rw [overdue, List.map_map]
        refine List.map_congr_left fun e member => ?_
        exact keyed e.1 e.2 (Tables.lookup_of_mem e (List.mem_filter.mp member).1)
      rw [same]
      exact (List.filter_sublist.map Sigma.fst).nodup pm.sentPackets.keys_nodup
    have sorted : (pm.detectLostLocked now delay).2.Perm
        (pm.overdue now delay pm.sentPackets.entries) := by
      rw [detectLostLocked_eq]
      exact List.perm_insertionSort _ _
    exact (sorted.map _).nodup_iff.mpr keys
  exact ordered.imp₂ (fun _ _ le ne => UInt32.lt_of_le_of_ne le ne) distinct

/-- The timer is set for the first packet to become old enough, and not before
the granularity has passed. -/
theorem lossTimer_detectLostLocked :
    (pm.detectLostLocked now delay).1.lossTimer =
      (pm.dues now delay pm.sentPackets.entries).min?.map fun next =>
        now + max (next - now) lossTimerGranularity := by
  rw [detectLostLocked_eq]

/-- What remains and is passed waits. -/
theorem remaining_iff (keyed : pm.Keyed) (s : UInt32) (p : Ptr) :
    (pm.detectLostLocked now delay).1.sentPackets.lookup s = some p ∧ pm.Passed s ↔
      pm.sentPackets.lookup s = some p ∧ pm.Waiting now delay s p := by
  rw [lookup_detectLostLocked keyed, Option.filter_eq_some_iff, decide_eq_true_eq]
  exact ⟨fun h => ⟨h.1.1, h.2, h.1.2⟩, fun h => ⟨⟨h.1, h.2.2⟩, h.2.1⟩⟩

theorem isSome_lossTimer_iff (keyed : pm.Keyed) :
    (pm.detectLostLocked now delay).1.lossTimer.isSome = true ↔
      ∃ s p, (pm.detectLostLocked now delay).1.sentPackets.lookup s = some p ∧ pm.Passed s := by
  simp only [remaining_iff keyed]
  rw [lossTimer_detectLostLocked, Option.isSome_map, Option.isSome_iff_ne_none, ne_eq,
    List.min?_eq_none_iff]
  constructor
  · intro some
    obtain ⟨t, member⟩ := List.exists_mem_of_ne_nil _ some
    obtain ⟨s, p, found, waits, -⟩ := mem_dues_iff.mp member
    exact ⟨s, p, found, waits⟩
  · rintro ⟨s, p, found, waits⟩
    exact List.ne_nil_of_mem (mem_dues_iff.mpr ⟨s, p, found, waits, rfl⟩)

/-- By the time it fires the packet sent first of those that wait is old
enough. -/
theorem due_le_of_lossTimer {fires : Time} {p : Ptr}
    (armed : (pm.detectLostLocked now delay).1.lossTimer = some fires)
    (earliest : ∀ t q, pm.sentPackets.lookup t = some q ∧ pm.Waiting now delay t q →
      (pm.heap p).sentTime ≤ (pm.heap q).sentTime) :
    (pm.heap p).sentTime + delay ≤ fires := by
  rw [lossTimer_detectLostLocked, Option.map_eq_some_iff] at armed
  obtain ⟨next, first, rfl⟩ := armed
  obtain ⟨member, -⟩ := List.min?_eq_some_iff.mp first
  obtain ⟨t, q, found, waiting, rfl⟩ := mem_dues_iff.mp member
  have before := earliest t q ⟨found, waiting⟩
  rw [due]
  calc (pm.heap p).sentTime + delay ≤ (pm.heap q).sentTime + delay := Int.add_le_add_right before _
    _ = now + ((pm.heap q).sentTime + delay - now) := by rw [add_sub_cancel]
    _ ≤ _ := Int.add_le_add_left (le_max_left _ _) _

theorem min?_eq_of_perm {first second : List Time} (perm : first.Perm second) :
    first.min? = second.min? := by
  cases least : first.min? with
  | none =>
    rw [List.min?_eq_none_iff] at least
    rw [least, List.nil_perm] at perm
    rw [perm]
    rfl
  | some t =>
    obtain ⟨member, le⟩ := List.min?_eq_some_iff.mp least
    refine (List.min?_eq_some_iff.mpr ⟨perm.mem_iff.mp member, fun b inside => ?_⟩).symm
    exact le b (perm.mem_iff.mpr inside)

/-- The order in which the table is visited does not matter. -/
theorem detectLostLocked_perm (keyed : pm.Keyed) {table : AList fun _ : UInt32 => Ptr}
    (perm : table.entries.Perm pm.sentPackets.entries) :
    let other := { pm with sentPackets := table }.detectLostLocked now delay
    other.2 = (pm.detectLostLocked now delay).2 ∧
      other.1.lossTimer = (pm.detectLostLocked now delay).1.lossTimer ∧
      ∀ s, other.1.sentPackets.lookup s =
        (pm.detectLostLocked now delay).1.sentPackets.lookup s := by
  intro other
  have same : ∀ s, table.lookup s = pm.sentPackets.lookup s := fun s => AList.perm_lookup perm
  have keyed' : { pm with sentPackets := table }.Keyed := fun s p found =>
    keyed s p ((same s).symm.trans found)
  refine ⟨?_, ?_, fun s => ?_⟩
  · have lost : other.2.Perm (pm.detectLostLocked now delay).2 := by
      have first : other.2.Perm (pm.overdue now delay table.entries) := by
        simp only [other, detectLostLocked_eq]
        exact List.perm_insertionSort _ _
      have second : (pm.detectLostLocked now delay).2.Perm
          (pm.overdue now delay pm.sentPackets.entries) := by
        rw [detectLostLocked_eq]
        exact List.perm_insertionSort _ _
      exact first.trans (((perm.filter _).map _).trans second.symm)
    refine List.Perm.eq_of_pairwise ?_ (List.pairwise_map.mp (pairwise_detectLostLocked keyed'))
      (List.pairwise_map.mp (pairwise_detectLostLocked keyed)) lost
    intro p q _ _ less more
    exact absurd (UInt32.lt_trans less more) (UInt32.lt_irrefl _)
  · simp only [other, lossTimer_detectLostLocked]
    exact congrArg _ (min?_eq_of_perm ((perm.filter _).map _))
  · simp only [other]
    rw [lookup_detectLostLocked keyed', lookup_detectLostLocked keyed]
    exact congrArg _ (same s)

/-- Loss detection declares exactly the overdue packets, in order, leaves the
others alone and sets the timer for them, whatever the order of the table. -/
theorem detectLostLocked_exact (keyed : pm.Keyed) :
    let out := pm.detectLostLocked now delay
    (out.2.map fun p => (pm.heap p).sequence).Pairwise (· < ·) ∧
      (∀ p, p ∈ out.2 ↔ ∃ s, pm.sentPackets.lookup s = some p ∧ pm.Overdue now delay s p) ∧
      (∀ s, out.1.sentPackets.lookup s =
        (pm.sentPackets.lookup s).filter fun p => ¬ pm.Overdue now delay s p) ∧
      out.1.heap = pm.heap ∧
      (out.1.lossTimer.isSome = true ↔
        ∃ s p, out.1.sentPackets.lookup s = some p ∧ pm.Passed s) ∧
      (∀ fires later s p, out.1.lossTimer = some fires → fires ≤ later →
        out.1.sentPackets.lookup s = some p → pm.Passed s →
        (∀ t q, out.1.sentPackets.lookup t = some q → pm.Passed t →
          (pm.heap p).sentTime ≤ (pm.heap q).sentTime) →
        p ∈ (out.1.onLossTimer later delay).2) ∧
      ∀ table : AList fun _ : UInt32 => Ptr, table.entries.Perm pm.sentPackets.entries →
        let other := { pm with sentPackets := table }.detectLostLocked now delay
        other.2 = out.2 ∧ other.1.lossTimer = out.1.lossTimer ∧
          ∀ s, other.1.sentPackets.lookup s = out.1.sentPackets.lookup s := by
  intro out
  refine ⟨pairwise_detectLostLocked keyed, fun p => mem_detectLostLocked_iff,
    lookup_detectLostLocked keyed, heap_detectLostLocked, isSome_lossTimer_iff keyed, ?_,
    fun table perm => detectLostLocked_perm keyed perm⟩
  intro fires later s p armed after found passed earliest
  have old : (pm.heap p).sentTime + delay ≤ fires :=
    due_le_of_lossTimer armed fun t q waits =>
      have rest := (remaining_iff keyed t q).mpr waits
      earliest t q rest.1 rest.2
  refine mem_detectLostLocked_iff.mpr ⟨s, found, ?_, .inr ?_⟩
  · show (s.toNat : Int) ≤ out.1.largestAcked
    rw [detectLostLocked_fst_eq]
    exact passed
  · show (out.1.heap p).sentTime + delay ≤ later
    rw [heap_detectLostLocked]
    exact Int.le_trans old after

/-- Packets 0, 1 and 2 sent at 0, 5 and 7 with packet 3 acknowledged. -/
def threeTracked : PacketManager where
  sentPackets := (((∅ : AList fun _ : UInt32 => Ptr).insert 0 0).insert 1 1).insert 2 2
  largestAcked := 3
  heap p :=
    { sequence := UInt32.ofNat p, sentTime := if p = 0 then 0 else if p = 1 then 5 else 7
      fits := blank_fits }
  nextPtr := 3

/-- At time 6 packet 0 is three behind and lost, 1 and 2 wait; when the timer
fires packet 1, sent before 2, is lost. -/
theorem detectLostLocked_exact_three :
    let out := threeTracked.detectLostLocked 6 10
    out.2 = [0] ∧ out.1.lossTimer = some (6 + lossTimerGranularity) ∧
      1 ∈ (out.1.onLossTimer (6 + lossTimerGranularity) 10).2 := by
  intro out
  have keys : ∀ e ∈ threeTracked.sentPackets.entries, (threeTracked.heap e.2).sequence = e.1 := by
    decide
  have keyed : threeTracked.Keyed := fun s p found => keys ⟨s, p⟩ (Tables.mem_entries_iff.mpr found)
  have times : ∀ e ∈ out.1.sentPackets.entries,
      (threeTracked.heap 1).sentTime ≤ (threeTracked.heap e.2).sentTime := by decide
  obtain ⟨-, -, -, -, -, fires, -⟩ := @detectLostLocked_exact threeTracked 6 10 keyed
  refine ⟨by decide, by decide, ?_⟩
  exact fires (6 + lossTimerGranularity) _ 1 1 (by decide) (Int.le_refl _) (by decide) (by decide)
    fun t q found _ => times ⟨t, q⟩ (Tables.mem_entries_iff.mpr found)

end PacketManager

end Udx
