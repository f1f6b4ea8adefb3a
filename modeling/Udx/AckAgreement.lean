import Mathlib.Order.Interval.Finset.Nat
import Udx.AckTracker
import Udx.FrameCodec
import Udx.PacketManager

set_option autoImplicit false

namespace Udx

open RunLength

namespace RecvTracker

/-- What the tracker remembers from `cursor` down, over `left` sequences or to
sequence 0. -/
def window (r : RecvTracker) : Nat → UInt32 → List Bool
  | 0, _ => []
  | left + 1, cursor =>
    r.has cursor :: if cursor = 0 then [] else window r left (cursor - 1)

theorem toNat_pred {cursor : UInt32} (positive : cursor ≠ 0) :
    (cursor - 1).toNat = cursor.toNat - 1 := by
  have : cursor.toNat ≠ 0 := fun zero => positive (UInt32.toNat_inj.mp zero)
  exact UInt32.toNat_sub_of_le cursor 1 (UInt32.le_iff_toNat_le.mpr (by
    rw [UInt32.toNat_one]
    omega))

theorem window_getElem? (r : RecvTracker) (left : Nat) (cursor : UInt32) (d : Nat) :
    (window r left cursor)[d]? =
      if d < left ∧ d ≤ cursor.toNat then some (r.has (UInt32.ofNat (cursor.toNat - d)))
      else none := by
  induction left generalizing cursor d with
  | zero => simp [window]
  | succ left ih =>
    rw [window]
    cases d with
    | zero => simp
    | succ d =>
      rw [List.getElem?_cons_succ]
      by_cases zero : cursor = 0
      · simp [zero]
      · rw [if_neg zero, ih, toNat_pred zero]
        have : cursor.toNat ≠ 0 := fun h => zero (UInt32.toNat_inj.mp h)
        rw [show cursor.toNat - 1 - d = cursor.toNat - (d + 1) by omega]
        simp only [show d < left ∧ d ≤ cursor.toNat - 1 ↔
          d + 1 < left + 1 ∧ d + 1 ≤ cursor.toNat by omega]

theorem length_window (r : RecvTracker) (left : Nat) (cursor : UInt32) :
    (window r left cursor).length = min left (cursor.toNat + 1) := by
  induction left generalizing cursor with
  | zero => simp [window]
  | succ left ih =>
    rw [window, List.length_cons]
    by_cases zero : cursor = 0
    · subst zero
      simp
    · rw [if_neg zero, ih, toNat_pred zero]
      have : cursor.toNat ≠ 0 := fun h => zero (UInt32.toNat_inj.mp h)
      omega

theorem run_window (r : RecvTracker) (left : Nat) (cursor : UInt32) :
    (r.run left cursor).1 = leading true (r.window left cursor) ∧
      r.window (r.run left cursor).2.2 (r.run left cursor).2.1 =
        (r.window left cursor).drop (r.run left cursor).1 := by
  induction left generalizing cursor with
  | zero => simp [run, window, leading]
  | succ left ih =>
    rw [run, window]
    by_cases seen : r.has cursor = true
    · by_cases zero : cursor = 0
      · subst zero
        simp [seen, leading, window]
      · obtain ⟨count, rest⟩ := ih (cursor - 1)
        simp only [seen, zero, ↓reduceIte, leading, count, List.drop_succ_cons, true_and]
        rw [rest, count]
    · simp [seen, leading, window]

theorem gap_window (r : RecvTracker) (left room : Nat) (cursor : UInt32) :
    (r.gap left room cursor).1 = min room (leading false (r.window left cursor)) ∧
      r.window (r.gap left room cursor).2.2 (r.gap left room cursor).2.1 =
        (r.window left cursor).drop (r.gap left room cursor).1 := by
  induction left generalizing room cursor with
  | zero => simp [gap, window, leading]
  | succ left ih =>
    cases room with
    | zero => simp [gap]
    | succ room =>
      rw [gap, window]
      by_cases seen : r.has cursor = true
      · simp [seen, leading, window]
      · by_cases zero : cursor = 0
        · subst zero
          simp [seen, leading, window]
        · obtain ⟨count, rest⟩ := ih room (cursor - 1)
          simp only [seen, zero, ↓reduceIte, leading, count, List.drop_succ_cons, Bool.not_false]
          exact ⟨by omega, by rw [rest, count]⟩

/-- The wire form of one gap and the run after it. -/
def wireRange (pair : Nat × Nat) : AckRange := ⟨UInt8.ofNat pair.1, UInt32.ofNat pair.2⟩

theorem ackRanges_eq (r : RecvTracker) (count : Nat) (cursor : UInt32) (left : Nat) :
    r.ackRanges count cursor left =
      (ranges 255 count (r.window left cursor)).map wireRange := by
  induction count generalizing cursor left with
  | zero => rfl
  | succ count ih =>
    obtain ⟨gapCount, gapRest⟩ := r.gap_window left 255 cursor
    obtain ⟨runCount, runRest⟩ :=
      r.run_window (r.gap left 255 cursor).2.2 (r.gap left 255 cursor).2.1
    rw [ackRanges, ranges]
    by_cases spent : left = 0
    · subst spent
      simp [window, leading]
    · simp only [spent, ↓reduceIte, ih, runRest, gapRest, runCount, ← gapCount]
      split <;> rename_i noGap
      · simp [noGap]
      · split <;> rename_i noRun
        · simp [noRun]
        · simp [noGap, noRun, wireRange, List.drop_drop]

/-- The history the frame is built from. -/
def history (r : RecvTracker) : List Bool := r.window ackHistory r.largest

theorem frame_eq (r : RecvTracker) (any : r.any = true) (ackDelay : UInt16) :
    r.frame ackDelay =
      ⟨r.largest, ackDelay, UInt32.ofNat (leading true r.history),
        (ranges 255 5 (r.history.drop (leading true r.history))).map wireRange⟩ := by
  obtain ⟨count, rest⟩ := r.run_window ackHistory r.largest
  simp only [frame, any, Bool.not_true, Bool.false_eq_true, ↓reduceIte, ackRanges_eq, rest, count]
  rfl

end RecvTracker

theorem mem_range_sub {n top : Nat} {s : Nat} :
    (∃ i < n, s + i = top) ↔ s ≤ top ∧ top < s + n := by
  constructor
  · rintro ⟨i, inside, rfl⟩
    omega
  · rintro ⟨below, inside⟩
    exact ⟨top - s, by omega, by omega⟩

theorem ofInt_eq_iff {s : UInt32} {k : Nat} (small : k < 2 ^ 32) :
    UInt32.ofInt (k : Int) = s ↔ s.toNat = k := by
  rw [UInt32.ofInt, ← UInt32.toNat_inj]
  have := s.toNat_lt
  simp only [UInt32.toNat_ofNat']
  omega

theorem mem_rangeDown {top : Nat} {count : UInt32} (small : top < 2 ^ 32)
    (fits : count.toNat ≤ top + 1) (s : UInt32) :
    s ∈ rangeDown top count ↔ s.toNat ≤ top ∧ top < s.toNat + count.toNat := by
  rw [← mem_range_sub]
  simp only [rangeDown, List.mem_map, List.mem_range]
  refine exists_congr fun i => and_congr_right fun inside => ?_
  rw [show (top : Int) - (i : Int) = ((top - i : Nat) : Int) by omega, ofInt_eq_iff (by omega)]
  omega

theorem mem_rangesDown {largest start room : Nat} {pairs : List (Nat × Nat)}
    (small : largest < 2 ^ 32) (fits : WithinRoom 255 room pairs) (bounded : room < 2 ^ 32)
    (within : start + room ≤ largest + 1) (s : UInt32) :
    s ∈ rangesDown ((largest : Int) - start) (pairs.map RecvTracker.wireRange) ↔
      ∃ d, s.toNat + d = largest ∧ Covers start pairs d := by
  induction pairs generalizing start room with
  | nil => simp [rangesDown, Covers]
  | cons pair rest ih =>
    obtain ⟨gap, run⟩ := pair
    obtain ⟨narrow, nonempty, inside, fits⟩ := fits
    have gapWire : (UInt8.ofNat gap).toNat = gap := by
      rw [UInt8.toNat_ofNat']
      omega
    have runWire : (UInt32.ofNat run).toNat = run := by
      rw [UInt32.toNat_ofNat']
      omega
    simp only [List.map_cons, rangesDown, RecvTracker.wireRange, gapWire, runWire,
      List.mem_append, Covers]
    rw [show (largest : Int) - start - gap - run = (largest : Int) - (start + gap + run : Nat) by
      omega, ih fits (by omega) (by omega),
      show (largest : Int) - start - gap = (largest - start - gap : Nat) by omega,
      mem_rangeDown (by omega) (by omega), runWire]
    simp only [and_or_left, exists_or]
    refine or_congr_left ?_
    constructor
    · rintro ⟨below, above⟩
      exact ⟨largest - s.toNat, by omega, by omega, by omega⟩
    · rintro ⟨d, rfl, lower, upper⟩
      omega

def largestOf (seqs : List UInt32) : Nat := (seqs.map UInt32.toNat).foldr max 0

/-- The tops of the runs of missing sequences between `s` and the largest. -/
def gapsAbove (seqs : List UInt32) (s : UInt32) : Finset Nat :=
  (Finset.Ioo s.toNat (largestOf seqs)).filter fun t =>
    UInt32.ofNat t ∉ seqs ∧ UInt32.ofNat (t + 1) ∈ seqs

/-- More than 255 missing sequences in a row between `s` and the largest. -/
def WideGapAbove (seqs : List UInt32) (s : UInt32) : Prop :=
  ∃ t, s.toNat < t ∧ t + 255 < largestOf seqs ∧ ∀ i ≤ 255, UInt32.ofNat (t + i) ∉ seqs

/-- The sequences one ACK frame can report of the arrivals `seqs`: recent ones,
with at most five gaps above them and none too wide for its field. -/
structure RecvTracker.Reported (seqs : List UInt32) (s : UInt32) : Prop where
  arrived : s ∈ seqs
  recent : largestOf seqs - s.toNat < ackHistory
  gaps : (gapsAbove seqs s).card ≤ 5
  narrow : ¬ WideGapAbove seqs s

theorem le_largestOf {seqs : List UInt32} {s : UInt32} (member : s ∈ seqs) :
    s.toNat ≤ largestOf seqs := by
  induction seqs with
  | nil => cases member
  | cons t rest ih =>
    rw [largestOf, List.map_cons, List.foldr_cons]
    rcases List.mem_cons.mp member with rfl | later
    · exact Nat.le_max_left _ _
    · exact Nat.le_trans (ih later) (Nat.le_max_right _ _)

theorem largestOf_mem {seqs : List UInt32} (nonempty : seqs ≠ []) :
    ∃ s ∈ seqs, s.toNat = largestOf seqs := by
  induction seqs with
  | nil => contradiction
  | cons t rest ih =>
    rw [largestOf, List.map_cons, List.foldr_cons]
    by_cases last : rest = []
    · exact ⟨t, List.mem_cons_self, by simp [last]⟩
    · obtain ⟨s, member, top⟩ := ih last
      rcases Nat.le_total t.toNat s.toNat with le | le
      · exact ⟨s, List.mem_cons_of_mem _ member, by rw [top] at *; exact (Nat.max_eq_right le).symm⟩
      · exact ⟨t, List.mem_cons_self, by rw [top] at le; exact (Nat.max_eq_left le).symm⟩

namespace RecvTracker.Represents

variable {r : RecvTracker} {added : List UInt32} (rep : Represents r added) (any : r.any = true)

include rep any

theorem largest_eq : r.largest.toNat = largestOf added := by
  have member := rep.largest_mem any
  obtain ⟨s, arrived, top⟩ := largestOf_mem (List.ne_nil_of_mem member)
  apply Nat.le_antisymm (le_largestOf member)
  rw [← top]
  exact rep.le_largest s arrived

theorem history_getElem? {d : Nat} (within : d < ackHistory) (below : d ≤ largestOf added) :
    r.history[d]? = some (decide (UInt32.ofNat (largestOf added - d) ∈ added)) := by
  have bound := r.largest.toNat_lt
  have top := rep.largest_eq any
  rw [history, window_getElem?, top, if_pos ⟨within, below⟩, Option.some.injEq, Bool.eq_iff_iff,
    decide_eq_true_eq, rep.has_iff, and_iff_left_iff_imp]
  intro _
  rw [top, UInt32.toNat_ofNat']
  omega

theorem history_getElem?_sub {s : UInt32} (below : s.toNat ≤ largestOf added)
    (recent : largestOf added - s.toNat < ackHistory) :
    r.history[largestOf added - s.toNat]? = some (decide (s ∈ added)) := by
  rw [rep.history_getElem? any recent (by omega),
    show largestOf added - (largestOf added - s.toNat) = s.toNat by omega, UInt32.ofNat_toNat]

theorem count_gapAt_history {s : UInt32} (below : s.toNat ≤ largestOf added)
    (recent : largestOf added - s.toNat < ackHistory) :
    Nat.count (GapAt r.history) (largestOf added - s.toNat) = (gapsAbove added s).card := by
  have top : UInt32.ofNat (largestOf added) ∈ added := by
    rw [← rep.largest_eq any, UInt32.ofNat_toNat]
    exact rep.largest_mem any
  rw [Nat.count_eq_card_filter_range]
  refine Finset.card_bij' (fun d _ => largestOf added - d) (fun t _ => largestOf added - t)
    ?_ ?_ ?_ ?_
  · intro d member
    obtain ⟨before, gapped⟩ := Finset.mem_filter.mp member
    rw [Finset.mem_range] at before
    rw [GapAt, rep.history_getElem? any (by omega) (by omega)] at gapped
    obtain ⟨absent, zero | present⟩ := gapped
    · subst zero
      simp [top] at absent
    · rw [rep.history_getElem? any (by omega) (by omega)] at present
      have positive : d ≠ 0 := by
        rintro rfl
        simp [top] at absent
      rw [gapsAbove, Finset.mem_filter, Finset.mem_Ioo]
      rw [show largestOf added - (d - 1) = largestOf added - d + 1 by omega] at present
      exact ⟨by omega, by simpa using absent, by simpa using present⟩
  · intro t member
    rw [gapsAbove, Finset.mem_filter, Finset.mem_Ioo] at member
    obtain ⟨⟨above, under⟩, absent, present⟩ := member
    rw [Finset.mem_filter, Finset.mem_range, GapAt, rep.history_getElem? any (by omega) (by omega),
      rep.history_getElem? any (by omega) (by omega),
      show largestOf added - (largestOf added - t) = t by omega,
      show largestOf added - (largestOf added - t - 1) = t + 1 by omega]
    exact ⟨by omega, by simpa using absent, Or.inr (by simpa using present)⟩
  · intro d member
    have := Finset.mem_range.mp (Finset.mem_filter.mp member).1
    omega
  · intro t member
    have := Finset.mem_Ioo.mp (Finset.mem_filter.mp member).1
    omega

theorem longGap_history {s : UInt32} (below : s.toNat ≤ largestOf added)
    (recent : largestOf added - s.toNat < ackHistory) :
    LongGap 255 r.history (largestOf added - s.toNat) ↔ WideGapAbove added s := by
  have top : UInt32.ofNat (largestOf added) ∈ added := by
    rw [← rep.largest_eq any, UInt32.ofNat_toNat]
    exact rep.largest_mem any
  constructor
  · rintro ⟨d, before, absent⟩
    have positive : d ≠ 0 := by
      rintro rfl
      have here := absent 0 (by omega)
      rw [rep.history_getElem? any (by omega) (by omega)] at here
      simp [top] at here
    refine ⟨largestOf added - d - 255, by omega, by omega, ?_⟩
    intro i inside
    have here := absent (255 - i) (by omega)
    rw [rep.history_getElem? any (by omega) (by omega),
      show largestOf added - (d + (255 - i)) = largestOf added - d - 255 + i by omega] at here
    simpa using here
  · rintro ⟨t, above, under, absent⟩
    refine ⟨largestOf added - t - 255, by omega, ?_⟩
    intro i inside
    have here := absent (255 - i) (by omega)
    rw [rep.history_getElem? any (by omega) (by omega),
      show largestOf added - (largestOf added - t - 255 + i) = t + (255 - i) by omega]
    simpa using here

/-- The frame's ranges, read back, are the reported sequences. -/
theorem mem_sequences_frame_iff (ackDelay : UInt16) (s : UInt32) :
    s ∈ (r.frame ackDelay).sequences ↔ Reported added s := by
  have bound := r.largest.toNat_lt
  have top := rep.largest_eq any
  have length : r.history.length = min 512 (r.largest.toNat + 1) := length_window _ _ _
  have first := leading_le true r.history
  have head : r.history[0]? = some true := by
    rw [rep.history_getElem? any (by decide) (Nat.zero_le _), Nat.sub_zero, ← top,
      UInt32.ofNat_toNat, decide_eq_true (rep.largest_mem any)]
  have wire : (UInt32.ofNat (leading true r.history)).toNat = leading true r.history := by
    rw [UInt32.toNat_ofNat']
    omega
  have fits := withinRoom_ranges 255 5 (r.history.drop (leading true r.history))
  rw [List.length_drop] at fits
  have firstRange : (∃ i < leading true r.history, r.largest - UInt32.ofNat i = s) ↔
      ∃ d, s.toNat + d = r.largest.toNat ∧ d < leading true r.history := by
    refine exists_congr fun i => ?_
    rw [and_comm]
    refine and_congr_left fun inside => ?_
    have small : (UInt32.ofNat i).toNat = i := by
      rw [UInt32.toNat_ofNat']
      omega
    rw [← UInt32.toNat_inj, UInt32.toNat_sub_of_le _ _ (UInt32.le_iff_toNat_le.mpr (by omega)), small]
    omega
  rw [frame_eq r any, AckFrame.sequences, List.mem_append, wire,
    mem_rangesDown bound fits (by omega) (by omega)]
  simp only [List.mem_map, List.mem_range, firstRange, ← exists_or, ← and_or_left,
    leading_or_covers 255 5 r.history head]
  constructor
  · rintro ⟨d, depth, set, few, short⟩
    obtain rfl : d = largestOf added - s.toNat := by omega
    have recent : largestOf added - s.toNat < ackHistory := by
      have := (List.getElem?_eq_some_iff.mp set).1
      rw [length] at this
      exact Nat.lt_of_lt_of_le this (Nat.min_le_left _ _)
    rw [rep.history_getElem?_sub any (by omega) recent] at set
    rw [rep.count_gapAt_history any (by omega) recent] at few
    rw [rep.longGap_history any (by omega) recent] at short
    exact ⟨by simpa using set, recent, few, short⟩
  · rintro ⟨arrived, recent, few, narrow⟩
    have below := le_largestOf arrived
    refine ⟨largestOf added - s.toNat, by omega, ?_, ?_, ?_⟩
    · rw [rep.history_getElem?_sub any below recent, decide_eq_true arrived]
    · rwa [rep.count_gapAt_history any below recent]
    · rwa [rep.longGap_history any below recent]

end RecvTracker.Represents

theorem length_ranges_le (width k : Nat) (bits : List Bool) : (ranges width k bits).length ≤ k := by
  induction k generalizing bits with
  | zero => exact Nat.le_refl 0
  | succ k ih =>
    rw [ranges]
    split
    · exact Nat.zero_le _
    · exact Nat.succ_le_succ (ih _)

theorem RecvTracker.length_ackRanges_frame_le (r : RecvTracker) (ackDelay : UInt16) :
    (r.frame ackDelay).ackRanges.length ≤ 5 := by
  by_cases any : r.any = true
  · rw [r.frame_eq any, List.length_map]
    exact length_ranges_le _ _ _
  · simp [frame, any]

theorem RecvTracker.encodable_frame (r : RecvTracker) (ackDelay : UInt16) :
    (Frame.ack (r.frame ackDelay)).Encodable :=
  (r.length_ackRanges_frame_le ackDelay).trans (by decide)

/-- Builder, wire format and reader agree: the frame built from the arrivals
`seqs` survives its encoding, and reading it takes out of any table exactly the
packets it reports. -/
theorem handleAckFrame_frame (seqs : List UInt32) (arrived : seqs ≠ []) (ackDelay : UInt16)
    (pm : PacketManager) (now : Time) :
    ∃ frame,
      unmarshalFrame (Frame.ack ((RecvTracker.addAll {} seqs).frame ackDelay)).marshal 0 =
        .ok (.ack frame, (Frame.ack ((RecvTracker.addAll {} seqs).frame ackDelay)).len) ∧
      (∀ s, RecvTracker.Reported seqs s → (pm.handleAckFrame now frame).1.sentPackets.lookup s = none) ∧
      (∀ s, ¬ RecvTracker.Reported seqs s →
        (pm.handleAckFrame now frame).1.sentPackets.lookup s = pm.sentPackets.lookup s) ∧
      (∀ p, p ∈ (pm.handleAckFrame now frame).2 ↔
        ∃ s, RecvTracker.Reported seqs s ∧ pm.sentPackets.lookup s = some p) ∧
      (∀ p, ((pm.handleAckFrame now frame).1.heap p).isAcked = true ↔
        (pm.heap p).isAcked = true ∨ p ∈ (pm.handleAckFrame now frame).2) := by
  have rep := RecvTracker.represents_addAll seqs
  have reported := rep.mem_sequences_frame_iff (rep.any.mpr arrived) ackDelay
  refine ⟨_, unmarshalFrame_marshal _ (List.append_nil _).symm
    (RecvTracker.encodable_frame _ ackDelay) (by simp), ?_, ?_, ?_, ?_⟩
  · intro s inFrame
    rw [pm.handleAckFrame_sentPackets, PacketManager.lookup_foldl_take,
      if_pos ((reported s).mpr inFrame)]
  · intro s outside
    rw [pm.handleAckFrame_sentPackets, PacketManager.lookup_foldl_take,
      if_neg (mt (reported s).mp outside)]
  · intro p
    rw [pm.handleAckFrame_acked, PacketManager.mem_foldl_take]
    simp [reported]
  · intro p
    rw [pm.handleAckFrame_acked, pm.handleAckFrame_heap, PacketManager.mem_foldl_take,
      PacketManager.isAcked_foldl_take]
    simp

/-- Sequences 3 and 1 arrived: packet 2 stays tracked. -/
theorem handleAckFrame_frame_missing :
    ([3, 1] : List UInt32) ≠ [] ∧
      ∃ frame,
        unmarshalFrame (Frame.ack ((RecvTracker.addAll {} [3, 1]).frame 0)).marshal 0 =
          .ok (.ack frame, (Frame.ack ((RecvTracker.addAll {} [3, 1]).frame 0)).len) ∧
        (PacketManager.handleAckFrame { sentPackets := AList.singleton 2 7 } 0
          frame).1.sentPackets.lookup 2 = some 7 := by
  refine ⟨by decide, ?_⟩
  obtain ⟨frame, decoded, -, kept, -⟩ := handleAckFrame_frame [3, 1] (by decide) 0
    { sentPackets := AList.singleton 2 7 } 0
  refine ⟨frame, decoded, (kept 2 fun reported => ?_).trans rfl⟩
  exact absurd reported.arrived (by decide)

end Udx
