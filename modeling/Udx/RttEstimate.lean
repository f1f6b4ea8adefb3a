import Mathlib.Order.Bounds.Basic
import Udx.Congestion

set_option autoImplicit false

/- The RTT estimates against the samples they were made from. -/

namespace Udx

structure RttSample where
  now : Time
  sentTime : Time
  ackDelay : Int

/-- The round trip as measured. -/
def RttSample.raw (x : RttSample) : Int := x.now - x.sentTime

/-- A sample that 64 bits hold with room to spare. -/
structure RttSample.Plausible (x : RttSample) : Prop where
  nonneg : 0 ≤ x.raw
  small : x.raw ≤ 2 ^ 56
  delay : 0 ≤ x.ackDelay

namespace CongestionController

variable {F : Type}

def sample (cc : CongestionController F) (x : RttSample) : CongestionController F :=
  cc.updateRtt x.now x.sentTime x.ackDelay

/-- `updateRtt` in 64-bit arithmetic, which wraps. -/
def updateRtt64 (cc : CongestionController F) (x : RttSample) : CongestionController F :=
  let latest := wrap64 (x.now - x.sentTime)
  if latest < 0 then cc
  else if cc.firstRttSample then
    { cc with
      firstRttSample := false, latestRtt := latest, minRtt := latest, smoothedRtt := latest
      rttVar := latest.tdiv 2 }
  else
    let minRtt := if latest < cc.minRtt then latest else cc.minRtt
    let ackDelay := if x.ackDelay > maxAckDelay then maxAckDelay else x.ackDelay
    let latest :=
      if latest ≥ wrap64 (minRtt + ackDelay) then wrap64 (latest - ackDelay) else latest
    let rttVarSample := wrap64 (cc.smoothedRtt - latest)
    let rttVarSample := if rttVarSample < 0 then wrap64 (-rttVarSample) else rttVarSample
    { cc with
      minRtt := minRtt, latestRtt := latest
      rttVar := (wrap64 (wrap64 (3 * cc.rttVar) + rttVarSample)).tdiv 4
      smoothedRtt := (wrap64 (wrap64 (7 * cc.smoothedRtt) + latest)).tdiv 8 }

/-- The estimates lie between the least sample and the greatest. -/
structure Between (low high : Int) (cc : CongestionController F) : Prop where
  seen : cc.firstRttSample = false
  least : cc.minRtt = low
  nonneg : 0 ≤ low
  latest : low ≤ cc.latestRtt ∧ cc.latestRtt ≤ high
  smoothed : low ≤ cc.smoothedRtt ∧ cc.smoothedRtt ≤ high
  spread : 0 ≤ cc.rttVar ∧ cc.rttVar ≤ high

variable {cc : CongestionController F} {low high : Int} {x : RttSample}

theorem tdiv_between {n total : Int} (positive : 0 < n) (nonneg : 0 ≤ low)
    (above : n * low ≤ total) (below : total ≤ n * high) :
    low ≤ total.tdiv n ∧ total.tdiv n ≤ high := by
  have whole : 0 ≤ total := (Int.mul_nonneg (Int.le_of_lt positive) nonneg).trans above
  rw [Int.tdiv_eq_ediv_of_nonneg whole]
  constructor
  · rw [Int.le_ediv_iff_mul_le positive, Int.mul_comm]
    exact above
  · refine Int.ediv_le_of_le_mul positive ?_
    rw [Int.mul_comm]
    exact below

theorem between_first (fresh : cc.firstRttSample = true) (nonneg : 0 ≤ x.raw) :
    Between x.raw x.raw (cc.sample x) ∧ (cc.sample x).latestRtt ≤ x.raw := by
  have first : cc.sample x = { cc with
      firstRttSample := false, latestRtt := x.raw, minRtt := x.raw, smoothedRtt := x.raw
      rttVar := x.raw.tdiv 2 } := by
    unfold sample updateRtt
    exact (if_neg (Int.not_lt.mpr nonneg)).trans (if_pos fresh)
  have half : 0 ≤ x.raw.tdiv 2 ∧ x.raw.tdiv 2 ≤ x.raw :=
    tdiv_between (by decide) (Int.le_refl 0) (by omega) (by omega)
  rw [first]
  exact ⟨⟨rfl, rfl, nonneg, ⟨Int.le_refl _, Int.le_refl _⟩, ⟨Int.le_refl _, Int.le_refl _⟩, half⟩,
    Int.le_refl _⟩

/-- The sample less the delay the peer reports, where the delay is credible. -/
def credited (cc : CongestionController F) (x : RttSample) : Int :=
  if x.raw ≥ min cc.minRtt x.raw + min x.ackDelay maxAckDelay then
    x.raw - min x.ackDelay maxAckDelay
  else x.raw

theorem least_eq (cc : CongestionController F) (x : RttSample) :
    (if x.raw < cc.minRtt then x.raw else cc.minRtt) = min cc.minRtt x.raw := by
  split <;> omega

theorem capped_eq (x : RttSample) :
    (if x.ackDelay > maxAckDelay then maxAckDelay else x.ackDelay) =
      min x.ackDelay maxAckDelay := by
  split <;> omega

theorem size_eq (z : Int) : (if z < 0 then -z else z) = |z| := by
  split
  · rw [abs_of_neg ‹_›]
  · rw [abs_of_nonneg (Int.not_lt.mp ‹_›)]

theorem sample_later (seen : cc.firstRttSample = false) (nonneg : 0 ≤ x.raw) :
    cc.sample x = { cc with
      minRtt := min cc.minRtt x.raw
      latestRtt := cc.credited x
      rttVar := (3 * cc.rttVar + |cc.smoothedRtt - cc.credited x|).tdiv 4
      smoothedRtt := (7 * cc.smoothedRtt + cc.credited x).tdiv 8 } := by
  unfold sample updateRtt
  rw [← RttSample.raw, if_neg (Int.not_lt.mpr nonneg), seen, if_neg Bool.false_ne_true]
  dsimp only
  rw [least_eq, capped_eq, size_eq]
  rfl

theorem credited_between (least : cc.minRtt = low) (delay : 0 ≤ x.ackDelay) :
    min low x.raw ≤ cc.credited x ∧ cc.credited x ≤ x.raw := by
  have cap : 0 ≤ maxAckDelay := by decide
  unfold credited
  rw [least]
  split <;> omega

/-- Each further sample widens the bounds to itself at most. -/
theorem Between.sample (between : Between low high cc) (nonneg : 0 ≤ x.raw)
    (delay : 0 ≤ x.ackDelay) :
    Between (min low x.raw) (max high x.raw) (cc.sample x) ∧
      (cc.sample x).latestRtt ≤ x.raw := by
  obtain ⟨seen, least, floor, latest, smoothed, spread⟩ := between
  obtain ⟨above, below⟩ := credited_between least delay
  have distance : 0 ≤ |cc.smoothedRtt - cc.credited x| ∧
      |cc.smoothedRtt - cc.credited x| ≤ max high x.raw := by
    refine ⟨abs_nonneg _, ?_⟩
    rw [abs_le]
    omega
  rw [sample_later seen nonneg]
  refine ⟨⟨seen, by rw [least], by omega, ⟨above, below.trans (le_max_right _ _)⟩,
    ?_, ?_⟩, below⟩
  · exact tdiv_between (by decide) (by omega) (by omega) (by omega)
  · exact tdiv_between (by decide) (Int.le_refl 0) (by omega) (by omega)

theorem wrap64_of_abs_le {z : Int} (small : |z| ≤ 2 ^ 60) : wrap64 z = z := by
  rw [abs_le] at small
  rw [wrap64]
  exact Int.bmod_eq_of_le (by omega) (by omega)

/-- No intermediate value of a credible first sample leaves 64 bits. -/
theorem updateRtt64_first (fresh : cc.firstRttSample = true) (credible : x.Plausible) :
    cc.updateRtt64 x = cc.sample x := by
  obtain ⟨nonneg, small, -⟩ := credible
  have raw : wrap64 (x.now - x.sentTime) = x.now - x.sentTime :=
    wrap64_of_abs_le (by rw [← RttSample.raw, abs_le]; omega)
  unfold sample updateRtt updateRtt64
  rw [raw]
  dsimp only
  rw [if_pos fresh, if_pos fresh]

theorem Between.updateRtt64_eq (between : Between low high cc) (bounded : high ≤ 2 ^ 56)
    (credible : x.Plausible) : cc.updateRtt64 x = cc.sample x := by
  obtain ⟨seen, least, floor, -, smoothed, spread⟩ := between
  obtain ⟨nonneg, small, delay⟩ := credible
  obtain ⟨above, below⟩ := credited_between least delay
  have cap : maxAckDelay = 25000000 := rfl
  have raw : wrap64 (x.now - x.sentTime) = x.raw := by
    rw [← RttSample.raw]
    exact wrap64_of_abs_le (by rw [abs_le]; omega)
  have credit : (if x.raw ≥ wrap64 (min cc.minRtt x.raw + min x.ackDelay maxAckDelay) then
      wrap64 (x.raw - min x.ackDelay maxAckDelay) else x.raw) = cc.credited x := by
    rw [wrap64_of_abs_le (by rw [abs_le]; omega), wrap64_of_abs_le (by rw [abs_le]; omega)]
    rfl
  have distance : wrap64 (cc.smoothedRtt - cc.credited x) = cc.smoothedRtt - cc.credited x :=
    wrap64_of_abs_le (by rw [abs_le]; omega)
  have negated : wrap64 (-(cc.smoothedRtt - cc.credited x)) = -(cc.smoothedRtt - cc.credited x) :=
    wrap64_of_abs_le (by rw [abs_le]; omega)
  have width : |cc.smoothedRtt - cc.credited x| ≤ 2 ^ 56 := by
    rw [abs_le]
    omega
  have apart := abs_nonneg (cc.smoothedRtt - cc.credited x)
  rw [sample_later seen nonneg]
  unfold updateRtt64
  rw [raw, if_neg (Int.not_lt.mpr nonneg), seen, if_neg Bool.false_ne_true]
  dsimp only
  rw [least_eq, capped_eq, credit, distance, negated, size_eq,
    wrap64_of_abs_le (z := 3 * cc.rttVar) (by rw [abs_le]; omega),
    wrap64_of_abs_le (z := 3 * cc.rttVar + _) (by rw [abs_le]; omega),
    wrap64_of_abs_le (z := 7 * cc.smoothedRtt) (by rw [abs_le]; omega),
    wrap64_of_abs_le (z := 7 * cc.smoothedRtt + _) (by rw [abs_le]; omega)]

/-- What the estimates are after the samples, of which `last` came last. -/
structure Estimates (raws : Set Int) (last : Int) (cc : CongestionController F) : Prop where
  least : IsLeast raws cc.minRtt
  latest : cc.minRtt ≤ cc.latestRtt ∧ cc.latestRtt ≤ last
  smoothed : ∃ high, IsGreatest raws high ∧ cc.minRtt ≤ cc.smoothedRtt ∧ cc.smoothedRtt ≤ high ∧
    0 ≤ cc.rttVar ∧ cc.rttVar ≤ high

def raws (samples : List RttSample) : Set Int := { r | ∃ x ∈ samples, x.raw = r }

theorem raws_append_singleton (samples : List RttSample) (x : RttSample) :
    raws (samples ++ [x]) = insert x.raw (raws samples) := by
  ext r
  constructor
  · rintro ⟨y, member, rfl⟩
    rcases List.mem_append.mp member with old | new
    · exact .inr ⟨y, old, rfl⟩
    · obtain rfl := List.mem_singleton.mp new
      exact .inl rfl
  · rintro (rfl | ⟨y, old, rfl⟩)
    · exact ⟨x, List.mem_append_right _ (List.mem_singleton_self x), rfl⟩
    · exact ⟨y, List.mem_append_left _ old, rfl⟩

/-- The run over the samples, with the bounds they set so far. -/
theorem between_samples (fresh : cc.firstRttSample = true) (samples : List RttSample)
    (x : RttSample) (credible : ∀ y ∈ samples ++ [x], y.Plausible) :
    ∃ low high, IsLeast (raws (samples ++ [x])) low ∧ IsGreatest (raws (samples ++ [x])) high ∧
      Between low high ((samples ++ [x]).foldl sample cc) ∧
      ((samples ++ [x]).foldl sample cc).latestRtt ≤ x.raw ∧
      (samples ++ [x]).foldl updateRtt64 cc = (samples ++ [x]).foldl sample cc := by
  induction samples using List.reverseRecOn generalizing x with
  | nil =>
    have here := credible x (List.mem_singleton_self x)
    have only : raws ([] ++ [x]) = {x.raw} := by
      rw [raws_append_singleton]
      simp [raws]
    obtain ⟨between, latest⟩ := between_first fresh here.nonneg
    rw [only]
    exact ⟨x.raw, x.raw, isLeast_singleton, isGreatest_singleton, between, latest,
      updateRtt64_first fresh here⟩
  | append_singleton before y ih =>
    have here := credible x (List.mem_append_right _ (List.mem_singleton_self x))
    obtain ⟨low, high, least, greatest, between, -, exact⟩ :=
      ih y fun z member => credible z (List.mem_append_left _ member)
    have small : high ≤ 2 ^ 56 := by
      obtain ⟨z, member, rfl⟩ := greatest.1
      exact (credible z (List.mem_append_left _ member)).small
    obtain ⟨next, latest⟩ := between.sample here.nonneg here.delay
    have same := between.updateRtt64_eq small here
    have last (f : CongestionController F → RttSample → CongestionController F) :
        (before ++ [y] ++ [x]).foldl f cc = f ((before ++ [y]).foldl f cc) x :=
      List.foldl_append
    rw [raws_append_singleton (before ++ [y]) x, last sample, last updateRtt64, exact]
    exact ⟨_, _, min_comm x.raw low ▸ least.insert x.raw,
      max_comm x.raw high ▸ greatest.insert x.raw,
      next, latest, same⟩

/-- The estimates stay within the samples, and 64-bit arithmetic computes them
exactly. -/
theorem estimates_within_samples (fresh : cc.firstRttSample = true) {samples : List RttSample}
    (nonempty : samples ≠ []) (credible : ∀ x ∈ samples, x.Plausible) :
    Estimates (raws samples) (samples.getLast nonempty).raw (samples.foldl sample cc) ∧
      samples.foldl updateRtt64 cc = samples.foldl sample cc := by
  obtain ⟨before, x, rfl⟩ : ∃ before x, samples = before ++ [x] :=
    ⟨samples.dropLast, samples.getLast nonempty, (List.dropLast_concat_getLast nonempty).symm⟩
  obtain ⟨low, high, least, greatest, between, latest, exact⟩ :=
    between_samples fresh before x credible
  obtain ⟨-, rfl, -, latest', smoothed, spread⟩ := between
  rw [List.getLast_append_singleton]
  exact ⟨⟨least, ⟨latest'.1, latest⟩, high, greatest, smoothed.1, smoothed.2, spread⟩, exact⟩

/-- Round trips of 100 ms, 60 ms and 90 ms, the last with 20 ms of delay. -/
def threeSamples : List RttSample :=
  [⟨100 * millisecond, 0, 0⟩, ⟨160 * millisecond, 100 * millisecond, 5 * millisecond⟩,
    ⟨290 * millisecond, 200 * millisecond, 20 * millisecond⟩]

theorem estimates_within_samples_three :
    let cc : CongestionController ℚ := threeSamples.foldl sample newCongestionController
    (∀ x ∈ threeSamples, x.Plausible) ∧ cc.minRtt = 60 * millisecond ∧
      cc.latestRtt = 70 * millisecond ∧ Estimates (raws threeSamples) (90 * millisecond) cc := by
  intro cc
  have credible : ∀ x ∈ threeSamples, x.Plausible := by
    simp only [threeSamples, List.forall_mem_cons, List.not_mem_nil, false_implies, implies_true,
      and_true]
    exact ⟨⟨by decide, by decide, by decide⟩, ⟨by decide, by decide, by decide⟩,
      ⟨by decide, by decide, by decide⟩⟩
  exact ⟨credible, rfl, rfl,
    (estimates_within_samples rfl (List.cons_ne_nil _ _) credible).1⟩

end CongestionController

end Udx
