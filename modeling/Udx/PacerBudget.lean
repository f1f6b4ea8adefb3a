import Mathlib.Tactic.FieldSimp
import Udx.Lib.Runs
import Udx.Lib.TokenBucket
import Udx.Pacing

set_option autoImplicit false

/- The pacer is a token bucket: what goes out in a stretch of time, and how long a
send has to wait. Its quantities are read as exact. -/

namespace Udx

open TokenBucket (Bucket Spent)

namespace Float64

theorem seconds_eq (d : Int) : (seconds d : ℚ) = d / 1000000000 := by
  have parts : (d : ℚ) = 1000000000 * (d.tdiv second : Int) + (d.tmod second : Int) := by
    exact_mod_cast (Int.mul_tdiv_add_tmod d second).symm
  show ((d.tdiv second : Int) : ℚ) + ((d.tmod second : Int) : ℚ) / 1000000000 = d / 1000000000
  rw [parts]
  ring

theorem seconds_sub (a b : Int) : (seconds (a - b) : ℚ) = seconds a - seconds b := by
  simp only [seconds_eq, Int.cast_sub, sub_div]

theorem seconds_le_iff {a b : Int} : (seconds a : ℚ) ≤ seconds b ↔ a ≤ b := by
  rw [seconds_eq, seconds_eq, div_le_div_iff_of_pos_right (by norm_num), Int.cast_le]

theorem toInt_ceil (x : ℚ) : toInt (ceil x) = x.ceil := by
  show ((x.ceil : Int) : ℚ).num.tdiv ((x.ceil : Int) : ℚ).den = x.ceil
  rw [Rat.num_intCast, Rat.den_intCast, Nat.cast_one, Int.tdiv_one]

end Float64

namespace PacingController

variable {p : PacingController ℚ} {r : ℚ} {now : Time}

theorem maxDatagramSize_le_maxBurst : (maxDatagramSize : ℚ) ≤ maxBurst r := by
  have burst : (maxDatagramSize : ℚ) ≤ (pacingBurstPackets * maxDatagramSize : Nat) := by
    exact_mod_cast (by decide : maxDatagramSize ≤ pacingBurstPackets * maxDatagramSize)
  show (maxDatagramSize : ℚ) ≤ if decide (((pacingBurstPackets * maxDatagramSize : Nat) : ℚ) <
    r * Float64.seconds minPacingDelay) = true then _ else _
  split
  · rename_i longer
    exact le_trans burst (le_of_lt (of_decide_eq_true longer))
  · exact burst

theorem budget_of_none (unsent : p.lastSendTime = none) : p.budget r now = maxBurst r := by
  rw [budget, unsent]

theorem budget_of_some {last : Time} (sent : p.lastSendTime = some last) :
    p.budget r now =
      min (maxBurst r) (p.budgetAtLastSend + r * (Float64.seconds now - Float64.seconds last)) := by
  rw [budget, sent, ← Float64.seconds_sub]
  show (if decide (maxBurst r < p.budgetAtLastSend + r * Float64.seconds (now - last)) = true then _
    else _) = _
  split
  · rename_i full
    exact (min_eq_left (le_of_lt (of_decide_eq_true full))).symm
  · rename_i short
    exact (min_eq_right (not_lt.mp (of_decide_eq_false (Bool.not_eq_true _ ▸ short)))).symm

/-- A pacer that has not sent yet is full. -/
def bucket (p : PacingController ℚ) (r : ℚ) (clock : Time) : Bucket ℚ :=
  match p.lastSendTime with
  | none => ⟨maxBurst r, Float64.seconds clock⟩
  | some last => ⟨p.budgetAtLastSend, Float64.seconds last⟩

theorem bucket_of_some {last clock : Time} (sent : p.lastSendTime = some last) :
    p.bucket r clock = ⟨p.budgetAtLastSend, Float64.seconds last⟩ := by
  rw [bucket, sent]

theorem levelAt_bucket {clock : Time} (nonneg : 0 ≤ r) (later : clock ≤ now) :
    (p.bucket r clock).levelAt (maxBurst r) r (Float64.seconds now) = p.budget r now := by
  cases sent : p.lastSendTime with
  | none =>
    have gained := mul_nonneg nonneg (sub_nonneg.mpr (Float64.seconds_le_iff.mpr later))
    rw [budget_of_none sent, bucket, sent]
    exact min_eq_left (le_add_of_nonneg_right gained)
  | some last =>
    rw [budget_of_some sent, bucket, sent]
    rfl

theorem budget_mono {clock : Time} (nonneg : 0 ≤ r) (later : clock ≤ now) :
    p.budget r clock ≤ p.budget r now := by
  rw [← levelAt_bucket nonneg (le_refl clock), ← levelAt_bucket nonneg later]
  exact Bucket.levelAt_mono nonneg (Float64.seconds_le_iff.mpr later)

theorem bucket_onPacketSent (rate : p.rate = some r) (nonneg : 0 ≤ r) {clock : Time}
    (later : clock ≤ now) (size : Nat) :
    (p.onPacketSent now size).bucket r now =
      (p.bucket r clock).draw (maxBurst r) r (Float64.seconds now) size := by
  rw [Bucket.draw, levelAt_bucket nonneg later, onPacketSent, rate]
  rfl

theorem timeUntilSend_eq (rate : p.rate = some r) :
    p.timeUntilSend now =
      if (maxDatagramSize : ℚ) ≤ p.budget r now then 0
      else max minPacingDelay ((maxDatagramSize - p.budget r now) / r * 1000000000).ceil := by
  rw [timeUntilSend, rate]
  refine ite_congr (propext ?_) (fun _ => rfl) fun _ => ?_
  · show decide ((maxDatagramSize : ℚ) - p.budget r now ≤ 0) = true ↔ _
    rw [decide_eq_true_eq, sub_nonpos]
  · rw [Float64.toInt_ceil]
    generalize wait : ((maxDatagramSize - p.budget r now) / r * 1000000000).ceil = d
    show (if ((maxDatagramSize - p.budget r now) / r * 1000000000).ceil < minPacingDelay
      then minPacingDelay else ((maxDatagramSize - p.budget r now) / r * 1000000000).ceil) = _
    rw [wait]
    split <;> omega

/-- A send need not wait where there is budget for a full datagram. -/
theorem timeUntilSend_eq_zero_iff (rate : p.rate = some r) :
    p.timeUntilSend now = 0 ↔ (maxDatagramSize : ℚ) ≤ p.budget r now := by
  rw [timeUntilSend_eq rate]
  have least : 0 < minPacingDelay := by decide
  split
  · rename_i enough
    exact iff_of_true rfl enough
  · rename_i short
    exact iff_of_false (by omega) short

/-- The wait brings in what is missing for a full datagram. -/
theorem short_le_timeUntilSend (rate : p.rate = some r) (pos : 0 < r) :
    (maxDatagramSize : ℚ) - p.budget r now ≤ r * Float64.seconds (p.timeUntilSend now) := by
  rw [Float64.seconds_eq, timeUntilSend_eq rate]
  split
  · rename_i enough
    rw [Int.cast_zero, zero_div, mul_zero]
    exact sub_nonpos.mpr enough
  · let wait : ℚ := (maxDatagramSize - p.budget r now) / r * 1000000000
    have rounded : wait ≤ (max minPacingDelay wait.ceil : Int) :=
      le_trans wait.le_ceil (Int.cast_le.mpr (le_max_right _ _))
    calc (maxDatagramSize : ℚ) - p.budget r now = r * (wait / 1000000000) := by
          show _ = r * ((maxDatagramSize - p.budget r now) / r * 1000000000 / 1000000000)
          field_simp
      _ ≤ r * ((max minPacingDelay wait.ceil : Int) / 1000000000) := by
          have scaled := div_le_div_of_nonneg_right rounded (by norm_num : (0 : ℚ) ≤ 1000000000)
          exact mul_le_mul_of_nonneg_left scaled (le_of_lt pos)

/-- After the wait that was asked for there is nothing left to wait for. -/
theorem timeUntilSend_after (rate : p.rate = some r) (pos : 0 < r) :
    p.timeUntilSend (now + p.timeUntilSend now) = 0 := by
  rw [timeUntilSend_eq_zero_iff rate]
  have full : (maxDatagramSize : ℚ) ≤ maxBurst r := maxDatagramSize_le_maxBurst
  cases sent : p.lastSendTime with
  | none =>
    rw [budget_of_none sent]
    exact full
  | some last =>
    have short : maxDatagramSize - p.budget r now ≤ r * Float64.seconds (p.timeUntilSend now) :=
      short_le_timeUntilSend rate pos
    have wait : (Float64.seconds (now + p.timeUntilSend now) : ℚ) =
        Float64.seconds now + Float64.seconds (p.timeUntilSend now) := by
      simp only [Float64.seconds_eq, Int.cast_add, add_div]
    have before : p.budget r now ≤
        p.budgetAtLastSend + r * (Float64.seconds now - Float64.seconds last) := by
      rw [budget_of_some sent]
      exact min_le_right _ _
    rw [budget_of_some sent, wait]
    refine le_min full ?_
    linarith

end PacingController

/-- A pacer in use. Its packets go out in batches: `left` is how many more the
current one may have, `sent` is what went out and when. -/
structure PacedSending where
  pacer : PacingController ℚ
  clock : Time
  left : Nat := 0
  sent : List (Time × Nat) := []

inductive PacedStep
  | start (now : Time)
  | packet (now : Time) (size : Nat)
deriving Repr, DecidableEq

namespace PacedSending

/-- A batch starts where nothing has to be waited for. -/
def step (s : PacedSending) : PacedStep → Option PacedSending
  | .start now =>
    if s.clock ≤ now ∧ s.pacer.timeUntilSend now = 0 then
      some { s with clock := now, left := sendBatchMax }
    else none
  | .packet now size =>
    if s.clock ≤ now ∧ 0 < s.left ∧ size ≤ maxDatagramSize then
      some
        { pacer := s.pacer.onPacketSent now size
          clock := now
          left := s.left - 1
          sent := s.sent ++ [(now, size)] }
    else none

/-- The bytes sent from `start` to `stop`. -/
def bytesSent (s : PacedSending) (start stop : Time) : Nat :=
  ((s.sent.filter fun e => start ≤ e.1 ∧ e.1 ≤ stop).map (·.2)).sum

variable {r : ℚ} {s s' : PacedSending} {start stop : Time}

/-- What a batch may take beyond the budget. -/
def overshoot : ℚ := sendBatchMax * maxDatagramSize

/-- The pacer of a run at the rate `r`, and what has gone out from `start` to
`stop`. -/
structure Paced (r : ℚ) (start stop : Time) (s : PacedSending) : Prop where
  rate : s.pacer.rate = some r
  batch : 0 < s.left →
    (s.left + 1 - sendBatchMax : ℚ) * maxDatagramSize ≤ s.pacer.budget r s.clock
  drawn : s.sent = [] ∨ ∃ last, s.pacer.lastSendTime = some last ∧ last ≤ s.clock ∧
    -overshoot ≤ s.pacer.budgetAtLastSend
  spent : Spent (PacingController.maxBurst r) r (Float64.seconds start) (Float64.seconds stop)
    overshoot (s.pacer.bucket r s.clock) (s.bytesSent start stop)

theorem bytesSent_of_nil (none : s.sent = []) : s.bytesSent start stop = 0 := by
  rw [bytesSent, none]
  rfl

theorem bytesSent_append (s : PacedSending) (pacer : PacingController ℚ) (now : Time)
    (left size : Nat) :
    (bytesSent ⟨pacer, now, left, s.sent ++ [(now, size)]⟩ start stop : ℚ) =
      if (Float64.seconds start : ℚ) ≤ Float64.seconds now ∧
          (Float64.seconds now : ℚ) ≤ Float64.seconds stop then
        (s.bytesSent start stop + size : ℚ)
      else s.bytesSent start stop := by
  simp only [bytesSent, Float64.seconds_le_iff, List.filter_append, List.map_append,
    List.sum_append, List.filter_singleton]
  split <;> simp [*]

theorem Paced.earlier (paced : Paced r start stop s) {now : Time} (later : s.clock ≤ now) :
    (s.bytesSent start stop : ℚ) = 0 ∨
      (s.pacer.bucket r s.clock).time ≤ Float64.seconds now ∧
        -overshoot ≤ (s.pacer.bucket r s.clock).level := by
  rcases paced.drawn with none | ⟨last, sent, before, floor⟩
  · exact .inl (by rw [bytesSent_of_nil none, Nat.cast_zero])
  · rw [PacingController.bucket_of_some sent]
    exact .inr ⟨Float64.seconds_le_iff.mpr (le_trans before later), floor⟩

theorem Paced.started (paced : Paced r start stop s) {now : Time} (later : s.clock ≤ now)
    (ready : s.pacer.timeUntilSend now = 0) :
    Paced r start stop { s with clock := now, left := sendBatchMax } where
  rate := paced.rate
  batch _ := by
    have enough := (PacingController.timeUntilSend_eq_zero_iff paced.rate).mp ready
    rw [add_sub_cancel_left, one_mul]
    exact enough
  drawn := paced.drawn.imp_right fun ⟨last, sent, before, floor⟩ =>
    ⟨last, sent, le_trans before later, floor⟩
  spent := by
    rcases paced.drawn with none | ⟨last, sent, -, -⟩
    · exact .idle (by exact_mod_cast bytesSent_of_nil none)
    · have same : s.pacer.bucket r now = s.pacer.bucket r s.clock := by
        rw [PacingController.bucket_of_some sent, PacingController.bucket_of_some sent]
      have spent := paced.spent
      rw [← same] at spent
      exact spent

theorem Paced.packet (paced : Paced r start stop s) (pos : 0 < r) {now : Time} {size : Nat}
    (later : s.clock ≤ now) (more : 0 < s.left) (fits : size ≤ maxDatagramSize) :
    Paced r start stop
      { pacer := s.pacer.onPacketSent now size, clock := now, left := s.left - 1,
        sent := s.sent ++ [(now, size)] } := by
  have nonneg := le_of_lt pos
  have small : (size : ℚ) ≤ maxDatagramSize := Nat.cast_le.mpr fits
  have enough := le_trans (paced.batch more) (PacingController.budget_mono nonneg later)
  have fewer : ((s.left - 1 : Nat) : ℚ) = s.left - 1 := Nat.cast_pred more
  have bucket := PacingController.bucket_onPacketSent paced.rate nonneg later size
  have rate : (s.pacer.onPacketSent now size).rate = some r := by
    rw [PacingController.onPacketSent, paced.rate]
  have drawn : (s.pacer.onPacketSent now size).budgetAtLastSend =
      s.pacer.budget r now - size := by
    rw [PacingController.onPacketSent, paced.rate]
    rfl
  have sent : (s.pacer.onPacketSent now size).lastSendTime = some now := by
    rw [PacingController.onPacketSent, paced.rate]
  refine ⟨rate, fun _ => ?_, .inr ⟨now, sent, le_refl now, ?_⟩, ?_⟩
  · dsimp only
    rw [fewer, ← PacingController.levelAt_bucket nonneg (le_refl now), bucket,
      Bucket.levelAt_draw (Nat.cast_nonneg size), PacingController.levelAt_bucket nonneg later]
    linarith
  · dsimp only
    have first : (1 : ℚ) ≤ s.left := by exact_mod_cast more
    rw [drawn, overshoot]
    nlinarith
  · dsimp only
    rw [bucket, bytesSent_append]
    exact paced.spent.draw nonneg (paced.earlier later) size

theorem Paced.step (pos : 0 < r) (paced : Paced r start stop s) (i : PacedStep)
    (taken : s.step i = some s') : Paced r start stop s' := by
  cases i with
  | start now =>
    obtain ⟨⟨later, ready⟩, ⟨⟩⟩ := Option.ite_none_right_eq_some.mp taken
    exact paced.started later ready
  | packet now size =>
    obtain ⟨⟨later, more, fits⟩, ⟨⟩⟩ := Option.ite_none_right_eq_some.mp taken
    exact paced.packet pos later more fits

theorem Paced.total (pos : 0 < r) (paced : Paced r start stop s) (ordered : start ≤ stop) :
    (s.bytesSent start stop : ℚ) ≤
      PacingController.maxBurst r + r * Float64.seconds (stop - start) +
        sendBatchMax * maxDatagramSize := by
  have nonneg := le_of_lt pos
  have length := sub_nonneg.mpr (Float64.seconds_le_iff.mpr ordered)
  have burst : (maxDatagramSize : ℚ) ≤ PacingController.maxBurst r :=
    PacingController.maxDatagramSize_le_maxBurst
  have gained := mul_nonneg nonneg length
  have datagram : (0 : ℚ) ≤ maxDatagramSize := Nat.cast_nonneg _
  have batch : (0 : ℚ) ≤ overshoot := by unfold overshoot; positivity
  rw [Float64.seconds_sub]
  exact paced.spent.total nonneg (by linarith) ((paced.earlier (le_refl s.clock)).imp_right And.right)

/-- A pacer at a fixed rate keeps to its budget in every stretch of time, and asks
for no longer wait than it needs. -/
theorem pacer_keeps_budget {p : PacingController ℚ} (rate : p.rate = some r) (pos : 0 < r) :
    (∀ (clock : Time) (steps : List PacedStep) (s : PacedSending),
      Runs.run step { pacer := p, clock } steps = some s →
      ∀ start stop, start ≤ stop → (s.bytesSent start stop : ℚ) ≤
        PacingController.maxBurst r + r * Float64.seconds (stop - start) +
          sendBatchMax * maxDatagramSize) ∧
    ∀ now, p.timeUntilSend (now + p.timeUntilSend now) = 0 := by
  refine ⟨fun clock steps s reached start stop ordered => ?_,
    fun now => PacingController.timeUntilSend_after rate pos⟩
  have initial : Paced r start stop { pacer := p, clock } :=
    ⟨rate, fun more => absurd more (Nat.lt_irrefl 0), .inl rfl, .idle Nat.cast_zero⟩
  exact (Runs.invariant_of_forall (Paced r start stop)
    (fun s i s' paced taken => paced.step pos i taken) initial reached).total pos ordered

def overdrawn : PacingController ℚ :=
  { rate := some 18400, budgetAtLastSend := -4416, lastSendTime := some 0 }

theorem pacer_keeps_budget_overdrawn :
    ∃ s, Runs.run step { pacer := overdrawn, clock := 0 }
        [.start 320000000, .packet 320000000 1472, .packet 330000000 1000] = some s ∧
      s.bytesSent 0 second = 2472 ∧
      (s.bytesSent 0 second : ℚ) ≤
        PacingController.maxBurst (18400 : ℚ) + 18400 * Float64.seconds (second - 0) +
          sendBatchMax * maxDatagramSize ∧
      overdrawn.timeUntilSend 0 = 320000000 ∧
      overdrawn.timeUntilSend (0 + overdrawn.timeUntilSend 0) = 0 := by
  have rate : overdrawn.rate = some 18400 := rfl
  obtain ⟨bounded, waited⟩ := pacer_keeps_budget rate (by norm_num)
  have passes : (Runs.run step { pacer := overdrawn, clock := 0 }
      [.start 320000000, .packet 320000000 1472, .packet 330000000 1000]).any
      (fun s => s.bytesSent 0 second == 2472) = true := by decide +kernel
  obtain ⟨s, reached, sent⟩ := Runs.reaches_of_any passes
  exact ⟨s, reached, beq_iff_eq.mp sent, bounded 0 _ s reached 0 second (by decide),
    by decide +kernel, waited 0⟩

end PacedSending

end Udx
