import Mathlib.Tactic.Linarith
import Udx.Pacing

set_option autoImplicit false

namespace Udx

/-- Go's 64-bit `int` arithmetic wraps. -/
def wrap64 (x : Int) : Int := Int.bmod x (2 ^ 64)

def maxInt : Int := 2 ^ 63 - 1

def betaCubic : ℚ := 7 / 10
def cubicC : ℚ := 4 / 10

/-- Window, RTT estimate, bytes in flight and probe timeout. A timer is when it
fires, `none` when it is not armed. -/
structure CongestionController (F : Type) where
  cwnd : Int := initialCwnd
  ssthresh : Int := maxInt
  wMax : Int := 0
  k : F
  epochStart : Option Time := none
  smoothedRtt : Int := initialRTT
  rttVar : Int := initialRTTVar
  minRtt : Int := 0
  latestRtt : Int := 0
  firstRttSample : Bool := true
  inflight : Int := 0
  inRecovery : Bool := false
  recoveryEndSeq : Int := -1
  ptoTimer : Option Time := none
  ptoCount : Nat := 0
  lastSendTime : Option Time := none
  pacer : PacingController F

variable {F : Type} [Float64 F]

def newCongestionController : CongestionController F :=
  { k := Float64.ofRat 0, pacer := newPacingController }

namespace CongestionController

variable (cc : CongestionController F)

def pto : Int :=
  let v := 4 * cc.rttVar
  cc.smoothedRtt + (if v < lossTimerGranularity then lossTimerGranularity else v) + maxAckDelay

def nextPTO : Int := wrap64 (cc.pto * 2 ^ min cc.ptoCount 20)

def canSend (bytes : Int) : Bool := cc.inflight + bytes ≤ cc.cwnd

def available : Int := if cc.inflight ≥ cc.cwnd then 0 else cc.cwnd - cc.inflight

def hasRttSample : Bool := !cc.firstRttSample

def persistentCongestionDuration : Int := cc.pto * persistentCongestionThreshold

/-- Sets the timer one `nextPTO` after the last ack-eliciting send. -/
def armPtoTimer (now : Time) : CongestionController F :=
  let wait := cc.nextPTO
  let wait :=
    match cc.lastSendTime with
    | none => wait
    | some last => if last + wait - now < wait then last + wait - now else wait
  { cc with ptoTimer := some (now + max wait lossTimerGranularity) }

def onPacketSent (now : Time) (bytes : Nat) : CongestionController F :=
  { cc with inflight := cc.inflight + bytes, lastSendTime := some now }.armPtoTimer now

def updatePacingRate : CongestionController F :=
  if cc.firstRttSample then cc
  else { cc with pacer := cc.pacer.updateRate cc.cwnd cc.smoothedRtt (cc.cwnd < cc.ssthresh) }

def updateRtt (now sentTime : Time) (ackDelay : Int) : CongestionController F :=
  let latest := now - sentTime
  if latest < 0 then cc
  else if cc.firstRttSample then
    { cc with
      firstRttSample := false, latestRtt := latest, minRtt := latest, smoothedRtt := latest
      rttVar := latest.tdiv 2 }
  else
    let minRtt := if latest < cc.minRtt then latest else cc.minRtt
    let ackDelay := if ackDelay > maxAckDelay then maxAckDelay else ackDelay
    let latest := if latest ≥ minRtt + ackDelay then latest - ackDelay else latest
    let rttVarSample := cc.smoothedRtt - latest
    let rttVarSample := if rttVarSample < 0 then -rttVarSample else rttVarSample
    { cc with
      minRtt := minRtt, latestRtt := latest
      rttVar := (3 * cc.rttVar + rttVarSample).tdiv 4
      smoothedRtt := (7 * cc.smoothedRtt + latest).tdiv 8 }

/-- The window CUBIC aims for, from floating point. -/
def cubicTarget (now : Time) : Int :=
  let t := Float64.seconds (now - cc.epochStart.getD now)
  let wCubic := Float64.ofRat cubicC * Float64.pow (t - cc.k) 3 +
    Float64.ofRat cc.wMax / Float64.ofRat maxDatagramSize
  Float64.toInt (wCubic * Float64.ofRat maxDatagramSize)

def cubicUpdate (now : Time) (bytes : Int) : CongestionController F :=
  let cc := { cc with epochStart := cc.epochStart <|> some now }
  let targetCwndBytes := cc.cubicTarget now
  let wTcp := wrap64 (cc.cwnd + (wrap64 (maxDatagramSize * bytes)).tdiv cc.cwnd)
  if targetCwndBytes < wTcp then { cc with cwnd := wTcp }
  else if cc.cwnd < targetCwndBytes then
    let increase := (wrap64 (wrap64 (targetCwndBytes - cc.cwnd) * maxDatagramSize)).tdiv cc.cwnd
    { cc with cwnd := wrap64 (cc.cwnd + increase) }
  else
    { cc with cwnd := wrap64 (cc.cwnd + (wrap64 (maxDatagramSize * bytes)).tdiv cc.cwnd) }

/-- Takes bytes out of flight. -/
def land (bytes : Nat) : CongestionController F :=
  { cc with inflight := if cc.inflight - bytes < 0 then 0 else cc.inflight - bytes }

/-- Recovery ends when something sent after it began is acknowledged. -/
def leaveRecovery (largestAcked : Int) : CongestionController F :=
  if cc.inRecovery ∧ largestAcked > cc.recoveryEndSeq then { cc with inRecovery := false } else cc

/-- Slow start or CUBIC, outside recovery. -/
def grow (now : Time) (bytes : Nat) : CongestionController F :=
  if !cc.inRecovery then
    if cc.cwnd < cc.ssthresh then { cc with cwnd := wrap64 (cc.cwnd + bytes) }
    else cc.cubicUpdate now bytes
  else cc

/-- The acknowledgment clears the backoff; what is still in flight keeps a
timer. -/
def restartPtoTimer (now : Time) : CongestionController F :=
  let cc : CongestionController F := { cc with ptoTimer := none, ptoCount := 0 }
  if cc.inflight > 0 then cc.armPtoTimer now else cc

def onPacketAcked (now : Time) (bytes : Nat) (sentTime : Time) (ackDelay : Int)
    (isNewCumulativeAck : Bool) (largestAcked : Int) : CongestionController F :=
  let cc := cc.land bytes
  let cc :=
    if isNewCumulativeAck then
      ((cc.updateRtt now sentTime ackDelay).leaveRecovery largestAcked).grow now bytes
    else cc
  (cc.restartPtoTimer now).updatePacingRate

/-- Contracts the window, once per recovery epoch. `lastSentSeq` is what the
connection's callback answers. -/
def onCongestionEvent (now : Time) (lastSentSeq : Int) : CongestionController F :=
  if cc.inRecovery then cc
  else
    let wMax := cc.cwnd
    let ssthresh := Float64.toInt (Float64.ofRat (F := F) wMax * Float64.ofRat betaCubic)
    let ssthresh := if ssthresh < minCwnd then minCwnd else ssthresh
    let wMaxMSS := Float64.ofRat (F := F) wMax / Float64.ofRat maxDatagramSize
    let diff := wMaxMSS * Float64.ofRat (1 - betaCubic) / Float64.ofRat cubicC
    { cc with
      epochStart := some now, inRecovery := true, recoveryEndSeq := lastSentSeq
      wMax := wMax, ssthresh := ssthresh, k := Float64.cbrt diff
      cwnd := ssthresh }.updatePacingRate

def onPacketLost (now : Time) (bytes : Nat) (lastSentSeq : Int) : CongestionController F :=
  (cc.land bytes).onCongestionEvent now lastSentSeq

def onPersistentCongestion : CongestionController F :=
  { cc with
    cwnd := minCwnd, inRecovery := false, recoveryEndSeq := -1
    epochStart := none }.updatePacingRate

/-- The first half of `onPtoTimeout`, before the probe goes out. -/
def ptoFired : CongestionController F :=
  { cc with ptoCount := cc.ptoCount + 1, ptoTimer := none }

/-- The second half, after it. -/
def ptoRearm (now : Time) : CongestionController F :=
  if cc.inflight > 0 ∧ cc.ptoTimer = none then
    { cc with lastSendTime := some now, ptoTimer := some (now + cc.nextPTO) }
  else cc

def destroy : CongestionController F := { cc with ptoTimer := none }

@[simp] theorem inflight_updatePacingRate : cc.updatePacingRate.inflight = cc.inflight := by
  unfold updatePacingRate
  split <;> rfl

omit [Float64 F] in
@[simp] theorem inflight_updateRtt (now sentTime : Time) (ackDelay : Int) :
    (cc.updateRtt now sentTime ackDelay).inflight = cc.inflight := by
  unfold updateRtt
  dsimp only
  split
  · rfl
  · split <;> rfl

omit [Float64 F] in
@[simp] theorem inflight_leaveRecovery (largestAcked : Int) :
    (cc.leaveRecovery largestAcked).inflight = cc.inflight := by
  unfold leaveRecovery
  split <;> rfl

@[simp] theorem inflight_grow (now : Time) (bytes : Nat) :
    (cc.grow now bytes).inflight = cc.inflight := by
  unfold grow cubicUpdate
  dsimp only
  repeat' split
  all_goals rfl

omit [Float64 F] in
@[simp] theorem inflight_restartPtoTimer (now : Time) :
    (cc.restartPtoTimer now).inflight = cc.inflight := by
  unfold restartPtoTimer
  dsimp only
  split <;> rfl

theorem inflight_onPacketAcked (now : Time) (bytes : Nat) (sentTime : Time) (ackDelay : Int)
    (isNewCumulativeAck : Bool) (largestAcked : Int) :
    (cc.onPacketAcked now bytes sentTime ackDelay isNewCumulativeAck largestAcked).inflight =
      (cc.land bytes).inflight := by
  unfold onPacketAcked
  dsimp only
  rw [inflight_updatePacingRate, inflight_restartPtoTimer]
  split
  · rw [inflight_grow, inflight_leaveRecovery, inflight_updateRtt]
  · rfl

theorem inflight_onPacketLost (now : Time) (bytes : Nat) (lastSentSeq : Int) :
    (cc.onPacketLost now bytes lastSentSeq).inflight = (cc.land bytes).inflight := by
  unfold onPacketLost onCongestionEvent
  split
  · rfl
  · exact inflight_updatePacingRate _

theorem inflight_onPersistentCongestion : cc.onPersistentCongestion.inflight = cc.inflight :=
  inflight_updatePacingRate _

omit [Float64 F] in
theorem inflight_ptoRearm (now : Time) : (cc.ptoRearm now).inflight = cc.inflight := by
  unfold ptoRearm
  split <;> rfl

omit [Float64 F] in
theorem inRecovery_ptoRearm (now : Time) : (cc.ptoRearm now).inRecovery = cc.inRecovery := by
  unfold ptoRearm
  split <;> rfl

omit [Float64 F] in
theorem recoveryEndSeq_ptoRearm (now : Time) :
    (cc.ptoRearm now).recoveryEndSeq = cc.recoveryEndSeq := by
  unfold ptoRearm
  split <;> rfl

theorem inRecovery_updatePacingRate : cc.updatePacingRate.inRecovery = cc.inRecovery := by
  unfold updatePacingRate
  split <;> rfl

theorem recoveryEndSeq_updatePacingRate :
    cc.updatePacingRate.recoveryEndSeq = cc.recoveryEndSeq := by
  unfold updatePacingRate
  split <;> rfl

omit [Float64 F] in
theorem recoveryEndSeq_updateRtt (now sentTime : Time) (ackDelay : Int) :
    (cc.updateRtt now sentTime ackDelay).recoveryEndSeq = cc.recoveryEndSeq := by
  unfold updateRtt
  dsimp only
  split
  · rfl
  · split <;> rfl

omit [Float64 F] in
theorem recoveryEndSeq_leaveRecovery (largestAcked : Int) :
    (cc.leaveRecovery largestAcked).recoveryEndSeq = cc.recoveryEndSeq := by
  unfold leaveRecovery
  split <;> rfl

theorem recoveryEndSeq_grow (now : Time) (bytes : Nat) :
    (cc.grow now bytes).recoveryEndSeq = cc.recoveryEndSeq := by
  unfold grow cubicUpdate
  dsimp only
  repeat' split
  all_goals rfl

omit [Float64 F] in
theorem recoveryEndSeq_restartPtoTimer (now : Time) :
    (cc.restartPtoTimer now).recoveryEndSeq = cc.recoveryEndSeq := by
  unfold restartPtoTimer
  dsimp only
  split <;> rfl

omit [Float64 F] in
theorem inRecovery_updateRtt (now sentTime : Time) (ackDelay : Int) :
    (cc.updateRtt now sentTime ackDelay).inRecovery = cc.inRecovery := by
  unfold updateRtt
  dsimp only
  split
  · rfl
  · split <;> rfl

omit [Float64 F] in
theorem inRecovery_leaveRecovery_updateRtt (bytes : Nat) (now sentTime : Time)
    (ackDelay largestAcked : Int) :
    (((cc.land bytes).updateRtt now sentTime ackDelay).leaveRecovery largestAcked).inRecovery =
      (cc.leaveRecovery largestAcked).inRecovery := by
  have end' : ((cc.land bytes).updateRtt now sentTime ackDelay).recoveryEndSeq =
      cc.recoveryEndSeq := by
    rw [recoveryEndSeq_updateRtt]
    rfl
  have inside : ((cc.land bytes).updateRtt now sentTime ackDelay).inRecovery =
      cc.inRecovery := by
    rw [inRecovery_updateRtt]
    rfl
  unfold leaveRecovery
  rw [end', inside]
  split
  · rfl
  · exact inside

theorem inRecovery_grow (now : Time) (bytes : Nat) :
    (cc.grow now bytes).inRecovery = cc.inRecovery := by
  unfold grow cubicUpdate
  dsimp only
  repeat' split
  all_goals rfl

omit [Float64 F] in
theorem inRecovery_restartPtoTimer (now : Time) :
    (cc.restartPtoTimer now).inRecovery = cc.inRecovery := by
  unfold restartPtoTimer
  dsimp only
  split <;> rfl

/-- A recovery ends with the acknowledgment of a packet sent after it began. -/
theorem recovery_ends_of_onPacketAcked {now : Time} {bytes : Nat} {sentTime : Time}
    {ackDelay : Int} {isNewCumulativeAck : Bool} {largestAcked : Int}
    (inside : cc.inRecovery = true)
    (left : (cc.onPacketAcked now bytes sentTime ackDelay isNewCumulativeAck
      largestAcked).inRecovery = false) :
    isNewCumulativeAck = true ∧ cc.recoveryEndSeq < largestAcked := by
  unfold onPacketAcked at left
  dsimp only at left
  rw [inRecovery_updatePacingRate, inRecovery_restartPtoTimer] at left
  split at left
  · rename_i new
    refine ⟨new, ?_⟩
    rw [inRecovery_grow, inRecovery_leaveRecovery_updateRtt] at left
    unfold leaveRecovery at left
    split at left
    · rename_i past
      exact past.2
    · rw [inside] at left
      cases left
  · rw [show (cc.land bytes).inRecovery = cc.inRecovery from rfl, inside] at left
    cases left

/-- An acknowledgment may end a recovery, but does not move its end. -/
theorem recoveryEndSeq_onPacketAcked (now : Time) (bytes : Nat) (sentTime : Time) (ackDelay : Int)
    (isNewCumulativeAck : Bool) (largestAcked : Int) :
    (cc.onPacketAcked now bytes sentTime ackDelay isNewCumulativeAck largestAcked).recoveryEndSeq =
      cc.recoveryEndSeq := by
  unfold onPacketAcked
  dsimp only
  rw [recoveryEndSeq_updatePacingRate, recoveryEndSeq_restartPtoTimer]
  split
  · rw [recoveryEndSeq_grow, recoveryEndSeq_leaveRecovery, recoveryEndSeq_updateRtt]
    rfl
  · rfl

/-- A loss begins a recovery, which ends with the last packet sent so far. -/
theorem onPacketLost_of_not_inRecovery (outside : cc.inRecovery = false) (now : Time) (bytes : Nat)
    (lastSentSeq : Int) :
    (cc.onPacketLost now bytes lastSentSeq).inRecovery = true ∧
      (cc.onPacketLost now bytes lastSentSeq).recoveryEndSeq = lastSentSeq := by
  unfold onPacketLost onCongestionEvent
  rw [if_neg (by rw [land, outside]; exact Bool.false_ne_true)]
  exact ⟨inRecovery_updatePacingRate _, recoveryEndSeq_updatePacingRate _⟩

/-- Within a recovery a loss leaves the window alone. -/
theorem onPacketLost_of_inRecovery (inside : cc.inRecovery = true) (now : Time) (bytes : Nat)
    (lastSentSeq : Int) : cc.onPacketLost now bytes lastSentSeq = cc.land bytes := by
  unfold onPacketLost onCongestionEvent
  rw [if_pos (by rw [land, inside])]

/-- Bytes in flight have a probe timer behind them, and the window holds two
full datagrams. -/
structure Ready (cc : CongestionController F) : Prop where
  armed : 0 < cc.inflight → cc.ptoTimer.isSome = true
  window : minCwnd ≤ cc.cwnd

/-- CUBIC's integer arithmetic stays within 64 bits. -/
def WindowFits (now : Time) : Prop :=
  cc.cubicTarget now ≤ maxInt / maxDatagramSize ∧ cc.inflight ≤ maxInt / maxDatagramSize ∧
    cc.cwnd + cc.inflight ≤ maxInt

instance (now : Time) : Decidable (cc.WindowFits now) := by
  unfold WindowFits
  infer_instance

theorem wrap64_of_le {x : Int} (nonneg : 0 ≤ x) (small : x ≤ maxInt) : wrap64 x = x := by
  rw [maxInt] at small
  rw [wrap64]
  exact Int.bmod_eq_of_le (by omega) (by omega)

theorem share_le {cwnd x : Int} (window : minCwnd ≤ cwnd) (nonneg : 0 ≤ x)
    (small : x ≤ maxInt / maxDatagramSize) :
    0 ≤ (wrap64 (maxDatagramSize * x)).tdiv cwnd ∧
      (wrap64 (maxDatagramSize * x)).tdiv cwnd ≤ x := by
  have size : (maxDatagramSize : Int) = 1472 := rfl
  have floor : minCwnd = 2944 := rfl
  have product : maxDatagramSize * x ≤ maxInt := by
    have : maxDatagramSize * (maxInt / maxDatagramSize) ≤ maxInt := Int.mul_ediv_self_le (by decide)
    nlinarith
  have nonneg' : 0 ≤ maxDatagramSize * x := Int.mul_nonneg (by omega) nonneg
  rw [wrap64_of_le nonneg' product, Int.tdiv_eq_ediv_of_nonneg nonneg']
  refine ⟨Int.ediv_nonneg nonneg' (by omega), Int.ediv_le_of_le_mul (by omega) ?_⟩
  nlinarith

theorem le_wrap64_share {cwnd x : Int} (window : minCwnd ≤ cwnd) (nonneg : 0 ≤ x)
    (small : x ≤ maxInt / maxDatagramSize) (fits : cwnd + x ≤ maxInt) :
    cwnd ≤ wrap64 (cwnd + (wrap64 (maxDatagramSize * x)).tdiv cwnd) := by
  obtain ⟨low, high⟩ := share_le window nonneg small
  have floor : minCwnd = 2944 := rfl
  rw [wrap64_of_le (by omega) (by omega)]
  omega

/-- `cubicUpdate` with what floating point makes of the target given. -/
def cubicUpdateTo (now : Time) (bytes target : Int) : CongestionController F :=
  let cc := { cc with epochStart := cc.epochStart <|> some now }
  let wTcp := wrap64 (cc.cwnd + (wrap64 (maxDatagramSize * bytes)).tdiv cc.cwnd)
  if target < wTcp then { cc with cwnd := wTcp }
  else if cc.cwnd < target then
    let increase := (wrap64 (wrap64 (target - cc.cwnd) * maxDatagramSize)).tdiv cc.cwnd
    { cc with cwnd := wrap64 (cc.cwnd + increase) }
  else
    { cc with cwnd := wrap64 (cc.cwnd + (wrap64 (maxDatagramSize * bytes)).tdiv cc.cwnd) }

theorem cubicUpdate_eq (now : Time) (bytes : Int) :
    cc.cubicUpdate now bytes = cc.cubicUpdateTo now bytes (cc.cubicTarget now) := by
  have same : ({ cc with epochStart := cc.epochStart <|> some now } :
      CongestionController F).cubicTarget now = cc.cubicTarget now := by
    unfold cubicTarget
    cases cc.epochStart <;> rfl
  rw [← same]
  rfl

/-- `grow` with the CUBIC target given. -/
def growTo (now : Time) (bytes : Nat) (target : Int) : CongestionController F :=
  if !cc.inRecovery then
    if cc.cwnd < cc.ssthresh then { cc with cwnd := wrap64 (cc.cwnd + bytes) }
    else cc.cubicUpdateTo now bytes target
  else cc

theorem grow_eq (now : Time) (bytes : Nat) :
    cc.grow now bytes = cc.growTo now bytes (cc.cubicTarget now) := by
  rw [grow, growTo, cubicUpdate_eq]

/-- `onPacketAcked` with the CUBIC target given. -/
def onPacketAckedTo (now : Time) (bytes : Nat) (sentTime : Time) (ackDelay : Int)
    (isNewCumulativeAck : Bool) (largestAcked target : Int) : CongestionController F :=
  let cc := cc.land bytes
  let cc :=
    if isNewCumulativeAck then
      ((cc.updateRtt now sentTime ackDelay).leaveRecovery largestAcked).growTo now bytes target
    else cc
  (cc.restartPtoTimer now).updatePacingRate

omit [Float64 F] in
/-- A window that is not close to overflow, and a target not too far above it,
leave the window no smaller. -/
theorem le_cwnd_cubicUpdateTo {now : Time} {bytes : Nat} {target : Int}
    (window : minCwnd ≤ cc.cwnd) (small : (bytes : Int) ≤ maxInt / maxDatagramSize)
    (fits : cc.cwnd + bytes ≤ maxInt) (most : target ≤ maxInt)
    (near : target - cc.cwnd ≤ maxInt / maxDatagramSize) :
    cc.cwnd ≤ (cc.cubicUpdateTo now bytes target).cwnd := by
  have reno := le_wrap64_share window (Int.natCast_nonneg bytes) small fits
  have floor : minCwnd = 2944 := rfl
  unfold cubicUpdateTo
  dsimp only
  split
  · exact reno
  · split
    · rename_i below
      rw [wrap64_of_le (x := target - cc.cwnd) (by omega) (by omega), mul_comm]
      exact le_wrap64_share window (by omega) near (by omega)
    · exact reno

omit [Float64 F] in
theorem cwnd_updateRtt (now sentTime : Time) (ackDelay : Int) :
    (cc.updateRtt now sentTime ackDelay).cwnd = cc.cwnd := by
  unfold updateRtt
  dsimp only
  split
  · rfl
  · split <;> rfl

omit [Float64 F] in
theorem cwnd_leaveRecovery (largestAcked : Int) :
    (cc.leaveRecovery largestAcked).cwnd = cc.cwnd := by
  unfold leaveRecovery
  split <;> rfl

theorem cubicTarget_updateRtt (now sentTime : Time) (ackDelay : Int) (later : Time) :
    (cc.updateRtt now sentTime ackDelay).cubicTarget later = cc.cubicTarget later := by
  unfold updateRtt
  dsimp only
  split
  · rfl
  · split <;> rfl

theorem cubicTarget_leaveRecovery (largestAcked : Int) (now : Time) :
    (cc.leaveRecovery largestAcked).cubicTarget now = cc.cubicTarget now := by
  unfold leaveRecovery
  split <;> rfl

theorem onPacketAcked_eq (now : Time) (bytes : Nat) (sentTime : Time) (ackDelay : Int)
    (isNewCumulativeAck : Bool) (largestAcked : Int) :
    cc.onPacketAcked now bytes sentTime ackDelay isNewCumulativeAck largestAcked =
      cc.onPacketAckedTo now bytes sentTime ackDelay isNewCumulativeAck largestAcked
        (cc.cubicTarget now) := by
  have same : (((cc.land bytes).updateRtt now sentTime ackDelay).leaveRecovery
      largestAcked).cubicTarget now = cc.cubicTarget now := by
    rw [cubicTarget_leaveRecovery, cubicTarget_updateRtt]
    rfl
  unfold onPacketAcked onPacketAckedTo
  dsimp only
  rw [grow_eq, same]

omit [Float64 F] in
theorem le_cwnd_growTo {now : Time} {bytes : Nat} {target : Int} (window : minCwnd ≤ cc.cwnd)
    (small : (bytes : Int) ≤ maxInt / maxDatagramSize) (fits : cc.cwnd + bytes ≤ maxInt)
    (most : target ≤ maxInt)
    (near : cc.ssthresh ≤ cc.cwnd → target - cc.cwnd ≤ maxInt / maxDatagramSize) :
    cc.cwnd ≤ (cc.growTo now bytes target).cwnd := by
  have floor : minCwnd = 2944 := rfl
  unfold growTo
  split
  · split
    · show cc.cwnd ≤ wrap64 (cc.cwnd + bytes)
      rw [wrap64_of_le (by omega) fits]
      omega
    · rename_i slow
      exact cc.le_cwnd_cubicUpdateTo window small fits most (near (Int.not_lt.mp slow))
  · exact Int.le_refl _

namespace Ready

variable {cc}

theorem new : (newCongestionController : CongestionController F).Ready :=
  ⟨fun positive => absurd positive (Int.lt_irrefl 0), show minCwnd ≤ initialCwnd by decide⟩

omit [Float64 F] in
theorem congr {cc' : CongestionController F} (ready : cc.Ready)
    (inflight : cc'.inflight = cc.inflight) (timer : cc'.ptoTimer = cc.ptoTimer)
    (window : cc'.cwnd = cc.cwnd) : cc'.Ready := by
  refine ⟨?_, by rw [window]; exact ready.window⟩
  rw [inflight, timer]
  exact ready.armed

omit [Float64 F] in
theorem onPacketSent (ready : cc.Ready) (now : Time) (bytes : Nat) :
    (cc.onPacketSent now bytes).Ready :=
  ⟨fun _ => rfl, ready.window⟩

theorem updatePacingRate (ready : cc.Ready) : cc.updatePacingRate.Ready := by
  unfold CongestionController.updatePacingRate
  split
  · exact ready
  · exact ready.congr rfl rfl rfl

omit [Float64 F] in
theorem land (ready : cc.Ready) (bytes : Nat) : (cc.land bytes).Ready := by
  refine ⟨fun positive => ready.armed ?_, ready.window⟩
  unfold CongestionController.land at positive
  dsimp only at positive
  split at positive <;> omega

theorem onPacketLost (ready : cc.Ready) (now : Time) (bytes : Nat) (lastSentSeq : Int) :
    (cc.onPacketLost now bytes lastSentSeq).Ready := by
  have landed := ready.land bytes
  unfold CongestionController.onPacketLost onCongestionEvent
  split
  · exact landed
  · refine updatePacingRate ⟨landed.armed, ?_⟩
    dsimp only
    split <;> omega

theorem onPersistentCongestion (ready : cc.Ready) : cc.onPersistentCongestion.Ready :=
  updatePacingRate ⟨ready.armed, Int.le_refl _⟩

/-- An acknowledgment of bytes in flight leaves a timer behind the rest, and a
window that does not shrink unless its arithmetic overflows. -/
theorem onPacketAcked (ready : cc.Ready) {now : Time} {bytes : Nat} (fits : cc.WindowFits now)
    (booked : (bytes : Int) ≤ cc.inflight) (sentTime : Time) (ackDelay : Int)
    (isNewCumulativeAck : Bool) (largestAcked : Int) :
    (cc.onPacketAcked now bytes sentTime ackDelay isNewCumulativeAck largestAcked).Ready := by
  obtain ⟨target, small, sum⟩ := fits
  have floor : minCwnd = 2944 := rfl
  have base := ready.window
  have quota : maxInt / maxDatagramSize ≤ maxInt := by decide
  rw [onPacketAcked_eq]
  refine updatePacingRate ?_
  have armed : ∀ cc : CongestionController F, minCwnd ≤ cc.cwnd →
      (cc.restartPtoTimer now).Ready := by
    intro cc window
    unfold restartPtoTimer
    dsimp only
    split
    · exact ⟨fun _ => rfl, window⟩
    · rename_i idle
      exact ⟨fun positive => absurd positive idle, window⟩
  refine armed _ ?_
  split
  · have window : ((cc.land bytes).updateRtt now sentTime ackDelay |>.leaveRecovery
        largestAcked).cwnd = cc.cwnd := by
      rw [cwnd_leaveRecovery, cwnd_updateRtt]
      rfl
    refine Int.le_trans ready.window (window ▸ le_cwnd_growTo _ ?_ (by omega) ?_ (by omega) ?_)
    · rw [window]
      exact ready.window
    · rw [window]
      omega
    · rw [window]
      omega
  · exact ready.window

omit [Float64 F] in
theorem ptoRearm (window : minCwnd ≤ cc.cwnd) (now : Time) : (cc.ptoRearm now).Ready := by
  unfold CongestionController.ptoRearm
  split
  · exact ⟨fun _ => rfl, window⟩
  · rename_i kept
    refine ⟨fun positive => ?_, window⟩
    exact Option.isSome_iff_ne_none.mpr fun unarmed => kept ⟨positive, unarmed⟩

end Ready

end CongestionController

end Udx
