import Udx.Congestion
import Udx.Lib.Runs

set_option autoImplicit false

namespace Udx

/- The congestion window under any sequence of calls, whatever floating point
makes of the CUBIC target and of the reduced window. -/

namespace CongestionController

variable {F : Type} [Float64 F] (cc : CongestionController F)

/-- `onCongestionEvent` with the reduced window given, before its floor. -/
def onCongestionEventTo (now : Time) (lastSentSeq reduced : Int) : CongestionController F :=
  if cc.inRecovery then cc
  else
    let wMax := cc.cwnd
    let ssthresh := if reduced < minCwnd then minCwnd else reduced
    let wMaxMSS := Float64.ofRat (F := F) wMax / Float64.ofRat maxDatagramSize
    let diff := wMaxMSS * Float64.ofRat (1 - betaCubic) / Float64.ofRat cubicC
    { cc with
      epochStart := some now, inRecovery := true, recoveryEndSeq := lastSentSeq
      wMax := wMax, ssthresh := ssthresh, k := Float64.cbrt diff
      cwnd := ssthresh }.updatePacingRate

theorem onCongestionEvent_eq (now : Time) (lastSentSeq : Int) :
    cc.onCongestionEvent now lastSentSeq =
      cc.onCongestionEventTo now lastSentSeq
        (Float64.toInt (Float64.ofRat (F := F) cc.cwnd * Float64.ofRat betaCubic)) := rfl

inductive Call where
  | sent (now : Time) (bytes : Nat)
  | acked (now : Time) (bytes : Nat) (sentTime : Time) (ackDelay : Int)
      (isNewCumulativeAck : Bool) (largestAcked target : Int)
  | lost (now : Time) (bytes : Nat) (lastSentSeq reduced : Int)
  | congestionEvent (now : Time) (lastSentSeq reduced : Int)
  | persistentCongestion

/-- Byte counts are below `2 ^ 31`, the target is a 64-bit integer, and the
reduced window is not above the window. -/
def Valid : Call → Prop
  | .sent _ bytes => bytes < 2 ^ 31
  | .acked _ bytes _ _ _ _ target => bytes < 2 ^ 31 ∧ -2 ^ 63 ≤ target ∧ target ≤ maxInt
  | .lost _ bytes _ reduced => bytes < 2 ^ 31 ∧ 0 ≤ reduced ∧ reduced ≤ cc.cwnd
  | .congestionEvent _ _ reduced => 0 ≤ reduced ∧ reduced ≤ cc.cwnd
  | .persistentCongestion => True

instance : (call : Call) → Decidable (cc.Valid call)
  | .sent _ bytes => inferInstanceAs (Decidable (bytes < 2 ^ 31))
  | .acked _ bytes _ _ _ _ target =>
    inferInstanceAs (Decidable (bytes < 2 ^ 31 ∧ -2 ^ 63 ≤ target ∧ target ≤ maxInt))
  | .lost _ bytes _ reduced =>
    inferInstanceAs (Decidable (bytes < 2 ^ 31 ∧ 0 ≤ reduced ∧ reduced ≤ cc.cwnd))
  | .congestionEvent _ _ reduced => inferInstanceAs (Decidable (0 ≤ reduced ∧ reduced ≤ cc.cwnd))
  | .persistentCongestion => inferInstanceAs (Decidable True)

def apply : Call → CongestionController F
  | .sent now bytes => cc.onPacketSent now bytes
  | .acked now bytes sentTime ackDelay isNewCumulativeAck largestAcked target =>
    cc.onPacketAckedTo now bytes sentTime ackDelay isNewCumulativeAck largestAcked target
  | .lost now bytes lastSentSeq reduced =>
    (cc.land bytes).onCongestionEventTo now lastSentSeq reduced
  | .congestionEvent now lastSentSeq reduced => cc.onCongestionEventTo now lastSentSeq reduced
  | .persistentCongestion => cc.onPersistentCongestion

def step (call : Call) : Option (CongestionController F) :=
  if cc.Valid call then some (cc.apply call) else none

/-- An acknowledgment that grows the window does not overflow: the window and the
bytes stay within 63 bits, and past slow start the target is at most
`maxInt / maxDatagramSize` above the window. -/
def NoOverflow : Call → Prop
  | .acked _ bytes _ _ isNewCumulativeAck largestAcked target =>
    isNewCumulativeAck = true → (cc.leaveRecovery largestAcked).inRecovery = false →
      cc.cwnd + bytes ≤ maxInt ∧
        (cc.ssthresh ≤ cc.cwnd → target - cc.cwnd ≤ maxInt / maxDatagramSize)
  | _ => True

instance : (call : Call) → Decidable (cc.NoOverflow call)
  | .acked _ bytes _ _ isNewCumulativeAck largestAcked target => inferInstanceAs (Decidable
    (isNewCumulativeAck = true → (cc.leaveRecovery largestAcked).inRecovery = false →
      cc.cwnd + bytes ≤ maxInt ∧
        (cc.ssthresh ≤ cc.cwnd → target - cc.cwnd ≤ maxInt / maxDatagramSize)))
  | .sent .. | .lost .. | .congestionEvent .. | .persistentCongestion =>
    inferInstanceAs (Decidable True)

variable {cc}

theorem cwnd_updatePacingRate : cc.updatePacingRate.cwnd = cc.cwnd := by
  unfold updatePacingRate
  split <;> rfl

omit [Float64 F] in
theorem cwnd_restartPtoTimer (now : Time) : (cc.restartPtoTimer now).cwnd = cc.cwnd := by
  unfold restartPtoTimer
  dsimp only
  split <;> rfl

omit [Float64 F] in
theorem ssthresh_updateRtt (now sentTime : Time) (ackDelay : Int) :
    (cc.updateRtt now sentTime ackDelay).ssthresh = cc.ssthresh := by
  unfold updateRtt
  dsimp only
  split
  · rfl
  · split <;> rfl

omit [Float64 F] in
theorem ssthresh_leaveRecovery (largestAcked : Int) :
    (cc.leaveRecovery largestAcked).ssthresh = cc.ssthresh := by
  unfold leaveRecovery
  split <;> rfl

theorem minCwnd_le_onCongestionEventTo (window : minCwnd ≤ cc.cwnd) (now : Time)
    (lastSentSeq reduced : Int) :
    minCwnd ≤ (cc.onCongestionEventTo now lastSentSeq reduced).cwnd := by
  unfold onCongestionEventTo
  split
  · exact window
  · dsimp only
    rw [cwnd_updatePacingRate]
    split
    · exact Int.le_refl _
    · rename_i above
      exact Int.not_lt.mp above

omit [Float64 F] in
theorem growTo_of_inRecovery (inside : cc.inRecovery = true) (now : Time) (bytes : Nat)
    (target : Int) : cc.growTo now bytes target = cc := by
  unfold growTo
  rw [inside]
  rfl

theorem le_cwnd_onPacketAckedTo (window : minCwnd ≤ cc.cwnd) {now : Time} {bytes : Nat}
    {sentTime : Time} {ackDelay : Int} {isNewCumulativeAck : Bool} {largestAcked target : Int}
    (small : bytes < 2 ^ 31) (most : target ≤ maxInt)
    (fits : cc.NoOverflow (.acked now bytes sentTime ackDelay isNewCumulativeAck largestAcked target)) :
    cc.cwnd ≤ (cc.onPacketAckedTo now bytes sentTime ackDelay isNewCumulativeAck largestAcked
      target).cwnd := by
  unfold onPacketAckedTo
  dsimp only
  rw [cwnd_updatePacingRate, cwnd_restartPtoTimer]
  split
  · rename_i cumulative
    have outset : (((cc.land bytes).updateRtt now sentTime ackDelay).leaveRecovery
        largestAcked).cwnd = cc.cwnd := by
      rw [cwnd_leaveRecovery, cwnd_updateRtt]
      rfl
    have threshold : (((cc.land bytes).updateRtt now sentTime ackDelay).leaveRecovery
        largestAcked).ssthresh = cc.ssthresh := by
      rw [ssthresh_leaveRecovery, ssthresh_updateRtt]
      rfl
    cases inside : (cc.leaveRecovery largestAcked).inRecovery with
    | true =>
      rw [growTo_of_inRecovery (by rw [inRecovery_leaveRecovery_updateRtt]; exact inside), outset]
    | false =>
      obtain ⟨room, near⟩ := fits cumulative inside
      have least : (2 ^ 31 : Int) ≤ maxInt / maxDatagramSize := by decide
      rw [← outset] at window room near ⊢
      rw [← threshold] at near
      exact le_cwnd_growTo _ window (by omega) room most near
  · exact Int.le_refl _

/-- Every call that is not an acknowledgment, and every acknowledgment that fits,
leaves the window at least at its minimum. -/
theorem minCwnd_le_apply (window : minCwnd ≤ cc.cwnd) {call : Call} (valid : cc.Valid call)
    (fits : cc.NoOverflow call) : minCwnd ≤ (cc.apply call).cwnd := by
  cases call with
  | sent now bytes => exact window
  | acked now bytes sentTime ackDelay isNewCumulativeAck largestAcked target =>
    exact window.trans (le_cwnd_onPacketAckedTo window valid.1 valid.2.2 fits)
  | lost now bytes lastSentSeq reduced =>
    have landed : minCwnd ≤ (cc.land bytes).cwnd := window
    exact minCwnd_le_onCongestionEventTo landed now lastSentSeq reduced
  | congestionEvent now lastSentSeq reduced =>
    exact minCwnd_le_onCongestionEventTo window now lastSentSeq reduced
  | persistentCongestion =>
    show minCwnd ≤ (cc.onPersistentCongestion).cwnd
    unfold onPersistentCongestion
    rw [cwnd_updatePacingRate]

theorem step_eq_some_iff {call : Call} {cc' : CongestionController F} :
    cc.step call = some cc' ↔ cc.Valid call ∧ cc' = cc.apply call := by
  unfold step
  split
  · rename_i valid
    rw [Option.some.injEq, eq_comm, and_iff_right valid]
  · rename_i invalid
    exact ⟨nofun, fun taken => absurd taken.1 invalid⟩

/-- In every run whose acknowledgments fit, the window is never below its minimum
and no acknowledgment that fits shrinks it. -/
theorem minCwnd_le_of_noOverflow {calls : List Call} {cc : CongestionController F}
    (along : Runs.Along step NoOverflow (newCongestionController : CongestionController F) calls)
    (reached : Runs.run step newCongestionController calls = some cc) :
    minCwnd ≤ cc.cwnd ∧
      ∀ now bytes sentTime ackDelay isNewCumulativeAck largestAcked target cc',
        cc.NoOverflow (.acked now bytes sentTime ackDelay isNewCumulativeAck largestAcked target) →
        cc.step (.acked now bytes sentTime ackDelay isNewCumulativeAck largestAcked target) =
          some cc' →
        cc.cwnd ≤ cc'.cwnd := by
  have window : minCwnd ≤ cc.cwnd := by
    refine Runs.invariant (fun cc => minCwnd ≤ cc.cwnd) ?_ ?_ along reached
    · intro cc call cc' window fits taken
      obtain ⟨valid, rfl⟩ := step_eq_some_iff.mp taken
      exact minCwnd_le_apply window valid fits
    · exact Ready.new.window
  refine ⟨window, ?_⟩
  intro now bytes sentTime ackDelay isNewCumulativeAck largestAcked target cc' fits taken
  obtain ⟨valid, rfl⟩ := step_eq_some_iff.mp taken
  exact le_cwnd_onPacketAckedTo window valid.1 valid.2.2 fits

/-- A loss, and acknowledgments that take the controller out of recovery and on
towards a target. -/
def nearTarget : List Call :=
  [.sent 0 1472, .lost 0 1472 7 10000, .acked 0 1472 0 0 true 9 20000]

theorem nearTarget_noOverflow :
    ∃ cc : CongestionController ℚ, Runs.run step newCongestionController nearTarget = some cc ∧
      10000 < cc.cwnd ∧ minCwnd ≤ cc.cwnd := by
  have along : Runs.Along step NoOverflow (newCongestionController : CongestionController ℚ)
      nearTarget := by decide +kernel
  have passes : (Runs.run step (newCongestionController : CongestionController ℚ) nearTarget).any
      (fun cc => decide (10000 < cc.cwnd)) = true := by decide +kernel
  obtain ⟨cc, reached, grown⟩ := Runs.reaches_of_any passes
  exact ⟨cc, reached, of_decide_eq_true grown, (minCwnd_le_of_noOverflow along reached).1⟩

/-- After a loss has taken the window to its minimum, a target of `2 ^ 62`. -/
def farTarget : List Call :=
  [.congestionEvent 0 0 0, .acked 0 0 0 0 true 1 (2 ^ 62)]

/-- The distance to the target times the datagram size wraps to the negative of
the window times the datagram size, and the window shrinks by one datagram. -/
theorem farTarget_shrinks :
    ∃ cc : CongestionController ℚ, Runs.run step newCongestionController farTarget = some cc ∧
      cc.cwnd = 1472 ∧ cc.cwnd < minCwnd := by
  have passes : (Runs.run step (newCongestionController : CongestionController ℚ) farTarget).any
      (fun cc => decide (cc.cwnd = 1472 ∧ cc.cwnd < minCwnd)) = true := by decide +kernel
  obtain ⟨cc, reached, below⟩ := Runs.reaches_of_any passes
  exact ⟨cc, reached, of_decide_eq_true below⟩

end CongestionController

end Udx
