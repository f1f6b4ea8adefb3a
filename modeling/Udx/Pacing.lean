import Mathlib.Data.Rat.Defs
import Udx.PacketManager

set_option autoImplicit false

namespace Udx

/-- The `float64` operations the source uses. Nothing is assumed about their
rounding; `toInt` is the conversion to `int`. -/
class Float64 (F : Type) extends Add F, Sub F, Mul F, Div F where
  ofRat : ℚ → F
  pow : F → Nat → F
  cbrt : F → F
  ceil : F → F
  lt : F → F → Bool
  le : F → F → Bool
  toInt : F → Int

/-- Exact arithmetic, with a few steps of Newton's method for the cube root:
one reading of the operations. -/
instance : Float64 ℚ where
  ofRat x := x
  pow x n := x ^ n
  cbrt x := (fun y => (2 * y + x / (y * y)) / 3)^[8] 1
  ceil x := x.ceil
  lt x y := x < y
  le x y := x ≤ y
  toInt x := x.num.tdiv x.den

variable {F : Type} [Float64 F]

namespace Float64

/-- `time.Duration.Seconds`. -/
def seconds (d : Int) : F :=
  ofRat (d.tdiv second) + ofRat (d.tmod second) / ofRat 1000000000

end Float64

/-- `PacingGain` and `PacingGainSlowStart`. -/
def pacingGain (slowStart : Bool) : ℚ := if slowStart then 2 else 5 / 4

/-- The token bucket that spreads sends over the round trip. A rate of `none`
is unpaced, the source's `+Inf`. -/
structure PacingController (F : Type) where
  rate : Option F := none
  budgetAtLastSend : F
  lastSendTime : Option Time := none

def newPacingController : PacingController F := { budgetAtLastSend := Float64.ofRat 0 }

namespace PacingController

variable (p : PacingController F)

def updateRate (cwnd srtt : Int) (slowStart : Bool) : PacingController F :=
  if srtt ≤ 0 then { p with rate := none }
  else
    { p with
      rate := some (Float64.ofRat (pacingGain slowStart) * Float64.ofRat cwnd /
        Float64.seconds srtt) }

/-- The most the budget holds at a finite rate. -/
def maxBurst (rate : F) : F :=
  let burst : F := Float64.ofRat (pacingBurstPackets * maxDatagramSize : Nat)
  let byDelay := rate * Float64.seconds minPacingDelay
  if Float64.lt burst byDelay then byDelay else burst

def budget (rate : F) (now : Time) : F :=
  match p.lastSendTime with
  | none => maxBurst rate
  | some last =>
    let b := p.budgetAtLastSend + rate * Float64.seconds (now - last)
    if Float64.lt (maxBurst rate) b then maxBurst rate else b

def timeUntilSend (now : Time) : Int :=
  match p.rate with
  | none => 0
  | some rate =>
    let short := Float64.ofRat maxDatagramSize - p.budget rate now
    if Float64.le short (Float64.ofRat 0) then 0
    else
      let wait := Float64.toInt
        (Float64.ceil (short / rate * Float64.ofRat (second : ℚ)))
      if wait < minPacingDelay then minPacingDelay else wait

def onPacketSent (now : Time) (packetSize : Nat) : PacingController F :=
  match p.rate with
  | none => p
  | some rate =>
    { p with
      budgetAtLastSend := p.budget rate now - Float64.ofRat packetSize
      lastSendTime := some now }

end PacingController

end Udx
