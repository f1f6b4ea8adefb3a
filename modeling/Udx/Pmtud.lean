import Udx.PacketManager

set_option autoImplicit false

namespace Udx

/-- The search for the datagram size the path carries, and the watch for the
path shrinking. `retryAt` is when the search restarts after a black hole. The
validated size and the size under test stay within what any path carries and
what is ever probed. -/
structure MTUDiscovery where
  current : Nat
  probe : Nat
  lowFailed : Nat
  tries : Nat
  inFlight : Bool
  done : Bool
  retryAt : Option Time
  largeLost : Nat
  base : safeDatagramSize ≤ current
  top : current ≤ maxDatagramSize
  probeTop : probe ≤ maxDatagramSize
  lowTop : lowFailed ≤ maxDatagramSize + 1
deriving DecidableEq

namespace MTUDiscovery

variable (m : MTUDiscovery)

def restartLocked : MTUDiscovery :=
  { m with
    probe := maxDatagramSize, lowFailed := maxDatagramSize + 1, tries := 0, inFlight := false
    done := false, retryAt := none, largeLost := 0
    probeTop := Nat.le_refl _, lowTop := Nat.le_refl _ }

/-- The size to probe now, marked in flight, or 0. -/
def nextProbe (now : Time) : MTUDiscovery × { size : Nat // size ≤ maxDatagramSize } :=
  let waiting :=
    match m.retryAt with
    | none => false
    | some at' => decide (now < at')
  if waiting then (m, ⟨0, Nat.zero_le _⟩)
  else
    let m := if m.retryAt.isSome then m.restartLocked else m
    if m.done || m.inFlight then (m, ⟨0, Nat.zero_le _⟩)
    else ({ m with inFlight := true }, ⟨m.probe, m.probeTop⟩)

def nextLocked : MTUDiscovery :=
  if (m.lowFailed : Int) - m.current ≤ mtuSearchStep then
    { m with done := true, probe := 0, probeTop := Nat.zero_le _ }
  else
    { m with
      probe := (m.current + m.lowFailed) / 2
      probeTop := by have := m.top; have := m.lowTop; omega }

def onProbeAcked (size : Nat) (fits : size ≤ maxDatagramSize) : MTUDiscovery :=
  let m := { m with inFlight := false }
  if m.retryAt.isSome then m
  else
    { m with
      current := if size > m.current then size else m.current
      tries := 0
      base := by have := m.base; split <;> omega
      top := by have := m.top; split <;> omega }.nextLocked

def onProbeLost (size : Nat) : MTUDiscovery :=
  let m := { m with inFlight := false }
  if m.retryAt.isSome then m
  else
    let m := { m with tries := m.tries + 1 }
    if m.tries < mtuProbeTries then m
    else
      { m with
        tries := 0
        lowFailed := if size < m.lowFailed then size else m.lowFailed
        lowTop := by have := m.lowTop; split <;> omega }.nextLocked

def onDataAcked (size : Nat) : MTUDiscovery :=
  if size > safeDatagramSize then { m with largeLost := 0 } else m

def blackholeLocked (now : Time) : MTUDiscovery :=
  if m.current ≤ safeDatagramSize then m
  else
    { m with
      current := safeDatagramSize, probe := 0, done := true, inFlight := false, largeLost := 0
      retryAt := some (now + blackholeRetry)
      base := Nat.le_refl _, top := by decide, probeTop := Nat.zero_le _ }

def onDataLost (now : Time) (size : Nat) : MTUDiscovery :=
  if m.current ≤ safeDatagramSize ∨ size ≤ safeDatagramSize then m
  else
    let m := { m with largeLost := m.largeLost + 1 }
    if m.largeLost ≥ blackholePackets then m.blackholeLocked now else m

/-- Starts over from the base, for a connection that moved to a new path. -/
def reset : MTUDiscovery :=
  { m with
    current := safeDatagramSize
    base := Nat.le_refl _
    top := Nat.le_of_ble_eq_true rfl }.restartLocked

/-- The validated size stays, or falls back to the base. -/
def Falls (m m' : MTUDiscovery) : Prop :=
  m'.current = m.current ∨ m'.current ≤ safeDatagramSize

variable {m}

theorem Falls.refl : m.Falls m := .inl rfl

theorem Falls.trans {m' m'' : MTUDiscovery} (first : m.Falls m') (second : m'.Falls m'') :
    m.Falls m'' := by
  rcases second with same | small
  · rw [Falls, same]
    exact first
  · exact .inr small

theorem falls_blackholeLocked (now : Time) : m.Falls (m.blackholeLocked now) := by
  unfold blackholeLocked
  split
  · exact .refl
  · exact .inr (Nat.le_refl _)

theorem current_nextLocked : m.nextLocked.current = m.current := by
  unfold nextLocked
  split <;> rfl

theorem falls_nextProbe (now : Time) : m.Falls (m.nextProbe now).1 := by
  unfold nextProbe
  dsimp only
  repeat' split
  all_goals exact .inl rfl

theorem falls_onProbeLost (size : Nat) : m.Falls (m.onProbeLost size) := by
  unfold onProbeLost
  dsimp only
  split
  · exact .inl rfl
  · split
    · exact .inl rfl
    · exact .inl current_nextLocked

theorem falls_onDataLost (now : Time) (size : Nat) : m.Falls (m.onDataLost now size) := by
  unfold onDataLost
  dsimp only
  split
  · exact .refl
  · split
    · have counted : m.Falls { m with largeLost := m.largeLost + 1 } := .inl rfl
      exact counted.trans (falls_blackholeLocked now)
    · exact .inl rfl

theorem current_onDataAcked (size : Nat) : (m.onDataAcked size).current = m.current := by
  unfold onDataAcked
  split <;> rfl

/-- A probe acknowledged validates its own size only. -/
theorem current_onProbeAcked {size : Nat} (fits : size ≤ maxDatagramSize) :
    (m.onProbeAcked size fits).current = m.current ∨
      (m.onProbeAcked size fits).current = size := by
  unfold onProbeAcked
  dsimp only
  split
  · exact .inl rfl
  · rw [current_nextLocked]
    dsimp only
    split
    · exact .inr rfl
    · exact .inl rfl

end MTUDiscovery

def newMTUDiscovery : MTUDiscovery :=
  MTUDiscovery.restartLocked
    { current := safeDatagramSize, probe := 0, lowFailed := 0, tries := 0, inFlight := false
      done := false, retryAt := none, largeLost := 0
      base := Nat.le_refl _, top := by decide, probeTop := Nat.zero_le _, lowTop := Nat.zero_le _ }

end Udx
