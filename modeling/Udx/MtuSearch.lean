import Mathlib.Data.Nat.Log
import Udx.Pmtud

set_option autoImplicit false

/- The search for the path's datagram size, under any order of probe results,
data results, fall-backs and resets. -/

namespace Udx

namespace MTUDiscovery

/-- A call. `probeAcked` and `probeLost` may report any size, a stale one too. -/
inductive Op where
  | nextProbe (now : Time)
  | probeAcked (size : Nat) (fits : size ≤ maxDatagramSize)
  | probeLost (size : Nat)
  | dataAcked (size : Nat)
  | dataLost (now : Time) (size : Nat)
  | blackhole (now : Time)
  | reset

def apply (m : MTUDiscovery) : Op → MTUDiscovery
  | .nextProbe now => (m.nextProbe now).1
  | .probeAcked size fits => m.onProbeAcked size fits
  | .probeLost size => m.onProbeLost size
  | .dataAcked size => m.onDataAcked size
  | .dataLost now size => m.onDataLost now size
  | .blackhole now => m.blackholeLocked now
  | .reset => m.reset

/-- The size under test lies strictly between what is validated and what is ruled
out, and outside a wait the search is over exactly when these are close. -/
structure Bracketed (m : MTUDiscovery) : Prop where
  ended : m.done = true ↔ m.probe = 0
  inside : m.done = false → m.current < m.probe ∧ m.probe < m.lowFailed
  few : m.tries < mtuProbeTries
  waits : m.retryAt.isSome = true → m.current = safeDatagramSize ∧ m.done = true ∧
    m.inFlight = false
  close : m.retryAt = none → (m.done = true ↔ m.lowFailed ≤ m.current + mtuSearchStep)

variable {m : MTUDiscovery}

theorem bracketed_restartLocked (low : m.current = safeDatagramSize) :
    m.restartLocked.Bracketed := by
  refine ⟨⟨nofun, nofun⟩, fun _ => ⟨?_, Nat.lt_succ_self _⟩, Nat.succ_pos _, nofun,
    fun _ => ⟨nofun, fun near => ?_⟩⟩
  · show m.current < maxDatagramSize
    rw [low]
    decide
  · have near : maxDatagramSize + 1 ≤ m.current + mtuSearchStep := near
    rw [low] at near
    exact absurd near (by decide)

theorem retryAt_nextLocked : m.nextLocked.retryAt = m.retryAt := by
  unfold nextLocked
  split <;> rfl

theorem lowFailed_nextLocked : m.nextLocked.lowFailed = m.lowFailed := by
  unfold nextLocked
  split <;> rfl

theorem tries_nextLocked : m.nextLocked.tries = m.tries := by
  unfold nextLocked
  split <;> rfl

theorem inFlight_nextLocked : m.nextLocked.inFlight = m.inFlight := by
  unfold nextLocked
  split <;> rfl

/-- Wherever the bounds have moved to, the next size is between them. -/
theorem bracketed_nextLocked (few : m.tries < mtuProbeTries) (searching : m.retryAt = none)
    (close : m.done = true → m.lowFailed ≤ m.current + mtuSearchStep) :
    m.nextLocked.Bracketed := by
  have still := m.retryAt_nextLocked.trans searching
  have waits : m.nextLocked.retryAt.isSome = true →
      m.nextLocked.current = safeDatagramSize ∧ m.nextLocked.done = true ∧
        m.nextLocked.inFlight = false := by
    rw [still]
    intro waiting
    cases waiting
  have same : m.nextLocked.tries < mtuProbeTries := m.tries_nextLocked ▸ few
  unfold nextLocked at waits same ⊢
  split at waits
  · rename_i near
    rw [if_pos near] at same ⊢
    exact ⟨⟨fun _ => rfl, fun _ => rfl⟩, (fun sent => by cases sent), same, waits,
      fun _ => ⟨fun _ => by dsimp only; omega, fun _ => rfl⟩⟩
  · rename_i far
    rw [if_neg far] at same ⊢
    rw [mtuSearchStep] at far close
    have open' : m.done = false := by
      rw [Bool.eq_false_iff]
      intro done
      have := close done
      omega
    refine ⟨⟨fun done => ?_, fun zero => ?_⟩, fun _ => ?_, same, waits,
      fun _ => ⟨fun done => ?_, fun near => ?_⟩⟩
    · exact absurd done (Bool.eq_false_iff.mp open')
    · dsimp only at zero
      omega
    · dsimp only
      omega
    · exact absurd done (Bool.eq_false_iff.mp open')
    · rw [mtuSearchStep] at near
      dsimp only at near
      omega

/-- What `NextProbe` can do. -/
inductive Probing (m : MTUDiscovery) (now : Time) :
    MTUDiscovery × { size : Nat // size ≤ maxDatagramSize } → Prop
  | wait (retry : Time) (waits : m.retryAt = some retry) (before : now < retry) :
    Probing m now (m, ⟨0, Nat.zero_le _⟩)
  | none (searching : m.retryAt = none) (busy : m.done = true ∨ m.inFlight = true) :
    Probing m now (m, ⟨0, Nat.zero_le _⟩)
  | restart (retry : Time) (waits : m.retryAt = some retry) (passed : retry ≤ now) :
    Probing m now ({ m.restartLocked with inFlight := true }, ⟨maxDatagramSize, Nat.le_refl _⟩)
  | issue (searching : m.retryAt = none) (open' : m.done = false) (idle : m.inFlight = false) :
    Probing m now ({ m with inFlight := true }, ⟨m.probe, m.probeTop⟩)

theorem probing_nextProbe (now : Time) : Probing m now (m.nextProbe now) := by
  unfold nextProbe
  cases retry : m.retryAt with
  | none =>
    simp only [Bool.false_eq_true, ↓reduceIte, Option.isSome_none, Bool.or_eq_true]
    split
    · exact .none retry ‹_›
    · rename_i free
      rw [not_or, Bool.not_eq_true, Bool.not_eq_true] at free
      exact .issue retry free.1 free.2
  | some at' =>
    simp only [decide_eq_true_eq, Option.isSome_some, ↓reduceIte]
    split
    · exact .wait at' retry ‹_›
    · exact .restart at' retry (Int.not_lt.mp ‹_›)

/-- The bounds once `size` has been acknowledged. -/
def raised (m : MTUDiscovery) (size : Nat) (fits : size ≤ maxDatagramSize) : MTUDiscovery :=
  { m with
    inFlight := false
    current := if size > m.current then size else m.current
    tries := 0
    base := by have := m.base; split <;> omega
    top := by have := m.top; split <;> omega }

/-- The bounds once `size` has been ruled out. -/
def lowered (m : MTUDiscovery) (size : Nat) : MTUDiscovery :=
  { m with
    inFlight := false
    tries := 0
    lowFailed := if size < m.lowFailed then size else m.lowFailed
    lowTop := by have := m.lowTop; split <;> omega }

theorem onProbeAcked_searching (searching : m.retryAt = none) (size : Nat)
    (fits : size ≤ maxDatagramSize) : m.onProbeAcked size fits = (m.raised size fits).nextLocked := by
  unfold onProbeAcked
  dsimp only
  rw [if_neg (by simp [searching])]
  rfl

theorem onProbeLost_searching (searching : m.retryAt = none) (size : Nat) :
    m.onProbeLost size =
      if m.tries + 1 < mtuProbeTries then { m with inFlight := false, tries := m.tries + 1 }
      else (m.lowered size).nextLocked := by
  unfold onProbeLost
  dsimp only
  rw [if_neg (by simp [searching])]
  rfl

def gap (m : MTUDiscovery) : Nat := m.lowFailed - m.current

/-- The bounds have closed in after a result for `size`. -/
structure ClosesIn (m : MTUDiscovery) (size : Nat) (b : MTUDiscovery) : Prop where
  up : m.current ≤ b.current
  down : b.lowFailed ≤ m.lowFailed
  tries : b.tries = 0
  idle : b.inFlight = false
  retryAt : b.retryAt = m.retryAt
  done : b.done = m.done
  narrows : m.current < size → size < m.lowFailed →
    b.gap ≤ max (m.lowFailed - size) (size - m.current)

theorem ClosesIn.narrow {size : Nat} {b : MTUDiscovery} (closes : m.ClosesIn size b) :
    b.gap ≤ m.gap :=
  (Nat.sub_le_sub_right closes.down _).trans (Nat.sub_le_sub_left closes.up _)

theorem ClosesIn.gap_lt {size : Nat} {b : MTUDiscovery} (closes : m.ClosesIn size b)
    (above : m.current < size) (below : size < m.lowFailed) : b.gap < m.gap := by
  have narrows := closes.narrows above below
  have wide : m.gap = m.lowFailed - m.current := rfl
  omega

/-- What a result for `size` does to a search: a loss counts one try, or the
bounds close in and the next size is chosen. -/
inductive ResultTaken (m : MTUDiscovery) (size : Nat) : MTUDiscovery → Prop
  | counts (few : m.tries + 1 < mtuProbeTries) :
    ResultTaken m size { m with inFlight := false, tries := m.tries + 1 }
  | closesIn (b : MTUDiscovery) (closes : m.ClosesIn size b) : ResultTaken m size b.nextLocked

theorem closesIn_raised (size : Nat) (fits : size ≤ maxDatagramSize) :
    m.ClosesIn size (m.raised size fits) := by
  refine ⟨?_, Nat.le_refl _, rfl, rfl, rfl, rfl, fun above below => ?_⟩
  · simp only [raised]
    split <;> omega
  · simp only [gap, raised]
    rw [if_pos above]
    exact Nat.le_max_left _ _

theorem closesIn_lowered (size : Nat) : m.ClosesIn size (m.lowered size) := by
  refine ⟨Nat.le_refl _, ?_, rfl, rfl, rfl, rfl, fun above below => ?_⟩
  · simp only [lowered]
    split <;> omega
  · simp only [gap, lowered]
    rw [if_pos below]
    exact Nat.le_max_right _ _

theorem reported_onProbeAcked (searching : m.retryAt = none) (size : Nat)
    (fits : size ≤ maxDatagramSize) : m.ResultTaken size (m.onProbeAcked size fits) := by
  rw [onProbeAcked_searching searching]
  exact .closesIn _ (closesIn_raised size fits)

theorem reported_onProbeLost (searching : m.retryAt = none) (size : Nat) :
    m.ResultTaken size (m.onProbeLost size) := by
  rw [onProbeLost_searching searching]
  split
  · exact .counts ‹_›
  · exact .closesIn _ (closesIn_lowered size)

theorem ResultTaken.idle {size : Nat} {m' : MTUDiscovery} (reported : m.ResultTaken size m') :
    m'.inFlight = false := by
  cases reported with
  | counts => rfl
  | closesIn b closes => exact inFlight_nextLocked.trans closes.idle

theorem ResultTaken.retryAt {size : Nat} {m' : MTUDiscovery} (reported : m.ResultTaken size m') :
    m'.retryAt = m.retryAt := by
  cases reported with
  | counts => rfl
  | closesIn b closes => exact retryAt_nextLocked.trans closes.retryAt

theorem Bracketed.reported (bracketed : m.Bracketed) (searching : m.retryAt = none) {size : Nat}
    {m' : MTUDiscovery} (reported : m.ResultTaken size m') : m'.Bracketed := by
  cases reported with
  | counts few =>
    exact ⟨bracketed.ended, bracketed.inside, few, by simp [searching], bracketed.close⟩
  | closesIn b closes =>
    refine bracketed_nextLocked (closes.tries ▸ Nat.succ_pos _) (closes.retryAt.trans searching)
      fun done => ?_
    have := (bracketed.close searching).mp (closes.done ▸ done)
    have := closes.up
    have := closes.down
    omega

/-- A result that comes during a black-hole wait changes nothing. -/
theorem Bracketed.results_waiting (bracketed : m.Bracketed) (waits : m.retryAt.isSome = true)
    (size : Nat) : m.onProbeLost size = m ∧ ∀ fits, m.onProbeAcked size fits = m := by
  have idle : { m with inFlight := false } = m := by
    rw [← (bracketed.waits waits).2.2]
  refine ⟨?_, fun fits => ?_⟩
  · unfold onProbeLost
    dsimp only
    rw [if_pos waits, idle]
  · unfold onProbeAcked
    dsimp only
    rw [if_pos waits, idle]

theorem Bracketed.onProbeAcked (bracketed : m.Bracketed) {size : Nat}
    (fits : size ≤ maxDatagramSize) : (m.onProbeAcked size fits).Bracketed := by
  cases retry : m.retryAt with
  | none => exact bracketed.reported retry (reported_onProbeAcked retry size fits)
  | some at' =>
    rw [(bracketed.results_waiting (by rw [retry]; rfl) size).2 fits]
    exact bracketed

theorem Bracketed.onProbeLost (bracketed : m.Bracketed) (size : Nat) :
    (m.onProbeLost size).Bracketed := by
  cases retry : m.retryAt with
  | none => exact bracketed.reported retry (reported_onProbeLost retry size)
  | some at' =>
    rw [(bracketed.results_waiting (by rw [retry]; rfl) size).1]
    exact bracketed

theorem Bracketed.nextProbe (bracketed : m.Bracketed) (now : Time) :
    (m.nextProbe now).1.Bracketed := by
  have probing := m.probing_nextProbe now
  generalize m.nextProbe now = out at probing ⊢
  cases probing with
  | wait | none => exact bracketed
  | restart retry waits passed =>
    have fresh := bracketed_restartLocked (bracketed.waits (by rw [waits]; rfl)).1
    exact ⟨fresh.ended, fresh.inside, fresh.few, nofun, fresh.close⟩
  | issue searching open' idle =>
    exact ⟨bracketed.ended, bracketed.inside, bracketed.few, by simp [searching], bracketed.close⟩

/-- What the watch over data packets does: it counts, or falls back to the base
and waits. -/
inductive Watched (m : MTUDiscovery) : MTUDiscovery → Prop
  | counts (n : Nat) : Watched m { m with largeLost := n }
  | fallsBack (m' : MTUDiscovery) (high : safeDatagramSize < m.current)
    (waits : m'.retryAt.isSome = true) (kept : m'.tries = m.tries)
    (base : m'.current = safeDatagramSize)
    (stopped : m'.done = true ∧ m'.probe = 0 ∧ m'.inFlight = false) : Watched m m'

theorem watched_blackholeLocked (now : Time) : m.Watched (m.blackholeLocked now) := by
  unfold blackholeLocked
  split
  · exact .counts m.largeLost
  · exact .fallsBack _ (Nat.lt_of_not_le ‹_›) rfl rfl rfl ⟨rfl, rfl, rfl⟩

theorem watched_onDataAcked (size : Nat) : m.Watched (m.onDataAcked size) := by
  unfold onDataAcked
  split
  · exact .counts 0
  · exact .counts m.largeLost

theorem watched_onDataLost (now : Time) (size : Nat) : m.Watched (m.onDataLost now size) := by
  unfold onDataLost
  dsimp only
  split
  · exact .counts m.largeLost
  · split
    · rename_i high _
      rw [not_or, Nat.not_le] at high
      unfold blackholeLocked
      rw [if_neg (Nat.not_le.mpr high.1)]
      exact .fallsBack _ high.1 rfl rfl rfl ⟨rfl, rfl, rfl⟩
    · exact .counts _

theorem Bracketed.watched (bracketed : m.Bracketed) {m' : MTUDiscovery} (watched : m.Watched m') :
    m'.Bracketed := by
  cases watched with
  | counts n =>
    exact ⟨bracketed.ended, bracketed.inside, bracketed.few, bracketed.waits, bracketed.close⟩
  | fallsBack _ high waits kept base stopped =>
    obtain ⟨done, probe, idle⟩ := stopped
    refine ⟨⟨fun _ => probe, fun _ => done⟩, fun open' => ?_, kept ▸ bracketed.few,
      fun _ => ⟨base, done, idle⟩, fun searching => ?_⟩
    · cases open'.symm.trans done
    · rw [searching] at waits
      cases waits

theorem Bracketed.searching_of_high (bracketed : m.Bracketed)
    (high : safeDatagramSize < m.current) : m.retryAt = none := by
  rw [← Option.not_isSome_iff_eq_none]
  intro waits
  exact Nat.ne_of_gt high (bracketed.waits waits).1

theorem Bracketed.apply (bracketed : m.Bracketed) (op : Op) : (m.apply op).Bracketed := by
  cases op with
  | nextProbe now => exact bracketed.nextProbe now
  | probeAcked size fits => exact bracketed.onProbeAcked fits
  | probeLost size => exact bracketed.onProbeLost size
  | dataAcked size => exact bracketed.watched (watched_onDataAcked size)
  | dataLost now size => exact bracketed.watched (watched_onDataLost now size)
  | blackhole now => exact bracketed.watched (watched_blackholeLocked now)
  | reset => exact bracketed_restartLocked rfl

theorem bracketed_new : newMTUDiscovery.Bracketed := bracketed_restartLocked rfl

theorem bracketed_run (bracketed : m.Bracketed) (ops : List Op) :
    (ops.foldl MTUDiscovery.apply m).Bracketed := by
  induction ops generalizing m with
  | nil => exact bracketed
  | cons op rest ih => exact ih (bracketed.apply op)

/-- How often a gap is halved before the search is over. -/
def halvings (gap : Nat) : Nat := Nat.clog 2 ((gap + (mtuSearchStep - 1)) / mtuSearchStep)

/-- The size under test is not the middle of the bounds: the first one of a search. -/
def first (m : MTUDiscovery) : Nat :=
  if m.probe = (m.current + m.lowFailed) / 2 then 0 else 1

/-- How many more sizes the search can test. -/
def rounds (m : MTUDiscovery) : Nat := halvings m.gap + m.first

/-- How many more answers the search can take. -/
def left (m : MTUDiscovery) : Nat :=
  if m.done then 0 else mtuProbeTries * m.rounds - m.tries

def Op.isReset : Op → Bool
  | .reset => true
  | _ => false

/-- A Reset, a fall-back, or the restart after its wait. -/
def Restarts (m : MTUDiscovery) (op : Op) : Prop :=
  op.isReset = true ∨ (m.apply op).retryAt ≠ m.retryAt

/-- The size a probe result is for. -/
def Op.result : Op → Option Nat
  | .probeAcked size _ | .probeLost size => some size
  | _ => none

def answers (m : MTUDiscovery) (op : Op) : Bool :=
  !m.done && decide (op.result = some m.probe)

def strays (m : MTUDiscovery) (op : Op) : Bool := op.result.isSome && !m.answers op

/-- How many calls of a run pass a test. -/
def tally (test : MTUDiscovery → Op → Bool) : MTUDiscovery → List Op → Nat
  | _, [] => 0
  | m, op :: rest => (if test m op then 1 else 0) + tally test (m.apply op) rest

def NoRestart : MTUDiscovery → List Op → Prop
  | _, [] => True
  | m, op :: rest => ¬ m.Restarts op ∧ NoRestart (m.apply op) rest

instance (m : MTUDiscovery) (op : Op) : Decidable (m.Restarts op) := by
  unfold Restarts
  infer_instance

instance decidableSteady : (m : MTUDiscovery) → (ops : List Op) → Decidable (m.NoRestart ops)
  | _, [] => isTrue trivial
  | m, op :: rest =>
    have := decidableSteady (m.apply op) rest
    inferInstanceAs (Decidable (¬ m.Restarts op ∧ NoRestart (m.apply op) rest))

theorem reported_apply {op : Op} {size : Nat} (searching : m.retryAt = none)
    (reported : op.result = some size) : m.ResultTaken size (m.apply op) := by
  cases op with
  | probeAcked other fits =>
    obtain rfl : other = size := Option.some.inj reported
    exact reported_onProbeAcked searching other fits
  | probeLost other =>
    obtain rfl : other = size := Option.some.inj reported
    exact reported_onProbeLost searching other
  | nextProbe | dataAcked | dataLost | blackhole | reset => cases reported

theorem done_nextLocked (close : m.lowFailed ≤ m.current + mtuSearchStep) :
    m.nextLocked.done = true := by
  have near : (m.lowFailed : Int) - m.current ≤ mtuSearchStep := by omega
  unfold nextLocked
  rw [if_pos near]

theorem probe_nextLocked (open' : m.nextLocked.done = false) :
    m.nextLocked.probe = (m.current + m.lowFailed) / 2 := by
  unfold nextLocked at open' ⊢
  split at open'
  · cases open'
  · rw [if_neg ‹_›]

theorem halvings_le_iff {gap k : Nat} : halvings gap ≤ k ↔ gap ≤ mtuSearchStep * 2 ^ k := by
  rw [halvings, Nat.clog_le_iff_le_pow Nat.one_lt_two, mtuSearchStep]
  omega

theorem halvings_mono {gap gap' : Nat} (narrow : gap' ≤ gap) : halvings gap' ≤ halvings gap :=
  halvings_le_iff.mpr (narrow.trans (halvings_le_iff.mp (Nat.le_refl _)))

theorem halvings_pos {gap : Nat} (wide : mtuSearchStep < gap) : 0 < halvings gap := by
  by_contra none
  have := halvings_le_iff.mp (Nat.le_of_not_lt none)
  omega

theorem halvings_half {gap gap' : Nat} (wide : mtuSearchStep < gap) (half : gap' ≤ (gap + 1) / 2) :
    halvings gap' + 1 ≤ halvings gap := by
  obtain ⟨k, last⟩ := Nat.exists_eq_add_one_of_ne_zero (halvings_pos wide).ne'
  have most := halvings_le_iff.mp last.le
  have fewer : halvings gap' ≤ k := by
    refine halvings_le_iff.mpr (half.trans ?_)
    rw [Nat.pow_succ] at most
    rw [mtuSearchStep] at most ⊢
    omega
  omega

theorem left_nextLocked :
    m.nextLocked.left ≤ mtuProbeTries * halvings m.gap - m.tries := by
  unfold left
  split
  · exact Nat.zero_le _
  · rename_i open'
    have middle : m.nextLocked.first = 0 := by
      rw [first, current_nextLocked, lowFailed_nextLocked]
      exact if_pos (probe_nextLocked (Bool.eq_false_iff.mpr open'))
    rw [rounds, middle, gap, current_nextLocked, lowFailed_nextLocked, tries_nextLocked]
    exact Nat.le_refl _

/-- A search that is over stays over, whatever results come. -/
theorem Bracketed.done_reported (bracketed : m.Bracketed) (searching : m.retryAt = none)
    (done : m.done = true) {size : Nat} {m' : MTUDiscovery} (reported : m.ResultTaken size m') :
    m'.done = true := by
  cases reported with
  | counts few => exact done
  | closesIn b closes =>
    apply done_nextLocked
    have := (bracketed.close searching).mp done
    have := closes.up
    have := closes.down
    omega

theorem Bracketed.searching_of_open (bracketed : m.Bracketed) (open' : m.done = false) :
    m.retryAt = none := by
  rw [← Option.not_isSome_iff_eq_none]
  intro waits
  cases open'.symm.trans (bracketed.waits waits).2.1

theorem Bracketed.wide (bracketed : m.Bracketed) (open' : m.done = false) :
    mtuSearchStep < m.gap := by
  have far : ¬ m.lowFailed ≤ m.current + mtuSearchStep := fun near => by
    cases open'.symm.trans ((bracketed.close (bracketed.searching_of_open open')).mpr near)
  rw [gap]
  omega

theorem Bracketed.answered (bracketed : m.Bracketed) {op : Op} (answers : m.answers op = true) :
    m.done = false ∧ m.ResultTaken m.probe (m.apply op) := by
  rw [MTUDiscovery.answers, Bool.and_eq_true, Bool.not_eq_true', decide_eq_true_eq] at answers
  obtain ⟨open', result⟩ := answers
  exact ⟨open', reported_apply (bracketed.searching_of_open open') result⟩

/-- What one answer does: it counts as one of the tries, or brings the bounds
closer. -/
theorem Bracketed.answer (bracketed : m.Bracketed) {op : Op} (answers : m.answers op = true) :
    ((m.apply op).tries = m.tries + 1 ∧ (m.apply op).tries < mtuProbeTries ∧
        (m.apply op).gap = m.gap) ∨
      (m.apply op).gap < m.gap := by
  obtain ⟨open', reported⟩ := bracketed.answered answers
  obtain ⟨above, below⟩ := bracketed.inside open'
  generalize m.apply op = m' at reported ⊢
  cases reported with
  | counts few => exact .inl ⟨rfl, few, rfl⟩
  | closesIn b closes =>
    right
    rw [gap, current_nextLocked, lowFailed_nextLocked]
    exact closes.gap_lt above below

theorem tries_lt {x x' tries : Nat} (less : x' + 1 ≤ x) (few : tries < mtuProbeTries) :
    mtuProbeTries * x' + 1 ≤ mtuProbeTries * x - tries := by
  have := Nat.mul_le_mul_left mtuProbeTries less
  rw [Nat.mul_add] at this
  omega

/-- The bounds that an answer leaves need fewer rounds: a round for the first size,
a halving for a middle. -/
theorem Bracketed.rounds_closesIn (bracketed : m.Bracketed) (open' : m.done = false)
    {b : MTUDiscovery} (closes : m.ClosesIn m.probe b) : halvings b.gap + 1 ≤ m.rounds := by
  obtain ⟨above, below⟩ := bracketed.inside open'
  have narrows := closes.narrows above below
  rw [rounds, first]
  split
  · rename_i middle
    refine halvings_half (bracketed.wide open') (narrows.trans ?_)
    rw [gap]
    omega
  · exact Nat.add_le_add_right (halvings_mono closes.narrow) 1

theorem Bracketed.left_answer (bracketed : m.Bracketed) {op : Op} (answers : m.answers op = true) :
    (m.apply op).left + 1 ≤ m.left := by
  obtain ⟨open', reported⟩ := bracketed.answered answers
  have whole : m.left = mtuProbeTries * m.rounds - m.tries := if_neg (by simp [open'])
  rw [whole]
  generalize m.apply op = m' at reported ⊢
  cases reported with
  | counts few =>
    have one : ({ m with inFlight := false, tries := m.tries + 1 } : MTUDiscovery).left =
      mtuProbeTries * m.rounds - (m.tries + 1) := if_neg (by simp [open'])
    have some' : 1 ≤ m.rounds := Nat.le_add_right_of_le (halvings_pos (bracketed.wide open'))
    have := Nat.mul_le_mul_left mtuProbeTries some'
    omega
  | closesIn b closes =>
    have most := b.left_nextLocked
    rw [closes.tries] at most
    exact (Nat.add_le_add_right most 1).trans
      (tries_lt (bracketed.rounds_closesIn open' closes) bracketed.few)

/-- A result for another size can at most undo the tries counted. -/
theorem Bracketed.stray (bracketed : m.Bracketed) (searching : m.retryAt = none) {size : Nat}
    {m' : MTUDiscovery} (reported : m.ResultTaken size m') :
    m'.left ≤ m.left + (mtuProbeTries - 1) := by
  by_cases done : m.done = true
  · rw [left, if_pos (bracketed.done_reported searching done reported)]
    exact Nat.zero_le _
  · have whole : m.left = mtuProbeTries * m.rounds - m.tries := if_neg done
    have few := bracketed.few
    cases reported with
    | counts _ =>
      have one : ({ m with inFlight := false, tries := m.tries + 1 } : MTUDiscovery).left =
        mtuProbeTries * m.rounds - (m.tries + 1) := if_neg done
      omega
    | closesIn b closes =>
      have most := b.left_nextLocked
      have fewer : halvings b.gap ≤ m.rounds :=
        Nat.le_add_right_of_le (halvings_mono closes.narrow)
      have := Nat.mul_le_mul_left mtuProbeTries fewer
      omega

/-- A call that is no result and no restart leaves the search where it is. -/
theorem left_apply_quiet {op : Op} (quiet : op.result = none)
    (searching : m.retryAt = none) (steady : ¬ m.Restarts op) : (m.apply op).left = m.left := by
  rw [Restarts, not_or, not_not, searching] at steady
  obtain ⟨kept, still⟩ := steady
  have watches {m' : MTUDiscovery} (watched : m.Watched m') (open' : m'.retryAt = none) :
      m'.left = m.left := by
    cases watched with
    | counts n => rfl
    | fallsBack _ high waits =>
      rw [open'] at waits
      cases waits
  cases op with
  | nextProbe now =>
    have probing := m.probing_nextProbe now
    rw [MTUDiscovery.apply]
    generalize m.nextProbe now = out at probing ⊢
    cases probing with
    | wait | none => rfl
    | restart retry waits => cases searching.symm.trans waits
    | issue => rfl
  | probeAcked | probeLost => cases quiet
  | dataAcked size => exact watches (watched_onDataAcked size) still
  | dataLost now size => exact watches (watched_onDataLost now size) still
  | blackhole now => exact watches (watched_blackholeLocked now) still
  | reset => exact absurd rfl kept

/-- One call: an answer uses up what is left, a result for another size gives back
at most the tries counted. -/
theorem Bracketed.left_apply (bracketed : m.Bracketed) {op : Op} (searching : m.retryAt = none)
    (steady : ¬ m.Restarts op) :
    (m.apply op).left + (if m.answers op then 1 else 0) ≤
      m.left + (mtuProbeTries - 1) * (if m.strays op then 1 else 0) := by
  by_cases answered : m.answers op = true
  · rw [if_pos answered]
    exact Nat.le_add_right_of_le (bracketed.left_answer answered)
  · rw [if_neg answered]
    by_cases strayed : m.strays op = true
    · rw [if_pos strayed, Nat.mul_one]
      rw [strays, Bool.and_eq_true] at strayed
      obtain ⟨size, result⟩ := Option.isSome_iff_exists.mp strayed.1
      exact bracketed.stray searching (reported_apply searching result)
    · rw [if_neg strayed, Nat.mul_zero]
      refine Nat.le_of_eq (left_apply_quiet ?_ searching steady)
      rw [strays, Bool.and_eq_true, not_and, Bool.not_eq_true', Bool.not_eq_false] at strayed
      rw [← Option.not_isSome_iff_eq_none]
      exact fun reported => answered (strayed reported)

/-- Between restarts, the answers given are bounded by what was left and what the
other results gave back. -/
theorem Bracketed.left_run (bracketed : m.Bracketed) {ops : List Op} (searching : m.retryAt = none)
    (steady : m.NoRestart ops) :
    (ops.foldl MTUDiscovery.apply m).retryAt = none ∧
      (ops.foldl MTUDiscovery.apply m).left + m.tally answers ops ≤
        m.left + (mtuProbeTries - 1) * m.tally strays ops := by
  induction ops generalizing m with
  | nil => exact ⟨searching, Nat.le_refl _⟩
  | cons op rest ih =>
    obtain ⟨quiet, later⟩ := steady
    have still : (m.apply op).retryAt = none := by
      rw [Restarts, not_or, not_not, searching] at quiet
      exact quiet.2
    obtain ⟨ends, bound⟩ := ih (bracketed.apply op) still later
    refine ⟨ends, ?_⟩
    have one := bracketed.left_apply searching quiet
    rw [List.foldl_cons, tally, tally, Nat.mul_add]
    omega

/-- A search with nothing left is over. -/
theorem Bracketed.done_of_left (bracketed : m.Bracketed) (none : m.left = 0) : m.done = true := by
  by_contra open'
  have few := bracketed.few
  have some' : 1 ≤ m.rounds :=
    Nat.le_add_right_of_le (halvings_pos (bracketed.wide (Bool.eq_false_iff.mpr open')))
  have := Nat.mul_le_mul_left mtuProbeTries some'
  rw [left, if_neg open'] at none
  omega

theorem left_le_of_gap_le {k : Nat} (narrow : m.gap ≤ mtuSearchStep * 2 ^ k) :
    m.left ≤ mtuProbeTries * (k + 1) := by
  unfold left
  split
  · exact Nat.zero_le _
  · have once : m.first ≤ 1 := by
      unfold first
      split <;> omega
    have most := Nat.mul_le_mul_left mtuProbeTries
      (Nat.add_le_add (halvings_le_iff.mpr narrow) once)
    exact (Nat.sub_le _ _).trans most

end MTUDiscovery

end Udx
