import Mathlib.Data.List.Perm.Basic
import Udx.Lib.Runs
import Udx.MtuSearch

set_option autoImplicit false

/- The probes of a path-MTU search. A size that `NextProbe` returned gets at most
one result, at any later time, also after the search that sent it was given up. -/

namespace Udx

open MTUDiscovery (Bracketed ResultTaken ClosesIn Watched Probing)

/-- A search, the probes that have no result yet, each with the number of the
search that sent it, and the sizes of this search's probes reported lost. A
search lasts until the next fall-back or Reset. -/
structure Prober where
  mtu : MTUDiscovery
  search : Nat
  outstanding : List (Nat × { size : Nat // size ≤ maxDatagramSize })
  lost : List Nat

namespace Prober

inductive Step where
  | nextProbe (now : Time)
  | result (i : Nat) (acked : Bool)
  | dataAcked (size : Nat)
  | dataLost (now : Time) (size : Nat)
  | blackhole (now : Time)
  | reset
deriving DecidableEq

def issue (p : Prober) (now : Time) : Prober :=
  let out := p.mtu.nextProbe now
  { p with
    mtu := out.1
    outstanding := if out.2.1 = 0 then p.outstanding else (p.search, out.2) :: p.outstanding }

def report (p : Prober) (i : Nat) (probe : Nat × { size : Nat // size ≤ maxDatagramSize })
    (acked : Bool) : Prober :=
  { p with
    mtu :=
      if acked then p.mtu.onProbeAcked probe.2 probe.2.2 else p.mtu.onProbeLost probe.2
    outstanding := p.outstanding.eraseIdx i
    lost := if acked = false ∧ probe.1 = p.search then probe.2 :: p.lost else p.lost }

/-- A call that may fall back, which ends the search. -/
def watch (p : Prober) (mtu : MTUDiscovery) : Prober :=
  if mtu.retryAt = p.mtu.retryAt then { p with mtu := mtu }
  else { p with mtu := mtu, search := p.search + 1, lost := [] }

def step (p : Prober) : Step → Option Prober
  | .nextProbe now => some (p.issue now)
  | .result i acked => p.outstanding[i]?.map fun probe => p.report i probe acked
  | .dataAcked size => some (p.watch (p.mtu.onDataAcked size))
  | .dataLost now size => some (p.watch (p.mtu.onDataLost now size))
  | .blackhole now => some (p.watch (p.mtu.blackholeLocked now))
  | .reset => some { p with mtu := p.mtu.reset, search := p.search + 1, lost := [] }

def newProber : Prober := ⟨newMTUDiscovery, 0, [], []⟩

inductive Stepped (p : Prober) : Step → Prober → Prop
  | issue (now : Time) : Stepped p (.nextProbe now) (p.issue now)
  | report (i : Nat) (acked : Bool) (probe : Nat × { size : Nat // size ≤ maxDatagramSize })
    (found : p.outstanding[i]? = some probe) : Stepped p (.result i acked) (p.report i probe acked)
  | watch (call : Step) (mtu : MTUDiscovery) (watched : p.mtu.Watched mtu)
    (other : ∀ i acked, call ≠ .result i acked) : Stepped p call (p.watch mtu)
  | reset : Stepped p .reset { p with mtu := p.mtu.reset, search := p.search + 1, lost := [] }

variable {p p' : Prober}

theorem stepped_of_step {call : Step} (taken : p.step call = some p') : p.Stepped call p' := by
  cases call with
  | nextProbe now =>
    obtain rfl := Option.some.inj taken
    exact .issue now
  | result i acked =>
    obtain ⟨probe, found, rfl⟩ := Option.map_eq_some_iff.mp taken
    exact .report i acked probe found
  | dataAcked size =>
    obtain rfl := Option.some.inj taken
    exact .watch _ _ (MTUDiscovery.watched_onDataAcked size) nofun
  | dataLost now size =>
    obtain rfl := Option.some.inj taken
    exact .watch _ _ (MTUDiscovery.watched_onDataLost now size) nofun
  | blackhole now =>
    obtain rfl := Option.some.inj taken
    exact .watch _ _ (MTUDiscovery.watched_blackholeLocked now) nofun
  | reset =>
    obtain rfl := Option.some.inj taken
    exact .reset

theorem perm_report {i : Nat} {probe : Nat × { size : Nat // size ≤ maxDatagramSize }}
    (found : p.outstanding[i]? = some probe) :
    (probe :: p.outstanding.eraseIdx i).Perm p.outstanding := by
  obtain ⟨inside, rfl⟩ := List.getElem?_eq_some_iff.mp found
  exact List.getElem_cons_eraseIdx_perm inside

theorem watch_counts (n : Nat) :
    p.watch { p.mtu with largeLost := n } = { p with mtu := { p.mtu with largeLost := n } } :=
  if_pos rfl

theorem watch_fallsBack {mtu : MTUDiscovery} (searching : p.mtu.retryAt = none)
    (waits : mtu.retryAt.isSome = true) :
    p.watch mtu = { p with mtu := mtu, search := p.search + 1, lost := [] } := by
  refine if_neg fun same => ?_
  rw [same, searching] at waits
  cases waits

/-- A result of an earlier search's probe comes during a black-hole wait. -/
def ResultInTime (p : Prober) : Step → Prop
  | .result i _ =>
    (p.outstanding[i]?.all fun probe => probe.1 == p.search || p.mtu.retryAt.isSome) = true
  | _ => True

instance (p : Prober) (call : Step) : Decidable (p.ResultInTime call) := by
  unfold ResultInTime
  split <;> infer_instance

/-- This search's probes: at most one is outstanding, it is the size under test,
and the losses counted are losses of that size. -/
structure SearchesApart (p : Prober) : Prop where
  bracketed : p.mtu.Bracketed
  past : ∀ probe ∈ p.outstanding, probe.1 ≤ p.search
  one : p.outstanding.countP (·.1 = p.search) = if p.mtu.inFlight then 1 else 0
  tested : ∀ probe ∈ p.outstanding, probe.1 = p.search →
    probe.2 = p.mtu.probe ∧ p.mtu.done = false
  counted : p.mtu.done = false → p.mtu.tries ≤ p.lost.count p.mtu.probe
  ruledOut : p.mtu.retryAt = none →
    p.mtu.lowFailed = maxDatagramSize + 1 ∨ mtuProbeTries ≤ p.lost.count p.mtu.lowFailed

theorem searchesApart_new : newProber.SearchesApart :=
  ⟨MTUDiscovery.bracketed_new, List.forall_mem_nil _, rfl, List.forall_mem_nil _,
    fun _ => Nat.zero_le _, fun _ => .inl rfl⟩

theorem SearchesApart.next (apart : p.SearchesApart) {mtu : MTUDiscovery}
    (bracketed : mtu.Bracketed)
    (idle : mtu.inFlight = false) (untried : mtu.done = false → mtu.tries = 0)
    (fresh : mtu.retryAt = none → mtu.lowFailed = maxDatagramSize + 1) :
    SearchesApart { p with mtu := mtu, search := p.search + 1, lost := [] } := by
  have earlier : ∀ probe ∈ p.outstanding, probe.1 ≠ p.search + 1 := fun probe out =>
    Nat.ne_of_lt (Nat.lt_succ_of_le (apart.past probe out))
  refine ⟨bracketed, fun probe out => (apart.past probe out).trans (Nat.le_succ _), ?_,
    fun probe out same => absurd same (earlier probe out), fun open' => ?_,
    fun searching => .inl (fresh searching)⟩
  · dsimp only
    rw [idle, if_neg Bool.false_ne_true, List.countP_eq_zero]
    simpa using earlier
  · dsimp only
    rw [untried open']
    exact Nat.zero_le _

theorem SearchesApart.watch (apart : p.SearchesApart) {mtu : MTUDiscovery}
    (watched : p.mtu.Watched mtu) :
    (p.watch mtu).SearchesApart := by
  have bracketed := apart.bracketed.watched watched
  cases watched with
  | counts n =>
    rw [watch_counts]
    exact ⟨bracketed, apart.past, apart.one, apart.tested, apart.counted, apart.ruledOut⟩
  | fallsBack _ high waits kept base stopped =>
    obtain ⟨done, _, idle⟩ := stopped
    rw [watch_fallsBack (apart.bracketed.searching_of_high high) waits]
    refine apart.next bracketed idle (fun open' => ?_) fun searching => ?_
    · cases open'.symm.trans done
    · rw [searching] at waits
      cases waits

theorem SearchesApart.issue (apart : p.SearchesApart) (now : Time) :
    (p.issue now).SearchesApart := by
  have bracketed := apart.bracketed.nextProbe now
  have probing := p.mtu.probing_nextProbe now
  unfold Prober.issue
  generalize p.mtu.nextProbe now = out at bracketed probing ⊢
  -- no probe of this search is out while none is in flight
  have sends {mtu : MTUDiscovery} {size : { size : Nat // size ≤ maxDatagramSize }}
      (idle : p.mtu.inFlight = false) (busy : mtu.inFlight = true) (open' : mtu.done = false)
      (same : size.1 = mtu.probe) (mtuBracketed : mtu.Bracketed)
      (counted : mtu.tries ≤ p.lost.count mtu.probe)
      (ruledOut : mtu.lowFailed = maxDatagramSize + 1 ∨
        mtuProbeTries ≤ p.lost.count mtu.lowFailed) :
      SearchesApart { p with
        mtu := mtu
        outstanding := if size.1 = 0 then p.outstanding else (p.search, size) :: p.outstanding } := by
    have one := apart.one
    rw [idle, if_neg Bool.false_ne_true, List.countP_eq_zero] at one
    rw [if_neg (by have := mtuBracketed.inside open'; omega)]
    refine ⟨mtuBracketed, ?_, ?_, ?_, fun _ => counted, fun _ => ruledOut⟩
    · rintro probe (_ | ⟨_, out⟩)
      · exact Nat.le_refl _
      · exact apart.past probe out
    · dsimp only
      rw [busy, if_pos rfl, List.countP_cons_of_pos (by simp), List.countP_eq_zero.mpr one]
    · rintro probe (_ | ⟨_, out⟩) own
      · exact ⟨same, open'⟩
      · exact absurd (decide_eq_true own) (one probe out)
  cases probing with
  | wait | none =>
    exact ⟨apart.bracketed, apart.past, apart.one, apart.tested, apart.counted, apart.ruledOut⟩
  | restart retry waits passed =>
    have idle := (apart.bracketed.waits (by rw [waits]; rfl)).2.2
    exact sends idle rfl rfl rfl bracketed (Nat.zero_le _) (.inl rfl)
  | issue searching open' idle =>
    exact sends idle rfl open' rfl bracketed (apart.counted open') (apart.ruledOut searching)

theorem SearchesApart.settle (apart : p.SearchesApart) {i : Nat}
    {probe : Nat × { size : Nat // size ≤ maxDatagramSize }}
    (found : p.outstanding[i]? = some probe) (own : probe.1 = p.search) {mtu : MTUDiscovery}
    {lost : List Nat} (bracketed : mtu.Bracketed) (idle : mtu.inFlight = false)
    (counted : mtu.done = false → mtu.tries ≤ lost.count mtu.probe)
    (ruledOut : mtu.lowFailed = maxDatagramSize + 1 ∨ mtuProbeTries ≤ lost.count mtu.lowFailed) :
    SearchesApart { p with mtu := mtu, outstanding := p.outstanding.eraseIdx i, lost := lost } := by
  have none : (p.outstanding.eraseIdx i).countP (·.1 = p.search) = 0 := by
    have whole := (perm_report found).countP_eq (·.1 = p.search)
    rw [List.countP_cons_of_pos (by simpa using own), apart.one] at whole
    split at whole <;> omega
  have others := List.countP_eq_zero.mp none
  refine ⟨bracketed, fun other out => apart.past other (List.mem_of_mem_eraseIdx out), ?_,
    fun other out same => absurd (decide_eq_true same) (others other out), counted,
    fun _ => ruledOut⟩
  dsimp only
  rw [none, idle]
  rfl

theorem report_acked (i : Nat) (probe : Nat × { size : Nat // size ≤ maxDatagramSize }) :
    p.report i probe true =
      { p with
        mtu := p.mtu.onProbeAcked probe.2 probe.2.2
        outstanding := p.outstanding.eraseIdx i } := by
  simp [report]

theorem report_lost (i : Nat) {probe : Nat × { size : Nat // size ≤ maxDatagramSize }}
    (own : probe.1 = p.search) :
    p.report i probe false =
      { p with
        mtu := p.mtu.onProbeLost probe.2
        outstanding := p.outstanding.eraseIdx i
        lost := probe.2 :: p.lost } := by
  simp [report, own]

theorem SearchesApart.report_own (apart : p.SearchesApart) {i : Nat} {acked : Bool}
    {probe : Nat × { size : Nat // size ≤ maxDatagramSize }}
    (found : p.outstanding[i]? = some probe) (own : probe.1 = p.search) :
    (p.report i probe acked).SearchesApart := by
  obtain ⟨same, open'⟩ := apart.tested probe (List.mem_of_getElem? found) own
  have searching := apart.bracketed.searching_of_open open'
  have inside := apart.bracketed.inside open'
  have counted := apart.counted open'
  have ruledOut := apart.ruledOut searching
  cases acked with
  | true =>
    have bracketed := apart.bracketed.onProbeAcked probe.2.2
    rw [report_acked]
    rw [MTUDiscovery.onProbeAcked_searching searching] at bracketed ⊢
    refine apart.settle found own bracketed MTUDiscovery.inFlight_nextLocked (fun _ => ?_) ?_
    · rw [MTUDiscovery.tries_nextLocked]
      exact Nat.zero_le _
    · rw [MTUDiscovery.lowFailed_nextLocked]
      exact ruledOut
  | false =>
    have bracketed := apart.bracketed.onProbeLost probe.2
    have again : mtuProbeTries ≤ p.mtu.tries + 1 →
        mtuProbeTries ≤ (probe.2.1 :: p.lost).count probe.2.1 := by
      rw [same, List.count_cons_self]
      omega
    rw [report_lost i own]
    rw [MTUDiscovery.onProbeLost_searching searching] at bracketed ⊢
    split at bracketed
    · rw [if_pos ‹_›]
      refine apart.settle found own bracketed rfl (fun _ => ?_) ?_
      · dsimp only
        rw [same, List.count_cons_self]
        exact Nat.succ_le_succ counted
      · exact ruledOut.imp_right fun enough => enough.trans (List.count_le_count_cons ..)
    · rw [if_neg ‹_›]
      refine apart.settle found own bracketed MTUDiscovery.inFlight_nextLocked (fun _ => ?_) ?_
      · rw [MTUDiscovery.tries_nextLocked]
        exact Nat.zero_le _
      · rw [MTUDiscovery.lowFailed_nextLocked]
        right
        simp only [MTUDiscovery.lowered]
        rw [if_pos (same ▸ inside.2)]
        exact again (Nat.le_of_not_lt ‹_›)

theorem mtu_report_waiting (bracketed : p.mtu.Bracketed) (waits : p.mtu.retryAt.isSome = true)
    (i : Nat) (acked : Bool) (probe : Nat × { size : Nat // size ≤ maxDatagramSize }) :
    (p.report i probe acked).mtu = p.mtu := by
  have still := bracketed.results_waiting waits probe.2
  cases acked with
  | true => exact still.2 probe.2.2
  | false => exact still.1

theorem SearchesApart.report_waiting (apart : p.SearchesApart) {i : Nat} {acked : Bool}
    {probe : Nat × { size : Nat // size ≤ maxDatagramSize }}
    (found : p.outstanding[i]? = some probe) (waits : p.mtu.retryAt.isSome = true) :
    (p.report i probe acked).SearchesApart := by
  have other : probe.1 ≠ p.search := by
    intro own
    have open' := (apart.tested probe (List.mem_of_getElem? found) own).2
    cases open'.symm.trans (apart.bracketed.waits waits).2.1
  have same : p.report i probe acked = { p with outstanding := p.outstanding.eraseIdx i } := by
    have still := mtu_report_waiting apart.bracketed waits i acked probe
    simp only [report, other, and_false, ↓reduceIte] at still ⊢
    rw [still]
  have kept : (p.outstanding.eraseIdx i).countP (·.1 = p.search) =
      p.outstanding.countP (·.1 = p.search) := by
    rw [← (perm_report found).countP_eq, List.countP_cons_of_neg (by simpa using other)]
  rw [same]
  exact ⟨apart.bracketed, fun probe out => apart.past probe (List.mem_of_mem_eraseIdx out),
    kept.trans apart.one, fun probe out => apart.tested probe (List.mem_of_mem_eraseIdx out),
    apart.counted, apart.ruledOut⟩

theorem SearchesApart.step (apart : p.SearchesApart) {call : Step} (inTime : p.ResultInTime call)
    (taken : p.step call = some p') : p'.SearchesApart := by
  cases stepped_of_step taken with
  | issue now => exact apart.issue now
  | report i acked probe found =>
    rw [ResultInTime, found, Option.all_some, Bool.or_eq_true, beq_iff_eq] at inTime
    rcases inTime with own | waits
    · exact apart.report_own found own
    · exact apart.report_waiting found waits
  | watch _ mtu watched => exact apart.watch watched
  | reset =>
    exact apart.next (MTUDiscovery.bracketed_restartLocked rfl) rfl (fun _ => rfl) fun _ => rfl

/-- Where results of earlier searches' probes come only during black-hole waits,
they change nothing, at most one probe of the current search is outstanding, and
a size is ruled out by as many losses of its own as it takes. -/
theorem searches_kept_apart {steps : List Step}
    (inTime : Runs.Along Prober.step ResultInTime newProber steps)
    (reached : Runs.run Prober.step newProber steps = some p) :
    (∀ i acked probe, p.outstanding[i]? = some probe → probe.1 ≠ p.search →
      p.ResultInTime (.result i acked) → (p.report i probe acked).mtu = p.mtu) ∧
    p.outstanding.countP (·.1 = p.search) ≤ 1 ∧
    (p.mtu.retryAt = none →
      p.mtu.lowFailed = maxDatagramSize + 1 ∨
        mtuProbeTries ≤ p.lost.count p.mtu.lowFailed) := by
  have apart : p.SearchesApart := Runs.invariant SearchesApart
    (fun _ _ _ holds permitted taken => holds.step permitted taken) searchesApart_new inTime reached
  refine ⟨fun i acked probe found other inTime => ?_, ?_, apart.ruledOut⟩
  · rw [ResultInTime, found, Option.all_some, Bool.or_eq_true, beq_iff_eq] at inTime
    exact mtu_report_waiting apart.bracketed (inTime.resolve_left other) i acked probe
  · rw [apart.one]
    split
    · exact Nat.le_refl _
    · exact Nat.zero_le _

/-- A search that rules a size out and validates another, is given up with a probe
outstanding, hears of it during the wait and starts again. -/
theorem searches_kept_apart_after_blackhole :
    ∃ p, Runs.run Prober.step newProber
        [.nextProbe 0, .result 0 false, .nextProbe 0, .result 0 false, .nextProbe 0,
          .result 0 false, .nextProbe 0, .result 0 true, .nextProbe 0, .blackhole 0,
          .result 0 true, .nextProbe blackholeRetry] = some p ∧
      p.outstanding.countP (·.1 = p.search) ≤ 1 ∧
      (p.mtu.retryAt = none →
        p.mtu.lowFailed = maxDatagramSize + 1 ∨
          mtuProbeTries ≤ p.lost.count p.mtu.lowFailed) := by
  have inTime : Runs.Along Prober.step ResultInTime newProber
      [.nextProbe 0, .result 0 false, .nextProbe 0, .result 0 false, .nextProbe 0,
        .result 0 false, .nextProbe 0, .result 0 true, .nextProbe 0, .blackhole 0,
        .result 0 true, .nextProbe blackholeRetry] := by decide +kernel
  exact ⟨_, rfl, (searches_kept_apart inTime rfl).2⟩

/-- After a Reset no wait is pending: the loss of a probe sent before it counts as
a loss of the new search, whose second probe then goes out, and the largest size
is ruled out after two losses of its own. -/
theorem stale_loss_enters_search :
    ∃ p p' p'', Runs.run Prober.step newProber [.nextProbe 0, .reset, .nextProbe 0] = some p ∧
      (p.outstanding[1]?.any fun probe => probe.1 != p.search) = true ∧
      p.step (.result 1 false) = some p' ∧
      p'.mtu.tries = p.mtu.tries + 1 ∧ p.mtu.inFlight = true ∧ p'.mtu.inFlight = false ∧
      p'.step (.nextProbe 0) = some p'' ∧ p''.outstanding.countP (·.1 = p''.search) = 2 ∧
      ∃ q, Runs.run Prober.step p'' [.result 0 false, .result 0 false] = some q ∧
        q.mtu.retryAt = none ∧ q.mtu.lowFailed = maxDatagramSize ∧
        q.lost.count maxDatagramSize = 2 := by
  refine ⟨_, _, _, rfl, rfl, rfl, rfl, rfl, rfl, rfl, rfl, _, rfl, rfl, rfl, rfl⟩

/- Every result uses up some of a search's weight: it closes the bounds in, or it was
for another size, of which ever fewer are outstanding, or it counts a try. -/

/-- How many probes of other sizes are outstanding. -/
def stray (p : Prober) : Nat := p.outstanding.countP (·.2.1 ≠ p.mtu.probe)

/-- What the bounds and the stray probes weigh, with at most `k` probes outstanding. -/
def spread (k : Nat) (p : Prober) : Nat := (p.mtu.gap + p.mtu.first) * (k + 1) + p.stray

def weight (k : Nat) (p : Prober) : Nat :=
  mtuProbeTries * p.spread k - p.mtu.tries

/-- The step starts no other search. -/
def SameSearch (p : Prober) (call : Step) : Prop :=
  call ≠ .reset ∧ ∀ p', p.step call = some p' → p'.mtu.retryAt = p.mtu.retryAt

def Step.isResult : Step → Bool
  | .result _ _ => true
  | _ => false

/-- A search with at most `k` probes outstanding, the next one included. -/
structure Searching (k : Nat) (p : Prober) : Prop where
  bracketed : p.mtu.Bracketed
  searching : p.mtu.retryAt = none
  room : p.outstanding.length + (if p.mtu.inFlight then 0 else 1) ≤ k

theorem reported_report (searching : p.mtu.retryAt = none) (i : Nat) (acked : Bool)
    (probe : Nat × { size : Nat // size ≤ maxDatagramSize }) :
    p.mtu.ResultTaken probe.2 (p.report i probe acked).mtu := by
  cases acked with
  | true => exact MTUDiscovery.reported_onProbeAcked searching probe.2 probe.2.2
  | false => exact MTUDiscovery.reported_onProbeLost searching probe.2

theorem Searching.issue {k : Nat} (searching : p.Searching k) (now : Time) :
    (p.issue now).Searching k ∧ (p.issue now).mtu.done = p.mtu.done ∧
      (p.issue now).weight k = p.weight k := by
  have bracketed := searching.bracketed.nextProbe now
  have probing := p.mtu.probing_nextProbe now
  have room := searching.room
  unfold Prober.issue
  generalize p.mtu.nextProbe now = out at bracketed probing ⊢
  cases probing with
  | wait | none => exact ⟨⟨searching.bracketed, searching.searching, room⟩, rfl, rfl⟩
  | restart retry waits => cases searching.searching.symm.trans waits
  | issue _ open' idle =>
    have inside := searching.bracketed.inside open'
    dsimp only
    rw [if_neg (by omega)]
    rw [idle, if_neg Bool.false_ne_true] at room
    refine ⟨⟨bracketed, searching.searching, room⟩, rfl, ?_⟩
    unfold weight spread stray
    rw [List.countP_cons_of_neg (by simp)]
    rfl

theorem stray_report {i : Nat} {acked : Bool}
    {probe : Nat × { size : Nat // size ≤ maxDatagramSize }}
    (found : p.outstanding[i]? = some probe)
    (same : (p.report i probe acked).mtu.probe = p.mtu.probe) :
    p.stray = (p.report i probe acked).stray + if probe.2.1 ≠ p.mtu.probe then 1 else 0 := by
  unfold stray
  rw [same, ← (perm_report found).countP_eq, List.countP_cons]
  simp only [decide_eq_true_eq]
  rfl

theorem Searching.spread_closesIn {k i : Nat} (searching : p.Searching k)
    (open' : p.mtu.done = false) {acked : Bool}
    {probe : Nat × { size : Nat // size ≤ maxDatagramSize }}
    (found : p.outstanding[i]? = some probe)
    (small : (p.outstanding.eraseIdx i).length + 1 ≤ k) {b : MTUDiscovery}
    (closes : p.mtu.ClosesIn probe.2 b) (chosen : (p.report i probe acked).mtu = b.nextLocked)
    (still : b.nextLocked.done = false) :
    (p.report i probe acked).spread k + 1 ≤ p.spread k := by
  have inside := searching.bracketed.inside open'
  have middle := MTUDiscovery.probe_nextLocked still
  have gap : (p.report i probe acked).mtu.gap = b.gap := by
    rw [MTUDiscovery.gap, chosen, MTUDiscovery.current_nextLocked,
      MTUDiscovery.lowFailed_nextLocked]
    rfl
  have later : (p.report i probe acked).mtu.first = 0 := by
    rw [MTUDiscovery.first, chosen, MTUDiscovery.current_nextLocked,
      MTUDiscovery.lowFailed_nextLocked]
    exact if_pos middle
  have few : (p.report i probe acked).stray ≤ (p.outstanding.eraseIdx i).length :=
    List.countP_le_length
  have weighed : (p.report i probe acked).spread k =
      b.gap * (k + 1) + (p.report i probe acked).stray := by
    rw [spread, gap, later, Nat.add_zero]
  rw [weighed, spread]
  by_cases closer : b.gap + 1 ≤ p.mtu.gap + p.mtu.first
  · have closed := Nat.mul_le_mul_right (k + 1) closer
    rw [Nat.succ_mul] at closed
    omega
  · -- the bounds are where they were: so is the size under test, and the result was
    -- for another size
    have narrow := closes.narrow
    have up := closes.up
    have down := closes.down
    have same : b.gap = p.mtu.gap := by omega
    have none : p.mtu.first = 0 := by omega
    have probe' : (p.report i probe acked).mtu.probe = p.mtu.probe := by
      rw [chosen, middle]
      rw [MTUDiscovery.first, ite_eq_left_iff] at none
      have now : p.mtu.probe = (p.mtu.current + p.mtu.lowFailed) / 2 := by
        by_contra other
        exact one_ne_zero (none other)
      rw [MTUDiscovery.gap, MTUDiscovery.gap] at same
      omega
    have other : probe.2.1 ≠ p.mtu.probe := by
      intro tested
      have := closes.gap_lt (tested ▸ inside.1) (tested ▸ inside.2)
      omega
    have strays := stray_report found probe'
    rw [if_pos other] at strays
    rw [same, none, strays]
    exact Nat.le_refl _

theorem Searching.report {k i : Nat} (searching : p.Searching k) {acked : Bool}
    {probe : Nat × { size : Nat // size ≤ maxDatagramSize }}
    (found : p.outstanding[i]? = some probe) :
    (p.report i probe acked).Searching k ∧
      (p.mtu.done = true → (p.report i probe acked).mtu.done = true) ∧
      ((p.report i probe acked).mtu.done = false →
        (p.report i probe acked).weight k + 1 ≤ p.weight k) := by
  have reported := reported_report searching.searching i acked probe
  have fewer := (perm_report found).length_eq
  rw [List.length_cons] at fewer
  have room := searching.room
  have small : (p.outstanding.eraseIdx i).length + 1 ≤ k := by omega
  have stays := searching.bracketed.done_reported searching.searching
  refine ⟨⟨searching.bracketed.reported searching.searching reported,
    reported.retryAt.trans searching.searching, ?_⟩, fun done => stays done reported, ?_⟩
  · rw [reported.idle]
    exact small
  · intro open'
    have before : p.mtu.done = false := by
      rw [Bool.eq_false_iff]
      intro done
      cases open'.symm.trans (stays done reported)
    have inside := searching.bracketed.inside before
    have few := searching.bracketed.few
    generalize chosen : (p.report i probe acked).mtu = m' at reported
    cases reported with
    | counts again =>
      have same : (p.report i probe acked).mtu.probe = p.mtu.probe := by rw [chosen]
      have strays := stray_report found same
      have bounds : ((p.report i probe acked).mtu.gap + (p.report i probe acked).mtu.first) =
          p.mtu.gap + p.mtu.first := by
        rw [chosen]
        rfl
      have tries : (p.report i probe acked).mtu.tries = p.mtu.tries + 1 := by rw [chosen]
      have wide : 1 * 1 ≤ (p.mtu.gap + p.mtu.first) * (k + 1) :=
        Nat.mul_le_mul (by rw [MTUDiscovery.gap]; omega) (Nat.succ_pos k)
      unfold weight spread
      rw [bounds, tries, strays]
      generalize (p.mtu.gap + p.mtu.first) * (k + 1) = spread at wide
      rw [mtuProbeTries] at few ⊢
      omega
    | closesIn b closes =>
      have lighter := searching.spread_closesIn before found small closes chosen
        (by rw [← chosen]; exact open')
      have untried : (p.report i probe acked).mtu.tries = 0 := by
        rw [chosen, MTUDiscovery.tries_nextLocked, closes.tries]
      unfold weight
      rw [untried]
      exact MTUDiscovery.tries_lt lighter few

theorem Searching.step {k : Nat} (searching : p.Searching k) {call : Step}
    (unbroken : p.SameSearch call) (taken : p.step call = some p') :
    p'.Searching k ∧ (p.mtu.done = true → p'.mtu.done = true) ∧
      (p'.mtu.done = false →
        p'.weight k + (if call.isResult then 1 else 0) ≤ p.weight k) := by
  have still := unbroken.2 p' taken
  cases stepped_of_step taken with
  | issue now =>
    obtain ⟨kept, done, same⟩ := searching.issue now
    exact ⟨kept, fun over' => done.trans over', fun _ => Nat.le_of_eq same⟩
  | report i acked probe found => exact searching.report found
  | watch _ mtu watched other =>
    have quiet : call.isResult = false := by
      cases call with
      | result i acked => exact absurd rfl (other i acked)
      | _ => rfl
    rw [quiet]
    cases watched with
    | counts n =>
      rw [watch_counts]
      exact ⟨⟨searching.bracketed.watched (.counts n), searching.searching, searching.room⟩, id,
        fun _ => Nat.le_refl _⟩
    | fallsBack _ high waits =>
      rw [watch_fallsBack searching.searching waits, searching.searching] at still
      rw [still] at waits
      cases waits
  | reset => exact absurd rfl unbroken.1

/-- Between restarts, every result is paid for by the weight of the search. -/
theorem Searching.run {k : Nat} (searching : p.Searching k) {steps : List Step}
    (unbroken : Runs.Along Prober.step SameSearch p steps)
    (reached : Runs.run Prober.step p steps = some p') :
    p'.Searching k ∧ (p.mtu.done = true → p'.mtu.done = true) ∧
      (p'.mtu.done = false → p'.weight k + steps.countP Step.isResult ≤ p.weight k) := by
  induction steps generalizing p with
  | nil =>
    obtain rfl := Option.some.inj reached
    exact ⟨searching, id, fun _ => Nat.le_refl _⟩
  | cons call rest ih =>
    rw [Runs.run_cons] at reached
    obtain ⟨mid, taken, later⟩ := Option.bind_eq_some_iff.mp reached
    obtain ⟨kept, stays, less⟩ := searching.step unbroken.1 taken
    obtain ⟨ends, over', bound⟩ := ih kept (unbroken.2 mid taken) later
    refine ⟨ends, over' ∘ stays, fun open' => ?_⟩
    have before : mid.mtu.done = false := by
      rw [Bool.eq_false_iff]
      intro done
      cases open'.symm.trans (over' done)
    have first := less before
    have rest := bound open'
    rw [List.countP_cons]
    omega

/-- A search still open has had few results, whatever they were for. -/
theorem results_lt_of_open {steps : List Step} (bracketed : p.mtu.Bracketed)
    (searching : p.mtu.retryAt = none) (unbroken : Runs.Along Prober.step SameSearch p steps)
    (reached : Runs.run Prober.step p steps = some p') (open' : p'.mtu.done = false) :
    steps.countP Step.isResult <
      mtuProbeTries * ((p.mtu.gap + 2) * (p.outstanding.length + 2)) := by
  have start : p.Searching (p.outstanding.length + 1) := by
    refine ⟨bracketed, searching, ?_⟩
    split <;> omega
  obtain ⟨ends, -, bound⟩ := start.run unbroken reached
  have inside := ends.bracketed.inside open'
  have few := ends.bracketed.few
  have left := bound open'
  have most : p.mtu.first ≤ 1 := by
    unfold MTUDiscovery.first
    split <;> omega
  have strays : p.stray ≤ p.outstanding.length := List.countP_le_length
  have top :=
    calc p.spread (p.outstanding.length + 1)
        ≤ (p.mtu.gap + 1) * (p.outstanding.length + 2) + (p.outstanding.length + 2) :=
          Nat.add_le_add (Nat.mul_le_mul_right _ (Nat.add_le_add_left most _)) (by omega)
      _ = (p.mtu.gap + 2) * (p.outstanding.length + 2) := (Nat.succ_mul _ _).symm
  have wide : 1 * 1 ≤ (p'.mtu.gap + p'.mtu.first) * (p.outstanding.length + 1 + 1) :=
    Nat.mul_le_mul (by rw [MTUDiscovery.gap]; omega) (Nat.succ_pos _)
  have paid := Nat.mul_le_mul_left mtuProbeTries top
  have some' : p'.mtu.tries < mtuProbeTries * p'.spread (p.outstanding.length + 1) := by
    refine few.trans_le (Nat.le_mul_of_pos_right _ ?_)
    rw [spread]
    omega
  unfold weight at left
  omega

end Prober

namespace MTUDiscovery

def after (ops : List Op) : MTUDiscovery := ops.foldl MTUDiscovery.apply newMTUDiscovery

/-- Whatever the calls: the validated size stays in range, the size under test
between the bounds, and nothing is probed during a black-hole wait. Outside a
wait the search is over exactly when the bounds are close, and one that is not
over has a probe in flight or sends one. An answer counts a try or closes the
bounds in, and a search whose bounds are `mtuSearchStep * 2 ^ k` apart is over
after the tries of `k + 1` sizes, and what results for other sizes undo. Where a
probe gets one result only, an open search has had few results of any kind. -/
theorem search_stays_bracketed_and_ends (ops : List Op) :
    (safeDatagramSize ≤ (after ops).current ∧ (after ops).current ≤ maxDatagramSize) ∧
    ((after ops).done = true ↔ (after ops).probe = 0) ∧
    ((after ops).done = false →
      (after ops).current < (after ops).probe ∧ (after ops).probe < (after ops).lowFailed ∧
        (after ops).lowFailed ≤ maxDatagramSize + 1) ∧
    (∀ retry, (after ops).retryAt = some retry →
      (after ops).current = safeDatagramSize ∧
        ∀ now < retry, (after ops).nextProbe now = (after ops, ⟨0, Nat.zero_le _⟩)) ∧
    ((after ops).retryAt = none →
      ((after ops).done = true ↔
        (after ops).lowFailed ≤ (after ops).current + mtuSearchStep)) ∧
    ((after ops).done = false → (after ops).inFlight = false → ∀ now,
      (after ops).nextProbe now =
        ({ after ops with inFlight := true }, ⟨(after ops).probe, (after ops).probeTop⟩)) ∧
    (∀ op, (after ops).answers op = true →
      (((after ops).apply op).tries = (after ops).tries + 1 ∧
          ((after ops).apply op).tries < mtuProbeTries ∧
          ((after ops).apply op).gap = (after ops).gap) ∨
        ((after ops).apply op).gap < (after ops).gap) ∧
    (∀ k later, (after ops).gap ≤ mtuSearchStep * 2 ^ k → (after ops).retryAt = none →
      (after ops).NoRestart later →
      mtuProbeTries * (k + 1) + (mtuProbeTries - 1) * (after ops).tally strays later ≤
          (after ops).tally answers later →
        (after (ops ++ later)).done = true ∧
          (after (ops ++ later)).lowFailed ≤ (after (ops ++ later)).current + mtuSearchStep) ∧
    ∀ (p p' : Prober) (steps : List Prober.Step), p.mtu = after ops → p.mtu.retryAt = none →
      Runs.Along Prober.step Prober.SameSearch p steps → Runs.run Prober.step p steps = some p' →
      p'.mtu.done = false →
        steps.countP Prober.Step.isResult <
          mtuProbeTries * ((p.mtu.gap + 2) * (p.outstanding.length + 2)) := by
  have bracketed : (after ops).Bracketed := bracketed_run bracketed_new ops
  refine ⟨⟨(after ops).base, (after ops).top⟩, bracketed.ended, fun open' => ?_,
    fun retry waits => ⟨?_, fun now before => ?_⟩, bracketed.close, fun open' idle now => ?_,
    fun op => bracketed.answer, fun k later narrow searching steady enough => ?_, ?_⟩
  · exact ⟨(bracketed.inside open').1, (bracketed.inside open').2, (after ops).lowTop⟩
  · exact (bracketed.waits (by rw [waits]; rfl)).1
  · have probing := (after ops).probing_nextProbe now
    generalize (after ops).nextProbe now = out at probing ⊢
    cases probing with
    | wait | none => rfl
    | restart other waits' passed =>
      cases waits.symm.trans waits'
      exact absurd passed (Int.not_le.mpr before)
    | issue searching => cases waits.symm.trans searching
  · have searching := bracketed.searching_of_open open'
    have probing := (after ops).probing_nextProbe now
    generalize (after ops).nextProbe now = out at probing ⊢
    cases probing with
    | wait retry waits => cases searching.symm.trans waits
    | none _ busy =>
      rw [open', idle] at busy
      cases busy <;> contradiction
    | restart retry waits => cases searching.symm.trans waits
    | issue => rfl
  · have after' : after (ops ++ later) = later.foldl MTUDiscovery.apply (after ops) :=
      List.foldl_append
    obtain ⟨still, bound⟩ := bracketed.left_run searching steady
    have ends := bracketed_run bracketed later
    have most := left_le_of_gap_le narrow
    rw [after']
    have done := ends.done_of_left (by omega)
    exact ⟨done, (ends.close still).mp done⟩
  · intro p p' steps same searching unbroken reached open'
    exact Prober.results_lt_of_open (same ▸ bracketed) searching unbroken reached open'

/-- The six sizes a search tests on a path that carries no more than the base, each
lost as often as it takes. -/
def baseLosses : List Op :=
  [1472, 1336, 1268, 1234, 1217, 1208].flatMap fun size =>
    List.replicate mtuProbeTries (.probeLost size)

/-- On such a path the bound is reached: the search is open up to the last of
these answers, and over with it. -/
theorem search_ends_at_base :
    newMTUDiscovery.tally answers baseLosses = mtuProbeTries * (5 + 1) ∧
      (after baseLosses.dropLast).done = false ∧
      (after baseLosses).done = true ∧
      (after baseLosses).lowFailed ≤ (after baseLosses).current + mtuSearchStep := by
  have ends := (search_stays_bracketed_and_ends []).2.2.2.2.2.2.2.1 5 baseLosses
    (by decide) rfl (by decide) (by decide)
  exact ⟨by decide, by decide, ends⟩

end MTUDiscovery

end Udx
