import Udx.Lib.Runs

set_option autoImplicit false

/- Callers that sleep on the condition variables of one lock. A critical section may
broadcast conditions and put its own caller to sleep at its end; whoever is woken
looks again in a critical section of its own. -/

namespace Monitor

variable {Shared Cond Note Step : Type*}

/-- What the lock guards, and who is asleep: on which condition, and with what noted on
the way to sleep. -/
structure Room (Shared Cond Note : Type*) where
  shared : Shared
  asleep : List (Cond × Note) := []

/-- What a critical section leaves behind. -/
structure Outcome (Shared Cond Note : Type*) where
  shared : Shared
  wakes : List Cond := []
  sleeps : Option (Cond × Note) := none

/-- Everyone asleep has reason to be. -/
def Room.Justified (reason : Shared → Cond × Note → Prop) (r : Room Shared Cond Note) : Prop :=
  ∀ p ∈ r.asleep, reason r.shared p

variable [DecidableEq Cond]

def Room.after (r : Room Shared Cond Note) (o : Outcome Shared Cond Note) :
    Room Shared Cond Note where
  shared := o.shared
  asleep := o.sleeps.toList ++ r.asleep.filter fun p => p.1 ∉ o.wakes

/-- The machine whose steps are critical sections; one may be refused. -/
def step (critical : Shared → Step → Option (Outcome Shared Cond Note))
    (r : Room Shared Cond Note) (i : Step) : Option (Room Shared Cond Note) :=
  (critical r.shared i).map r.after

variable {reason : Shared → Cond × Note → Prop} {r r' : Room Shared Cond Note}
  {o : Outcome Shared Cond Note}

theorem Room.mem_after {p : Cond × Note} (asleep : p ∈ (r.after o).asleep) :
    p ∈ o.sleeps ∨ p ∈ r.asleep ∧ p.1 ∉ o.wakes := by
  rcases List.mem_append.mp asleep with own | other
  · exact .inl (Option.mem_toList.mp own)
  · obtain ⟨before, unwoken⟩ := List.mem_filter.mp other
    exact .inr ⟨before, of_decide_eq_true unwoken⟩

/-- A section that takes away a reason to sleep broadcasts, and its own caller goes to
sleep with reason. -/
theorem Room.Justified.after (justified : r.Justified reason)
    (others : ∀ p ∈ r.asleep, p.1 ∉ o.wakes → reason r.shared p → reason o.shared p)
    (own : ∀ p ∈ o.sleeps, reason o.shared p) : (r.after o).Justified reason := by
  intro p asleep
  rcases mem_after asleep with mine | ⟨before, unwoken⟩
  · exact own p mine
  · exact others p before unwoken (justified p before)

/-- No wakeup is lost: every section that takes away a reason to sleep broadcasts. -/
structure WakesAll (critical : Shared → Step → Option (Outcome Shared Cond Note))
    (Inv : Shared → Prop) (reason : Shared → Cond × Note → Prop) : Prop where
  keeps : ∀ {x : Shared} {i : Step} {o : Outcome Shared Cond Note}, Inv x → critical x i = some o →
    Inv o.shared
  others : ∀ {x : Shared} {i : Step} {o : Outcome Shared Cond Note}, Inv x →
    critical x i = some o → ∀ p, p.1 ∉ o.wakes → reason x p → reason o.shared p
  own : ∀ {x : Shared} {i : Step} {o : Outcome Shared Cond Note}, critical x i = some o →
    ∀ p ∈ o.sleeps, reason o.shared p

theorem WakesAll.run {critical : Shared → Step → Option (Outcome Shared Cond Note)}
    {Inv : Shared → Prop} (wakesAll : WakesAll critical Inv reason) (inv : Inv r.shared)
    (justified : r.Justified reason) {steps : List Step}
    (reached : Runs.run (step critical) r steps = some r') :
    Inv r'.shared ∧ r'.Justified reason := by
  refine Runs.invariant_of_forall (fun r => Inv r.shared ∧ r.Justified reason) ?_
    ⟨inv, justified⟩ reached
  rintro r i r' ⟨inv, justified⟩ taken
  obtain ⟨o, entered, rfl⟩ := Option.map_eq_some_iff.mp taken
  exact ⟨wakesAll.keeps inv entered, justified.after (fun p _ => wakesAll.others inv entered p)
    (wakesAll.own entered)⟩

end Monitor
