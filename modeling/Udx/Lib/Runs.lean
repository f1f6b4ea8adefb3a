import Mathlib.Algebra.Order.Ring.Nat
import Mathlib.Data.List.Basic
import Mathlib.Data.List.Induction

set_option autoImplicit false

/- Runs of a guarded machine: a step is refused where its guard fails. -/

namespace Runs

variable {State Step : Type*} (step : State → Step → Option State)

/-- The state after the steps, none of which may be refused. -/
def run (s : State) (steps : List Step) : Option State := steps.foldlM step s

/-- Every step is taken where `Permitted` allows it. -/
def Along (Permitted : State → Step → Prop) : State → List Step → Prop
  | _, [] => True
  | s, i :: rest => Permitted s i ∧ ∀ s', step s i = some s' → Along Permitted s' rest

instance decidableAlong (Permitted : State → Step → Prop) [∀ s i, Decidable (Permitted s i)] :
    (s : State) → (steps : List Step) → Decidable (Along step Permitted s steps)
  | _, [] => .isTrue trivial
  | s, i :: rest =>
    match taken : step s i with
    | none =>
      decidable_of_iff (Permitted s i) (by simp [Along, taken])
    | some s' =>
      have := decidableAlong Permitted s' rest
      decidable_of_iff (Permitted s i ∧ Along step Permitted s' rest) (by simp [Along, taken])

variable {step} {Permitted : State → Step → Prop} (Inv : State → Prop)

@[simp] theorem run_nil (s : State) : run step s [] = some s := rfl

theorem run_cons (s : State) (i : Step) (rest : List Step) :
    run step s (i :: rest) = (step s i).bind fun s' => run step s' rest := rfl

theorem run_append (s : State) (first second : List Step) :
    run step s (first ++ second) = (run step s first).bind fun s' => run step s' second :=
  List.foldlM_append

/-- What every permitted step keeps holds at the end of every permitted run. -/
theorem invariant (keep : ∀ s i s', Inv s → Permitted s i → step s i = some s' → Inv s')
    {s s' : State} {steps : List Step} (holds : Inv s) (along : Along step Permitted s steps)
    (reached : run step s steps = some s') : Inv s' := by
  induction steps generalizing s with
  | nil =>
    rw [run_nil, Option.some.injEq] at reached
    exact reached ▸ holds
  | cons i rest ih =>
    rw [run_cons] at reached
    obtain ⟨mid, taken, later⟩ := Option.bind_eq_some_iff.mp reached
    exact ih (keep s i mid holds along.1 taken) (along.2 mid taken) later

theorem Along.append {s mid : State} {first second : List Step}
    (along : Along step Permitted s (first ++ second)) (reached : run step s first = some mid) :
    Along step Permitted s first ∧ Along step Permitted mid second := by
  induction first generalizing s with
  | nil =>
    rw [run_nil, Option.some.injEq] at reached
    exact ⟨trivial, reached ▸ along⟩
  | cons i rest ih =>
    rw [run_cons] at reached
    obtain ⟨next, taken, later⟩ := Option.bind_eq_some_iff.mp reached
    refine ⟨⟨along.1, fun s' other => ?_⟩, (ih (along.2 next taken) later).2⟩
    rw [taken, Option.some.injEq] at other
    exact other ▸ (ih (along.2 next taken) later).1

theorem Along.and {Other : State → Step → Prop} {s : State} {steps : List Step}
    (first : Along step Permitted s steps) (second : Along step Other s steps) :
    Along step (fun s i => Permitted s i ∧ Other s i) s steps := by
  induction steps generalizing s with
  | nil => trivial
  | cons i rest ih =>
    exact ⟨⟨first.1, second.1⟩, fun s' taken => ih (first.2 s' taken) (second.2 s' taken)⟩

/-- A fact about the steps taken and the state reached holds after every
permitted run if the next permitted step always carries it on. -/
theorem trace_invariant {s : State} (Fact : List Step → State → Prop) (holds : Fact [] s)
    (keep : ∀ steps t i t', run step s steps = some t → Fact steps t → Permitted t i →
      step t i = some t' → Fact (steps ++ [i]) t')
    {t : State} {steps : List Step} (along : Along step Permitted s steps)
    (reached : run step s steps = some t) : Fact steps t := by
  induction steps using List.reverseRecOn generalizing t with
  | nil =>
    rw [run_nil, Option.some.injEq] at reached
    exact reached ▸ holds
  | append_singleton before i ih =>
    rw [run_append] at reached
    obtain ⟨mid, earlier, last⟩ := Option.bind_eq_some_iff.mp reached
    obtain ⟨first, permitted⟩ := along.append earlier
    rw [run_cons] at last
    obtain ⟨t', taken, done⟩ := Option.bind_eq_some_iff.mp last
    rw [run_nil, Option.some.injEq] at done
    exact done ▸ keep before mid i t' earlier (ih first earlier) permitted.1 taken

theorem along_of_forall {steps : List Step} (each : ∀ i ∈ steps, ∀ s, Permitted s i) (s : State) :
    Along step Permitted s steps := by
  induction steps generalizing s with
  | nil => trivial
  | cons i rest ih =>
    obtain ⟨here, later⟩ := List.forall_mem_cons.mp each
    exact ⟨here s, fun s' _ => ih later s'⟩

theorem along_true (s : State) (steps : List Step) : Along step (fun _ _ => True) s steps :=
  along_of_forall (fun _ _ _ => trivial) s

/-- What every step keeps holds at the end of every run. -/
theorem invariant_of_forall (keep : ∀ s i s', Inv s → step s i = some s' → Inv s')
    {s s' : State} {steps : List Step} (holds : Inv s) (reached : run step s steps = some s') :
    Inv s' :=
  invariant Inv (fun s i s' holds _ => keep s i s' holds) holds (along_true s steps) reached

/-- Where a step keeps `Good` if and only if it is permitted, `Good` holds all the
way through a run if and only if every step is permitted. -/
theorem always_iff_along {Assumed : State → Step → Prop} {Good : State → Prop}
    (exact : ∀ s i s', Good s → Assumed s i → step s i = some s' → (Good s' ↔ Permitted s i))
    (refused : ∀ s i, step s i = none → Permitted s i) {s : State} {steps : List Step}
    (assumed : Along step Assumed s steps) (good : Good s) :
    (∀ before, before <+: steps → ∀ s', run step s before = some s' → Good s') ↔
      Along step Permitted s steps := by
  induction steps generalizing s with
  | nil =>
    refine iff_of_true (fun before within s' reached => ?_) trivial
    rw [List.prefix_nil.mp within, run_nil, Option.some.injEq] at reached
    exact reached ▸ good
  | cons i rest ih =>
    constructor
    · intro always
      have here (s' : State) (taken : step s i = some s') : Good s' := by
        refine always [i] (List.prefix_cons_inj i |>.mpr rest.nil_prefix) s' ?_
        rw [run_cons, taken]
        rfl
      refine ⟨?_, fun s' taken => (ih (assumed.2 s' taken) (here s' taken)).mp ?_⟩
      · cases taken : step s i with
        | none => exact refused s i taken
        | some s' => exact (exact s i s' good assumed.1 taken).mp (here s' taken)
      · intro before within t reached
        refine always (i :: before) ((List.prefix_cons_inj i).mpr within) t ?_
        rw [run_cons, taken]
        exact reached
    · rintro ⟨permitted, later⟩ before within t reached
      cases before with
      | nil =>
        rw [run_nil, Option.some.injEq] at reached
        exact reached ▸ good
      | cons j before =>
        obtain ⟨rfl, inner⟩ := List.cons_prefix_cons.mp within
        rw [run_cons] at reached
        obtain ⟨s', taken, reached⟩ := Option.bind_eq_some_iff.mp reached
        have good' := (exact s j s' good assumed.1 taken).mpr permitted
        exact (ih (assumed.2 s' taken) good').mpr (later s' taken) before inner t reached

/-- A run that ends where a test passes, found by evaluating it. -/
theorem reaches_of_any {s : State} {steps : List Step} {test : State → Bool}
    (passes : (run step s steps).any test = true) :
    ∃ s', run step s steps = some s' ∧ test s' = true := by
  cases reached : run step s steps with
  | none =>
    rw [reached] at passes
    cases passes
  | some s' =>
    rw [reached] at passes
    exact ⟨s', rfl, passes⟩

theorem reaches_step_of_any {s : State} {steps : List Step} {i : Step}
    {test : State → State → Bool}
    (passes : (run step s steps).any (fun t => (step t i).any (test t)) = true) :
    ∃ t t', run step s steps = some t ∧ step t i = some t' ∧ test t t' = true := by
  obtain ⟨t, reached, passes⟩ := reaches_of_any passes
  cases taken : step t i with
  | none =>
    rw [taken] at passes
    cases passes
  | some t' =>
    rw [taken] at passes
    exact ⟨t, t', reached, taken, passes⟩

theorem run_append_singleton {s t t' : State} {steps : List Step} {i : Step}
    (reached : run step s steps = some t) (taken : step t i = some t') :
    run step s (steps ++ [i]) = some t' := by
  rw [run_append, reached, Option.bind_some, run_cons, taken]
  rfl

section

variable {α : Type*} {emit : State → Step → List α}

/-- What the steps of a run give out, each in the state it is taken in. -/
def output (step : State → Step → Option State) (emit : State → Step → List α) :
    State → List Step → List α
  | _, [] => []
  | s, i :: rest => emit s i ++ (step s i).elim [] fun s' => output step emit s' rest

theorem output_append {s t : State} {first : List Step} (reached : run step s first = some t)
    (second : List Step) :
    output step emit s (first ++ second) = output step emit s first ++ output step emit t second := by
  induction first generalizing s with
  | nil =>
    obtain rfl := Option.some.inj reached
    rfl
  | cons i rest ih =>
    rw [run_cons] at reached
    obtain ⟨s', taken, later⟩ := Option.bind_eq_some_iff.mp reached
    rw [List.cons_append, output, output, taken, Option.elim_some, Option.elim_some, ih later,
      List.append_assoc]

theorem output_append_singleton {s t : State} {steps : List Step} {i : Step}
    (reached : run step s steps = some t) :
    output step emit s (steps ++ [i]) = output step emit s steps ++ emit t i := by
  rw [output_append reached, output]
  cases step t i <;> simp [output]

theorem output_grows (s : State) (first second : List Step) :
    output step emit s first <+: output step emit s (first ++ second) := by
  induction first generalizing s with
  | nil => exact List.nil_prefix
  | cons i rest ih =>
    rw [List.cons_append, output, output]
    refine (List.prefix_append_right_inj _).mpr ?_
    cases step s i with
    | none => exact List.nil_prefix
    | some s' => exact ih s'

theorem length_output_le {size : Step → Nat} (bound : ∀ s i, (emit s i).length ≤ size i)
    (s : State) (steps : List Step) : (output step emit s steps).length ≤ (steps.map size).sum := by
  induction steps generalizing s with
  | nil => exact Nat.le_refl 0
  | cons i rest ih =>
    rw [output, List.length_append, List.map_cons, List.sum_cons]
    refine Nat.add_le_add (bound s i) ?_
    cases step s i with
    | none => exact Nat.zero_le _
    | some s' => exact ih s'

/-- The steps of a run, each with the state it is taken in. -/
def history (step : State → Step → Option State) : State → List Step → List (State × Step) :=
  output step fun s i => [(s, i)]

theorem output_eq_flatMap (s : State) (steps : List Step) :
    output step emit s steps = (history step s steps).flatMap fun x => emit x.1 x.2 := by
  induction steps generalizing s with
  | nil => rfl
  | cons i rest ih =>
    rw [history, output, output, List.flatMap_append, List.flatMap_singleton]
    cases step s i with
    | none => rfl
    | some s' => exact congrArg (emit s i ++ ·) (ih s')

end

end Runs
