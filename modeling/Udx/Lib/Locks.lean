import Mathlib.Data.Finset.Max
import Udx.Lib.Runs

set_option autoImplicit false

/- Threads that take and release mutual exclusion locks. A program is written
as its critical sections; a section names where it is and `lock` says what it
holds, so that two sections may share a lock. -/

namespace Locks

variable {Section Lock Op : Type*}

inductive Code (Section : Type*) where
  | skip
  | critical (s : Section) (body : Code Section)
  | seq (first second : Code Section)
  | choose (left right : Code Section)
  | loop (body : Code Section)

/-- What a thread has left to do: code to run, or a section to leave. -/
inductive Item (Section : Type*) where
  | code (c : Code Section)
  | leave (s : Section)

abbrev Thread (Section : Type*) := List (Item Section)

namespace Thread

/-- The sections the thread is inside, innermost first. -/
def held : Thread Section → List Section
  | [] => []
  | .code _ :: rest => held rest
  | .leave s :: rest => s :: held rest

/-- The section the thread is about to enter. -/
def wanted : Thread Section → Option Section
  | .code (.critical s _) :: _ => some s
  | _ => none

/-- One step, with `branch` deciding a choice or another round of a loop. -/
def advance (branch : Bool) : Thread Section → Option (Thread Section)
  | [] => none
  | .leave _ :: rest => some rest
  | .code .skip :: rest => some rest
  | .code (.critical s body) :: rest => some (.code body :: .leave s :: rest)
  | .code (.seq first second) :: rest => some (.code first :: .code second :: rest)
  | .code (.choose left right) :: rest => some (.code (if branch then left else right) :: rest)
  | .code (.loop body) :: rest =>
    some (if branch then .code body :: .code (.loop body) :: rest else rest)

end Thread

inductive Step (Op : Type*) where
  | spawn (op : Op)
  | run (i : Nat) (branch : Bool)

section

variable (lock : Section → Lock) (program : Op → Code Section)

/-- A thread inside the section keeps others out of every section with its
lock. -/
def KeepsOut (t : Thread Section) (s : Section) : Prop := ∃ h ∈ t.held, lock h = lock s

instance [DecidableEq Lock] (t : Thread Section) (s : Section) : Decidable (KeepsOut lock t s) :=
  inferInstanceAs (Decidable (∃ h ∈ t.held, lock h = lock s))

def Blocked (threads : List (Thread Section)) (t : Thread Section) : Prop :=
  ∃ s ∈ t.wanted, ∃ u ∈ threads, KeepsOut lock u s

instance [DecidableEq Lock] (threads : List (Thread Section)) (t : Thread Section) :
    Decidable (Blocked lock threads t) :=
  inferInstanceAs (Decidable (∃ s ∈ t.wanted, ∃ u ∈ threads, KeepsOut lock u s))

variable [DecidableEq Lock]

/-- A new thread starts, or one that need not wait takes a step. -/
def step (threads : List (Thread Section)) : Step Op → Option (List (Thread Section))
  | .spawn op => some (threads ++ [[.code (program op)]])
  | .run i branch =>
    threads[i]?.bind fun t =>
      if Blocked lock threads t then none
      else (t.advance branch).map (threads.set i)

/-- Thread `i` waits for a lock that thread `j` holds. -/
def WaitsFor (threads : List (Thread Section)) (i j : Nat) : Prop :=
  ∃ t ∈ threads[i]?, ∃ s ∈ t.wanted, ∃ u ∈ threads[j]?, KeepsOut lock u s

instance (threads : List (Thread Section)) (i j : Nat) : Decidable (WaitsFor lock threads i j) :=
  inferInstanceAs (Decidable (∃ t ∈ threads[i]?, ∃ s ∈ t.wanted, ∃ u ∈ threads[j]?, KeepsOut lock u s))

/-- Some threads all wait for locks that others of them hold. -/
def Deadlocked (threads : List (Thread Section)) : Prop :=
  ∃ stuck : Finset Nat, stuck.Nonempty ∧
    ∀ i ∈ stuck, ∃ j ∈ stuck, j ≠ i ∧ WaitsFor lock threads i j

end

/-- A measure that grows from every waiting thread to the one it waits for, if
that one waits too, rules deadlock out. -/
theorem not_deadlocked_of_climbs {lock : Section → Lock} [DecidableEq Lock]
    {threads : List (Thread Section)} (height : Thread Section → Section → Nat)
    (climbs : ∀ t ∈ threads, ∀ u ∈ threads, ∀ s ∈ t.wanted, ∀ r ∈ u.wanted,
      KeepsOut lock u s → height t s < height u r) :
    ¬ Deadlocked lock threads := by
  rintro ⟨stuck, nonempty, waits⟩
  -- The thread of greatest height would have to wait for a higher one.
  let top (i : Nat) : Nat :=
    match threads[i]? with
    | none => 0
    | some t => (t.wanted.map (height t)).getD 0
  obtain ⟨i, member, highest⟩ := stuck.exists_max_image top nonempty
  obtain ⟨j, other, -, t, thread, s, wants, u, holder, holds⟩ := waits i member
  obtain ⟨-, -, -, u', holder', r, wants', -⟩ := waits j other
  obtain rfl : u' = u := Option.some.inj (holder'.symm.trans holder)
  have step := climbs t (List.mem_of_getElem? thread) u' (List.mem_of_getElem? holder) s wants r
    wants' holds
  have bound := highest j other
  simp only [top, Option.mem_def.mp thread, Option.mem_def.mp holder, Option.mem_def.mp wants,
    Option.mem_def.mp wants', Option.map_some, Option.getD_some] at bound
  omega

theorem deadlocked_of_mutual {lock : Section → Lock} [DecidableEq Lock]
    {threads : List (Thread Section)} {i j : Nat} (distinct : i ≠ j)
    (forth : WaitsFor lock threads i j) (back : WaitsFor lock threads j i) :
    Deadlocked lock threads := by
  refine ⟨{i, j}, ⟨i, by simp⟩, fun k member => ?_⟩
  rcases Finset.mem_insert.mp member with rfl | last
  · exact ⟨j, by simp, distinct.symm, forth⟩
  · obtain rfl := Finset.mem_singleton.mp last
    exact ⟨i, by simp, distinct, back⟩

/-- Inside `held`, the code enters sections only as `edge` allows. -/
def Nested (edge : Section → Section → Prop) : List Section → Code Section → Prop
  | _, .skip => True
  | held, .critical s body => (∀ h ∈ held, edge h s) ∧ Nested edge (s :: held) body
  | held, .seq first second => Nested edge held first ∧ Nested edge held second
  | held, .choose left right => Nested edge held left ∧ Nested edge held right
  | held, .loop body => Nested edge held body

/-- The same of what a thread has left to do. -/
def NestedThread (edge : Section → Section → Prop) : Thread Section → Prop
  | [] => True
  | .code c :: rest => Nested edge (Thread.held rest) c ∧ NestedThread edge rest
  | .leave s :: rest => (∀ h ∈ Thread.held rest, edge h s) ∧ NestedThread edge rest

variable {edge : Section → Section → Prop}

theorem NestedThread.advance {t t' : Thread Section} {branch : Bool} (nests : NestedThread edge t)
    (taken : t.advance branch = some t') : NestedThread edge t' := by
  unfold Thread.advance at taken
  split at taken
  · cases taken
  · cases taken
    exact nests.2
  · cases taken
    exact nests.2
  · cases taken
    exact ⟨nests.1.2, nests.1.1, nests.2⟩
  · cases taken
    exact ⟨nests.1.1, nests.1.2, nests.2⟩
  · cases taken
    cases branch
    · exact ⟨nests.1.2, nests.2⟩
    · exact ⟨nests.1.1, nests.2⟩
  · cases taken
    cases branch
    · exact nests.2
    · exact ⟨nests.1, nests.1, nests.2⟩

theorem NestedThread.wanted {t : Thread Section} {s : Section} (nests : NestedThread edge t)
    (wants : s ∈ t.wanted) : ∀ h ∈ t.held, edge h s := by
  unfold Thread.wanted at wants
  split at wants
  · cases wants
    exact nests.1.1
  · cases wants

theorem NestedThread.pairwise {t : Thread Section} (nests : NestedThread edge t) :
    t.held.Pairwise fun inner outer => edge outer inner := by
  induction t with
  | nil => exact List.Pairwise.nil
  | cons item rest ih =>
    cases item with
    | code c => exact ih nests.2
    | leave s => exact List.Pairwise.cons nests.1 (ih nests.2)

theorem nestedThread_of_run {lock : Section → Lock} [DecidableEq Lock] {program : Op → Code Section}
    (nested : ∀ op, Nested edge [] (program op)) {steps : List (Step Op)}
    {threads : List (Thread Section)} (reached : Runs.run (step lock program) [] steps = some threads) :
    ∀ t ∈ threads, NestedThread edge t := by
  refine Runs.invariant_of_forall (fun threads => ∀ t ∈ threads, NestedThread edge t) ?_
    (fun t none => absurd none List.not_mem_nil) reached
  intro threads i threads' all taken
  cases i with
  | spawn op =>
    cases taken
    intro t member
    rcases List.mem_append.mp member with old | new
    · exact all t old
    · obtain rfl := List.mem_singleton.mp new
      exact ⟨nested op, trivial⟩
  | run i branch =>
    obtain ⟨t, thread, taken⟩ := Option.bind_eq_some_iff.mp taken
    simp only [Option.ite_none_left_eq_some] at taken
    obtain ⟨t', moved, rfl⟩ := Option.map_eq_some_iff.mp taken.2
    intro u member
    rcases List.mem_or_eq_of_mem_set member with old | rfl
    · exact all u old
    · exact (all t (List.mem_of_getElem? thread)).advance moved

end Locks
