import Mathlib.Logic.Basic

set_option autoImplicit false

/- Computations that end in an error, some of whose errors must never happen. -/

namespace Faults

variable {ε δ α β : Type} {bad : ε → Prop}

/-- If the computation fails, it is not with a bad error. -/
def Free (bad : ε → Prop) (x : Except ε α) : Prop := ∀ e, x = .error e → ¬ bad e

theorem free_ok (a : α) : Free bad (.ok a : Except ε α) := by
  intro e failed
  cases failed

theorem free_error {e : ε} (fine : ¬ bad e) : Free bad (.error e : Except ε α) := by
  intro e' failed
  cases failed
  exact fine

/-- The rest runs only on what the first part returned. -/
theorem Free.bind {x : Except ε α} {next : α → Except ε β} (first : Free bad x)
    (rest : ∀ a, x = .ok a → Free bad (next a)) : Free bad (x >>= next) := by
  cases x with
  | error e => exact free_error (first e rfl)
  | ok a => exact rest a rfl

/-- A check that fails with a harmless error; what follows may rely on it. -/
theorem free_guard {c : Prop} [Decidable c] {e : ε} {next : PUnit → Except ε α} (fine : ¬ bad e)
    (rest : ¬ c → Free bad (next ⟨⟩)) : Free bad (if c then throw e >>= next else next ⟨⟩) := by
  split
  · exact free_error fine
  · exact rest ‹_›

theorem Free.mapError {wrap : ε → δ} {worse : δ → Prop} {x : Except ε α} (free : Free bad x)
    (same : ∀ e, worse (wrap e) → bad e) : Free worse (x.mapError wrap) := by
  cases x with
  | error e => exact free_error fun broken => free e rfl (same e broken)
  | ok a => exact free_ok a

end Faults
