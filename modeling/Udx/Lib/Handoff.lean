import Mathlib.Data.List.Basic

set_option autoImplicit false

/- A bounded queue between those who enter items without waiting and those who
take them. -/

namespace Handoff

variable {α : Type*}

/-- A send that does not wait: a full queue drops the item. -/
def offer (capacity : Nat) (queue : List α) (x : α) : List α :=
  if queue.length < capacity then queue ++ [x] else queue

theorem offer_of_room {capacity : Nat} {queue : List α} (room : queue.length < capacity) (x : α) :
    offer capacity queue x = queue ++ [x] :=
  if_pos room

/-- The queue between everything entered so far and everything taken so far. -/
structure Desk (α : Type*) where
  entered : List α
  queue : List α
  taken : List α

namespace Desk

inductive Step (capacity : Nat) : Desk α → Desk α → Prop
  | rest (d : Desk α) : Step capacity d d
  | enter (d : Desk α) (x : α) :
    Step capacity d ⟨d.entered ++ [x], offer capacity d.queue x, d.taken⟩
  | take (d : Desk α) (x : α) (queue : List α) (front : d.queue = x :: queue) :
    Step capacity d ⟨d.entered, queue, d.taken ++ [x]⟩

/-- What was entered has been taken or still waits, in the order it came. -/
def InOrder (d : Desk α) : Prop := d.entered = d.taken ++ d.queue

variable {capacity : Nat} {d d' : Desk α}

theorem InOrder.step (inOrder : d.InOrder) (step : Step capacity d d')
    (room : d'.entered ≠ d.entered → d.queue.length < capacity) : d'.InOrder := by
  unfold InOrder at inOrder ⊢
  cases step with
  | rest => exact inOrder
  | enter x =>
    have grown : d.entered ++ [x] ≠ d.entered := fun same => by
      have := congrArg List.length same
      rw [List.length_append, List.length_singleton] at this
      omega
    show d.entered ++ [x] = d.taken ++ offer capacity d.queue x
    rw [offer_of_room (room grown), inOrder, List.append_assoc]
  | take x queue front =>
    show d.entered = d.taken ++ [x] ++ queue
    rw [inOrder, front, List.append_assoc, List.singleton_append]

end Desk

end Handoff
