import Mathlib.Data.List.Basic

/-!
# Mutex and condition variable without interleaving

The calls of one `mutex` or `condition_variable` as functions, for code in
which no two calls overlap.  A stack of awaiters is the list of their handles,
newest first, so the reversal loops are `List.reverse`.
-/

namespace CoContext.Sequential

/-- A `mutex`; `awaiting` is `none` if it is `not_locked`, and otherwise the
stack above `locked_no_awaiting`. -/
structure Mutex (Handle : Type*) where
  awaiting : Option (List Handle)
  toResume : List Handle

namespace Mutex

variable {Handle : Type*}

def new (Handle : Type*) : Mutex Handle where
  awaiting := none
  toResume := []

/-- `register_awaiting`, with its result: does the coroutine suspend? -/
def registerAwaiting (mutex : Mutex Handle) (handle : Handle) :
    Bool × Mutex Handle :=
  match mutex.awaiting with
  | none => (false, { mutex with awaiting := some [] })
  | some stack => (true, { mutex with awaiting := some (handle :: stack) })

/-- `unlock`, with the handle it spawns; there is no result if an assertion
fails. -/
def unlock (mutex : Mutex Handle) : Option (Option Handle × Mutex Handle) :=
  match mutex.awaiting, mutex.toResume with
  | none, _ => none
  | some _, head :: rest => some (some head, { mutex with toResume := rest })
  | some stack, [] =>
      match stack.reverse with
      | [] => some (none, { mutex with awaiting := none })
      | head :: rest => some (some head, ⟨some [], rest⟩)

/-- The waiting coroutines in the order in which they will own the mutex. -/
def line (mutex : Mutex Handle) : List Handle :=
  mutex.toResume ++ (mutex.awaiting.getD []).reverse

/-- A coroutine takes a free mutex. -/
theorem registerAwaiting_free {mutex : Mutex Handle}
    (isFree : mutex.awaiting = none) (handle : Handle) :
    ∃ taken, mutex.registerAwaiting handle = (false, taken) ∧
      taken.awaiting.isSome ∧ taken.line = mutex.line := by
  refine ⟨_, by rw [registerAwaiting, isFree], rfl, ?_⟩
  rw [line, line, isFree]
  rfl

/-- A coroutine joins the end of the line of a locked mutex. -/
theorem registerAwaiting_locked {mutex : Mutex Handle}
    (isLocked : mutex.awaiting.isSome) (handle : Handle) :
    ∃ joined, mutex.registerAwaiting handle = (true, joined) ∧
      joined.awaiting.isSome ∧ joined.line = mutex.line ++ [handle] := by
  obtain ⟨stack, isStack⟩ := Option.isSome_iff_exists.mp isLocked
  refine ⟨_, by rw [registerAwaiting, isStack], rfl, ?_⟩
  simp [line, isStack]

/-- `unlock` frees the mutex if nobody waits, and otherwise passes it to the
first in line. -/
theorem unlock_locked {mutex : Mutex Handle}
    (isLocked : mutex.awaiting.isSome) :
    ∃ spawned left, mutex.unlock = some (spawned, left) ∧
      mutex.line = spawned.toList ++ left.line ∧
      left.awaiting.isSome = spawned.isSome ∧
      (spawned = none → left.line = []) := by
  obtain ⟨stack, isStack⟩ := Option.isSome_iff_exists.mp isLocked
  cases waiting : mutex.toResume with
  | cons head rest =>
      refine ⟨some head, _, by rw [unlock, isStack, waiting], ?_, rfl, ?_⟩
      · simp [line, waiting, isStack]
      · simp
  | nil =>
      cases reversed : stack.reverse with
      | nil =>
          refine ⟨none, { mutex with awaiting := none }, ?_, ?_, rfl, ?_⟩
          · simp only [unlock, isStack, waiting, reversed]
          · simp [line, waiting, isStack, reversed]
          · simp [line, waiting]
      | cons head rest =>
          refine ⟨some head, ⟨some [], rest⟩, ?_, ?_, rfl, ?_⟩
          · simp only [unlock, isStack, waiting, reversed]
          · simp [line, waiting, isStack, reversed]
          · simp

end Mutex

/-- A `condition_variable`. -/
structure ConditionVariable (Handle : Type*) where
  awaiting : List Handle
  toResume : List Handle

namespace ConditionVariable

variable {Handle : Type*}

def new (Handle : Type*) : ConditionVariable Handle where
  awaiting := []
  toResume := []

/-- The push of `cv_wait_awaiter::await_suspend`. -/
def push (cv : ConditionVariable Handle) (handle : Handle) :
    ConditionVariable Handle :=
  { cv with awaiting := handle :: cv.awaiting }

/-- `notify_one`, with the awaiter that it registers at the mutex. -/
def notifyOne (cv : ConditionVariable Handle) :
    Option Handle × ConditionVariable Handle :=
  match cv.toResume with
  | head :: rest => (some head, { cv with toResume := rest })
  | [] =>
      match cv.awaiting.reverse with
      | [] => (none, cv)
      | head :: rest => (some head, ⟨[], rest⟩)

/-- The waiting coroutines in the order in which they will be notified. -/
def queue (cv : ConditionVariable Handle) : List Handle :=
  cv.toResume ++ cv.awaiting.reverse

theorem queue_push (cv : ConditionVariable Handle) (handle : Handle) :
    (cv.push handle).queue = cv.queue ++ [handle] := by
  simp [queue, push]

/-- `notify_one` removes the front of the queue. -/
theorem queue_notifyOne (cv : ConditionVariable Handle) :
    cv.queue = cv.notifyOne.1.toList ++ cv.notifyOne.2.queue := by
  cases waiting : cv.toResume with
  | cons head rest => simp [notifyOne, queue, waiting]
  | nil =>
      cases reversed : cv.awaiting.reverse with
      | nil => simp [notifyOne, queue, waiting, reversed]
      | cons head rest => simp [notifyOne, queue, waiting, reversed]

theorem queue_eq_nil_of_notifyOne {cv : ConditionVariable Handle}
    (nobody : cv.notifyOne.1 = none) : cv.queue = [] := by
  cases waiting : cv.toResume with
  | cons head rest => simp [notifyOne, waiting] at nobody
  | nil =>
      cases reversed : cv.awaiting.reverse with
      | nil => simp [queue, waiting, reversed]
      | cons head rest => simp [notifyOne, waiting, reversed] at nobody

end ConditionVariable

end CoContext.Sequential
