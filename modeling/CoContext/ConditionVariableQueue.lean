import CoContext.RecordHeap
import CoContext.Sequential
import CoContext.TransitionSystem

/-!
# A condition variable within one context

The calls of one `condition_variable` when none of them overlap, down to the
links of the awaiters.  An awaiter is a record in the frame of the waiting
coroutine, which names it; it exists until that coroutine is resumed, so
`to_resume_tail` may be left dangling.

A notification is the call of `register_awaiting` on the `lock_awaiter` of the
awaiter; what the mutex makes of it is not modelled here.
-/

namespace CoContext.ConditionVariableQueue

open CoContext.Sequential

variable {Coro : Type*}

structure State (Coro : Type*) where
  awaiting : Option Coro
  toResumeHead : Option Coro
  toResumeTail : Option Coro
  /-- The members `next` of the awaiters that exist. -/
  records : RecordHeap Coro

namespace State

def new (Coro : Type*) : State Coro where
  awaiting := none
  toResumeHead := none
  toResumeTail := none
  records _ := none

/-- `try_notify_one` and one iteration of `try_notify_all`. -/
def tryNotify (records : RecordHeap Coro) (head : Coro) : Option Coro :=
  (records head).map fun _ => head

/-- The loop of `try_notify_all`, with the awaiters that were notified so
far. -/
def tryNotifyNext (records : RecordHeap Coro) :
    Option Coro × List Coro →
      Option ((Option Coro × List Coro) ⊕ List Coro)
  | (none, notified) => some (.inr notified)
  | (some head, notified) => do
      let awaiter ← tryNotify records head
      let next ← records head
      some (.inl (next, notified ++ [awaiter]))

/-- `try_notify_all`, with the awaiters that it notifies. -/
def tryNotifyAll (records : RecordHeap Coro) (head : Option Coro) :
    Option (List Coro) :=
  repeatUntil (tryNotifyNext records) (head, [])

def notifyAll (s : State Coro) : Option (List Coro × State Coro) := do
  let waiting ← tryNotifyAll s.records s.awaiting
  let detached := { s with awaiting := none }
  let resuming ← tryNotifyAll detached.records detached.toResumeHead
  some (waiting ++ resuming, { detached with toResumeHead := none })

section Write

variable [DecidableEq Coro]

/-- `cv_wait_awaiter` and its `await_suspend`. -/
def wait (s : State Coro) (coro : Coro) : Option (State Coro) := do
  let created := s.records.create coro none
  let linked ← created.write coro s.awaiting
  some { s with awaiting := some coro, records := linked }

/-- The loop of step 3 of `notify_one`; it leaves before it links the last
`head`. -/
def reverseNext : RecordHeap Coro × Coro × Option Coro × Option Coro →
    Option ((RecordHeap Coro × Coro × Option Coro × Option Coro) ⊕
      (RecordHeap Coro × Coro × Option Coro))
  | (records, head, succ, none) => some (.inr (records, head, succ))
  | (records, head, succ, some pred) => do
      let linked ← records.write head succ
      let next ← linked pred
      some (.inl (linked, pred, some head, next))

def reverseLoop (records : RecordHeap Coro) (head : Coro)
    (succ pred : Option Coro) :
    Option (RecordHeap Coro × Coro × Option Coro) :=
  repeatUntil reverseNext (records, head, succ, pred)

/-- Steps 4 and 5 of `notify_one`. -/
def splice (s : State Coro) (tail head : Coro) (succ : Option Coro) :
    Option (List Coro × State Coro) :=
  match s.toResumeHead with
  | none => do
      let spliced :=
        { s with toResumeHead := succ, toResumeTail := some tail }
      let notified ← tryNotify spliced.records head
      some ([notified], spliced)
  | some toNotify => do
      let last ← s.toResumeTail
      let linked ← s.records.write last (some head)
      let next ← linked toNotify
      let appended : State Coro :=
        { s with
          toResumeHead := next
          toResumeTail := some tail
          records := linked }
      let notified ← tryNotify appended.records toNotify
      some ([notified], appended)

/-- Steps 2 and 3 of `notify_one`. -/
def detach (s : State Coro) : Option (List Coro × State Coro) :=
  match s.awaiting with
  | none => some ([], s)
  | some tail => do
      let pred ← s.records tail
      let looped ← reverseLoop s.records tail none pred
      { s with awaiting := none, records := looped.1 }.splice tail
        looped.2.1 looped.2.2

def notifyOne (s : State Coro) : Option (List Coro × State Coro) :=
  match s.toResumeHead with
  | some head => do
      let next ← s.records head
      let popped := { s with toResumeHead := next }
      let notified ← tryNotify popped.records head
      some ([notified], popped)
  | none => { s with toResumeTail := none }.detach

end Write

end State

/-- The links of both lists. -/
structure Represents (s : State Coro) (cv : ConditionVariable Coro) :
    Prop where
  awaiting : s.records.Linked s.awaiting cv.awaiting
  toResume : s.records.Linked s.toResumeHead cv.toResume
  nodup : cv.queue.Nodup

namespace Represents

variable {s : State Coro} {cv : ConditionVariable Coro} {coro : Coro}

theorem new : Represents (State.new Coro) (ConditionVariable.new Coro) where
  awaiting := rfl
  toResume := rfl
  nodup := List.nodup_nil

theorem isSome (represents : Represents s cv) (isQueued : coro ∈ cv.queue) :
    (s.records coro).isSome := by
  rcases List.mem_append.mp isQueued with resuming | waiting
  · exact represents.toResume.isSome resuming
  · exact represents.awaiting.isSome (List.mem_reverse.mp waiting)

theorem tryNotifyNext_eq {records : RecordHeap Coro} {head : Option Coro}
    {nodes : List Coro} (linked : records.Linked head nodes)
    (notified : List Coro) :
    repeatUntil (State.tryNotifyNext records) (head, notified) =
      some (notified ++ nodes) := by
  induction nodes generalizing head notified with
  | nil =>
      obtain rfl : head = none := linked
      rw [List.append_nil]
      exact repeatUntil_done rfl
  | cons first rest ih =>
      obtain ⟨rfl, link, fieldEq, restLinked⟩ := linked
      have nextEq : State.tryNotifyNext records (some first, notified) =
          some (.inl (link, notified ++ [first])) := by
        simp [State.tryNotifyNext, State.tryNotify, fieldEq]
      rw [repeatUntil_next nextEq, ih restLinked, List.append_assoc,
        List.singleton_append]

theorem tryNotifyAll_eq {records : RecordHeap Coro} {head : Option Coro}
    {nodes : List Coro} (linked : records.Linked head nodes) :
    State.tryNotifyAll records head = some nodes :=
  tryNotifyNext_eq linked []

/-- `notify_all` notifies the stack from the newest waiter down, and then the
list from its head on. -/
theorem notifyAll (represents : Represents s cv) :
    ∃ s', s.notifyAll = some (cv.awaiting ++ cv.toResume, s') ∧
      Represents s' (.new Coro) ∧ s'.records = s.records := by
  refine ⟨{ s with awaiting := none, toResumeHead := none }, ?_,
    ⟨rfl, rfl, List.nodup_nil⟩, rfl⟩
  rw [State.notifyAll, tryNotifyAll_eq represents.awaiting]
  simp [tryNotifyAll_eq represents.toResume]

variable [DecidableEq Coro]

/-- A coroutine without an awaiter begins to wait. -/
theorem wait (represents : Represents s cv) (absent : s.records coro = none) :
    ∃ s', s.wait coro = some s' ∧ Represents s' (cv.push coro) ∧
      s'.records = s.records.create coro s.awaiting := by
  have notWaiting := represents.awaiting.notMem absent
  have notResuming := represents.toResume.notMem absent
  refine ⟨_, by rw [State.wait, RecordHeap.write_create]; rfl, ⟨?_, ?_, ?_⟩,
    rfl⟩
  · exact represents.awaiting.create_cons notWaiting
  · exact represents.toResume.create_of_notMem notResuming _
  · rw [ConditionVariable.queue_push]
    refine List.nodup_append.mpr ⟨represents.nodup, by simp, ?_⟩
    rintro other isQueued last isLast rfl
    rw [List.mem_singleton] at isLast
    subst isLast
    have isSome := represents.isSome isQueued
    rw [absent] at isSome
    exact nomatch isSome

/-- The loop reverses the list, except that `head` is not linked. -/
theorem reverseLoop_eq {records : RecordHeap Coro} {head : Coro}
    {succ pred : Option Coro} {remaining done : List Coro}
    (predLinked : records.Linked pred remaining)
    (succLinked : records.Linked succ done)
    (headExists : (records head).isSome)
    (nodup : (head :: remaining ++ done).Nodup) :
    ∃ reversed last rest, State.reverseLoop records head succ pred =
        some (reversed, last, rest.head?) ∧
      (head :: remaining).reverse ++ done = last :: rest ∧
      reversed.Linked rest.head? rest ∧
      RecordHeap.Relinks (head :: remaining) records reversed := by
  induction remaining generalizing records head succ pred done with
  | nil =>
      obtain rfl : pred = none := predLinked
      obtain rfl := succLinked.head_eq
      exact ⟨records, head, done, repeatUntil_done rfl, rfl, succLinked,
        .refl _ records⟩
  | cons next remaining ih =>
      obtain ⟨rfl, link, fieldEq, restLinked⟩ := predLinked
      obtain ⟨field, headEq⟩ := Option.isSome_iff_exists.mp headExists
      have fresh : head ∉ next :: remaining ++ done :=
        (List.nodup_cons.mp nodup).1
      have restNodup : (next :: remaining ++ head :: done).Nodup :=
        List.perm_middle.nodup_iff.mpr nodup
      have notRest : head ∉ next :: remaining := fun isRest =>
        fresh (List.mem_append_left _ isRest)
      have notDone : head ∉ done := fun isDone =>
        fresh (List.mem_append_right _ isDone)
      have nextNe : next ≠ head := fun same =>
        notRest (same ▸ List.mem_cons_self)
      have nextEq : records.create head succ next = some link := by
        rw [RecordHeap.create_of_ne nextNe, fieldEq]
      have linkLinked : (records.create head succ).Linked link remaining :=
        restLinked.create_of_notMem
          (fun isRest => notRest (List.mem_cons_of_mem _ isRest)) succ
      obtain ⟨reversed, last, rest, loopEq, splitEq, lastLinked, relinks⟩ :=
        ih linkLinked (succLinked.create_cons notDone)
          (Option.isSome_iff_exists.mpr ⟨link, nextEq⟩) restNodup
      refine ⟨reversed, last, rest, ?_, ?_, lastLinked, ?_, ?_⟩
      · rw [← loopEq]
        apply repeatUntil_next
        simp [State.reverseNext, RecordHeap.write_of_eq headEq, nextEq]
      · simpa using splitEq
      · intro coro notNode
        simp only [List.mem_cons, not_or] at notNode
        rw [relinks.outside coro (by simp [notNode]),
          RecordHeap.create_of_ne notNode.1]
      · intro coro isSome
        apply relinks.isSome
        by_cases isHead : coro = head
        · subst isHead
          simp
        · rwa [RecordHeap.create_of_ne isHead]

/-- `notify_one` with an empty `to_resume` notifies the bottom of the stack
and keeps the others in reverse order. -/
theorem detach (represents : Represents s cv)
    (nobodyResuming : cv.toResume = []) :
    ∃ s', s.detach = some (cv.awaiting.reverse.head?.toList, s') ∧
      Represents s' ⟨[], cv.awaiting.reverse.tail⟩ ∧
      RecordHeap.Relinks cv.queue s.records s'.records := by
  have headNull : s.toResumeHead = none := by
    rw [represents.toResume.head_eq, nobodyResuming]
    rfl
  have queueEq : cv.queue = cv.awaiting.reverse := by
    rw [ConditionVariable.queue, nobodyResuming, List.nil_append]
  cases stack : cv.awaiting with
  | nil =>
      have nobody := represents.awaiting
      rw [stack] at nobody
      have awaitingNull : s.awaiting = none := nobody
      refine ⟨s, by rw [State.detach, awaitingNull]; rfl, ⟨?_, ?_, ?_⟩,
        .refl _ _⟩
      · exact awaitingNull
      · exact headNull
      · exact List.nodup_nil
  | cons tail older =>
      have waiting := represents.awaiting
      rw [stack] at waiting
      obtain ⟨awaitingEq, pred, fieldEq, predLinked⟩ := waiting
      have stackNodup : (tail :: older ++ []).Nodup := by
        have nodup := represents.nodup
        rw [queueEq, stack, List.nodup_reverse] at nodup
        rwa [List.append_nil]
      have nothingDone : RecordHeap.Linked s.records none [] := rfl
      obtain ⟨reversed, head, rest, loopEq, splitEq, restLinked, relinks⟩ :=
        reverseLoop_eq predLinked nothingDone
          (Option.isSome_iff_exists.mpr ⟨pred, fieldEq⟩) stackNodup
      rw [List.append_nil] at splitEq
      obtain ⟨field, headEq⟩ : ∃ field, reversed head = some field := by
        apply Option.isSome_iff_exists.mp
        apply relinks.isSome
        apply represents.awaiting.isSome
        rw [stack, ← List.mem_reverse, splitEq]
        exact List.mem_cons_self
      have spliceEq : ({ s with awaiting := none, records := reversed } :
          State Coro).splice tail head rest.head? = some ([head],
            { s with
              awaiting := none
              records := reversed
              toResumeHead := rest.head?
              toResumeTail := some tail }) := by
        simp [State.splice, headNull, State.tryNotify, headEq]
      refine ⟨{ s with
          awaiting := none
          records := reversed
          toResumeHead := rest.head?
          toResumeTail := some tail }, ?_, ⟨?_, ?_, ?_⟩, ⟨?_, relinks.isSome⟩⟩
      · simp only [State.detach, awaitingEq, fieldEq, Option.bind_eq_bind,
          Option.bind_some, loopEq, spliceEq, splitEq]
        rfl
      · rfl
      · rw [splitEq]
        exact restLinked
      · have nodup := represents.nodup
        rw [queueEq, stack, splitEq] at nodup
        rw [splitEq]
        simpa [ConditionVariable.queue] using (List.nodup_cons.mp nodup).2
      · intro coro notQueued
        apply relinks.outside
        rwa [queueEq, stack, List.mem_reverse] at notQueued

/-- `notify_one` notifies the front of the queue. -/
theorem notifyOne (represents : Represents s cv) :
    ∃ s', s.notifyOne = some (cv.notifyOne.1.toList, s') ∧
      Represents s' cv.notifyOne.2 ∧ RecordHeap.Relinks cv.queue s.records s'.records := by
  cases resuming : cv.toResume with
  | cons head rest =>
      have linked := represents.toResume
      rw [resuming] at linked
      obtain ⟨headEq, next, fieldEq, restLinked⟩ := linked
      have notified : cv.notifyOne = (some head, { cv with toResume := rest }) := by
        rw [ConditionVariable.notifyOne, resuming]
      have queueEq := cv.queue_notifyOne
      rw [notified] at queueEq ⊢
      refine ⟨{ s with toResumeHead := next }, ?_, ⟨represents.awaiting,
        restLinked, ?_⟩, .refl _ _⟩
      · simp [State.notifyOne, headEq, State.tryNotify, fieldEq]
      · have nodup := represents.nodup
        rw [queueEq] at nodup
        exact (List.nodup_cons.mp nodup).2
  | nil =>
      have headNull : s.toResumeHead = none := by
        rw [represents.toResume.head_eq, resuming]
        rfl
      have cleared : Represents { s with toResumeTail := none } cv :=
        ⟨represents.awaiting, represents.toResume, represents.nodup⟩
      obtain ⟨s', detachEq, represents', relinks⟩ := cleared.detach resuming
      have notified : cv.notifyOne = (cv.awaiting.reverse.head?,
          ⟨[], cv.awaiting.reverse.tail⟩) := by
        rw [ConditionVariable.notifyOne, resuming]
        cases reversed : cv.awaiting.reverse with
        | nil =>
            have awaitingNil := List.reverse_eq_nil_iff.mp reversed
            cases cv
            subst awaitingNil resuming
            rfl
        | cons head rest => rfl
      rw [headNull] at detachEq
      rw [notified]
      refine ⟨s', ?_, represents', relinks⟩
      rw [State.notifyOne, headNull]
      exact detachEq

end Represents

end CoContext.ConditionVariableQueue
