import CoContext.ConditionVariableMutexWalk
import Mathlib.Data.Fintype.Basic

/-!
# Waiting returns the mutex

In a run in which no walk of `notify_all` is overtaken by its waiter, a
coroutine resumed from `wait` owns the mutex alone.  A sleeping coroutine was
pushed onto the stack while it held the mutex, and it stays there until the
exchange of a notification takes it.

A waiter that is resumed before the walk has read its link may wait again, and
the walk then follows the new link.  It notifies a waiter that it has not taken
from the stack, and the next notification does so too.
-/

namespace CoContext.ConditionVariableMutexWalk

variable {Coro : Type*}

section Ahead

variable {s : State Coro}

/-- A read concerns the positions in a walk only. -/
theorem ahead_pc_iff {coro : Coro} {pc : ConditionVariable.Pc Coro}
    (notWalk : ∀ head fromToResume, pc ≠ .allNotify head fromToResume) :
    (ahead s).cv.pc coro = pc ↔ s.cvm.cv.pc coro = pc := by
  have aheadEq : (ahead s).cv.pc coro = aheadPc s coro := rfl
  rw [aheadEq, aheadPc]
  split
  · unfold afterRead
    split
    · rename_i head fromToResume position
      rw [position]
      exact iff_of_false (notWalk _ _ ·.symm) (notWalk _ _ ·.symm)
    · exact Iff.rfl
  · exact Iff.rfl

theorem ahead_waiting_iff {coro : Coro} :
    (ahead s).cv.pc coro = .waiting ↔ s.cvm.cv.pc coro = .waiting :=
  ahead_pc_iff (by simp)

theorem ahead_entering_iff {coro : Coro} :
    ((ahead s).cv.pc coro).Entering ↔ (s.cvm.cv.pc coro).Entering := by
  have aheadEq : (ahead s).cv.pc coro = aheadPc s coro := rfl
  rw [aheadEq, aheadPc]
  split
  · unfold afterRead
    split
    · rename_i head fromToResume position
      simp [position, ConditionVariable.Pc.Entering]
    · exact Iff.rfl
  · exact Iff.rfl

theorem ahead_detaches_iff {notifier : Coro} :
    (ahead s).cv.Detaches notifier ↔ s.cvm.cv.Detaches notifier :=
  or_congr (ahead_pc_iff (by simp)) (ahead_pc_iff (by simp))

end Ahead

namespace Aligned

variable [DecidableEq Coro] {s s' : State Coro} {action : Action Coro}

/-- A coroutine begins to sleep by its push onto the stack, while it holds the
mutex. -/
theorem waiting_step (aligned : Aligned s)
    (stepEq : ConditionVariableMutexWalk.step s action = some s') {coro : Coro}
    (isWaiting : s'.cvm.cv.pc coro = .waiting) :
    s.cvm.cv.pc coro = .waiting ∨
      (action = .inner (.run coro false) ∧ (s.cvm.cv.pc coro).Entering ∧
        s'.cvm.mutex.holderPc coro = .holding ∧
        s'.cvm.cv.LocatedAt coro .awaiting) := by
  rcases aligned.ahead_step stepEq with ⟨inner, rfl, aheadEq⟩ |
    ⟨notifier, rfl, aheadEq⟩
  · rcases aligned.connected.waiting_step aheadEq
      (ahead_waiting_iff.mpr isWaiting) with wasWaiting |
        ⟨rfl, isEntering, onStack⟩
    · exact Or.inl (ahead_waiting_iff.mp wasWaiting)
    · right
      have holding := aligned.connected.glue.entering coro isEntering
      simp only [ConditionVariableMutex.step,
        Option.ite_none_right_eq_some] at aheadEq
      obtain ⟨-, mapEq⟩ := aheadEq
      obtain ⟨cv, -, stateEq⟩ := Option.map_eq_some_iff.mp mapEq
      have mutexEq : (ahead s').mutex = (ahead s).mutex := by rw [← stateEq]
      refine ⟨rfl, ahead_entering_iff.mp isEntering, ?_, onStack⟩
      exact (congrFun (congrArg Mutex.State.holderPc mutexEq) coro).trans holding
  · left
    rw [← ahead_waiting_iff, ← aheadEq, ahead_waiting_iff]
    exact isWaiting

/-- A sleeping coroutine leaves the stack when a notification takes it. -/
theorem awaiting_step (aligned : Aligned s)
    (stepEq : ConditionVariableMutexWalk.step s action = some s') {coro : Coro}
    (onStack : s.cvm.cv.LocatedAt coro .awaiting) :
    s'.cvm.cv.LocatedAt coro .awaiting ∨ ∃ notifier spuriousFailure,
      action = .inner (.run notifier spuriousFailure) ∧
        s.cvm.cv.Detaches notifier := by
  have onStack' : (ahead s).cv.LocatedAt coro .awaiting := onStack
  rcases aligned.ahead_step stepEq with ⟨inner, rfl, aheadEq⟩ |
    ⟨notifier, rfl, aheadEq⟩
  · rcases aligned.connected.awaiting_step aheadEq onStack' with stays |
      ⟨notifier, spuriousFailure, rfl, detaches⟩
    · exact Or.inl stays
    · exact Or.inr ⟨notifier, spuriousFailure, rfl,
        ahead_detaches_iff.mp detaches⟩
  · left
    rw [← aheadEq] at onStack'
    exact onStack'

end Aligned

/-- The waiter was pushed by step `push` while it held the mutex, sleeps since
then, and is still enqueued or was taken from the stack by a notification. -/
structure Enqueued [DecidableEq Coro] (run : (system Coro).Run)
    (waiter : Coro) (push now : Nat) : Prop where
  before : push < now
  pushes : run.action push = .inner (.run waiter false)
  entering : ((run.state push).cvm.cv.pc waiter).Entering
  holding : (run.state (push + 1)).cvm.mutex.holderPc waiter = .holding
  sleeps : ∀ time ≤ now, push < time →
    (run.state time).cvm.cv.pc waiter = .waiting
  found : (run.state now).cvm.cv.LocatedAt waiter .awaiting ∨
    ∃ taken < now, push < taken ∧
      (∃ notifier spuriousFailure,
        run.action taken = .inner (.run notifier spuriousFailure) ∧
          (run.state taken).cvm.cv.Detaches notifier) ∧
      (run.state taken).cvm.cv.LocatedAt waiter .awaiting

section Enqueued

variable [DecidableEq Coro] {run : (system Coro).Run} {waiter : Coro}

theorem Enqueued.next {push now : Nat} (enqueued : Enqueued run waiter push now)
    (aligned : Aligned (run.state now)) (nowLt : now < run.length)
    (isWaiting : (run.state (now + 1)).cvm.cv.pc waiter = .waiting) :
    Enqueued run waiter push (now + 1) := by
  have before := enqueued.before
  refine { enqueued with before := by omega, sleeps := ?_, found := ?_ }
  · intro time timeLe timeGt
    by_cases isLast : time = now + 1
    · rw [isLast]
      exact isWaiting
    · exact enqueued.sleeps time (by omega) timeGt
  · rcases enqueued.found with onStack | ⟨taken, takenLt, taken⟩
    · rcases aligned.awaiting_step (run.steps now nowLt) onStack with
        stays | taken
      · exact Or.inl stays
      · exact Or.inr ⟨now, by omega, before, taken, onStack⟩
    · exact Or.inr ⟨_, by omega, taken⟩

theorem exists_enqueued (guarded : run.Guarded KeepsRecord) {now : Nat}
    (nowLe : now ≤ run.length)
    (isWaiting : (run.state now).cvm.cv.pc waiter = .waiting) :
    ∃ push, Enqueued run waiter push now := by
  induction now with
  | zero =>
      have isNew : run.state 0 = State.new Coro := run.starts
      rw [isNew] at isWaiting
      cases isWaiting
  | succ now ih =>
      have aligned := aligned_of_reachable
        (guarded.reachableBy (by omega : now ≤ run.length))
      rcases aligned.waiting_step (run.steps now (by omega)) isWaiting with
        wasWaiting | ⟨pushes, entering, holding, onStack⟩
      · obtain ⟨push, enqueued⟩ := ih (by omega) wasWaiting
        exact ⟨push, enqueued.next aligned (by omega) isWaiting⟩
      · refine ⟨now, by omega, pushes, entering, holding, ?_, Or.inl onStack⟩
        intro time timeLe timeGt
        obtain rfl : time = now + 1 := by omega
        exact isWaiting

end Enqueued

/-- What is promised at a time of a run. -/
structure ReturnsOwner [DecidableEq Coro] (run : (system Coro).Run)
    (now : Nat) : Prop where
  /-- A coroutine resumed from `wait` was notified and becomes the unique owner
  of the mutex. -/
  resumed : ∀ waiter s', (run.state now).cvm.cv.pc waiter = .waiting →
    step (run.state now) (.inner (.resume waiter)) = some s' →
      0 < (run.state now).cvm.cv.notified waiter ∧
        s'.cvm.mutex.holderPc waiter = .holding ∧
        ∀ other, s'.cvm.mutex.Owns other ↔ other = waiter
  /-- A coroutine spawned as owner was spawned once and is queued nowhere on
  the mutex. -/
  spawned : ∀ waiter, (run.state now).cvm.mutex.ready waiter ≤ 1 ∧
    (0 < (run.state now).cvm.mutex.ready waiter →
      ∀ location, (run.state now).cvm.mutex.LocatedAt waiter location →
        location = .handedLock)
  /-- A coroutine in `wait` is the unique owner until it is enqueued. -/
  entering : ∀ waiter, ((run.state now).cvm.cv.pc waiter).Entering →
    (run.state now).cvm.mutex.holderPc waiter = .holding ∧
      ∀ other, (run.state now).cvm.mutex.Owns other ↔ other = waiter
  /-- A sleeping coroutine was enqueued while it held the mutex, and it is still
  enqueued or was taken by a notification. -/
  enqueued : ∀ waiter, (run.state now).cvm.cv.pc waiter = .waiting →
    ∃ push, Enqueued run waiter push now

theorem wait_returns_owner [DecidableEq Coro] (run : (system Coro).Run)
    (guarded : run.Guarded KeepsRecord) {now : Nat}
    (nowLe : now ≤ run.length) : ReturnsOwner run now := by
  have aligned := aligned_of_reachable (guarded.reachableBy nowLe)
  have connected := aligned.connected
  constructor
  · intro waiter s' isWaiting stepEq
    simp only [step, State.inner, ConditionVariableMutex.step,
      Option.ite_none_right_eq_some] at stepEq
    obtain ⟨-, mapEq⟩ := stepEq
    obtain ⟨cvm, resumeEq, rfl⟩ := Option.map_eq_some_iff.mp mapEq
    simp only [Option.ite_none_right_eq_some, Option.some.injEq] at resumeEq
    obtain ⟨isReady, rfl⟩ := resumeEq
    exact connected.resume_returns (ahead_waiting_iff.mpr isWaiting) isReady
  · exact connected.spawned_once
  · intro waiter isEntering
    exact connected.entering_owns (ahead_entering_iff.mpr isEntering)
  · exact fun waiter => exists_enqueued guarded nowLe

section Overtaken

/-- A coroutine locks the mutex and waits. -/
def waitActions (waiter : Fin 4) : List (Action (Fin 4)) :=
  [.inner (.tryLock waiter), .inner (.wait waiter), .inner (.run waiter false),
    .inner (.run waiter false), .inner (.unlockAhead waiter),
    .inner (.runUnlock waiter), .inner (.runUnlock waiter),
    .inner (.runUnlock waiter)]

/-- A notification call takes the stack. -/
def takeActions (notifier : Fin 4) : List (Action (Fin 4)) :=
  [.inner (.notifyAll notifier), .inner (.run notifier false)]

/-- A walk registers its next waiter. -/
def registerActions (notifier : Fin 4) : List (Action (Fin 4)) :=
  [.inner (.register notifier), .inner (.runRegister notifier false),
    .inner (.runRegister notifier false)]

/-- Coroutine 0 waits; `notify_all` of coroutine 2 spawns it as the owner and
reads its link. -/
def returningRun : (system (Fin 4)).Run :=
  .ofActions (State.new (Fin 4)) rfl
    (waitActions 0 ++ takeActions 2 ++ registerActions 2 ++ [.readNext 2])
    (by decide)

theorem wait_returns_owner_returning :
    ReturnsOwner returningRun 14 ∧
      0 < (returningRun.state 14).cvm.mutex.ready 0 :=
  ⟨wait_returns_owner returningRun
    (by unfold TransitionSystem.Run.Guarded; decide) (by decide), by decide⟩

/-- Coroutine 0 is resumed before the link is read.  It unlocks the mutex and
waits again, after coroutine 1.  The walk of coroutine 2 then spawns coroutine
1, and `notify_all` of coroutine 3 registers both. -/
def overtakenRun : (system (Fin 4)).Run :=
  .ofActions (State.new (Fin 4)) rfl
    (waitActions 0 ++ takeActions 2 ++ registerActions 2 ++
      [.inner (.resume 0), .inner (.unlock 0), .inner (.runUnlock 0),
        .inner (.runUnlock 0), .inner (.runUnlock 0)] ++
      waitActions 1 ++ waitActions 0 ++ [.readNext 2] ++ registerActions 2 ++
      takeActions 3 ++ registerActions 3 ++ [.readNext 3] ++
      registerActions 3)
    (by decide)

theorem wait_returns_owner_fails :
    ¬ ∀ run : (system (Fin 4)).Run, ∀ now ≤ run.length,
      ReturnsOwner run now := by
  intro law
  have isReady : 0 < (overtakenRun.state 47).cvm.mutex.ready 1 := by decide
  have isQueued :
      (overtakenRun.state 47).cvm.mutex.LocatedAt 1 .awaitingStack := by
    have top : (overtakenRun.state 47).cvm.mutex.awaiting = .awaiter 1 := by
      decide
    rw [Mutex.State.LocatedAt, top]
    exact .here 1
  have onlyHanded :=
    ((law overtakenRun 47 (by decide)).spawned 1).2 isReady _ isQueued
  cases onlyHanded

end Overtaken

end CoContext.ConditionVariableMutexWalk
