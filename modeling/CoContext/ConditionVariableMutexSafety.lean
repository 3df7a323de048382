import CoContext.ConditionVariableMutexInvariant
import CoContext.MutexSafety

/-!
# Waiters of a condition variable and owners of its mutex

What the invariant says about one state and one step.  A coroutine resumed
from `wait` owns the mutex alone; one that enters `wait` owns it until it is
enqueued.  It stays on the stack until the exchange of a notification takes it,
and once it is notified nobody writes its link.
-/

namespace CoContext.ConditionVariableMutex

variable {Coro : Type*}

namespace Connected

variable [DecidableEq Coro] {s s' : State Coro} {action : Action Coro}

/-- The condition variable stutters or performs a step, which is the action
itself unless a registration returns. -/
theorem cv_step (connected : Connected s)
    (stepEq : ConditionVariableMutex.step s action = some s') :
    s'.cv = s.cv ∨ ∃ cvAction,
      (ConditionVariable.system Coro).step s.cv cvAction = some s'.cv ∧
        (∀ coro spuriousFailure, cvAction = .run coro spuriousFailure →
          action = .run coro spuriousFailure ∨
            (s.cv.pc coro).target ≠ none) ∧
        ∀ coro, cvAction = .resume coro → action = .resume coro := by
  cases action with
  | lock | tryLock | unlock | unlockAhead =>
      simp only [ConditionVariableMutex.step, Option.ite_none_right_eq_some,
        Option.some.injEq] at stepEq
      obtain ⟨-, rfl⟩ := stepEq
      exact Or.inl rfl
  | runUnlock coro =>
      obtain ⟨mutex, -, rfl⟩ := Option.map_eq_some_iff.mp stepEq
      exact Or.inl rfl
  | register notifier =>
      left
      simp only [ConditionVariableMutex.step, State.register] at stepEq
      split at stepEq
      · cases stepEq
      · simp only [Option.ite_none_right_eq_some, Option.some.injEq] at stepEq
        obtain ⟨-, rfl⟩ := stepEq
        rfl
  | wait coro =>
      simp only [ConditionVariableMutex.step, Option.ite_none_right_eq_some,
        Option.some.injEq] at stepEq
      obtain ⟨⟨free, -⟩, rfl⟩ := stepEq
      exact Or.inr ⟨.wait coro, if_pos free.1, by simp, by simp⟩
  | notifyOne coro =>
      simp only [ConditionVariableMutex.step, Option.ite_none_right_eq_some,
        Option.some.injEq] at stepEq
      obtain ⟨free, rfl⟩ := stepEq
      exact Or.inr ⟨.notifyOne coro, if_pos free.1, by simp, by simp⟩
  | notifyAll coro =>
      simp only [ConditionVariableMutex.step, Option.ite_none_right_eq_some,
        Option.some.injEq] at stepEq
      obtain ⟨free, rfl⟩ := stepEq
      exact Or.inr ⟨.notifyAll coro, if_pos free.1, by simp, by simp⟩
  | run coro spuriousFailure =>
      simp only [ConditionVariableMutex.step,
        Option.ite_none_right_eq_some] at stepEq
      obtain ⟨noTarget, mapEq⟩ := stepEq
      obtain ⟨cv, runEq, rfl⟩ := Option.map_eq_some_iff.mp mapEq
      refine Or.inr ⟨.run coro spuriousFailure, runEq, ?_, by simp⟩
      rintro _ _ ⟨rfl, rfl⟩
      exact Or.inl rfl
  | runRegister agent spuriousFailure =>
      obtain ⟨mutex, -, restEq⟩ := Option.bind_eq_some_iff.mp stepEq
      split at restEq
      · rename_i returned
        obtain ⟨cv, cvEq, rfl⟩ := Option.map_eq_some_iff.mp restEq
        refine Or.inr ⟨.run agent false, cvEq, ?_, by simp⟩
        rintro _ _ ⟨rfl, rfl⟩
        exact Or.inr returned.1
      · rw [Option.some.injEq] at restEq
        subst restEq
        exact Or.inl rfl
  | resume coro =>
      simp only [ConditionVariableMutex.step, Option.ite_none_right_eq_some,
        Option.some.injEq] at stepEq
      obtain ⟨isReady, rfl⟩ := stepEq
      by_cases isWaiting : s.cv.pc coro = .waiting
      · have isNotified := connected.glue.notified_of_suspended isWaiting
          (connected.suspended_of_ready isReady)
        refine Or.inr ⟨.resume coro, ?_, by simp, by simp⟩
        simp [ConditionVariable.system, ConditionVariable.step, State.resume,
          isWaiting, isNotified]
      · exact Or.inl (if_neg isWaiting)

/-- A coroutine begins to sleep by its push onto the stack. -/
theorem waiting_step (connected : Connected s)
    (stepEq : ConditionVariableMutex.step s action = some s') {coro : Coro}
    (isWaiting : s'.cv.pc coro = .waiting) :
    s.cv.pc coro = .waiting ∨
      (action = .run coro false ∧ (s.cv.pc coro).Entering ∧
        s'.cv.LocatedAt coro .awaiting) := by
  rcases connected.cv_step stepEq with same | ⟨cvAction, cvEq, isAction, -⟩
  · rw [same] at isWaiting
    exact Or.inl isWaiting
  by_cases acts : coro = cvAction.coro
  · cases cvAction with
    | run agent spuriousFailure =>
        simp only [ConditionVariable.Action.coro] at acts
        subst acts
        have runEq : s.cv.run coro spuriousFailure = some s'.cv := cvEq
        cases position : s.cv.pc coro with
        | waitExchange oldHead =>
            right
            have isRun : action = .run coro spuriousFailure := by
              rcases isAction coro spuriousFailure rfl with isRun | hasTarget
              · exact isRun
              · simp [position, ConditionVariable.Pc.target] at hasTarget
            simp only [ConditionVariable.State.run, position] at runEq
            split at runEq
            · rename_i succeeds
              rw [Option.some.injEq] at runEq
              refine ⟨by rw [isRun, succeeds.2], trivial, ?_⟩
              rw [← runEq]
              exact .here coro
            · rw [Option.some.injEq] at runEq
              rw [← runEq] at isWaiting
              simp at isWaiting
        | waiting => exact Or.inl rfl
        | waitLoad =>
            simp only [ConditionVariable.State.run, position,
              Option.some.injEq] at runEq
            rw [← runEq] at isWaiting
            simp at isWaiting
        | _ =>
            obtain ⟨pc, pcEq, -, -, enters⟩ :=
              ConditionVariable.run_update runEq
            rw [pcEq, Function.update_self] at isWaiting
            have wasEntering := enters (Or.inr isWaiting)
            simp [position, ConditionVariable.Pc.Entering] at wasEntering
    | wait | notifyOne | notifyAll | resume =>
        simp only [ConditionVariable.system, ConditionVariable.step,
          Option.ite_none_right_eq_some, Option.some.injEq] at cvEq
        obtain ⟨-, cvEq⟩ := cvEq
        simp only [ConditionVariable.Action.coro] at acts
        rw [← cvEq, acts] at isWaiting
        simp at isWaiting
  · left
    rw [← ConditionVariable.step_pc_of_ne cvEq acts]
    exact isWaiting

/-- A sleeping coroutine leaves the stack when a notification takes it. -/
theorem awaiting_step (connected : Connected s)
    (stepEq : ConditionVariableMutex.step s action = some s') {coro : Coro}
    (onStack : s.cv.LocatedAt coro .awaiting) :
    s'.cv.LocatedAt coro .awaiting ∨ ∃ notifier spuriousFailure,
      action = .run notifier spuriousFailure ∧ s.cv.Detaches notifier := by
  obtain ⟨waiters, rep⟩ := ConditionVariable.consistent_of_reachable connected.cv
  rcases connected.cv_step stepEq with same | ⟨cvAction, cvEq, isAction, -⟩
  · rw [same]
    exact Or.inl onStack
  obtain ⟨waiters', rep', frame, -⟩ := rep.step cvEq
  rw [rep.awaiting_iff] at onStack
  rw [rep'.awaiting_iff]
  rcases frame.awaiting with same | ⟨-, pushed⟩ | ⟨detaches, -⟩
  · left
    rwa [same]
  · left
    rw [pushed]
    exact List.mem_append_left _ onStack
  · right
    have noTarget : (s.cv.pc cvAction.coro).target = none := by
      rcases detaches with position | position <;>
        simp [position, ConditionVariable.Pc.target]
    cases cvAction with
    | run notifier spuriousFailure =>
        rcases isAction notifier spuriousFailure rfl with isRun | hasTarget
        · exact ⟨notifier, spuriousFailure, isRun, detaches⟩
        · exact absurd noTarget hasTarget
    | wait agent | notifyOne agent | notifyAll agent | resume agent =>
        simp only [ConditionVariable.system, ConditionVariable.step,
          Option.ite_none_right_eq_some] at cvEq
        obtain ⟨guard, -⟩ := cvEq
        have detaches' : s.cv.Detaches agent := detaches
        rcases detaches' with position | position <;> simp [position] at guard

/-- A waiter stays notified until it is resumed. -/
theorem notified_step (connected : Connected s)
    (stepEq : ConditionVariableMutex.step s action = some s') {coro : Coro}
    (isNotified : 0 < s.cv.notified coro) (notResumed : action ≠ .resume coro) :
    0 < s'.cv.notified coro := by
  rcases connected.cv_step stepEq with same | ⟨cvAction, cvEq, -, isResume⟩
  · rw [same]
    exact isNotified
  · exact ConditionVariable.step_notified cvEq isNotified
      fun isIts => notResumed (isResume coro isIts)

/-- The link of a notified waiter is not written. -/
theorem next_step (connected : Connected s)
    (stepEq : ConditionVariableMutex.step s action = some s') {coro : Coro}
    (isNotified : 0 < s.cv.notified coro) :
    s'.cv.next coro = s.cv.next coro := by
  obtain ⟨waiters, rep⟩ := ConditionVariable.consistent_of_reachable connected.cv
  rcases connected.cv_step stepEq with same | ⟨cvAction, cvEq, -⟩
  · rw [same]
  · exact ConditionVariable.step_next_of_notified rep cvEq isNotified

/-- A notified coroutine sleeps in `wait`. -/
theorem notified_waiting (connected : Connected s) {coro : Coro}
    (isNotified : 0 < s.cv.notified coro) : s.cv.pc coro = .waiting := by
  obtain ⟨waiters, rep⟩ := ConditionVariable.consistent_of_reachable connected.cv
  exact rep.notified_waiting coro isNotified

/-- A coroutine resumed from `wait` was notified and owns the mutex alone. -/
theorem resume_returns (connected : Connected s) {coro : Coro}
    (isWaiting : s.cv.pc coro = .waiting)
    (isReady : 0 < s.mutex.ready coro) :
    0 < s.cv.notified coro ∧
      (s.mutex.resume coro).holderPc coro = .holding ∧
      ∀ other, (s.mutex.resume coro).Owns other ↔ other = coro := by
  obtain ⟨waiters, owner, rep⟩ := Mutex.consistent_of_reachable connected.mutex
  refine ⟨connected.glue.notified_of_suspended isWaiting
    (connected.suspended_of_ready isReady), by simp [Mutex.State.resume], ?_⟩
  intro other
  have ownsIff : (s.mutex.resume coro).Owns other ↔ _ :=
    (rep.resume isReady).owns_iff
  refine ownsIff.trans ?_
  simp [eq_comm]

/-- A coroutine is spawned as owner once, and then it is queued nowhere. -/
theorem spawned_once (connected : Connected s) (coro : Coro) :
    s.mutex.ready coro ≤ 1 ∧ (0 < s.mutex.ready coro →
      ∀ location, s.mutex.LocatedAt coro location →
        location = .handedLock) := by
  obtain ⟨waiters, owner, rep⟩ := Mutex.consistent_of_reachable connected.mutex
  by_cases isSpawned : owner = .spawned coro
  · have readyOne := rep.owned.ready_one coro isSpawned
    have suspended := (rep.registered.suspended_iff coro).mpr
      (Or.inr isSpawned)
    refine ⟨Nat.le_of_eq readyOne, ?_⟩
    intro _ location located
    exact (rep.existsUnique_location suspended).unique located readyOne
  · simp [rep.owned.ready_zero coro isSpawned]

/-- A coroutine in `wait` owns the mutex alone until it is enqueued. -/
theorem entering_owns (connected : Connected s) {coro : Coro}
    (isEntering : (s.cv.pc coro).Entering) :
    s.mutex.holderPc coro = .holding ∧
      ∀ other, s.mutex.Owns other ↔ other = coro := by
  obtain ⟨waiters, owner, rep⟩ := Mutex.consistent_of_reachable connected.mutex
  have isHolding := connected.glue.entering coro isEntering
  refine ⟨isHolding, ?_⟩
  intro other
  obtain rfl := rep.owner_of_holder (by simp [isHolding] :
    s.mutex.holderPc coro ≠ .outside)
  rw [rep.owns_iff]
  simp [eq_comm]

end Connected

end CoContext.ConditionVariableMutex

