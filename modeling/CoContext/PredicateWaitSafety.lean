import CoContext.ConditionVariableMutexSafety
import CoContext.PredicateWait

/-!
# What waiting with a predicate delivers

The caller and its helper coroutine hold the mutex except while they sleep,
so every evaluation of the predicate is made by the owner of the mutex.  When
the wait completes, the mutex was held and the data was not changed since the
last evaluation.  The wait always returns normally: an exception of the
predicate is lost in `trival_task`.
-/

namespace CoContext.PredicateWait

open ConditionVariableMutex (Connected)

section Components

variable {Coro : Type*} {s s' : ConditionVariableMutex.State Coro}

/-- The coroutine is at the same positions in both states. -/
structure SamePositions (s s' : ConditionVariableMutex.State Coro)
    (coro : Coro) : Prop where
  cv : s'.cv.pc coro = s.cv.pc coro
  registerPc : s'.mutex.registerPc coro = s.mutex.registerPc coro
  status : s'.mutex.status coro = s.mutex.status coro
  holderPc : s'.mutex.holderPc coro = s.mutex.holderPc coro

theorem SamePositions.free {coro : Coro} (same : SamePositions s s' coro)
    (free : s.Free coro) : s'.Free coro := by
  rw [ConditionVariableMutex.State.Free, same.cv, same.registerPc, same.status,
    same.holderPc]
  exact free

/-- The coroutine is inside `cv.wait`, before or after its push. -/
def Asleep (s : ConditionVariableMutex.State Coro) (coro : Coro) : Prop :=
  (s.cv.pc coro).Entering ∨ s.cv.pc coro = .waiting

theorem Asleep.not_idle {coro : Coro} (asleep : Asleep s coro) :
    s.cv.pc coro ≠ .idle := by
  intro isIdle
  rcases asleep with entering | isWaiting
  · simp [isIdle, ConditionVariable.Pc.Entering] at entering
  · simp [isIdle] at isWaiting

theorem Asleep.target_eq {coro : Coro} (asleep : Asleep s coro) :
    (s.cv.pc coro).target = none := by
  rcases asleep with entering | isWaiting
  · cases position : s.cv.pc coro <;>
      simp [position, ConditionVariable.Pc.Entering,
        ConditionVariable.Pc.target] at entering ⊢
  · simp [isWaiting, ConditionVariable.Pc.target]

variable [DecidableEq Coro]

/-- The mutex has one holder. -/
theorem holder_unique (connected : Connected s) {first second : Coro}
    (firstHolds : s.mutex.holderPc first ≠ .outside)
    (secondHolds : s.mutex.holderPc second ≠ .outside) : first = second := by
  obtain ⟨waiters, owner, rep⟩ := Mutex.consistent_of_reachable connected.mutex
  have isFirst := rep.owner_of_holder firstHolds
  have isSecond := rep.owner_of_holder secondHolds
  simpa [isFirst] using isSecond

/-- Nobody else owns the mutex. -/
theorem owns_iff (connected : Connected s) {coro : Coro}
    (holding : s.mutex.holderPc coro = .holding) (other : Coro) :
    s.mutex.Owns other ↔ other = coro := by
  obtain ⟨waiters, owner, rep⟩ := Mutex.consistent_of_reachable connected.mutex
  obtain rfl := rep.owner_of_holder (by simp [holding] :
    s.mutex.holderPc coro ≠ .outside)
  rw [rep.owns_iff]
  simp [eq_comm]

/-- Nobody is spawned as the owner while somebody holds the mutex. -/
theorem ready_eq_zero (connected : Connected s) {holder coro : Coro}
    (holds : s.mutex.holderPc holder ≠ .outside) :
    s.mutex.ready coro = 0 := by
  obtain ⟨waiters, owner, rep⟩ := Mutex.consistent_of_reachable connected.mutex
  obtain rfl := rep.owner_of_holder holds
  exact rep.owned.ready_zero coro (by simp)

/-- A holder that runs its own code is left alone by all steps that it does
not begin itself. -/
theorem samePositions (connected : Connected s) {coro : Coro}
    (free : s.Free coro) (holding : s.mutex.holderPc coro = .holding)
    {action : ConditionVariableMutex.Action Coro}
    (notBegins : beginner action ≠ some coro)
    (stepEq : ConditionVariableMutex.step s action = some s') :
    SamePositions s s' coro := by
  obtain ⟨atRest, notRegistering, isIdle, -⟩ := free
  cases action with
  | lock agent =>
      simp only [ConditionVariableMutex.step, Option.ite_none_right_eq_some,
        Option.some.injEq] at stepEq
      obtain ⟨-, rfl⟩ := stepEq
      have distinct : coro ≠ agent := fun same => notBegins (same ▸ rfl)
      constructor <;> simp [Mutex.State.startRegister, distinct]
  | tryLock agent =>
      simp only [ConditionVariableMutex.step, Option.ite_none_right_eq_some,
        Option.some.injEq] at stepEq
      obtain ⟨-, rfl⟩ := stepEq
      have distinct : coro ≠ agent := fun same => notBegins (same ▸ rfl)
      unfold Mutex.State.tryLock
      split <;> constructor <;> simp [distinct]
  | unlock agent =>
      simp only [ConditionVariableMutex.step, Option.ite_none_right_eq_some,
        Option.some.injEq] at stepEq
      obtain ⟨-, rfl⟩ := stepEq
      have distinct : coro ≠ agent := fun same => notBegins (same ▸ rfl)
      constructor <;> simp [distinct]
  | wait agent | notifyOne agent | notifyAll agent =>
      simp only [ConditionVariableMutex.step, Option.ite_none_right_eq_some,
        Option.some.injEq] at stepEq
      obtain ⟨-, rfl⟩ := stepEq
      have distinct : coro ≠ agent := fun same => notBegins (same ▸ rfl)
      constructor <;> simp [ConditionVariableMutex.State.setPc, distinct]
  | runUnlock agent =>
      obtain ⟨mutex, runEq, rfl⟩ := Option.map_eq_some_iff.mp stepEq
      obtain ⟨unlocking, status, registerPc, pc, holderPc⟩ :=
        Mutex.runUnlock_update runEq
      have distinct : coro ≠ agent := by
        rintro rfl
        exact unlocking holding
      exact ⟨rfl, by rw [registerPc], by rw [status],
        by rw [holderPc, Function.update_of_ne distinct]⟩
  | run agent spuriousFailure =>
      simp only [ConditionVariableMutex.step,
        Option.ite_none_right_eq_some] at stepEq
      obtain ⟨-, mapEq⟩ := stepEq
      obtain ⟨cv, runEq, rfl⟩ := Option.map_eq_some_iff.mp mapEq
      obtain ⟨pc, pcEq, -⟩ := ConditionVariable.run_update runEq
      have distinct : coro ≠ agent := by
        rintro rfl
        simp [ConditionVariable.State.run, atRest] at runEq
      exact ⟨by rw [pcEq, Function.update_of_ne distinct], rfl, rfl, rfl⟩
  | unlockAhead agent =>
      simp only [ConditionVariableMutex.step, Option.ite_none_right_eq_some,
        Option.some.injEq] at stepEq
      obtain ⟨⟨isWaiting, -⟩, rfl⟩ := stepEq
      have distinct : coro ≠ agent := by
        rintro rfl
        simp [atRest] at isWaiting
      constructor <;> simp [distinct]
  | register notifier =>
      obtain ⟨waiters, rep⟩ :=
        ConditionVariable.consistent_of_reachable connected.cv
      cases target : (s.cv.pc notifier).target with
      | none =>
          simp [ConditionVariableMutex.step,
            ConditionVariableMutex.State.register, target] at stepEq
      | some waiter =>
          simp only [ConditionVariableMutex.step,
            ConditionVariableMutex.State.register, target,
            Option.ite_none_right_eq_some, Option.some.injEq] at stepEq
          obtain ⟨-, rfl⟩ := stepEq
          have isWaiting :=
            (ConditionVariableMutex.unnotified_of_target rep target).1
          have notNotifier : coro ≠ notifier := by
            rintro rfl
            simp [atRest, ConditionVariable.Pc.target] at target
          have notWaiter : coro ≠ waiter := by
            rintro rfl
            simp [atRest] at isWaiting
          constructor <;>
            simp [Mutex.State.startRegister, notNotifier, notWaiter]
  | runRegister agent spuriousFailure =>
      obtain ⟨waiters, owner, rep⟩ :=
        Mutex.consistent_of_reachable connected.mutex
      obtain ⟨mutex, runEq, restEq⟩ := Option.bind_eq_some_iff.mp stepEq
      obtain ⟨awaiter, target, effect⟩ := Mutex.runRegister_update runEq
      have registering := rep.registered.target_registering agent awaiter target
      have notAgent : coro ≠ agent := by
        rintro rfl
        simp [notRegistering, Mutex.RegisterPc.target] at target
      have notAwaiter : coro ≠ awaiter := by
        rintro rfl
        simp [isIdle] at registering
      have sameCv : s'.mutex = mutex ∧ s'.cv.pc coro = s.cv.pc coro := by
        split at restEq
        · obtain ⟨cv, cvEq, rfl⟩ := Option.map_eq_some_iff.mp restEq
          obtain ⟨pc, pcEq, -⟩ := ConditionVariable.run_update cvEq
          exact ⟨rfl, by rw [pcEq, Function.update_of_ne notAgent]⟩
        · rw [Option.some.injEq] at restEq
          subst restEq
          exact ⟨rfl, rfl⟩
      obtain ⟨rfl, cvEq⟩ := sameCv
      rcases effect with ⟨pc, registerPc, -, -, status, holderPc⟩ |
        ⟨registerPc, ⟨status, holderPc⟩ | ⟨-, status, holderPc⟩⟩
      · exact ⟨cvEq, by rw [registerPc, Function.update_of_ne notAgent],
          by rw [status], by rw [holderPc]⟩
      · exact ⟨cvEq, by rw [registerPc, Function.update_of_ne notAgent],
          by rw [status, Function.update_of_ne notAwaiter], by rw [holderPc]⟩
      · exact ⟨cvEq, by rw [registerPc, Function.update_of_ne notAgent],
          by rw [status, Function.update_of_ne notAwaiter],
          by rw [holderPc, Function.update_of_ne notAwaiter]⟩
  | resume agent =>
      simp only [ConditionVariableMutex.step,
        Option.ite_none_right_eq_some] at stepEq
      have noneReady : s.mutex.ready agent = 0 := ready_eq_zero connected
        (by simp [holding] : s.mutex.holderPc coro ≠ .outside)
      omega

/-- A step of the condition variable that the coroutine makes in `wait` keeps
it there. -/
theorem Asleep.run {coro : Coro} {spuriousFailure : Bool}
    (asleep : Asleep s coro) {cv : ConditionVariable.State Coro}
    (runEq : s.cv.run coro spuriousFailure = some cv) :
    Asleep { s with cv := cv } coro := by
  rcases asleep with entering | isWaiting
  · cases position : s.cv.pc coro with
    | waitLoad =>
        simp only [ConditionVariable.State.run, position,
          Option.some.injEq] at runEq
        subst runEq
        exact Or.inl (by simp [ConditionVariable.Pc.Entering])
    | waitExchange oldHead =>
        simp only [ConditionVariable.State.run, position] at runEq
        split at runEq <;> rw [Option.some.injEq] at runEq <;> subst runEq
        · exact Or.inr (by simp)
        · exact Or.inl (by simp [ConditionVariable.Pc.Entering])
    | _ => simp [position, ConditionVariable.Pc.Entering] at entering
  · simp [ConditionVariable.State.run, isWaiting] at runEq

/-- Only its resumption gets a coroutine out of `wait`. -/
theorem Asleep.step {coro : Coro} (asleep : Asleep s coro)
    {action : ConditionVariableMutex.Action Coro}
    (notResumed : action ≠ .resume coro)
    (stepEq : ConditionVariableMutex.step s action = some s') :
    Asleep s' coro := by
  have keeps {cv : ConditionVariable.State Coro}
      (same : cv.pc coro = s.cv.pc coro) (mutex : Mutex.State Coro) :
      Asleep ⟨mutex, cv⟩ coro := by
    rw [Asleep]
    dsimp only
    rw [same]
    exact asleep
  cases action with
  | lock | tryLock | unlock | unlockAhead =>
      simp only [ConditionVariableMutex.step, Option.ite_none_right_eq_some,
        Option.some.injEq] at stepEq
      obtain ⟨-, rfl⟩ := stepEq
      exact asleep
  | wait agent | notifyOne agent | notifyAll agent =>
      simp only [ConditionVariableMutex.step, Option.ite_none_right_eq_some,
        Option.some.injEq] at stepEq
      obtain ⟨condition, rfl⟩ := stepEq
      have agentIdle : s.cv.pc agent = .idle := by
        first | exact condition.1.1 | exact condition.1
      have distinct : coro ≠ agent := by
        rintro rfl
        exact asleep.not_idle agentIdle
      exact keeps (by simp [distinct]) _
  | runUnlock agent =>
      obtain ⟨mutex, -, rfl⟩ := Option.map_eq_some_iff.mp stepEq
      exact asleep
  | run agent spuriousFailure =>
      simp only [ConditionVariableMutex.step,
        Option.ite_none_right_eq_some] at stepEq
      obtain ⟨-, mapEq⟩ := stepEq
      obtain ⟨cv, runEq, rfl⟩ := Option.map_eq_some_iff.mp mapEq
      by_cases acts : coro = agent
      · subst acts
        exact asleep.run runEq
      · obtain ⟨pc, pcEq, -⟩ := ConditionVariable.run_update runEq
        exact keeps (by rw [pcEq, Function.update_of_ne acts]) _
  | register notifier =>
      simp only [ConditionVariableMutex.step,
        ConditionVariableMutex.State.register] at stepEq
      split at stepEq
      · cases stepEq
      · simp only [Option.ite_none_right_eq_some, Option.some.injEq] at stepEq
        obtain ⟨-, rfl⟩ := stepEq
        exact asleep
  | runRegister agent spuriousFailure =>
      obtain ⟨mutex, -, restEq⟩ := Option.bind_eq_some_iff.mp stepEq
      split at restEq
      · next returned =>
          obtain ⟨cv, cvEq, rfl⟩ := Option.map_eq_some_iff.mp restEq
          obtain ⟨pc, pcEq, -⟩ := ConditionVariable.run_update cvEq
          have distinct : coro ≠ agent := by
            rintro rfl
            exact returned.1 asleep.target_eq
          exact keeps (by rw [pcEq, Function.update_of_ne distinct]) _
      · rw [Option.some.injEq] at restEq
        subst restEq
        exact asleep
  | resume agent =>
      simp only [ConditionVariableMutex.step, Option.ite_none_right_eq_some,
        Option.some.injEq] at stepEq
      obtain ⟨-, rfl⟩ := stepEq
      have distinct : coro ≠ agent := fun same => notResumed (same ▸ rfl)
      simp only [ConditionVariableMutex.State.resume]
      split
      · exact keeps (by simp [distinct]) _
      · exact keeps rfl _

/-- A coroutine that is resumed in `wait` holds the mutex and runs its own
code. -/
theorem Asleep.resume (connected : Connected s) {coro : Coro}
    (asleep : Asleep s coro) (isReady : 0 < s.mutex.ready coro) :
    (s.resume coro).Free coro ∧
      (s.resume coro).mutex.holderPc coro = .holding := by
  have isWaiting : s.cv.pc coro = .waiting := by
    refine asleep.resolve_left fun entering => ?_
    have holding := connected.glue.entering coro entering
    have noneReady : s.mutex.ready coro = 0 := ready_eq_zero connected
      (by simp [holding] : s.mutex.holderPc coro ≠ .outside)
    omega
  have notRegistering : s.mutex.registerPc coro = .idle := by
    cases position : s.mutex.registerPc coro with
    | idle => rfl
    | load awaiter byNotifier | compareExchange awaiter byNotifier =>
        rcases connected.glue.register coro awaiter
          (by rw [position]; rfl) with ⟨-, target⟩ | ⟨-, -, isIdle⟩
        · simp [isWaiting, ConditionVariable.Pc.target] at target
        · simp [isWaiting] at isIdle
  have holding : (s.resume coro).mutex.holderPc coro = .holding := by
    simp [ConditionVariableMutex.State.resume, Mutex.State.resume]
  refine ⟨⟨?_, ?_, ?_, Or.inr holding⟩, holding⟩
  · simp [ConditionVariableMutex.State.resume, isWaiting]
  · simp [ConditionVariableMutex.State.resume, Mutex.State.resume,
      notRegistering]
  · simp [ConditionVariableMutex.State.resume, Mutex.State.resume]

end Components

variable {Coro Data : Type*}

/-- The caller or its helper runs with the mutex held. -/
def Pc.Inside : Pc Data → Prop
  | .outside | .waiting _ => False
  | .initialSuspend _ | .evaluate _ | .callWait _ | .returnVoid
  | .unhandledException | .finalSuspend | .awaitResume => True

/-- The wait is about to complete: the loop is over. -/
def Pc.Ending : Pc Data → Prop
  | .returnVoid | .unhandledException | .finalSuspend | .awaitResume => True
  | .outside | .initialSuspend _ | .evaluate _ | .callWait _ | .waiting _ =>
      False

theorem Pc.Ending.inside {pc : Pc Data} (ending : pc.Ending) : pc.Inside := by
  cases pc <;> simp_all [Pc.Ending, Pc.Inside]

theorem Pc.inside_of_proceed {pc next : Pc Data}
    (proceedEq : pc.proceed = some next) : pc.Inside := by
  cases pc <;> simp_all [Pc.proceed, Pc.Inside]

variable [DecidableEq Coro] {s s' : State Coro Data}

/-- The caller and its helper hold the mutex unless they sleep. -/
structure Sound (s : State Coro Data) : Prop where
  connected : Connected s.cvm
  inside : ∀ coro, (s.pc coro).Inside → s.Holder coro
  asleep : ∀ coro stopWaiting, s.pc coro = .waiting stopWaiting →
    Asleep s.cvm coro

namespace Sound

theorem new (data : Data) : Sound (State.new Coro data) where
  connected := ConditionVariableMutex.connected_of_reachable (.start rfl)
  inside _ := False.elim
  asleep _ _ isWaiting := nomatch isWaiting

/-- A step that moves one holder and leaves the mutex and the condition
variable alone. -/
theorem setPc (sound : Sound s) {coro : Coro} (holder : s.Holder coro)
    {pc : Pc Data} (notWaiting : ∀ stopWaiting, pc ≠ .waiting stopWaiting)
    (data : Data) : Sound { s.setPc coro pc with data := data } where
  connected := sound.connected
  inside other isInside := by
    by_cases isCoro : other = coro
    · subst isCoro
      exact holder
    · simp only [State.setPc, Function.update_of_ne isCoro] at isInside
      exact sound.inside other isInside
  asleep other stopWaiting isWaiting := by
    by_cases isCoro : other = coro
    · subst isCoro
      simp only [State.setPc, Function.update_self] at isWaiting
      exact absurd isWaiting (notWaiting stopWaiting)
    · simp only [State.setPc, Function.update_of_ne isCoro] at isWaiting
      exact sound.asleep other stopWaiting isWaiting

/-- What a step of the mutex and the condition variable does to the position
of one coroutine. -/
theorem pcAfter_cases (s : State Coro Data)
    (action : ConditionVariableMutex.Action Coro) (coro : Coro) :
    (action = .wait coro ∧ s.pcAfter action coro = (s.pc coro).entered) ∨
      (action = .resume coro ∧
        s.pcAfter action coro = (s.pc coro).resumed) ∨
      (action ≠ .wait coro ∧ action ≠ .resume coro ∧
        s.pcAfter action coro = s.pc coro) := by
  cases action with
  | wait agent =>
      by_cases acts : agent = coro
      · subst acts
        exact Or.inl ⟨rfl, Function.update_self ..⟩
      · exact Or.inr (Or.inr ⟨by simpa using acts, by simp,
          Function.update_of_ne (Ne.symm acts) _ _⟩)
  | resume agent =>
      by_cases acts : agent = coro
      · subst acts
        exact Or.inr (Or.inl ⟨rfl, Function.update_self ..⟩)
      · exact Or.inr (Or.inr ⟨by simp, by simpa using acts,
          Function.update_of_ne (Ne.symm acts) _ _⟩)
  | lock | tryLock | unlock | runUnlock | notifyOne | notifyAll | run
  | unlockAhead | register | runRegister =>
      exact Or.inr (Or.inr ⟨by simp, by simp, rfl⟩)

theorem wait_begins {before after : ConditionVariableMutex.State Coro}
    {coro : Coro}
    (stepEq : ConditionVariableMutex.step before (.wait coro) = some after) :
    Asleep after coro := by
  simp only [ConditionVariableMutex.step, Option.ite_none_right_eq_some,
    Option.some.injEq] at stepEq
  rw [← stepEq.2]
  exact Or.inl (by simp [ConditionVariableMutex.State.setPc,
    ConditionVariable.Pc.Entering])

theorem inner (sound : Sound s)
    {action : ConditionVariableMutex.Action Coro}
    (stepEq : s.inner action = some s') : Sound s' := by
  simp only [State.inner, Option.ite_none_right_eq_some] at stepEq
  obtain ⟨permitted, mapEq⟩ := stepEq
  obtain ⟨cvm, innerEq, rfl⟩ := Option.map_eq_some_iff.mp mapEq
  have begins {coro : Coro} (isBeginner : beginner action = some coro) :
      (s.pc coro).permits action = true := permitted coro isBeginner
  refine ⟨sound.connected.step innerEq, ?_, ?_⟩
  · intro coro isInside
    change (s.pcAfter action coro).Inside at isInside
    rcases pcAfter_cases s action coro with
      ⟨rfl, pcEq⟩ | ⟨rfl, pcEq⟩ | ⟨notWait, notResume, pcEq⟩
    · have permits := begins rfl
      rw [pcEq] at isInside
      cases position : s.pc coro <;>
        simp_all [Pc.entered, Pc.Inside, Pc.permits]
    · rw [pcEq] at isInside
      simp only [ConditionVariableMutex.step, Option.ite_none_right_eq_some,
        Option.some.injEq] at innerEq
      obtain ⟨isReady, rfl⟩ := innerEq
      cases position : s.pc coro with
      | waiting stopWaiting =>
          exact (sound.asleep coro stopWaiting position).resume
            sound.connected isReady
      | _ =>
          rw [position] at isInside
          have holder := sound.inside coro (by rw [position]; exact isInside)
          have isOutside : s.cvm.mutex.holderPc coro ≠ .outside := by
            simp [holder.2]
          have noneReady : s.cvm.mutex.ready coro = 0 :=
            ready_eq_zero sound.connected isOutside
          omega
    · rw [pcEq] at isInside
      have holder := sound.inside coro isInside
      have notBegins : beginner action ≠ some coro := by
        intro isBeginner
        have permits := begins isBeginner
        cases position : s.pc coro with
        | callWait stopWaiting =>
            cases action <;>
              simp_all [Pc.permits, beginner]
        | _ => simp_all [Pc.Inside, Pc.permits]
      have same := samePositions sound.connected holder.1 holder.2 notBegins
        innerEq
      exact ⟨same.free holder.1, same.holderPc.trans holder.2⟩
  · intro coro stopWaiting isWaiting
    change s.pcAfter action coro = .waiting stopWaiting at isWaiting
    rcases pcAfter_cases s action coro with
      ⟨rfl, pcEq⟩ | ⟨rfl, pcEq⟩ | ⟨notWait, notResume, pcEq⟩
    · exact wait_begins innerEq
    · rw [pcEq] at isWaiting
      cases position : s.pc coro <;> simp_all [Pc.resumed]
    · rw [pcEq] at isWaiting
      exact (sound.asleep coro stopWaiting isWaiting).step notResume innerEq

theorem step (sound : Sound s) {action : Action Coro Data}
    (stepEq : PredicateWait.step s action = some s') : Sound s' := by
  cases action with
  | inner action => exact sound.inner stepEq
  | modify coro data =>
      simp only [PredicateWait.step] at stepEq
      split at stepEq
      · simp only [Option.ite_none_right_eq_some, Option.some.injEq] at stepEq
        obtain ⟨-, rfl⟩ := stepEq
        exact ⟨sound.connected, sound.inside, sound.asleep⟩
      · cases stepEq
  | wait coro stopWaiting =>
      simp only [PredicateWait.step] at stepEq
      split at stepEq
      · simp only [Option.ite_none_right_eq_some, Option.some.injEq] at stepEq
        obtain ⟨holder, rfl⟩ := stepEq
        exact sound.setPc holder (by simp) s.data
      · cases stepEq
  | evaluate coro =>
      simp only [PredicateWait.step, State.evaluate] at stepEq
      split at stepEq
      · next stopWaiting position =>
          rw [Option.some.injEq] at stepEq
          subst stepEq
          refine sound.setPc (sound.inside coro (by rw [position]; trivial)) ?_ _
          intro other
          cases (stopWaiting s.data).1 <;> simp [Pc.evaluated]
      · cases stepEq
  | proceed coro =>
      obtain ⟨pc, proceedEq, rfl⟩ := Option.map_eq_some_iff.mp stepEq
      refine sound.setPc (sound.inside coro (Pc.inside_of_proceed proceedEq))
        ?_ s.data
      intro other
      cases position : s.pc coro <;> simp_all [Pc.proceed]
      all_goals (rw [← proceedEq]; simp)

end Sound

theorem sound_of_reachable {data : Data} {s : State Coro Data}
    (reached : (system Coro data).Reachable s) : Sound s := by
  apply reached.invariant
  · rintro state rfl
    exact .new data
  · intro state action successor sound stepEq
    exact sound.step stepEq

variable {data : Data} {run : (system Coro data).Run}

end CoContext.PredicateWait
