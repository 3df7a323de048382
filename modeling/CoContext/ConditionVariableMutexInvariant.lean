import CoContext.ConditionVariableMutex
import CoContext.ConditionVariableNotification
import CoContext.MutexInvariant

/-!
# The invariant of a condition variable with its mutex

Every step of the combined system is a step or a stutter of each component,
so the invariants of the mutex and of the condition variable hold of the two
halves.  What connects them is the state of a sleeping coroutine's
`lock_awaiter`: it is idle while the coroutine waits un-notified, registered
by the one notification that holds the coroutine, and suspended afterwards.
-/

namespace CoContext.ConditionVariableMutex

variable {Coro : Type*}

/-- How the two components agree about the coroutines in `wait` and the
notification calls. -/
structure Glue (s : State Coro) : Prop where
  entering : ∀ coro, (s.cv.pc coro).Entering →
    s.mutex.holderPc coro = .holding
  acting : ∀ coro, s.cv.pc coro ≠ .idle → s.cv.pc coro ≠ .waiting →
    s.mutex.status coro = .idle
  unnotified : ∀ coro, s.cv.Unnotified coro →
    s.mutex.status coro = .idle ∨
      (s.mutex.status coro = .registering ∧ ∃ notifier,
        (s.mutex.registerPc notifier).target = some coro ∧
          (s.cv.pc notifier).target = some coro)
  notified : ∀ coro, s.cv.pc coro = .waiting → 0 < s.cv.notified coro →
    s.mutex.status coro = .suspended
  register : ∀ agent awaiter,
    (s.mutex.registerPc agent).target = some awaiter →
    ((s.mutex.registerPc agent).byNotifier = true ∧
        (s.cv.pc agent).target = some awaiter) ∨
      ((s.mutex.registerPc agent).byNotifier = false ∧ awaiter = agent ∧
        s.cv.pc agent = .idle)

theorem glue_new : Glue (State.new Coro) where
  entering _ := False.elim
  acting _ notIdle := absurd rfl notIdle
  unnotified _ isUnnotified := by cases isUnnotified.1
  notified _ isWaiting := by cases isWaiting
  register _ _ target := by cases target

section Target

variable {cv : ConditionVariable.State Coro}
variable {waiters : ConditionVariable.Waiters Coro}

theorem heldBy_of_target {notifier waiter : Coro}
    (target : (cv.pc notifier).target = some waiter) :
    cv.LocatedAt waiter (.heldBy notifier) := by
  rw [ConditionVariable.State.LocatedAt]
  cases position : cv.pc notifier with
  | oneNotify head =>
      rw [position] at target
      cases target
      rfl
  | allNotify head fromToResume =>
      rw [position] at target
      obtain rfl : head = some waiter := target
      exact .here waiter
  | _ =>
      rw [position] at target
      cases target

theorem unnotified_of_target
    (rep : ConditionVariable.Represents cv waiters) {notifier waiter : Coro}
    (target : (cv.pc notifier).target = some waiter) :
    cv.Unnotified waiter :=
  rep.unnotified waiter ⟨_, rep.heldBy_iff.mp (heldBy_of_target target)⟩

/-- A waiter is about to be notified by one call only. -/
theorem notifier_unique (rep : ConditionVariable.Represents cv waiters)
    {first second waiter : Coro}
    (firstTarget : (cv.pc first).target = some waiter)
    (secondTarget : (cv.pc second).target = some waiter) :
    first = second := by
  have inFirst := rep.heldBy_iff.mp (heldBy_of_target firstTarget)
  have inSecond := rep.heldBy_iff.mp (heldBy_of_target secondTarget)
  have samePlace := waiters.disjoint inFirst inSecond
  simpa using samePlace

end Target

namespace Glue

variable {s s' : State Coro}

/-- The awaiter that a notification is about to register is idle. -/
theorem status_of_target {waiters : ConditionVariable.Waiters Coro}
    (glue : Glue s) (rep : ConditionVariable.Represents s.cv waiters)
    {notifier waiter : Coro}
    (target : (s.cv.pc notifier).target = some waiter)
    (notRegistering : s.mutex.registerPc notifier = .idle) :
    s.mutex.status waiter = .idle := by
  rcases glue.unnotified waiter (unnotified_of_target rep target) with
    isIdle | ⟨-, other, otherRegisters, otherTarget⟩
  · exact isIdle
  · obtain rfl := notifier_unique rep target otherTarget
    rw [notRegistering] at otherRegisters
    cases otherRegisters

/-- A coroutine that sleeps in `wait` and is spawned was notified. -/
theorem notified_of_suspended (glue : Glue s) {coro : Coro}
    (isWaiting : s.cv.pc coro = .waiting)
    (suspended : s.mutex.status coro = .suspended) :
    0 < s.cv.notified coro := by
  by_contra notNotified
  rcases glue.unnotified coro ⟨isWaiting, by omega⟩ with
    isIdle | ⟨registering, -⟩
  · simp [isIdle] at suspended
  · simp [registering] at suspended

/-- A step of the mutex that leaves the awaiters and the coroutines that enter
`wait` alone. -/
theorem of_mutex (glue : Glue s) {mutex : Mutex.State Coro}
    (status : mutex.status = s.mutex.status)
    (target : ∀ agent, (mutex.registerPc agent).target =
      (s.mutex.registerPc agent).target)
    (byNotifier : ∀ agent, (mutex.registerPc agent).byNotifier =
      (s.mutex.registerPc agent).byNotifier)
    (holder : ∀ coro, (s.cv.pc coro).Entering →
      mutex.holderPc coro = s.mutex.holderPc coro) :
    Glue { s with mutex := mutex } where
  entering coro isEntering :=
    (holder coro isEntering).trans (glue.entering coro isEntering)
  acting := by
    rw [status]
    exact glue.acting
  unnotified := by
    simp only [status, target]
    exact glue.unnotified
  notified := by
    rw [status]
    exact glue.notified
  register := by
    simp only [target, byNotifier]
    exact glue.register

variable [DecidableEq Coro]

/-- A step of the condition variable by a coroutine that registers nobody. -/
theorem of_cv (glue : Glue s) {cv : ConditionVariable.State Coro} {coro : Coro}
    {pc : ConditionVariable.Pc Coro}
    (pcEq : cv.pc = Function.update s.cv.pc coro pc)
    (notifiedEq : cv.notified = s.cv.notified)
    (noTarget : (s.cv.pc coro).target = none)
    (noRegister : (s.mutex.registerPc coro).target = none)
    (isIdle : s.mutex.status coro = .idle)
    (enters : pc.Entering → s.mutex.holderPc coro = .holding)
    (notNotified : s.cv.notified coro = 0) :
    Glue { s with cv := cv } := by
  refine ⟨?_, ?_, ?_, ?_, ?_⟩
  · intro other isEntering
    by_cases isCoro : other = coro
    · subst other
      rw [pcEq, Function.update_self] at isEntering
      exact enters isEntering
    · rw [pcEq, Function.update_of_ne isCoro] at isEntering
      exact glue.entering other isEntering
  · intro other notIdle notWaiting
    by_cases isCoro : other = coro
    · subst other
      exact isIdle
    · rw [pcEq, Function.update_of_ne isCoro] at notIdle notWaiting
      exact glue.acting other notIdle notWaiting
  · rintro other ⟨isWaiting, isZero⟩
    by_cases isCoro : other = coro
    · subst other
      exact Or.inl isIdle
    · rw [pcEq, Function.update_of_ne isCoro] at isWaiting
      rw [notifiedEq] at isZero
      rcases glue.unnotified other ⟨isWaiting, isZero⟩ with
        resting | ⟨registering, notifier, target, holds⟩
      · exact Or.inl resting
      refine Or.inr ⟨registering, notifier, target, ?_⟩
      have notCoro : notifier ≠ coro := by
        rintro rfl
        rw [noTarget] at holds
        cases holds
      rwa [pcEq, Function.update_of_ne notCoro]
  · intro other isWaiting isNotified
    rw [notifiedEq] at isNotified
    by_cases isCoro : other = coro
    · subst other
      omega
    · rw [pcEq, Function.update_of_ne isCoro] at isWaiting
      exact glue.notified other isWaiting isNotified
  · intro agent awaiter target
    have notCoro : agent ≠ coro := by
      rintro rfl
      rw [noRegister] at target
      cases target
    rw [pcEq, Function.update_of_ne notCoro]
    exact glue.register agent awaiter target

theorem lock (glue : Glue s) {coro : Coro} (free : s.Free coro) :
    Glue { s with mutex := s.mutex.startRegister coro coro false } := by
  obtain ⟨isIdle, notRegistering, notSuspended, -⟩ := free
  refine ⟨glue.entering, ?_, ?_, ?_, ?_⟩
  · intro other notIdle notWaiting
    have distinct : other ≠ coro := by
      rintro rfl
      exact notIdle isIdle
    simpa [Mutex.State.startRegister, distinct] using
      glue.acting other notIdle notWaiting
  · intro other isUnnotified
    have distinct : other ≠ coro := by
      rintro rfl
      rw [isUnnotified.1] at isIdle
      cases isIdle
    have old := glue.unnotified other isUnnotified
    simp only [Mutex.State.startRegister, Function.update_of_ne distinct]
    rcases old with resting | ⟨registering, notifier, target, holds⟩
    · exact Or.inl resting
    refine Or.inr ⟨registering, notifier, ?_, holds⟩
    have notCoro : notifier ≠ coro := by
      rintro rfl
      rw [isIdle] at holds
      cases holds
    rwa [Function.update_of_ne notCoro]
  · intro other isWaiting isNotified
    have distinct : other ≠ coro := by
      rintro rfl
      rw [isWaiting] at isIdle
      cases isIdle
    simpa [Mutex.State.startRegister, distinct] using
      glue.notified other isWaiting isNotified
  · intro agent awaiter target
    by_cases isCoro : agent = coro
    · subst agent
      simp only [Mutex.State.startRegister, Function.update_self,
        Mutex.RegisterPc.target, Option.some.injEq] at target
      subst target
      exact Or.inr ⟨by simp [Mutex.State.startRegister, Mutex.RegisterPc.byNotifier],
        rfl, isIdle⟩
    · simp only [Mutex.State.startRegister,
        Function.update_of_ne isCoro] at target ⊢
      exact glue.register agent awaiter target

/-- A notification call enters `register_awaiting` of an idle awaiter. -/
theorem startRegister (glue : Glue s) {notifier waiter : Coro}
    (target : (s.cv.pc notifier).target = some waiter)
    (isUnnotified : s.cv.Unnotified waiter)
    (notRegistering : s.mutex.registerPc notifier = .idle) :
    Glue { s with mutex := s.mutex.startRegister notifier waiter true } := by
  refine ⟨glue.entering, ?_, ?_, ?_, ?_⟩
  · intro other notIdle notWaiting
    have distinct : other ≠ waiter := by
      rintro rfl
      exact notWaiting isUnnotified.1
    simpa [Mutex.State.startRegister, distinct] using
      glue.acting other notIdle notWaiting
  · intro other otherUnnotified
    by_cases isWaiter : other = waiter
    · subst other
      exact Or.inr ⟨by simp [Mutex.State.startRegister], notifier,
        by simp [Mutex.State.startRegister, Mutex.RegisterPc.target], target⟩
    · have old := glue.unnotified other otherUnnotified
      simp only [Mutex.State.startRegister, Function.update_of_ne isWaiter]
      rcases old with resting | ⟨registering, agent, registers, holds⟩
      · exact Or.inl resting
      refine Or.inr ⟨registering, agent, ?_, holds⟩
      have notNotifier : agent ≠ notifier := by
        rintro rfl
        rw [notRegistering] at registers
        cases registers
      rwa [Function.update_of_ne notNotifier]
  · intro other isWaiting isNotified
    have distinct : other ≠ waiter := by
      rintro rfl
      exact absurd isUnnotified.2 (Nat.ne_of_gt isNotified)
    simpa [Mutex.State.startRegister, distinct] using
      glue.notified other isWaiting isNotified
  · intro agent awaiter registers
    by_cases isNotifier : agent = notifier
    · subst agent
      simp only [Mutex.State.startRegister, Function.update_self,
        Mutex.RegisterPc.target, Option.some.injEq] at registers
      subst registers
      exact Or.inl ⟨by simp [Mutex.State.startRegister,
        Mutex.RegisterPc.byNotifier], target⟩
    · simp only [Mutex.State.startRegister,
        Function.update_of_ne isNotifier] at registers ⊢
      exact glue.register agent awaiter registers

/-- The `register_awaiting` call of a notification returns: the awaiter is
suspended and its coroutine notified. -/
theorem finishRegister (glue : Glue s) {mutex : Mutex.State Coro}
    {cv : ConditionVariable.State Coro} {notifier waiter : Coro}
    {pc : ConditionVariable.Pc Coro}
    (target : (s.cv.pc notifier).target = some waiter)
    (registers : (s.mutex.registerPc notifier).target = some waiter)
    (isUnnotified : s.cv.Unnotified waiter)
    (registerPc : mutex.registerPc =
      Function.update s.mutex.registerPc notifier .idle)
    (status : mutex.status =
      Function.update s.mutex.status waiter .suspended)
    (holderPc : mutex.holderPc = s.mutex.holderPc)
    (pcEq : cv.pc = Function.update s.cv.pc notifier pc)
    (notifiedEq : cv.notified = Function.update s.cv.notified waiter
      (s.cv.notified waiter + 1))
    (leaves : ¬ (pc.Entering ∨ pc = .waiting)) : Glue ⟨mutex, cv⟩ := by
  simp only [not_or] at leaves
  have notIdle : s.cv.pc notifier ≠ .idle := by
    intro isIdle
    rw [isIdle] at target
    cases target
  have notWaiting : s.cv.pc notifier ≠ .waiting := by
    intro isWaiting
    rw [isWaiting] at target
    cases target
  have distinct : notifier ≠ waiter := by
    rintro rfl
    exact notWaiting isUnnotified.1
  refine ⟨?_, ?_, ?_, ?_, ?_⟩
  · intro other isEntering
    rw [holderPc]
    by_cases isNotifier : other = notifier
    · subst other
      rw [pcEq, Function.update_self] at isEntering
      exact absurd isEntering leaves.1
    · rw [pcEq, Function.update_of_ne isNotifier] at isEntering
      exact glue.entering other isEntering
  · intro other otherIdle otherWaiting
    rw [status]
    by_cases isNotifier : other = notifier
    · subst other
      rw [Function.update_of_ne distinct]
      exact glue.acting notifier notIdle notWaiting
    · rw [pcEq, Function.update_of_ne isNotifier] at otherIdle otherWaiting
      have notWaiter : other ≠ waiter := by
        rintro rfl
        exact otherWaiting isUnnotified.1
      rw [Function.update_of_ne notWaiter]
      exact glue.acting other otherIdle otherWaiting
  · rintro other ⟨otherWaiting, isZero⟩
    have notNotifier : other ≠ notifier := by
      rintro rfl
      rw [pcEq, Function.update_self] at otherWaiting
      exact leaves.2 otherWaiting
    have notWaiter : other ≠ waiter := by
      rintro rfl
      rw [notifiedEq, Function.update_self] at isZero
      omega
    rw [pcEq, Function.update_of_ne notNotifier] at otherWaiting
    rw [notifiedEq, Function.update_of_ne notWaiter] at isZero
    simp only [status, registerPc, Function.update_of_ne notWaiter]
    rcases glue.unnotified other ⟨otherWaiting, isZero⟩ with
      resting | ⟨registering, agent, agentRegisters, holds⟩
    · exact Or.inl resting
    refine Or.inr ⟨registering, agent, ?_⟩
    have otherAgent : agent ≠ notifier := by
      rintro rfl
      rw [registers, Option.some.injEq] at agentRegisters
      exact notWaiter agentRegisters.symm
    rw [pcEq, Function.update_of_ne otherAgent, Function.update_of_ne otherAgent]
    exact ⟨agentRegisters, holds⟩
  · intro other otherWaiting isNotified
    have notNotifier : other ≠ notifier := by
      rintro rfl
      rw [pcEq, Function.update_self] at otherWaiting
      exact leaves.2 otherWaiting
    rw [status]
    by_cases isWaiter : other = waiter
    · subst other
      exact Function.update_self ..
    · rw [pcEq, Function.update_of_ne notNotifier] at otherWaiting
      rw [notifiedEq, Function.update_of_ne isWaiter] at isNotified
      rw [Function.update_of_ne isWaiter]
      exact glue.notified other otherWaiting isNotified
  · intro agent awaiter agentRegisters
    rw [registerPc] at agentRegisters ⊢
    have otherAgent : agent ≠ notifier := by
      rintro rfl
      rw [Function.update_self] at agentRegisters
      cases agentRegisters
    rw [Function.update_of_ne otherAgent] at agentRegisters ⊢
    rw [pcEq, Function.update_of_ne otherAgent]
    exact glue.register agent awaiter agentRegisters

/-- The `register_awaiting` call of a locking coroutine returns. -/
theorem finishLock (glue : Glue s) {mutex : Mutex.State Coro} {coro : Coro}
    {status : Mutex.AwaiterStatus} (isIdle : s.cv.pc coro = .idle)
    (registerPc : mutex.registerPc =
      Function.update s.mutex.registerPc coro .idle)
    (statusEq : mutex.status = Function.update s.mutex.status coro status)
    (holderPc : ∀ other, other ≠ coro →
      mutex.holderPc other = s.mutex.holderPc other) :
    Glue { s with mutex := mutex } := by
  refine ⟨?_, ?_, ?_, ?_, ?_⟩
  · intro other isEntering
    have distinct : other ≠ coro := by
      rintro rfl
      rw [isIdle] at isEntering
      exact isEntering
    exact (holderPc other distinct).trans (glue.entering other isEntering)
  · intro other notIdle notWaiting
    have distinct : other ≠ coro := by
      rintro rfl
      exact notIdle isIdle
    rw [statusEq, Function.update_of_ne distinct]
    exact glue.acting other notIdle notWaiting
  · intro other isUnnotified
    have distinct : other ≠ coro := by
      rintro rfl
      rw [isUnnotified.1] at isIdle
      cases isIdle
    simp only [statusEq, registerPc, Function.update_of_ne distinct]
    rcases glue.unnotified other isUnnotified with
      resting | ⟨registering, notifier, registers, holds⟩
    · exact Or.inl resting
    refine Or.inr ⟨registering, notifier, ?_, holds⟩
    have notCoro : notifier ≠ coro := by
      rintro rfl
      rw [isIdle] at holds
      cases holds
    rwa [Function.update_of_ne notCoro]
  · intro other isWaiting isNotified
    have distinct : other ≠ coro := by
      rintro rfl
      rw [isWaiting] at isIdle
      cases isIdle
    rw [statusEq, Function.update_of_ne distinct]
    exact glue.notified other isWaiting isNotified
  · intro agent awaiter registers
    rw [registerPc] at registers ⊢
    have notCoro : agent ≠ coro := by
      rintro rfl
      rw [Function.update_self] at registers
      cases registers
    rw [Function.update_of_ne notCoro] at registers ⊢
    exact glue.register agent awaiter registers

/-- A coroutine that was spawned as the owner is resumed. -/
theorem resume (glue : Glue s) {coro : Coro}
    (suspended : s.mutex.status coro = .suspended) : Glue (s.resume coro) := by
  have pcEq : (s.resume coro).cv.pc = Function.update s.cv.pc coro .idle := by
    by_cases isWaiting : s.cv.pc coro = .waiting
    · simp [State.resume, isWaiting]
    · have isIdle : s.cv.pc coro = .idle := by
        by_contra notIdle
        simp [glue.acting coro notIdle isWaiting] at suspended
      have same : (s.resume coro).cv = s.cv := if_neg isWaiting
      rw [same, ← isIdle, Function.update_eq_self]
  have notifiedEq : ∀ other, other ≠ coro →
      (s.resume coro).cv.notified other = s.cv.notified other := by
    intro other distinct
    by_cases isWaiting : s.cv.pc coro = .waiting
    · simp [State.resume, isWaiting, distinct]
    · simp [State.resume, isWaiting]
  have statusEq : (s.resume coro).mutex.status =
      Function.update s.mutex.status coro .idle := rfl
  have holderEq : (s.resume coro).mutex.holderPc =
      Function.update s.mutex.holderPc coro .holding := rfl
  have registerEq : (s.resume coro).mutex.registerPc =
      s.mutex.registerPc := rfl
  refine ⟨?_, ?_, ?_, ?_, ?_⟩
  · intro other isEntering
    rw [holderEq]
    by_cases isCoro : other = coro
    · subst other
      exact Function.update_self ..
    · rw [pcEq, Function.update_of_ne isCoro] at isEntering
      rw [Function.update_of_ne isCoro]
      exact glue.entering other isEntering
  · intro other notIdle notWaiting
    rw [statusEq]
    by_cases isCoro : other = coro
    · subst other
      exact Function.update_self ..
    · rw [pcEq, Function.update_of_ne isCoro] at notIdle notWaiting
      rw [Function.update_of_ne isCoro]
      exact glue.acting other notIdle notWaiting
  · rintro other ⟨isWaiting, isZero⟩
    have distinct : other ≠ coro := by
      rintro rfl
      rw [pcEq, Function.update_self] at isWaiting
      cases isWaiting
    rw [pcEq, Function.update_of_ne distinct] at isWaiting
    rw [notifiedEq other distinct] at isZero
    simp only [statusEq, registerEq, Function.update_of_ne distinct]
    rcases glue.unnotified other ⟨isWaiting, isZero⟩ with
      resting | ⟨registering, notifier, registers, holds⟩
    · exact Or.inl resting
    refine Or.inr ⟨registering, notifier, registers, ?_⟩
    have notCoro : notifier ≠ coro := by
      rintro rfl
      have isIdle := glue.acting notifier (by
        intro isIdle
        simp [isIdle, ConditionVariable.Pc.target] at holds) (by
        intro isWaiting
        simp [isWaiting, ConditionVariable.Pc.target] at holds)
      simp [isIdle] at suspended
    rwa [pcEq, Function.update_of_ne notCoro]
  · intro other isWaiting isNotified
    have distinct : other ≠ coro := by
      rintro rfl
      rw [pcEq, Function.update_self] at isWaiting
      cases isWaiting
    rw [pcEq, Function.update_of_ne distinct] at isWaiting
    rw [notifiedEq other distinct] at isNotified
    rw [statusEq, Function.update_of_ne distinct]
    exact glue.notified other isWaiting isNotified
  · intro agent awaiter registers
    have old := glue.register agent awaiter registers
    rw [registerEq, pcEq]
    by_cases isCoro : agent = coro
    · subst agent
      right
      rcases old with ⟨-, target⟩ | ⟨byItself, same, -⟩
      · have isIdle := glue.acting coro (by
          intro isIdle
          simp [isIdle, ConditionVariable.Pc.target] at target) (by
          intro isWaiting
          simp [isWaiting, ConditionVariable.Pc.target] at target)
        simp [isIdle] at suspended
      · exact ⟨byItself, same, Function.update_self ..⟩
    · rwa [Function.update_of_ne isCoro]

end Glue

/-- The two components of a reachable state are reachable, and they agree. -/
structure Connected [DecidableEq Coro] (s : State Coro) : Prop where
  mutex : (Mutex.system Coro).Reachable s.mutex
  cv : (ConditionVariable.system Coro).Reachable s.cv
  glue : Glue s

namespace Connected

variable [DecidableEq Coro] {s s' : State Coro}

theorem of_mutex_step (connected : Connected s) {mutex : Mutex.State Coro}
    {action : Mutex.Action Coro}
    (stepEq : (Mutex.system Coro).step s.mutex action = some mutex)
    (glue : Glue { s with mutex := mutex }) :
    Connected { s with mutex := mutex } :=
  ⟨.next connected.mutex trivial stepEq, connected.cv, glue⟩

theorem of_cv_step (connected : Connected s) {cv : ConditionVariable.State Coro}
    {action : ConditionVariable.Action Coro}
    (stepEq : (ConditionVariable.system Coro).step s.cv action = some cv)
    (glue : Glue { s with cv := cv }) :
    Connected { s with cv := cv } :=
  ⟨connected.mutex, .next connected.cv trivial stepEq, glue⟩

/-- The holder enters `unlock`, by itself or ahead of its suspension. -/
theorem unlock (connected : Connected s) {coro : Coro}
    (isHolding : s.mutex.holderPc coro = .holding)
    (notEntering : ¬ (s.cv.pc coro).Entering) :
    Connected { s with mutex := s.mutex.setHolder coro .unlockEntry } := by
  have mutexStep : (Mutex.system Coro).step s.mutex (.unlock coro) =
      some (s.mutex.setHolder coro .unlockEntry) := if_pos isHolding
  refine connected.of_mutex_step mutexStep (connected.glue.of_mutex rfl
    (fun _ => rfl) (fun _ => rfl) ?_)
  intro other isEntering
  have distinct : other ≠ coro := by
    rintro rfl
    exact notEntering isEntering
  simp [distinct]

theorem runUnlock (connected : Connected s) {coro : Coro}
    {mutex : Mutex.State Coro} (stepEq : s.mutex.runUnlock coro = some mutex) :
    Connected { s with mutex := mutex } := by
  obtain ⟨notHolding, status, registerPc, pc, holderPc⟩ :=
    Mutex.runUnlock_update stepEq
  refine connected.of_mutex_step (show (Mutex.system Coro).step s.mutex (.runUnlock coro) = some mutex from stepEq) ?_
  refine connected.glue.of_mutex status (by simp [registerPc])
    (by simp [registerPc]) ?_
  intro other isEntering
  have distinct : other ≠ coro := by
    rintro rfl
    exact notHolding (connected.glue.entering other isEntering)
  rw [holderPc, Function.update_of_ne distinct]

/-- A coroutine with nothing to do starts an operation of the condition
variable. -/
theorem enter (connected : Connected s) {coro : Coro}
    {pc : ConditionVariable.Pc Coro} {action : ConditionVariable.Action Coro}
    (free : s.Free coro)
    (stepEq : (ConditionVariable.system Coro).step s.cv action = some (s.cv.setPc coro pc))
    (enters : pc.Entering → s.mutex.holderPc coro = .holding) :
    Connected (s.setPc coro pc) := by
  obtain ⟨waiters, rep⟩ := ConditionVariable.consistent_of_reachable connected.cv
  obtain ⟨isIdle, notRegistering, notSuspended, -⟩ := free
  have notNotified : s.cv.notified coro = 0 := by
    by_contra isNotified
    have isWaiting := rep.notified_waiting coro (by omega)
    simp [isIdle] at isWaiting
  refine connected.of_cv_step stepEq (connected.glue.of_cv rfl rfl ?_ ?_
    notSuspended enters notNotified)
  · rw [isIdle]
    rfl
  · rw [notRegistering]
    rfl

/-- A step of `wait` or of a notification call that registers nobody. -/
theorem run (connected : Connected s) {coro : Coro} {spuriousFailure : Bool}
    {cv : ConditionVariable.State Coro}
    (noTarget : (s.cv.pc coro).target = none)
    (stepEq : s.cv.run coro spuriousFailure = some cv) :
    Connected { s with cv := cv } := by
  obtain ⟨waiters, rep⟩ := ConditionVariable.consistent_of_reachable connected.cv
  obtain ⟨pc, pcEq, notifiedEq, -, enters⟩ :=
    ConditionVariable.run_update stepEq
  rw [noTarget] at notifiedEq
  have notIdle : s.cv.pc coro ≠ .idle := by
    intro isIdle
    simp [ConditionVariable.State.run, isIdle] at stepEq
  have notWaiting : s.cv.pc coro ≠ .waiting := by
    intro isWaiting
    simp [ConditionVariable.State.run, isWaiting] at stepEq
  have notNotified : s.cv.notified coro = 0 := by
    by_contra isNotified
    exact notWaiting (rep.notified_waiting coro (by omega))
  have noRegister : (s.mutex.registerPc coro).target = none := by
    by_contra registers
    obtain ⟨awaiter, registers⟩ := Option.ne_none_iff_exists'.mp registers
    rcases connected.glue.register coro awaiter registers with
      ⟨-, target⟩ | ⟨-, -, isIdle⟩
    · rw [noTarget] at target
      cases target
    · exact notIdle isIdle
  have cvStep : (ConditionVariable.system Coro).step s.cv (.run coro spuriousFailure) =
      some cv := stepEq
  exact connected.of_cv_step cvStep (connected.glue.of_cv pcEq notifiedEq
    noTarget noRegister (connected.glue.acting coro notIdle notWaiting)
    (fun isEntering => connected.glue.entering coro (enters (Or.inl isEntering)))
    notNotified)

theorem register (connected : Connected s) {notifier : Coro}
    (stepEq : s.register notifier = some s') : Connected s' := by
  obtain ⟨waiters, rep⟩ := ConditionVariable.consistent_of_reachable connected.cv
  cases target : (s.cv.pc notifier).target with
  | none => simp [State.register, target] at stepEq
  | some waiter =>
      simp only [State.register, target, Option.ite_none_right_eq_some,
        Option.some.injEq] at stepEq
      obtain ⟨notRegistering, rfl⟩ := stepEq
      have isIdle := connected.glue.status_of_target rep target notRegistering
      have mutexStep : (Mutex.system Coro).step s.mutex (.registerFor notifier waiter) =
          some (s.mutex.startRegister notifier waiter true) :=
        if_pos ⟨notRegistering, isIdle⟩
      exact connected.of_mutex_step mutexStep (connected.glue.startRegister
        target (unnotified_of_target rep target) notRegistering)

theorem runRegister (connected : Connected s) {agent : Coro}
    {spuriousFailure : Bool}
    (stepEq : s.runRegister agent spuriousFailure = some s') :
    Connected s' := by
  obtain ⟨waiters, rep⟩ := ConditionVariable.consistent_of_reachable connected.cv
  obtain ⟨mutex, runEq, restEq⟩ := Option.bind_eq_some_iff.mp stepEq
  have mutexStep : (Mutex.system Coro).step s.mutex (.runRegister agent spuriousFailure) =
      some mutex := runEq
  obtain ⟨awaiter, registers, continues | ⟨registerPc, returns⟩⟩ :=
    Mutex.runRegister_update runEq
  · obtain ⟨pc, registerPc, sameTarget, sameFlag, status, holderPc⟩ := continues
    have notIdle : mutex.registerPc agent ≠ .idle := by
      rw [registerPc, Function.update_self]
      rintro rfl
      cases sameTarget
    rw [if_neg (fun returned => notIdle returned.2), Option.some.injEq] at restEq
    subst restEq
    refine connected.of_mutex_step mutexStep (connected.glue.of_mutex status
      ?_ ?_ fun coro _ => by rw [holderPc])
    · intro other
      by_cases isAgent : other = agent
      · subst other
        rw [registerPc, Function.update_self, sameTarget, registers]
      · rw [registerPc, Function.update_of_ne isAgent]
    · intro other
      by_cases isAgent : other = agent
      · subst other
        rw [registerPc, Function.update_self, sameFlag]
      · rw [registerPc, Function.update_of_ne isAgent]
  · have isIdle : mutex.registerPc agent = .idle := by
      rw [registerPc, Function.update_self]
    rcases connected.glue.register agent awaiter registers with
      ⟨byNotifier, target⟩ | ⟨byItself, rfl, atRest⟩
    · have isUnnotified := unnotified_of_target rep target
      rcases returns with ⟨status, holderPc⟩ | ⟨byItself, -⟩
      · rw [if_pos ⟨by simp [target], isIdle⟩] at restEq
        obtain ⟨cv, cvEq, rfl⟩ := Option.map_eq_some_iff.mp restEq
        obtain ⟨pc, pcEq, notifiedEq, -, enters⟩ :=
          ConditionVariable.run_update cvEq
        rw [target] at notifiedEq
        have leaves : ¬ (pc.Entering ∨ pc = .waiting) := by
          intro entering
          have wasEntering := enters entering
          cases position : s.cv.pc agent <;>
            simp [position, ConditionVariable.Pc.Entering,
              ConditionVariable.Pc.target] at wasEntering target
        have cvStep : (ConditionVariable.system Coro).step s.cv (.run agent false) =
            some cv := cvEq
        have mutexReached : (Mutex.system Coro).Reachable mutex :=
          .next connected.mutex trivial mutexStep
        have cvReached : (ConditionVariable.system Coro).Reachable cv :=
          .next connected.cv trivial cvStep
        exact ⟨mutexReached, cvReached,
          connected.glue.finishRegister target registers isUnnotified
            registerPc status holderPc pcEq notifiedEq leaves⟩
      · rw [byNotifier] at byItself
        cases byItself
    · have noTarget : (s.cv.pc awaiter).target = none := by
        rw [atRest]
        rfl
      rw [if_neg (fun returned => returned.1 noTarget),
        Option.some.injEq] at restEq
      subst restEq
      rcases returns with ⟨status, holderPc⟩ | ⟨-, status, holderPc⟩
      · exact connected.of_mutex_step mutexStep (connected.glue.finishLock
          atRest registerPc status fun other _ => by rw [holderPc])
      · exact connected.of_mutex_step mutexStep (connected.glue.finishLock
          atRest registerPc status fun other distinct => by
            rw [holderPc, Function.update_of_ne distinct])

theorem suspended_of_ready (connected : Connected s) {coro : Coro}
    (isReady : 0 < s.mutex.ready coro) :
    s.mutex.status coro = .suspended := by
  obtain ⟨waiters, owner, rep⟩ := Mutex.consistent_of_reachable connected.mutex
  exact (rep.registered.suspended_iff coro).mpr
    (Or.inr (rep.owner_of_ready isReady))

theorem resume (connected : Connected s) {coro : Coro}
    (isReady : 0 < s.mutex.ready coro) : Connected (s.resume coro) := by
  have suspended := connected.suspended_of_ready isReady
  have mutexStep : (Mutex.system Coro).step s.mutex (.resume coro) =
      some (s.mutex.resume coro) := if_pos isReady
  have mutexReached : (Mutex.system Coro).Reachable (s.mutex.resume coro) :=
    .next connected.mutex trivial mutexStep
  refine ⟨mutexReached, ?_, connected.glue.resume suspended⟩
  by_cases isWaiting : s.cv.pc coro = .waiting
  · have isNotified := connected.glue.notified_of_suspended isWaiting suspended
    have cvStep : (ConditionVariable.system Coro).step s.cv (.resume coro) =
        some (s.resume coro).cv := by
      simp [ConditionVariable.system, ConditionVariable.step, State.resume,
        isWaiting, isNotified]
    exact .next connected.cv trivial cvStep
  · have same : (s.resume coro).cv = s.cv := if_neg isWaiting
    rw [same]
    exact connected.cv

theorem step (connected : Connected s) {action : Action Coro}
    (stepEq : ConditionVariableMutex.step s action = some s') :
    Connected s' := by
  cases action with
  | lock coro =>
      simp only [ConditionVariableMutex.step, Option.ite_none_right_eq_some,
        Option.some.injEq] at stepEq
      obtain ⟨free, rfl⟩ := stepEq
      have mutexStep : (Mutex.system Coro).step s.mutex (.lock coro) =
          some (s.mutex.startRegister coro coro false) :=
        if_pos ⟨free.2.1, free.2.2.1⟩
      exact connected.of_mutex_step mutexStep (connected.glue.lock free)
  | tryLock coro =>
      simp only [ConditionVariableMutex.step, Option.ite_none_right_eq_some,
        Option.some.injEq] at stepEq
      obtain ⟨free, rfl⟩ := stepEq
      have mutexStep : (Mutex.system Coro).step s.mutex (.tryLock coro) =
          some (s.mutex.tryLock coro) := rfl
      refine connected.of_mutex_step mutexStep (connected.glue.of_mutex ?_
        (fun _ => ?_) (fun _ => ?_) ?_)
      · unfold Mutex.State.tryLock
        split <;> rfl
      · unfold Mutex.State.tryLock
        split <;> rfl
      · unfold Mutex.State.tryLock
        split <;> rfl
      · intro other isEntering
        have distinct : other ≠ coro := by
          rintro rfl
          rw [free.1] at isEntering
          exact isEntering
        unfold Mutex.State.tryLock
        split <;> simp [distinct]
  | unlock coro =>
      simp only [ConditionVariableMutex.step, Option.ite_none_right_eq_some,
        Option.some.injEq] at stepEq
      obtain ⟨⟨free, isHolding⟩, rfl⟩ := stepEq
      exact connected.unlock isHolding (by simp [free.1, ConditionVariable.Pc.Entering])
  | unlockAhead coro =>
      simp only [ConditionVariableMutex.step, Option.ite_none_right_eq_some,
        Option.some.injEq] at stepEq
      obtain ⟨⟨isWaiting, isHolding⟩, rfl⟩ := stepEq
      exact connected.unlock isHolding
        (by simp [isWaiting, ConditionVariable.Pc.Entering])
  | runUnlock coro =>
      obtain ⟨mutex, runEq, rfl⟩ := Option.map_eq_some_iff.mp stepEq
      exact connected.runUnlock runEq
  | wait coro =>
      simp only [ConditionVariableMutex.step, Option.ite_none_right_eq_some,
        Option.some.injEq] at stepEq
      obtain ⟨⟨free, isHolding⟩, rfl⟩ := stepEq
      have cvStep : (ConditionVariable.system Coro).step s.cv (.wait coro) =
          some (s.cv.setPc coro .waitLoad) := if_pos free.1
      exact connected.enter free cvStep fun _ => isHolding
  | notifyOne coro =>
      simp only [ConditionVariableMutex.step, Option.ite_none_right_eq_some,
        Option.some.injEq] at stepEq
      obtain ⟨free, rfl⟩ := stepEq
      have cvStep : (ConditionVariable.system Coro).step s.cv (.notifyOne coro) =
          some (s.cv.setPc coro .oneTakeResume) := if_pos free.1
      exact connected.enter free cvStep False.elim
  | notifyAll coro =>
      simp only [ConditionVariableMutex.step, Option.ite_none_right_eq_some,
        Option.some.injEq] at stepEq
      obtain ⟨free, rfl⟩ := stepEq
      have cvStep : (ConditionVariable.system Coro).step s.cv (.notifyAll coro) =
          some (s.cv.setPc coro .allExchange) := if_pos free.1
      exact connected.enter free cvStep False.elim
  | run coro spuriousFailure =>
      simp only [ConditionVariableMutex.step,
        Option.ite_none_right_eq_some] at stepEq
      obtain ⟨noTarget, mapEq⟩ := stepEq
      obtain ⟨cv, runEq, rfl⟩ := Option.map_eq_some_iff.mp mapEq
      exact connected.run noTarget runEq
  | register notifier => exact connected.register stepEq
  | runRegister agent spuriousFailure => exact connected.runRegister stepEq
  | resume coro =>
      simp only [ConditionVariableMutex.step, Option.ite_none_right_eq_some,
        Option.some.injEq] at stepEq
      obtain ⟨isReady, rfl⟩ := stepEq
      exact connected.resume isReady

end Connected

theorem connected_of_reachable [DecidableEq Coro] {s : State Coro}
    (reached : (system Coro).Reachable s) : Connected s := by
  apply reached.invariant
  · rintro state rfl
    exact ⟨.start rfl, .start rfl, glue_new⟩
  · intro state action successor connected stepEq
    exact connected.step stepEq

end CoContext.ConditionVariableMutex
