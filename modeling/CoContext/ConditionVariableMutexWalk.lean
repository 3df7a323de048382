import CoContext.ConditionVariableMutexSafety

/-!
# The walks of `notify_all` over a condition variable and its mutex

A `cv_wait_awaiter` lives in the frame of the waiting coroutine and exists only
until that coroutine is resumed.  The walk of `notify_all` registers a waiter,
or spawns it as the owner, and reads the link to the next one afterwards.  Here
this read is a step of its own; the waiter may be resumed before it, and may
wait again with an awaiter at the same place of its frame.

While no walk is overtaken in this way, the read finds what it would have found
when the registration returned, so that the steps are those of the system in
which a registration and the read after it are one step.
-/

namespace CoContext.ConditionVariableMutexWalk

open ConditionVariableMutex (Connected)

structure State (Coro : Type*) where
  cvm : ConditionVariableMutex.State Coro
  /-- The walk of this coroutine has notified its waiter, and the waiter's
  `next` is still to be read. -/
  reading : Coro → Bool

inductive Action (Coro : Type*)
  | inner (action : ConditionVariableMutex.Action Coro)
  | readNext (notifier : Coro)
  deriving DecidableEq

instance {Coro : Type*} [Inhabited Coro] : Inhabited (Action Coro) :=
  ⟨.inner default⟩

variable {Coro : Type*}

/-- The coroutine that performs an action. -/
def agent : ConditionVariableMutex.Action Coro → Coro
  | .lock coro | .tryLock coro | .unlock coro | .runUnlock coro | .wait coro
  | .notifyOne coro | .notifyAll coro | .run coro _ | .unlockAhead coro
  | .resume coro => coro
  | .register notifier => notifier
  | .runRegister agent _ => agent

def State.new (Coro : Type*) : State Coro where
  cvm := .new Coro
  reading _ := false

variable [DecidableEq Coro]

namespace State

/-- The next step of a `register_awaiting` call.  When the call made by a walk
returns, the waiter is notified. -/
def runRegister (s : State Coro) (agent : Coro) (spuriousFailure : Bool) :
    Option (State Coro) :=
  match s.cvm.cv.pc agent with
  | .allNotify (some head) _ =>
      (s.cvm.mutex.runRegister agent spuriousFailure).map fun mutex =>
        if mutex.registerPc agent = .idle then
          { cvm := ⟨mutex, s.cvm.cv.notify head⟩
            reading := Function.update s.reading agent true }
        else
          { s with cvm := { s.cvm with mutex := mutex } }
  | _ =>
      (s.cvm.runRegister agent spuriousFailure).map fun cvm =>
        { s with cvm := cvm }

/-- `head = head->next`.  A record that does not exist is not read. -/
def readNext (s : State Coro) (notifier : Coro) : Option (State Coro) :=
  match s.cvm.cv.pc notifier with
  | .allNotify (some head) fromToResume =>
      if s.reading notifier = true ∧ s.cvm.cv.pc head = .waiting then
        some
          { cvm := s.cvm.setPc notifier
              (.allNotify (s.cvm.cv.next head) fromToResume)
            reading := Function.update s.reading notifier false }
      else
        none
  | _ => none

/-- A step other than the read of a link. -/
def inner (s : State Coro) :
    ConditionVariableMutex.Action Coro → Option (State Coro)
  | .runRegister agent spuriousFailure => s.runRegister agent spuriousFailure
  | action =>
      (ConditionVariableMutex.step s.cvm action).map fun cvm =>
        { s with cvm := cvm }

end State

def step (s : State Coro) : Action Coro → Option (State Coro)
  | .inner action =>
      if s.reading (agent action) = false then s.inner action else none
  | .readNext notifier => s.readNext notifier

/-- Arbitrarily many coroutines use the condition variable and its mutex in
any interleaving; `wait` is only called by the holder of the mutex. -/
def system (Coro : Type*) [DecidableEq Coro] :
    TransitionSystem (State Coro) (Action Coro) where
  initial s := s = State.new Coro
  step := step

/-- A waiter is not resumed while a walk that has notified it has still to read
its `next`. -/
def KeepsRecord (s : State Coro) : Action Coro → Prop
  | .inner (.resume coro) => ∀ notifier, s.reading notifier = true →
      (s.cvm.cv.pc notifier).target ≠ some coro
  | _ => True

instance [Fintype Coro] (s : State Coro) : DecidablePred (KeepsRecord s)
  | .inner (.resume _) => inferInstanceAs (Decidable (∀ _, _ → _))
  | .inner (.lock _) | .inner (.tryLock _) | .inner (.unlock _)
  | .inner (.runUnlock _) | .inner (.wait _) | .inner (.notifyOne _)
  | .inner (.notifyAll _) | .inner (.run ..) | .inner (.unlockAhead _)
  | .inner (.register _) | .inner (.runRegister ..) | .readNext _ =>
      isTrue trivial

section Ahead

/-- The position of a walk after it has read the link of its waiter. -/
def afterRead (next : Coro → Option Coro) :
    ConditionVariable.Pc Coro → ConditionVariable.Pc Coro
  | .allNotify (some head) fromToResume => .allNotify (next head) fromToResume
  | pc => pc

/-- The positions when all walks have read the links they have to read. -/
def aheadPc (s : State Coro) (coro : Coro) : ConditionVariable.Pc Coro :=
  if s.reading coro = true then afterRead s.cvm.cv.next (s.cvm.cv.pc coro)
  else s.cvm.cv.pc coro

/-- The same state with other positions. -/
@[simps]
def withPc (cvm : ConditionVariableMutex.State Coro)
    (pc : Coro → ConditionVariable.Pc Coro) :
    ConditionVariableMutex.State Coro :=
  { cvm with cv := { cvm.cv with pc := pc } }

/-- The state in which a registration and the read after it are one step. -/
def ahead (s : State Coro) : ConditionVariableMutex.State Coro :=
  withPc s.cvm (aheadPc s)

variable {pc : Coro → ConditionVariable.Pc Coro}

/-- A step of the condition variable looks at the position of its own coroutine
and changes no other. -/
theorem run_withPc {cv cv' : ConditionVariable.State Coro} {coro : Coro}
    {spuriousFailure : Bool} (same : pc coro = cv.pc coro)
    (runEq : cv.run coro spuriousFailure = some cv') :
    ConditionVariable.State.run { cv with pc := pc } coro spuriousFailure =
      some { cv' with pc := Function.update pc coro (cv'.pc coro) } := by
  cases position : cv.pc coro with
  | idle | waiting | nullDereference =>
      simp [ConditionVariable.State.run, position] at runEq
  | waitLoad | oneNotify | allExchange | allTakeResume =>
      simp only [ConditionVariable.State.run, position,
        Option.some.injEq] at runEq
      subst runEq
      simp [ConditionVariable.State.run, same, position,
        ConditionVariable.State.setPc, ConditionVariable.State.notify]
  | waitExchange oldHead =>
      simp only [ConditionVariable.State.run, same, position] at runEq ⊢
      split at runEq <;> rename_i succeeds <;> rw [Option.some.injEq] at runEq <;>
        subst runEq
      · rw [if_pos succeeds]
        simp [ConditionVariable.State.setPc, ConditionVariable.State.link]
      · rw [if_neg succeeds]
        simp [ConditionVariable.State.setPc, ConditionVariable.State.link]
  | oneTakeResume =>
      simp only [ConditionVariable.State.run, same, position,
        Option.some.injEq] at runEq ⊢
      subst runEq
      cases isHead : cv.toResumeHead <;>
        simp [ConditionVariable.State.takeResume, isHead,
          ConditionVariable.State.setPc]
  | oneExchange =>
      simp only [ConditionVariable.State.run, same, position,
        Option.some.injEq] at runEq ⊢
      subst runEq
      cases stack : cv.awaiting <;>
        simp [ConditionVariable.State.detach, stack,
          ConditionVariable.State.setPc]
  | oneReverse tail head succ pred =>
      simp only [ConditionVariable.State.run, same, position,
        Option.some.injEq] at runEq ⊢
      subst runEq
      cases pred <;>
        simp [ConditionVariable.State.reverseNode,
          ConditionVariable.State.setPc, ConditionVariable.State.link]
  | oneSplice tail head succ =>
      simp only [ConditionVariable.State.run, same, position,
        Option.some.injEq] at runEq ⊢
      subst runEq
      cases isHead : cv.toResumeHead <;> cases isTail : cv.toResumeTail <;>
        simp [ConditionVariable.State.splice, isHead, isTail,
          ConditionVariable.State.setPc, ConditionVariable.State.link]
  | allNotify head fromToResume =>
      cases head with
      | some head =>
          simp only [ConditionVariable.State.run, same, position,
            Option.some.injEq] at runEq ⊢
          subst runEq
          simp [ConditionVariable.State.setPc, ConditionVariable.State.notify]
      | none =>
          cases fromToResume <;>
            (simp only [ConditionVariable.State.run, same, position,
               Option.some.injEq] at runEq ⊢
             subst runEq
             simp [ConditionVariable.State.setPc])

variable {cvm cvm' : ConditionVariableMutex.State Coro}
variable {action : ConditionVariableMutex.Action Coro}

omit [DecidableEq Coro] in
theorem free_withPc {coro : Coro} (same : pc coro = cvm.cv.pc coro) :
    (withPc cvm pc).Free coro ↔ cvm.Free coro := by
  simp [ConditionVariableMutex.State.Free, same]

/-- A step looks at the position of its own coroutine. -/
theorem step_withPc (same : pc (agent action) = cvm.cv.pc (agent action))
    (stepEq : ConditionVariableMutex.step cvm action = some cvm') :
    ConditionVariableMutex.step (withPc cvm pc) action =
      some (withPc cvm'
        (Function.update pc (agent action) (cvm'.cv.pc (agent action)))) := by
  cases action with
  | lock coro | tryLock coro =>
      simp only [agent] at same
      simp only [ConditionVariableMutex.step, Option.ite_none_right_eq_some,
        Option.some.injEq] at stepEq
      obtain ⟨free, rfl⟩ := stepEq
      simp only [ConditionVariableMutex.step, agent,
        if_pos ((free_withPc same).mpr free), ← same, Function.update_eq_self]
      rfl
  | unlock coro =>
      simp only [agent] at same
      simp only [ConditionVariableMutex.step, Option.ite_none_right_eq_some,
        Option.some.injEq] at stepEq
      obtain ⟨⟨free, isHolding⟩, rfl⟩ := stepEq
      have permitted : (withPc cvm pc).Free coro ∧
          (withPc cvm pc).mutex.holderPc coro = .holding :=
        ⟨(free_withPc same).mpr free, isHolding⟩
      simp only [ConditionVariableMutex.step, agent, if_pos permitted, ← same,
        Function.update_eq_self]
      rfl
  | runUnlock coro =>
      simp only [agent] at same
      obtain ⟨mutex, runEq, rfl⟩ := Option.map_eq_some_iff.mp stepEq
      have runEq' : (withPc cvm pc).mutex.runUnlock coro = some mutex := runEq
      simp only [ConditionVariableMutex.step, agent, runEq', Option.map_some,
        ← same, Function.update_eq_self]
      rfl
  | wait coro =>
      simp only [agent] at same
      simp only [ConditionVariableMutex.step, Option.ite_none_right_eq_some,
        Option.some.injEq] at stepEq
      obtain ⟨⟨free, isHolding⟩, rfl⟩ := stepEq
      have permitted : (withPc cvm pc).Free coro ∧
          (withPc cvm pc).mutex.holderPc coro = .holding :=
        ⟨(free_withPc same).mpr free, isHolding⟩
      simp only [ConditionVariableMutex.step, if_pos permitted]
      simp [agent, withPc, ConditionVariableMutex.State.setPc,
        ConditionVariable.State.setPc]
  | notifyOne coro | notifyAll coro =>
      simp only [agent] at same
      simp only [ConditionVariableMutex.step, Option.ite_none_right_eq_some,
        Option.some.injEq] at stepEq
      obtain ⟨free, rfl⟩ := stepEq
      simp only [ConditionVariableMutex.step,
        if_pos ((free_withPc same).mpr free)]
      simp [agent, withPc, ConditionVariableMutex.State.setPc,
        ConditionVariable.State.setPc]
  | run coro spuriousFailure =>
      simp only [agent] at same
      simp only [ConditionVariableMutex.step,
        Option.ite_none_right_eq_some] at stepEq
      obtain ⟨noTarget, mapEq⟩ := stepEq
      obtain ⟨cv, runEq, rfl⟩ := Option.map_eq_some_iff.mp mapEq
      have noTarget' : ((withPc cvm pc).cv.pc coro).target = none := by
        rw [withPc_cv_pc, same]
        exact noTarget
      have runEq' : (withPc cvm pc).cv.run coro spuriousFailure = some _ :=
        run_withPc same runEq
      simp only [ConditionVariableMutex.step, agent, if_pos noTarget', runEq',
        Option.map_some]
      rfl
  | unlockAhead coro =>
      simp only [agent] at same
      simp only [ConditionVariableMutex.step, Option.ite_none_right_eq_some,
        Option.some.injEq] at stepEq
      obtain ⟨⟨isWaiting, isHolding⟩, rfl⟩ := stepEq
      have permitted : (withPc cvm pc).cv.pc coro = .waiting ∧
          (withPc cvm pc).mutex.holderPc coro = .holding :=
        ⟨same.trans isWaiting, isHolding⟩
      simp only [ConditionVariableMutex.step, agent, if_pos permitted, ← same,
        Function.update_eq_self]
      rfl
  | register notifier =>
      simp only [agent] at same
      simp only [ConditionVariableMutex.step,
        ConditionVariableMutex.State.register] at stepEq
      simp only [ConditionVariableMutex.step,
        ConditionVariableMutex.State.register, agent, withPc_cv_pc, same]
      split at stepEq
      · cases stepEq
      · rename_i waiter isTarget
        simp only [Option.ite_none_right_eq_some, Option.some.injEq] at stepEq
        obtain ⟨isIdle, rfl⟩ := stepEq
        simp only [withPc_mutex, if_pos isIdle, ← same,
          Function.update_eq_self]
        rfl
  | runRegister coro spuriousFailure =>
      simp only [agent] at same
      obtain ⟨mutex, runEq, restEq⟩ := Option.bind_eq_some_iff.mp stepEq
      have runEq' : (withPc cvm pc).mutex.runRegister coro spuriousFailure =
          some mutex := runEq
      simp only [ConditionVariableMutex.step,
        ConditionVariableMutex.State.runRegister, runEq', Option.bind_some,
        withPc_cv_pc, same, agent]
      split at restEq <;> rename_i returns
      · obtain ⟨cv, cvEq, rfl⟩ := Option.map_eq_some_iff.mp restEq
        have cvEq' : (withPc cvm pc).cv.run coro false = some _ :=
          run_withPc same cvEq
        simp only [if_pos returns, cvEq', Option.map_some]
        rfl
      · rw [Option.some.injEq] at restEq
        subst restEq
        simp only [if_neg returns]
        rw [← same, Function.update_eq_self]
        rfl
  | resume coro =>
      simp only [agent] at same
      simp only [ConditionVariableMutex.step, Option.ite_none_right_eq_some,
        Option.some.injEq] at stepEq
      obtain ⟨isReady, rfl⟩ := stepEq
      have isReady' : 0 < (withPc cvm pc).mutex.ready coro := isReady
      simp only [ConditionVariableMutex.step, agent, if_pos isReady']
      by_cases isWaiting : cvm.cv.pc coro = .waiting
      · simp [ConditionVariableMutex.State.resume, withPc, same, isWaiting,
          ConditionVariable.State.resume]
      · have stays : Function.update pc coro (cvm.cv.pc coro) = pc := by
          rw [← same, Function.update_eq_self]
        simp [ConditionVariableMutex.State.resume, withPc, same, isWaiting,
          stays]

/-- A step moves its own coroutine only. -/
theorem step_pc_of_ne
    (stepEq : ConditionVariableMutex.step cvm action = some cvm')
    {coro : Coro} (other : coro ≠ agent action) :
    cvm'.cv.pc coro = cvm.cv.pc coro := by
  have moved : ConditionVariableMutex.step (withPc cvm cvm.cv.pc) action =
      some (withPc cvm' (Function.update cvm.cv.pc (agent action)
        (cvm'.cv.pc (agent action)))) := step_withPc rfl stepEq
  have same : withPc cvm cvm.cv.pc = cvm := rfl
  rw [same, stepEq, Option.some.injEq] at moved
  rw [moved, withPc_cv_pc, Function.update_of_ne other]

end Ahead

section Simulation

variable {s s' : State Coro}
variable {action : ConditionVariableMutex.Action Coro}

/-- The registration of a waiter by the walk of `notifier` has returned. -/
def State.returned (s : State Coro) (notifier head : Coro)
    (mutex : Mutex.State Coro) : State Coro where
  cvm := ⟨mutex, s.cvm.cv.notify head⟩
  reading := Function.update s.reading notifier true

/-- A step is one of the condition variable and its mutex, or a registration
of a walk returns. -/
theorem inner_cases (stepEq : s.inner action = some s') :
    (∃ cvm, ConditionVariableMutex.step s.cvm action = some cvm ∧
      s' = { s with cvm := cvm }) ∨
    ∃ notifier spuriousFailure head fromToResume mutex,
      action = .runRegister notifier spuriousFailure ∧
      s.cvm.cv.pc notifier = .allNotify (some head) fromToResume ∧
      s.cvm.mutex.runRegister notifier spuriousFailure = some mutex ∧
      mutex.registerPc notifier = .idle ∧
      s' = s.returned notifier head mutex := by
  cases action with
  | runRegister notifier spuriousFailure =>
      have runEq : s.runRegister notifier spuriousFailure = some s' := stepEq
      unfold State.runRegister at runEq
      split at runEq
      · rename_i head fromToResume position
        obtain ⟨mutex, mutexEq, rfl⟩ := Option.map_eq_some_iff.mp runEq
        by_cases isIdle : mutex.registerPc notifier = .idle
        · rw [if_pos isIdle]
          exact Or.inr ⟨_, _, head, fromToResume, mutex, rfl, position,
            mutexEq, isIdle, rfl⟩
        · rw [if_neg isIdle]
          refine Or.inl ⟨_, ?_, rfl⟩
          simp [ConditionVariableMutex.step,
            ConditionVariableMutex.State.runRegister, mutexEq, isIdle]
      · obtain ⟨cvm, cvmEq, rfl⟩ := Option.map_eq_some_iff.mp runEq
        exact Or.inl ⟨cvm, cvmEq, rfl⟩
  | _ =>
      obtain ⟨cvm, cvmEq, rfl⟩ := Option.map_eq_some_iff.mp stepEq
      exact Or.inl ⟨cvm, cvmEq, rfl⟩

theorem readNext_cases {notifier : Coro}
    (stepEq : s.readNext notifier = some s') :
    ∃ head fromToResume,
      s.cvm.cv.pc notifier = .allNotify (some head) fromToResume ∧
      s.reading notifier = true ∧
      s' =
        { cvm := s.cvm.setPc notifier
            (.allNotify (s.cvm.cv.next head) fromToResume)
          reading := Function.update s.reading notifier false } := by
  unfold State.readNext at stepEq
  split at stepEq
  · rename_i head fromToResume position
    simp only [Option.ite_none_right_eq_some, Option.some.injEq] at stepEq
    obtain ⟨⟨isReading, -⟩, rfl⟩ := stepEq
    exact ⟨head, fromToResume, position, isReading, rfl⟩
  · cases stepEq

omit [DecidableEq Coro] in
theorem aheadPc_of_not_reading {coro : Coro} (notReading : s.reading coro = false) :
    aheadPc s coro = s.cvm.cv.pc coro := by
  simp [aheadPc, notReading]

/-- Positions that were read ahead stay so, apart from that of the coroutine
that moves, if nobody writes the links that are still to be read. -/
theorem ahead_update {coro : Coro} {pc : ConditionVariable.Pc Coro}
    (isNew : aheadPc s' coro = pc)
    (reading : ∀ other, other ≠ coro → s'.reading other = s.reading other)
    (position : ∀ other, other ≠ coro →
      s'.cvm.cv.pc other = s.cvm.cv.pc other)
    (link : ∀ other, other ≠ coro → s.reading other = true →
      afterRead s'.cvm.cv.next (s.cvm.cv.pc other) =
        afterRead s.cvm.cv.next (s.cvm.cv.pc other)) :
    aheadPc s' = Function.update (aheadPc s) coro pc := by
  funext other
  by_cases isCoro : other = coro
  · subst isCoro
    rw [Function.update_self, isNew]
  · rw [Function.update_of_ne isCoro, aheadPc, aheadPc, reading other isCoro,
      position other isCoro]
    split
    · rename_i isReading
      exact link other isCoro isReading
    · rfl

/-- The links that are still to be read are those of waiters that were notified
and sleep on. -/
structure Aligned (s : State Coro) : Prop where
  reachable : (ConditionVariableMutex.system Coro).Reachable (ahead s)
  reading : ∀ notifier, s.reading notifier = true →
    ∃ head fromToResume,
      s.cvm.cv.pc notifier = .allNotify (some head) fromToResume ∧
        0 < s.cvm.cv.notified head

theorem aligned_new : Aligned (State.new Coro) where
  reachable := .start rfl
  reading _ isReading := by cases isReading

namespace Aligned

theorem connected (aligned : Aligned s) : Connected (ahead s) :=
  ConditionVariableMutex.connected_of_reachable aligned.reachable

/-- Every step but the read is the same step where the reads are done ahead. -/
theorem ahead_inner (aligned : Aligned s)
    (notReading : s.reading (agent action) = false)
    (stepEq : s.inner action = some s') :
    ConditionVariableMutex.step (ahead s) action = some (ahead s') := by
  have same := aheadPc_of_not_reading notReading
  have link : ∀ {cvm pc},
      ConditionVariableMutex.step (ahead s) action = some (withPc cvm pc) →
      ∀ other, s.reading other = true →
        afterRead cvm.cv.next (s.cvm.cv.pc other) =
          afterRead s.cvm.cv.next (s.cvm.cv.pc other) := by
    intro cvm pc aheadEq other isReading
    obtain ⟨head, fromToResume, position, isNotified⟩ :=
      aligned.reading other isReading
    have nextEq : cvm.cv.next head = s.cvm.cv.next head :=
      aligned.connected.next_step aheadEq isNotified
    rw [position, afterRead, afterRead, nextEq]
  rcases inner_cases stepEq with ⟨cvm, cvmEq, rfl⟩ |
    ⟨notifier, spuriousFailure, head, fromToResume, mutex, rfl, position,
      mutexEq, isIdle, rfl⟩
  · have aheadEq := step_withPc same cvmEq
    refine aheadEq.trans (congrArg some ?_)
    have pcEq : aheadPc { s with cvm := cvm } = Function.update (aheadPc s)
        (agent action) (cvm.cv.pc (agent action)) :=
      ahead_update (aheadPc_of_not_reading notReading) (fun _ _ => rfl)
        (fun _ isOther => step_pc_of_ne cvmEq isOther)
        (fun other _ => link aheadEq other)
    rw [ahead, pcEq]
  · have cvmEq : ConditionVariableMutex.step s.cvm
        (.runRegister notifier spuriousFailure) = some ⟨mutex,
          (s.cvm.cv.notify head).setPc notifier
            (.allNotify (s.cvm.cv.next head) fromToResume)⟩ := by
      simp [ConditionVariableMutex.step,
        ConditionVariableMutex.State.runRegister, mutexEq, isIdle, position,
        ConditionVariable.Pc.target, ConditionVariable.State.run]
    have aheadEq := step_withPc same cvmEq
    refine aheadEq.trans (congrArg some ?_)
    have pcEq : aheadPc (s.returned notifier head mutex) =
        Function.update (aheadPc s) notifier
          (.allNotify (s.cvm.cv.next head) fromToResume) := by
      refine ahead_update ?_ ?_ (fun _ _ => rfl) (fun _ _ _ => rfl)
      · simp [aheadPc, State.returned, position, afterRead]
      · intro other isOther
        simp [State.returned, isOther]
    rw [ahead, pcEq]
    simp [withPc, agent, State.returned]

/-- The read of a link has been done ahead. -/
theorem ahead_readNext {notifier : Coro}
    (stepEq : s.readNext notifier = some s') : ahead s' = ahead s := by
  obtain ⟨head, fromToResume, position, isReading, rfl⟩ :=
    readNext_cases stepEq
  have pcEq : aheadPc
      { cvm := s.cvm.setPc notifier
          (.allNotify (s.cvm.cv.next head) fromToResume)
        reading := Function.update s.reading notifier false } =
      Function.update (aheadPc s) notifier (aheadPc s notifier) := by
    refine ahead_update ?_ ?_ ?_ (fun _ _ _ => rfl)
    · simp [aheadPc, isReading, position, afterRead,
        ConditionVariableMutex.State.setPc]
    · intro other isOther
      simp [isOther]
    · intro other isOther
      simp [isOther, ConditionVariableMutex.State.setPc]
  rw [Function.update_eq_self] at pcEq
  rw [ahead, pcEq]
  rfl

/-- A step is the same step where the reads are done ahead, or a read. -/
theorem ahead_step (aligned : Aligned s) {action : Action Coro}
    (stepEq : step s action = some s') :
    (∃ inner, action = .inner inner ∧
      ConditionVariableMutex.step (ahead s) inner = some (ahead s')) ∨
    (∃ notifier, action = .readNext notifier ∧ ahead s' = ahead s) := by
  cases action with
  | inner inner =>
      simp only [ConditionVariableMutexWalk.step,
        Option.ite_none_right_eq_some] at stepEq
      exact Or.inl ⟨inner, rfl, aligned.ahead_inner stepEq.1 stepEq.2⟩
  | readNext notifier => exact Or.inr ⟨notifier, rfl, ahead_readNext stepEq⟩

theorem step (aligned : Aligned s) {action : Action Coro}
    (keeps : KeepsRecord s action)
    (stepEq : ConditionVariableMutexWalk.step s action = some s') :
    Aligned s' := by
  rcases aligned.ahead_step stepEq with ⟨inner, rfl, aheadEq⟩ |
    ⟨notifier, rfl, aheadEq⟩
  · simp only [ConditionVariableMutexWalk.step,
      Option.ite_none_right_eq_some] at stepEq
    obtain ⟨notReading, innerEq⟩ := stepEq
    refine ⟨.next aligned.reachable trivial aheadEq, ?_⟩
    have stays : ∀ notifier, s.reading notifier = true →
        s'.cvm.cv.pc notifier = s.cvm.cv.pc notifier →
        ∃ head fromToResume,
          s'.cvm.cv.pc notifier = .allNotify (some head) fromToResume ∧
            0 < s'.cvm.cv.notified head := by
      intro notifier isReading same
      obtain ⟨head, fromToResume, position, isNotified⟩ :=
        aligned.reading notifier isReading
      refine ⟨head, fromToResume, same.trans position, ?_⟩
      refine aligned.connected.notified_step aheadEq isNotified ?_
      rintro rfl
      exact keeps notifier isReading
        (by rw [position, ConditionVariable.Pc.target])
    intro notifier isReading
    rcases inner_cases innerEq with ⟨cvm, cvmEq, rfl⟩ |
      ⟨walker, spuriousFailure, head, fromToResume, mutex, rfl, position,
        mutexEq, isIdle, rfl⟩
    · refine stays notifier isReading (step_pc_of_ne cvmEq ?_)
      rintro rfl
      simp [notReading] at isReading
    · by_cases isWalker : notifier = walker
      · subst isWalker
        exact ⟨head, fromToResume, position, by simp [State.returned]⟩
      · refine stays notifier ?_ rfl
        simpa [State.returned, isWalker] using isReading
  · refine ⟨?_, ?_⟩
    · rw [aheadEq]
      exact aligned.reachable
    · intro other isReading
      obtain ⟨head, fromToResume, -, -, rfl⟩ := readNext_cases stepEq
      have isOther : other ≠ notifier := by
        rintro rfl
        simp at isReading
      simp only [Function.update_of_ne isOther] at isReading
      simpa [ConditionVariableMutex.State.setPc, isOther] using
        aligned.reading other isReading

end Aligned

theorem aligned_of_reachable
    (reached : (system Coro).ReachableBy KeepsRecord s) : Aligned s := by
  apply reached.invariant
  · rintro state rfl
    exact aligned_new
  · intro state action successor aligned keeps stepEq
    exact aligned.step keeps stepEq

end Simulation

end CoContext.ConditionVariableMutexWalk
