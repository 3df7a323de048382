import CoContext.ConditionVariable
import CoContext.Mutex

/-!
# A condition variable together with its mutex

`cv.wait(m)` pushes the waiter while it holds `m` and then unlocks `m` ahead
of its suspension.  A notification runs `register_awaiting` of the waiter's
`lock_awaiter` on behalf of the sleeping coroutine, so that the waiter joins
the waiters of `m` or is spawned as its owner.

The steps are those of the two components.  A plain field that is read after
an access to an atomic word is read in the same step; in particular the walk
of `notify_all` reads `head->next` when the registration of `head` returns.
`ConditionVariableMutexWalk` makes this read a step of its own and says when
the two agree.
-/

namespace CoContext.ConditionVariableMutex

structure State (Coro : Type*) where
  mutex : Mutex.State Coro
  cv : ConditionVariable.State Coro

def State.new (Coro : Type*) : State Coro where
  mutex := .new Coro
  cv := .new Coro

inductive Action (Coro : Type*)
  | lock (coro : Coro)
  | tryLock (coro : Coro)
  | unlock (coro : Coro)
  | runUnlock (coro : Coro)
  | wait (coro : Coro)
  | notifyOne (coro : Coro)
  | notifyAll (coro : Coro)
  | run (coro : Coro) (spuriousFailure : Bool)
  | unlockAhead (coro : Coro)
  | register (notifier : Coro)
  | runRegister (agent : Coro) (spuriousFailure : Bool)
  | resume (coro : Coro)
  deriving DecidableEq

instance {Coro : Type*} [Inhabited Coro] : Inhabited (Action Coro) :=
  ⟨.resume default⟩

variable {Coro : Type*}

/-- The coroutine runs its own code and is in none of the operations. -/
def State.Free (s : State Coro) (coro : Coro) : Prop :=
  s.cv.pc coro = .idle ∧ s.mutex.registerPc coro = .idle ∧
    s.mutex.status coro = .idle ∧
    (s.mutex.holderPc coro = .outside ∨ s.mutex.holderPc coro = .holding)

variable [DecidableEq Coro]

instance (s : State Coro) (coro : Coro) : Decidable (s.Free coro) :=
  inferInstanceAs (Decidable (_ ∧ _ ∧ _ ∧ (_ ∨ _)))

namespace State

def setPc (s : State Coro) (coro : Coro) (pc : ConditionVariable.Pc Coro) :
    State Coro :=
  { s with cv := s.cv.setPc coro pc }

/-- A notification call enters `register_awaiting` of the waiter it is about
to notify. -/
def register (s : State Coro) (notifier : Coro) : Option (State Coro) :=
  match (s.cv.pc notifier).target with
  | none => none
  | some waiter =>
      if s.mutex.registerPc notifier = .idle then
        some { s with
          mutex := s.mutex.startRegister notifier waiter true }
      else
        none

/-- The next step of a `register_awaiting` call; when the call of a
notification returns, the waiter is notified. -/
def runRegister (s : State Coro) (agent : Coro) (spuriousFailure : Bool) :
    Option (State Coro) :=
  (s.mutex.runRegister agent spuriousFailure).bind fun mutex =>
    if (s.cv.pc agent).target ≠ none ∧ mutex.registerPc agent = .idle then
      (s.cv.run agent false).map fun cv => ⟨mutex, cv⟩
    else
      some { s with mutex := mutex }

/-- A worker resumes a coroutine that was spawned as the owner of the mutex;
if it slept in `wait`, then `wait` returns. -/
def resume (s : State Coro) (coro : Coro) : State Coro where
  mutex := s.mutex.resume coro
  cv := if s.cv.pc coro = .waiting then s.cv.resume coro else s.cv

end State

def step (s : State Coro) : Action Coro → Option (State Coro)
  | .lock coro =>
      if s.Free coro then
        some { s with mutex := s.mutex.startRegister coro coro false }
      else
        none
  | .tryLock coro =>
      if s.Free coro then
        some { s with mutex := s.mutex.tryLock coro }
      else
        none
  | .unlock coro =>
      if s.Free coro ∧ s.mutex.holderPc coro = .holding then
        some { s with mutex := s.mutex.setHolder coro .unlockEntry }
      else
        none
  | .runUnlock coro =>
      (s.mutex.runUnlock coro).map fun mutex => { s with mutex := mutex }
  | .wait coro =>
      if s.Free coro ∧ s.mutex.holderPc coro = .holding then
        some (s.setPc coro .waitLoad)
      else
        none
  | .notifyOne coro =>
      if s.Free coro then some (s.setPc coro .oneTakeResume) else none
  | .notifyAll coro =>
      if s.Free coro then some (s.setPc coro .allExchange) else none
  | .run coro spuriousFailure =>
      if (s.cv.pc coro).target = none then
        (s.cv.run coro spuriousFailure).map fun cv => { s with cv := cv }
      else
        none
  | .unlockAhead coro =>
      if s.cv.pc coro = .waiting ∧ s.mutex.holderPc coro = .holding then
        some { s with mutex := s.mutex.setHolder coro .unlockEntry }
      else
        none
  | .register notifier => s.register notifier
  | .runRegister agent spuriousFailure => s.runRegister agent spuriousFailure
  | .resume coro =>
      if 0 < s.mutex.ready coro then some (s.resume coro) else none

/-- Arbitrarily many coroutines use the condition variable and its mutex in
any interleaving; `wait` is only called by the holder of the mutex. -/
def system (Coro : Type*) [DecidableEq Coro] :
    TransitionSystem (State Coro) (Action Coro) where
  initial s := s = State.new Coro
  step := step

end CoContext.ConditionVariableMutex
