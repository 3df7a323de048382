import CoContext.ConditionVariableMutex

/-!
# Waiting with a predicate

`condition_variable::wait(mtx, stop_waiting)` is a coroutine of its own, a
`trival_task`: it starts when the caller awaits it, evaluates the predicate
and waits on the condition variable in turn, and when it is over its final
awaiter destroys it and continues the caller.  The helper coroutine runs on
behalf of its caller, which names it.

The predicate reads and may write data that other coroutines change while
they hold the mutex, and it may throw.
-/

namespace CoContext.PredicateWait

/-- The outcome of an evaluation of `stop_waiting()`. -/
inductive Verdict
  | stop
  | goOn
  | throws
  deriving DecidableEq

/-- A predicate on data that its evaluation may change. -/
abbrev Predicate (Data : Type*) := Data → Verdict × Data

/-- The position of a coroutine in `wait(mtx, stop_waiting)`. -/
inductive Pc (Data : Type*)
  | outside
  | initialSuspend (stopWaiting : Predicate Data)
  | evaluate (stopWaiting : Predicate Data)
  | callWait (stopWaiting : Predicate Data)
  | waiting (stopWaiting : Predicate Data)
  | returnVoid
  | unhandledException
  | finalSuspend
  | awaitResume

/-- How `co_await wait(mtx, stop_waiting)` ends for the caller. -/
inductive Outcome
  | returned
  | threw
  deriving DecidableEq

/-- `trival_task::await_resume`, which has nothing to rethrow. -/
def awaitResume : Outcome :=
  .returned

structure State (Coro Data : Type*) where
  cvm : ConditionVariableMutex.State Coro
  data : Data
  pc : Coro → Pc Data

def State.new (Coro : Type*) {Data : Type*} (data : Data) :
    State Coro Data where
  cvm := .new Coro
  data := data
  pc _ := .outside

inductive Action (Coro Data : Type*)
  /-- A step of the mutex and the condition variable. -/
  | inner (action : ConditionVariableMutex.Action Coro)
  | modify (coro : Coro) (data : Data)
  | wait (coro : Coro) (stopWaiting : Predicate Data)
  | evaluate (coro : Coro)
  | proceed (coro : Coro)

instance {Coro Data : Type*} [Inhabited Coro] : Inhabited (Action Coro Data) :=
  ⟨.evaluate default⟩

variable {Coro Data : Type*}

/-- The helper coroutine does not begin an operation itself, except `wait`
when the predicate told it to go on. -/
def Pc.permits (action : ConditionVariableMutex.Action Coro) :
    Pc Data → Bool
  | .outside => true
  | .callWait _ =>
      match action with
      | .wait _ => true
      | _ => false
  | _ => false

/-- The coroutine that begins an operation. -/
def beginner : ConditionVariableMutex.Action Coro → Option Coro
  | .lock coro | .tryLock coro | .unlock coro | .wait coro | .notifyOne coro
  | .notifyAll coro => some coro
  | .runUnlock _ | .run _ _ | .unlockAhead _ | .register _ | .runRegister _ _
  | .resume _ => none

/-- The position after the caller or its helper begins to wait. -/
def Pc.entered : Pc Data → Pc Data
  | .callWait stopWaiting => .waiting stopWaiting
  | pc => pc

/-- The position after the handle of a waiting coroutine is resumed. -/
def Pc.resumed : Pc Data → Pc Data
  | .waiting stopWaiting => .evaluate stopWaiting
  | pc => pc

/-- The position after an evaluation. -/
def Pc.evaluated (stopWaiting : Predicate Data) : Verdict → Pc Data
  | .stop => .returnVoid
  | .goOn => .callWait stopWaiting
  | .throws => .unhandledException

/-- The step from one suspension point or handler of the helper coroutine to
the next; `unhandled_exception` drops the exception. -/
def Pc.proceed : Pc Data → Option (Pc Data)
  | .initialSuspend stopWaiting => some (.evaluate stopWaiting)
  | .returnVoid | .unhandledException => some .finalSuspend
  | .finalSuspend => some .awaitResume
  | .awaitResume => some .outside
  | .outside | .evaluate _ | .callWait _ | .waiting _ => none

variable [DecidableEq Coro]

namespace State

def setPc (s : State Coro Data) (coro : Coro) (pc : Pc Data) :
    State Coro Data :=
  { s with pc := Function.update s.pc coro pc }

/-- The coroutine runs its own code and holds the mutex. -/
def Holder (s : State Coro Data) (coro : Coro) : Prop :=
  s.cvm.Free coro ∧ s.cvm.mutex.holderPc coro = .holding

instance (s : State Coro Data) (coro : Coro) : Decidable (s.Holder coro) :=
  inferInstanceAs (Decidable (_ ∧ _))

/-- The positions after a step of the mutex and the condition variable. -/
def pcAfter (s : State Coro Data) :
    ConditionVariableMutex.Action Coro → Coro → Pc Data
  | .wait coro => Function.update s.pc coro (s.pc coro).entered
  | .resume coro => Function.update s.pc coro (s.pc coro).resumed
  | _ => s.pc

/-- A step of the mutex and the condition variable. -/
def inner (s : State Coro Data) (action : ConditionVariableMutex.Action Coro) :
    Option (State Coro Data) :=
  if ∀ coro ∈ beginner action, (s.pc coro).permits action then
    (ConditionVariableMutex.step s.cvm action).map fun cvm =>
      { s with cvm := cvm, pc := s.pcAfter action }
  else
    none

def evaluate (s : State Coro Data) (coro : Coro) : Option (State Coro Data) :=
  match s.pc coro with
  | .evaluate stopWaiting =>
      some { s.setPc coro (.evaluated stopWaiting (stopWaiting s.data).1) with
        data := (stopWaiting s.data).2 }
  | _ => none

end State

def step (s : State Coro Data) : Action Coro Data → Option (State Coro Data)
  | .inner action => s.inner action
  | .modify coro data =>
      match s.pc coro with
      | .outside => if s.Holder coro then some { s with data := data } else none
      | _ => none
  | .wait coro stopWaiting =>
      match s.pc coro with
      | .outside =>
          if s.Holder coro then
            some (s.setPc coro (.initialSuspend stopWaiting))
          else
            none
      | _ => none
  | .evaluate coro => s.evaluate coro
  | .proceed coro => (s.pc coro).proceed.map fun pc => s.setPc coro pc

/-- Arbitrarily many coroutines use the mutex and the condition variable, and
wait for arbitrary predicates while they hold the mutex. -/
def system (Coro : Type*) {Data : Type*} [DecidableEq Coro] (data : Data) :
    TransitionSystem (State Coro Data) (Action Coro Data) where
  initial s := s = State.new Coro data
  step := step

/-- A `co_await wait(mtx, stop_waiting)` completes. -/
def completes (s : State Coro Data) :
    Action Coro Data → Option (Coro × Outcome)
  | .proceed coro =>
      match s.pc coro with
      | .awaitResume => some (coro, awaitResume)
      | _ => none
  | .inner _ | .modify _ _ | .wait _ _ | .evaluate _ => none

/-- What the caller is promised: a normal return if the predicate told it to
stop, and the exception if the predicate threw. -/
def Delivers : Verdict → Outcome → Prop
  | .stop, outcome => outcome = .returned
  | .goOn, _ => False
  | .throws, outcome => outcome = .threw

end CoContext.PredicateWait
