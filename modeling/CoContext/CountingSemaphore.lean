import CoContext.IntrusiveList
import CoContext.SignedCounter
import CoContext.TransitionSystem
import Mathlib.Algebra.Order.Group.Unbundled.Int
import Mathlib.Tactic.Simps.Basic

/-!
# The counting semaphore

`counter` is the number of permits or, below zero, the debt of the acquirers.
An acquirer that finds no permit pushes its `acquire_awaiter` onto `awaiting`
after it decremented the counter; `release` pops the list `to_resume` under
`notifier_mtx` and refills it with the reversed stack.  An awaiter lives in
the frame of the suspended coroutine, which names it.  The counter is an
unbounded integer.

Every access to an atomic word and every iteration of the reversal loop is
one step; `notifier_mtx` is an explicit flag that excludes other sections.
-/

namespace CoContext.CountingSemaphore

/-- The position of a coroutine in an operation. -/
inductive Pc (Coro : Type*)
  | idle
  | acquireFetchSub
  | suspendLoad
  | suspendExchange (oldHead : Option Coro)
  | waiting
  | tryAcquireLoad
  | tryAcquireExchange (oldCounter : Int64)
  | releaseFetchAdd
  | releaseLock
  | readToResume
  | exchangeAwaiting
  | reverse (node : Coro) (resumeHead : Option Coro)
  | popResumeHead (resumeHead : Option Coro)
  | releaseUnlock (awakenAwaiter : Option Coro)
  | releaseSpawn (awakenAwaiter : Option Coro)
  | assertFailed
  | nullDereference
  deriving DecidableEq

structure State (Coro : Type*) where
  awaiting : Option Coro
  toResume : Option Coro
  counter : Int64
  /-- The flag of the spinlock `notifier_mtx`. -/
  occupied : Bool
  next : Coro → Option Coro
  pc : Coro → Pc Coro
  /-- How often the handle of a coroutine is queued for resumption. -/
  ready : Coro → Nat

/-- A semaphore constructed with `desired` permits that nobody uses yet. -/
def State.new (Coro : Type*) (desired : Int64) : State Coro where
  awaiting := none
  toResume := none
  counter := desired
  occupied := false
  next _ := none
  pc _ := .idle
  ready _ := 0

inductive Action (Coro : Type*)
  | acquire (coro : Coro)
  | tryAcquire (coro : Coro)
  | release (coro : Coro)
  | run (coro : Coro) (spuriousFailure : Bool)
  | resume (coro : Coro)
  deriving DecidableEq

instance {Coro : Type*} [Inhabited Coro] : Inhabited (Action Coro) :=
  ⟨.resume default⟩

variable {Coro : Type*} [DecidableEq Coro]

namespace State

@[simps -fullyApplied]
def setPc (s : State Coro) (coro : Coro) (pc : Pc Coro) : State Coro :=
  { s with pc := Function.update s.pc coro pc }

/-- `node->next = pointer`. -/
@[simps -fullyApplied]
def link (s : State Coro) (node : Coro) (pointer : Option Coro) : State Coro :=
  { s with next := Function.update s.next node pointer }

/-- `await_ready`: the acquirer suspends unless there was a permit. -/
def fetchSub (s : State Coro) (coro : Coro) : State Coro :=
  { s.setPc coro (if 0 < s.counter then .idle else .suspendLoad) with
    counter := s.counter - 1 }

/-- One iteration of the compare-exchange loop of `await_suspend`. -/
def pushAwaiting (s : State Coro) (coro : Coro) (oldHead : Option Coro)
    (spuriousFailure : Bool) : State Coro :=
  let linked := s.link coro oldHead
  if s.awaiting = oldHead ∧ spuriousFailure = false then
    { linked.setPc coro .waiting with awaiting := some coro }
  else
    linked.setPc coro (.suspendExchange s.awaiting)

/-- The strong compare-exchange of `try_acquire`. -/
def tryExchange (s : State Coro) (coro : Coro) (oldCounter : Int64) :
    State Coro :=
  if s.counter = oldCounter then
    { s.setPc coro .idle with counter := oldCounter - 1 }
  else
    s.setPc coro .idle

/-- `release` returns at once unless the counter was negative. -/
def fetchAdd (s : State Coro) (coro : Coro) : State Coro :=
  { s.setPc coro (if 0 ≤ s.counter then .idle else .releaseLock) with
    counter := s.counter + 1 }

/-- `try_release` takes the stack, or returns null if it is empty. -/
def exchange (s : State Coro) (coro : Coro) : State Coro :=
  match s.awaiting with
  | none => s.setPc coro (.releaseUnlock none)
  | some node =>
      { s.setPc coro (.reverse node none) with awaiting := none }

/-- One iteration of the reversal loop of `try_release`. -/
def reverseNode (s : State Coro) (coro node : Coro)
    (resumeHead : Option Coro) : State Coro :=
  let reversed := s.link node resumeHead
  match s.next node with
  | some tmp => reversed.setPc coro (.reverse tmp (some node))
  | none => reversed.setPc coro (.popResumeHead (some node))

def popResumeHead (s : State Coro) (coro : Coro) (resumeHead : Option Coro) :
    State Coro :=
  match resumeHead with
  | none => s.setPc coro .assertFailed
  | some head =>
      { s.setPc coro (.releaseUnlock (some head)) with
        toResume := s.next head }

/-- `awaken_awaiter->co_spawn()`: the handle joins a ready queue. -/
def spawn (s : State Coro) (coro : Coro) (awakenAwaiter : Option Coro) :
    State Coro :=
  match awakenAwaiter with
  | none => s.setPc coro .nullDereference
  | some head =>
      { s.setPc coro .idle with
        ready := Function.update s.ready head (s.ready head + 1) }

/-- The next step of the operation that `coro` performs. -/
def run (s : State Coro) (coro : Coro) (spuriousFailure : Bool) :
    Option (State Coro) :=
  match s.pc coro with
  | .idle | .waiting | .assertFailed | .nullDereference => none
  | .acquireFetchSub => some (s.fetchSub coro)
  | .suspendLoad => some (s.setPc coro (.suspendExchange s.awaiting))
  | .suspendExchange oldHead =>
      some (s.pushAwaiting coro oldHead spuriousFailure)
  | .tryAcquireLoad =>
      if 0 < s.counter then
        some (s.setPc coro (.tryAcquireExchange s.counter))
      else
        some (s.setPc coro .idle)
  | .tryAcquireExchange oldCounter => some (s.tryExchange coro oldCounter)
  | .releaseFetchAdd => some (s.fetchAdd coro)
  | .releaseLock =>
      if s.occupied = false then
        some { s.setPc coro .readToResume with occupied := true }
      else
        none
  | .readToResume =>
      match s.toResume with
      | none => some (s.setPc coro .exchangeAwaiting)
      | some head => some (s.setPc coro (.popResumeHead (some head)))
  | .exchangeAwaiting => some (s.exchange coro)
  | .reverse node resumeHead => some (s.reverseNode coro node resumeHead)
  | .popResumeHead resumeHead => some (s.popResumeHead coro resumeHead)
  | .releaseUnlock awakenAwaiter =>
      some { s.setPc coro (.releaseSpawn awakenAwaiter) with occupied := false }
  | .releaseSpawn awakenAwaiter => some (s.spawn coro awakenAwaiter)

end State

def step (s : State Coro) : Action Coro → Option (State Coro)
  | .acquire coro =>
      if s.pc coro = .idle then some (s.setPc coro .acquireFetchSub) else none
  | .tryAcquire coro =>
      if s.pc coro = .idle then some (s.setPc coro .tryAcquireLoad) else none
  | .release coro =>
      if s.pc coro = .idle then some (s.setPc coro .releaseFetchAdd) else none
  | .run coro spuriousFailure => s.run coro spuriousFailure
  | .resume coro =>
      if s.pc coro = .waiting ∧ 0 < s.ready coro then
        some { s.setPc coro .idle with
          ready := Function.update s.ready coro (s.ready coro - 1) }
      else
        none

/-- A semaphore with `desired` initial permits used by arbitrarily many
coroutines in any interleaving. -/
def system (Coro : Type*) [DecidableEq Coro] (desired : Int64) :
    TransitionSystem (State Coro) (Action Coro) where
  initial s := s = State.new Coro desired
  step := step

/-- The coroutine is suspended in `acquire` and was not spawned. -/
def State.Suspended (s : State Coro) (coro : Coro) : Prop :=
  s.pc coro = .waiting ∧ s.ready coro = 0

/-- No operation is in progress. -/
def State.Quiescent (s : State Coro) : Prop :=
  ∀ coro, s.pc coro = .idle ∨ s.pc coro = .waiting

/-- A `release` that observed a negative counter got null from
`try_release`. -/
def Pc.WakesNull : Pc Coro → Prop
  | .releaseUnlock none | .releaseSpawn none | .nullDereference => True
  | _ => False

/-- The acquirer published its debt in the counter but not its awaiter. -/
def Pc.InWindow : Pc Coro → Prop
  | .suspendLoad | .suspendExchange _ => True
  | _ => False

/-- If the step is an exchange of `try_release` that finds `awaiting` empty,
then no acquirer is between its decrement of the counter and its push. -/
def PushesSeen (s : State Coro) : Action Coro → Prop
  | .run coro _ => s.pc coro = .exchangeAwaiting → s.awaiting = none →
      ∀ acquirer, ¬ (s.pc acquirer).InWindow
  | _ => True

/-- If the step adds to the counter or subtracts from it, then the counter does
not wrap around. -/
def CounterFits (s : State Coro) : Action Coro → Prop
  | .run coro _ =>
      (s.pc coro = .acquireFetchSub → s.counter ≠ .minValue) ∧
        (s.pc coro = .releaseFetchAdd → s.counter ≠ .maxValue)
  | _ => True

end CoContext.CountingSemaphore
