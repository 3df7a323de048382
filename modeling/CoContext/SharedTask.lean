import CoContext.IntrusiveList
import CoContext.TransitionSystem
import Mathlib.Tactic.Simps.Basic

/-!
# The shared task

Any number of coroutines await copies of one `shared_task`.  One word,
`waiters_`, says that the task was not started, that its result is ready, or
which awaiters are stacked up.  The first awaiter resumes the task inside its
own `try_await`; the task pops the whole stack when it completes.

Each access to `waiters_` is one step, and so is each call of `co_spawn_auto`
and each read of `m_next` in `final_awaiter::await_suspend`.
-/

namespace CoContext.SharedTask

/-- The values of `waiters_`. -/
inductive Waiters (Coro : Type*)
  /-- `&this->waiters_` -/
  | notStarted
  /-- The head of the stack of waiters, which is null without waiters. -/
  | started (head : Option Coro)
  /-- `this` -/
  | ready
  deriving DecidableEq

namespace Waiters

variable {Coro : Type*}

/-- The value as a pointer to a waiter.  Only `started` is one. -/
def head : Waiters Coro → Option Coro
  | started head => head
  | notStarted | ready => none

@[simp]
theorem head_started (head : Option Coro) : (started head).head = head :=
  rfl

end Waiters

/-- The position of a coroutine in `co_await` of the shared task. -/
inductive Pc (Coro Ctx Value Error : Type*)
  | idle
  | awaitReady (ctx : Ctx)
  | load
  | start
  /-- It started the task and calls `coroutine.resume()`. -/
  | resume
  /-- The call of `coroutine.resume()` has not returned. -/
  | inResume
  | reload
  | push (oldWaiters : Waiters Coro)
  /-- `try_await` returned true. -/
  | suspended
  /-- It was resumed, or `await_ready` was true, or `try_await` returned
  false. -/
  | awaitResume
  | resumed (result : Option (Except Error Value))

/-- The position of the task. -/
inductive Body (Coro : Type*)
  | initialSuspend
  | running
  | suspended
  /-- Before the exchange of `final_awaiter::await_suspend`. -/
  | finalSuspend
  | coSpawn (waiter : Coro)
  | readNext (waiter : Coro)
  | done

/-- The promise of the task and the records of its awaiters. -/
structure State (Coro Ctx Value Error : Type*) where
  waiters : Waiters Coro
  valueStorage : Option Value
  exception : Option Error
  /-- `m_next` of the waiter of each coroutine. -/
  next : Coro → Option Coro
  /-- `resume_ctx` of the waiter of each coroutine. -/
  resumeCtx : Coro → Option Ctx
  body : Body Coro
  /-- The coroutine inside whose call of `coroutine.resume()` the task
  runs. -/
  resumer : Option Coro
  pc : Coro → Pc Coro Ctx Value Error
  /-- How often the task was resumed from its initial suspension. -/
  starts : Nat
  /-- The calls of `co_spawn_auto`, in order. -/
  scheduled : List (Option Ctx × Coro)

/-- A shared task that nobody has awaited. -/
def State.new (Coro Ctx Value Error : Type*) :
    State Coro Ctx Value Error where
  waiters := .notStarted
  valueStorage := none
  exception := none
  next _ := none
  resumeCtx _ := none
  body := .initialSuspend
  resumer := none
  pc _ := .idle
  starts := 0
  scheduled := []

inductive Action (Coro Ctx Value Error : Type*)
  /-- The coroutine awaits the task on a worker of `ctx`. -/
  | await (coro : Coro) (ctx : Ctx)
  /-- The next step of `co_await`; `compare_exchange_weak` may fail
  spuriously. -/
  | run (coro : Coro) (spurious : Bool)
  /-- A worker resumes the scheduled coroutine. -/
  | wake (coro : Coro)
  /-- The task suspends itself. -/
  | suspend
  /-- The task is resumed by whatever it waited for. -/
  | resume
  | returnValue (value : Value)
  | unhandledException (error : Error)
  /-- The next step of `final_awaiter::await_suspend`. -/
  | finalAwait

instance {Coro Ctx Value Error : Type*} :
    Inhabited (Action Coro Ctx Value Error) :=
  ⟨.resume⟩

variable {Coro Ctx Value Error : Type*}

namespace State

/-- What `result` returns or throws.  It is `none` before either was
stored. -/
def result (s : State Coro Ctx Value Error) : Option (Except Error Value) :=
  match s.exception with
  | some error => some (.error error)
  | none => s.valueStorage.map .ok

variable [DecidableEq Coro]

@[simps -fullyApplied]
def setPc (s : State Coro Ctx Value Error) (coro : Coro)
    (pc : Pc Coro Ctx Value Error) : State Coro Ctx Value Error :=
  { s with pc := Function.update s.pc coro pc }

/-- `m_next` of the waiter of `coro` is written. -/
@[simps -fullyApplied]
def link (s : State Coro Ctx Value Error) (coro : Coro)
    (pointer : Option Coro) : State Coro Ctx Value Error :=
  { s with next := Function.update s.next coro pointer }

/-- `await_ready`, and the fields that `await_suspend` writes when it is
false. -/
def awaitReady (s : State Coro Ctx Value Error) (coro : Coro) (ctx : Ctx) :
    State Coro Ctx Value Error :=
  if s.waiters = .ready then s.setPc coro .awaitResume
  else { s.setPc coro .load with
    resumeCtx := Function.update s.resumeCtx coro (some ctx) }

/-- The strong exchange from `not_started_value`. -/
def start (s : State Coro Ctx Value Error) (coro : Coro) :
    State Coro Ctx Value Error :=
  if s.waiters = .notStarted then
    { s.setPc coro .resume with waiters := .started none }
  else s.setPc coro (.push s.waiters)

/-- `coroutine.resume()` in `try_await`. -/
def resumeTask (s : State Coro Ctx Value Error) (coro : Coro) :
    State Coro Ctx Value Error :=
  { s.setPc coro .inResume with
    body := .running
    resumer := some coro
    starts := s.starts + 1 }

/-- One iteration of the loop that enqueues the waiter. -/
def push (s : State Coro Ctx Value Error) (coro : Coro)
    (oldWaiters : Waiters Coro) (spurious : Bool) :
    State Coro Ctx Value Error :=
  if oldWaiters = .ready then s.setPc coro .awaitResume
  else if s.waiters = oldWaiters ∧ spurious = false then
    { (s.link coro oldWaiters.head).setPc coro .suspended with
      waiters := .started (some coro) }
  else (s.link coro oldWaiters.head).setPc coro (.push s.waiters)

def runAwait (s : State Coro Ctx Value Error) (coro : Coro)
    (spurious : Bool) : Option (State Coro Ctx Value Error) :=
  match s.pc coro with
  | .awaitReady ctx => some (s.awaitReady coro ctx)
  | .load =>
      some (s.setPc coro
        (if s.waiters = .notStarted then .start else .push s.waiters))
  | .start => some (s.start coro)
  | .resume => some (s.resumeTask coro)
  | .reload => some (s.setPc coro (.push s.waiters))
  | .push oldWaiters => some (s.push coro oldWaiters spurious)
  | .awaitResume => some (s.setPc coro (.resumed s.result))
  | .idle | .inResume | .suspended | .resumed _ => none

/-- The coroutine that resumed the task for the first time returns from
`coroutine.resume()` when the task suspends. -/
def returnResume (s : State Coro Ctx Value Error) :
    State Coro Ctx Value Error :=
  match s.resumer with
  | none => s
  | some coro => { s.setPc coro .reload with resumer := none }

/-- The loop over the waiters, from `waiter` on. -/
def visit (s : State Coro Ctx Value Error) :
    Option Coro → State Coro Ctx Value Error
  | none => { s with body := .done }.returnResume
  | some waiter => { s with body := .coSpawn waiter }

/-- `final_awaiter::await_suspend`. -/
def finalAwait (s : State Coro Ctx Value Error) :
    Option (State Coro Ctx Value Error) :=
  match s.body with
  | .finalSuspend => some ({ s with waiters := .ready }.visit s.waiters.head)
  | .coSpawn waiter =>
      some { s with
        body := .readNext waiter
        scheduled := s.scheduled ++ [(s.resumeCtx waiter, waiter)] }
  | .readNext waiter => some (s.visit (s.next waiter))
  | .initialSuspend | .running | .suspended | .done => none

/-- The coroutine was passed to `co_spawn_auto`. -/
def Scheduled (s : State Coro Ctx Value Error) (coro : Coro) : Prop :=
  coro ∈ s.scheduled.map Prod.snd

instance (s : State Coro Ctx Value Error) (coro : Coro) :
    Decidable (s.Scheduled coro) :=
  inferInstanceAs (Decidable (coro ∈ s.scheduled.map Prod.snd))

end State

variable [DecidableEq Coro]

def step (s : State Coro Ctx Value Error) :
    Action Coro Ctx Value Error → Option (State Coro Ctx Value Error)
  | .await coro ctx =>
      match s.pc coro with
      | .idle | .resumed _ => some (s.setPc coro (.awaitReady ctx))
      | _ => none
  | .run coro spurious => s.runAwait coro spurious
  | .wake coro =>
      match s.pc coro with
      | .suspended =>
          if s.Scheduled coro then some (s.setPc coro .awaitResume) else none
      | _ => none
  | .suspend =>
      match s.body with
      | .running => some { s with body := .suspended }.returnResume
      | _ => none
  | .resume =>
      match s.body with
      | .suspended => some { s with body := .running }
      | _ => none
  | .returnValue value =>
      match s.body with
      | .running =>
          some { s with body := .finalSuspend, valueStorage := some value }
      | _ => none
  | .unhandledException error =>
      match s.body with
      | .running =>
          some { s with body := .finalSuspend, exception := some error }
      | _ => none
  | .finalAwait => s.finalAwait

/-- One shared task and the coroutines that await it. -/
def system (Coro Ctx Value Error : Type*) [DecidableEq Coro] :
    TransitionSystem (State Coro Ctx Value Error)
      (Action Coro Ctx Value Error) where
  initial s := s = State.new Coro Ctx Value Error
  step := step

end CoContext.SharedTask
