import CoContext.LazyProcedures
import CoContext.TransitionSystem

/-!
# Awaiting tasks

A call of a coroutine that returns a task creates a frame that is suspended at
its initial suspend point.  `co_await` on a task that is not ready makes the
awaiting coroutine its parent and resumes it; at its final suspend point a
coroutine resumes its parent, which takes the result out of the promise.  A
detached task has no parent, and is spawned on a worker.

The coroutines are those that a detached task `0` leads to, so that at most
one of them is not suspended.  Other awaitables suspend a coroutine until
something else resumes it with a reply.
-/

namespace CoContext.TaskAwait

/-- What the promise keeps at the end. -/
abbrev Outcome (Value Error : Type) := Except Error Value

/-- `co_await task`, `co_await std::move(task)` and
`co_await task.when_ready()`. -/
inductive Awaiter
  | lvalue
  | rvalue
  | whenReady
  deriving DecidableEq

/-- What the body of a coroutine does next; an exception of `await_resume` is
given to `next`. -/
inductive Body (Local Event Reply Value Error : Type)
  | call (callee : Local) (next : Nat → Local)
  | coAwait (task : Nat) (awaiter : Awaiter)
      (next : Option (Outcome Value Error) → Local)
  | destruct (task : Nat) (next : Local)
  | suspend (event : Event) (next : Reply → Local)
  | coReturn (value : Value)
  | throws (error : Error)

/-- Where a coroutine is suspended, or that it is not. -/
inductive Point (Local Event Reply Value Error : Type)
  | initialSuspend (body : Local)
  | awaiting (task : Nat) (awaiter : Awaiter)
      (next : Option (Outcome Value Error) → Local)
  | suspended (event : Event) (next : Reply → Local)
  | finalSuspend
  | running

structure Frame (Local Event Reply Value Error : Type) where
  point : Point Local Event Reply Value Error
  parentCoro : Option Nat
  stored : Option (Outcome Value Error)
  isDetached : Bool

/-- Who runs: nobody, as before the start or after the end, another awaitable
that will resume a coroutine, or the body of a coroutine. -/
inductive Control (Local Event Error : Type)
  | idle
  | waits (coro : Nat) (event : Event)
  | runs (coro : Nat) (body : Local)
  | threw (error : Error)

structure State (Local Event Reply Value Error : Type) where
  frames : Nat → Option (Frame Local Event Reply Value Error)
  fresh : Nat
  control : Control Local Event Error
  destroyed : List Nat

inductive Action (Reply : Type)
  | start
  | run
  | resume (reply : Reply)
  deriving DecidableEq

instance {Reply : Type} : Inhabited (Action Reply) :=
  ⟨.run⟩

variable {Local Event Reply Value Error : Type}

/-- The frame of a coroutine that is called. -/
def Frame.new (body : Local) : Frame Local Event Reply Value Error where
  point := .initialSuspend body
  parentCoro := none
  stored := none
  isDetached := false

/-- What `await_resume` returns or throws. -/
def Awaiter.result :
    Awaiter → Outcome Value Error → Option (Outcome Value Error)
  | lvalue, outcome | rvalue, outcome => some outcome
  | whenReady, _ => none

/-- What `await_resume` leaves in the promise; `moved` is what a value is after
it was moved from. -/
def Awaiter.keeps (moved : Value → Value) :
    Awaiter → Outcome Value Error → Outcome Value Error
  | rvalue, outcome => outcome.map moved
  | lvalue, outcome | whenReady, outcome => outcome

namespace State

variable (s : State Local Event Reply Value Error)

/-- After `detach` of the task `0`. -/
def new (body : Local) : State Local Event Reply Value Error where
  frames coro :=
    if coro = 0 then some { Frame.new body with isDetached := true } else none
  fresh := 1
  control := .idle
  destroyed := []

/-- Write to the frame of a coroutine. -/
def modify (coro : Nat)
    (change : Frame Local Event Reply Value Error →
      Frame Local Event Reply Value Error) :
    Option (State Local Event Reply Value Error) :=
  (s.frames coro).map fun frame =>
    { s with frames := Function.update s.frames coro (some (change frame)) }

/-- `coroutine_handle::destroy` -/
def destroy (coro : Nat) : State Local Event Reply Value Error :=
  { s with
    frames := Function.update s.frames coro none
    destroyed := s.destroyed ++ [coro] }

/-- A coroutine that was suspended goes on. -/
def enter (coro : Nat) (body : Local) :
    Option (State Local Event Reply Value Error) :=
  (s.modify coro fun frame => { frame with point := .running }).map
    fun s => { s with control := .runs coro body }

/-- `await_resume` in `coro`, for the task that it awaits. -/
def awaitResume (moved : Value → Value) (coro task : Nat) (awaiter : Awaiter)
    (next : Option (Outcome Value Error) → Local) :
    Option (State Local Event Reply Value Error) := do
  let frame ← s.frames task
  let outcome ← frame.stored
  let s ← s.modify task fun frame =>
    { frame with stored := some (awaiter.keeps moved outcome) }
  s.enter coro (next (awaiter.result outcome))

/-- `await_suspend`, which resumes the task, at its initial suspend point. -/
def awaitSuspend (coro task : Nat) (awaiter : Awaiter)
    (next : Option (Outcome Value Error) → Local) :
    Option (State Local Event Reply Value Error) := do
  let s ← s.modify coro fun frame =>
    { frame with point := .awaiting task awaiter next }
  let s ← s.modify task fun frame => { frame with parentCoro := some coro }
  let frame ← s.frames task
  match frame.point with
  | .initialSuspend body => s.enter task body
  | _ => none

/-- `co_await` on a task. -/
def coAwait (moved : Value → Value) (coro task : Nat) (awaiter : Awaiter)
    (next : Option (Outcome Value Error) → Local) :
    Option (State Local Event Reply Value Error) :=
  (s.frames task).bind fun frame =>
    match frame.point with
    | .finalSuspend => s.awaitResume moved coro task awaiter next
    | _ => s.awaitSuspend coro task awaiter next

/-- The destructor of a task, whose coroutine is not in the middle. -/
def destruct (coro task : Nat) (next : Local) :
    Option (State Local Event Reply Value Error) :=
  (s.frames task).bind fun frame =>
    match frame.point with
    | .initialSuspend _ | .finalSuspend => (s.destroy task).enter coro next
    | _ => none

/-- The call of a coroutine. -/
def call (coro : Nat) (callee : Local) (next : Nat → Local) :
    Option (State Local Event Reply Value Error) :=
  { s with
    frames := Function.update s.frames s.fresh (some (Frame.new callee))
    fresh := s.fresh + 1 }.enter coro (next s.fresh)

/-- Another awaitable suspends the coroutine. -/
def suspend (coro : Nat) (event : Event) (next : Reply → Local) :
    Option (State Local Event Reply Value Error) :=
  (s.modify coro fun frame => { frame with point := .suspended event next }).map
    fun s => { s with control := .waits coro event }

/-- `task_final_awaiter::await_suspend` -/
def finalSuspend (moved : Value → Value) (coro : Nat) :
    Option (State Local Event Reply Value Error) := do
  let s ← s.modify coro fun frame => { frame with point := .finalSuspend }
  let frame ← s.frames coro
  let s := if frame.isDetached then s.destroy coro else s
  match frame.parentCoro with
  | none => some { s with control := .idle }
  | some parent =>
      let parentFrame ← s.frames parent
      match parentFrame.point with
      | .awaiting task awaiter next =>
          s.awaitResume moved parent task awaiter next
      | _ => none

/-- `return_value` or `return_void`, and the final suspend point. -/
def coReturn (moved : Value → Value) (coro : Nat) (value : Value) :
    Option (State Local Event Reply Value Error) := do
  let s ← s.modify coro fun frame => { frame with stored := some (.ok value) }
  s.finalSuspend moved coro

/-- `unhandled_exception`, which throws on if the task is detached, and the
final suspend point. -/
def unhandledException (moved : Value → Value) (coro : Nat) (error : Error) :
    Option (State Local Event Reply Value Error) := do
  let frame ← s.frames coro
  if frame.isDetached then
    let s ← s.modify coro fun frame => { frame with point := .finalSuspend }
    some { s with control := .threw error }
  else
    let s ← s.modify coro fun frame =>
      { frame with stored := some (.error error) }
    s.finalSuspend moved coro

/-- The body of a coroutine up to the next point where it may be suspended. -/
def execute (code : Local → Body Local Event Reply Value Error)
    (moved : Value → Value) (coro : Nat) (body : Local) :
    Option (State Local Event Reply Value Error) :=
  match code body with
  | .call callee next => s.call coro callee next
  | .coAwait task awaiter next => s.coAwait moved coro task awaiter next
  | .destruct task next => s.destruct coro task next
  | .suspend event next => s.suspend coro event next
  | .coReturn value => s.coReturn moved coro value
  | .throws error => s.unhandledException moved coro error

/-- The worker resumes the coroutine `0`. -/
def start : Option (State Local Event Reply Value Error) :=
  match s.control, (s.frames 0).map Frame.point with
  | .idle, some (.initialSuspend body) => s.enter 0 body
  | _, _ => none

/-- A coroutine is resumed with the reply that it waits for. -/
def resume (reply : Reply) : Option (State Local Event Reply Value Error) :=
  match s.control with
  | .waits coro _ =>
      match (s.frames coro).map Frame.point with
      | some (.suspended _ next) => s.enter coro (next reply)
      | _ => none
  | _ => none

end State

def step (code : Local → Body Local Event Reply Value Error)
    (moved : Value → Value) (s : State Local Event Reply Value Error) :
    Action Reply → Option (State Local Event Reply Value Error)
  | .start => s.start
  | .run =>
      match s.control with
      | .runs coro body => s.execute code moved coro body
      | _ => none
  | .resume reply => s.resume reply

/-- A detached task with the body `body`. -/
def system (code : Local → Body Local Event Reply Value Error)
    (moved : Value → Value) (body : Local) :
    TransitionSystem (State Local Event Reply Value Error) (Action Reply) where
  initial s := s = State.new body
  step := step code moved

/-- The reply to an event. -/
def replied (s : State Local Event Reply Value Error) :
    Action Reply → Option (Event × Reply)
  | .resume reply =>
      match s.control with
      | .waits _ event => some (event, reply)
      | _ => none
  | _ => none

/-- The coroutine whose body is begun. -/
def begun (code : Local → Body Local Event Reply Value Error)
    (s : State Local Event Reply Value Error) :
    Action Reply → Option Nat
  | .start => some 0
  | .run =>
      match s.control with
      | .runs _ body =>
          match code body with
          | .coAwait task _ _ =>
              match (s.frames task).map Frame.point with
              | some (.initialSuspend _) => some task
              | _ => none
          | _ => none
      | _ => none
  | .resume _ => none

/-- The body of a coroutine as a procedure: a call delays, and `co_await`
forces. -/
def lazy (code : Local → Body Local Event Reply Value Error)
    (moved : Value → Value) (body : Local) :
    Lazy Local Event Reply (Outcome Value Error) :=
  match code body with
  | .call callee next => .delay callee next
  | .coAwait task awaiter next =>
      .force task (awaiter.keeps moved) fun outcome =>
        next (awaiter.result outcome)
  | .destruct task next => .release task next
  | .suspend event next => .report event next
  | .coReturn value => .finish (.ok value)
  | .throws error => .finish (.error error)

end CoContext.TaskAwait
