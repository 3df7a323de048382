import CoContext.Procedures
import CoContext.RepeatUntil
import CoContext.TransitionSystem

/-!
# Generators

A generator is iterated by its consumer.  The body of a generator may yield
the elements of another one, whose frame then belongs to an awaitable in the
frame of the first.  `_Top` of the outermost generator leads to the innermost
one, which is resumed directly; `_Info` of a nested generator leads to what
its parent keeps in that awaitable.

A coroutine is named when its frame is allocated, and the awaitable of a
coroutine by that coroutine.  An access to a frame that does not exist has no
result.
-/

namespace CoContext.Generator

/-- What the body of a generator does next.  The range of `elements_of` is the
null handle if the generator was moved from. -/
inductive Body (Local Value Error : Type)
  | coYield (value : Value) (next : Local)
  | coYieldElements (range : Option Local) (next : Option Error → Local)
  | coReturn
  | throws (error : Error)

/-- `_Nest_info` -/
structure NestInfo (Error : Type) where
  except : Option Error
  parent : Nat
  root : Nat

/-- `_Nested_awaitable` -/
structure NestedAwaitable (Error : Type) where
  nested : NestInfo Error
  gen : Option Nat

/-- `_Gen_promise_base` -/
structure Promise (Value : Type) where
  top : Nat
  ptr : Option Value
  info : Option Nat

/-- Where a coroutine is suspended, or that it is not. -/
inductive Point (Local Error : Type)
  | initialSuspend (body : Local)
  | yielded (next : Local)
  | nesting (next : Option Error → Local)
  | finalSuspend
  | running

structure Frame (Local Value Error : Type) where
  promise : Promise Value
  point : Point Local Error
  awaitable : Option (NestedAwaitable Error)

/-- Who runs: the consumer, which may have got an exception, or the body of a
coroutine. -/
inductive Control (Local Error : Type)
  | idle
  | threw (error : Error)
  | runs (coro : Nat) (body : Local)

/-- The frames by name, the first name that is not in use, the handle of the
generator, and the frames that were destroyed. -/
structure State (Local Value Error : Type) where
  frames : Nat → Option (Frame Local Value Error)
  fresh : Nat
  coro : Option Nat
  control : Control Local Error
  destroyed : List Nat

inductive Action
  | begin
  | increment
  | run
  | destroy
  deriving DecidableEq

variable {Local Value Error : Type}

/-- The frame of a coroutine that is called. -/
def Frame.new (coro : Nat) (body : Local) : Frame Local Value Error where
  promise := { top := coro, ptr := none, info := none }
  point := .initialSuspend body
  awaitable := none

/-- Destroy the objects in the frames of `pending`, the last one of which is
the first to be released; a generator in a frame destroys its own one first. -/
def destroyNext (loop : (Nat → Option (Frame Local Value Error)) ×
    List Nat × List Nat) :
    Option (((Nat → Option (Frame Local Value Error)) ×
      List Nat × List Nat) ⊕
      ((Nat → Option (Frame Local Value Error)) × List Nat)) :=
  match loop with
  | (frames, [], destroyed) => some (.inr (frames, destroyed))
  | (frames, coro :: pending, destroyed) =>
      (frames coro).bind fun frame =>
        match frame.point, frame.awaitable.bind NestedAwaitable.gen with
        | .running, _ => none
        | _, some gen =>
            some (.inl (Function.update frames coro
              (some { frame with awaitable := none }),
              gen :: coro :: pending, destroyed))
        | _, none =>
            some (.inl (Function.update frames coro none, pending,
              destroyed ++ [coro]))

namespace State

variable (s : State Local Value Error)

/-- A generator before its first iteration. -/
def new (body : Local) : State Local Value Error where
  frames := fun coro => if coro = 0 then some (Frame.new 0 body) else none
  fresh := 1
  coro := some 0
  control := .idle
  destroyed := []

/-- Write to the frame of a coroutine. -/
def modify (coro : Nat)
    (change : Frame Local Value Error → Frame Local Value Error) :
    Option (State Local Value Error) :=
  (s.frames coro).map fun frame =>
    { s with frames := Function.update s.frames coro (some (change frame)) }

/-- `coroutine_handle::destroy` -/
def destroy (coro : Nat) : Option (State Local Value Error) :=
  (repeatUntil destroyNext (s.frames, [coro], s.destroyed)).map
    fun (frames, destroyed) =>
      { s with frames := frames, destroyed := destroyed }

/-- A coroutine that was suspended goes on. -/
def enter (coro : Nat) (body : Local) : Option (State Local Value Error) :=
  (s.modify coro fun frame => { frame with point := .running }).map
    fun s => { s with control := .runs coro body }

/-- `_Nested_awaitable::await_resume`, at the end of which the awaitable is
destroyed with its generator. -/
def awaitResume (coro : Nat) (awaitable : NestedAwaitable Error)
    (next : Option Error → Local) : Option (State Local Value Error) := do
  let s ← s.modify coro fun frame => { frame with awaitable := none }
  let s ← match awaitable.gen with
    | some gen => s.destroy gen
    | none => some s
  s.enter coro (next awaitable.nested.except)

/-- `coroutine_handle::resume` -/
def resume (coro : Nat) : Option (State Local Value Error) :=
  (s.frames coro).bind fun frame =>
    match frame.point, frame.awaitable with
    | .initialSuspend body, _ => s.enter coro body
    | .yielded next, _ => s.enter coro next
    | .nesting next, some awaitable => s.awaitResume coro awaitable next
    | _, _ => none

/-- `yield_value` -/
def yieldValue (coro : Nat) (value : Value) (next : Local) :
    Option (State Local Value Error) :=
  (s.modify coro fun frame =>
    { frame with
      promise := { frame.promise with ptr := some value }
      point := .yielded next }).map
    fun s => { s with control := .idle }

/-- The root that a nested generator of `coro` gets. -/
def rootOf (coro : Nat) : Option Nat :=
  (s.frames coro).bind fun frame =>
    match frame.promise.info with
    | some info =>
        (s.frames info).bind fun infoFrame =>
          infoFrame.awaitable.map fun awaitable => awaitable.nested.root
    | none => some coro

/-- `_Nested_awaitable::await_suspend`, for the generator that was just called
with the name `gen`. -/
def awaitSuspend (coro gen : Nat) (next : Option Error → Local) :
    Option (State Local Value Error) := do
  let root ← s.rootOf coro
  let s ← s.modify coro fun frame =>
    { frame with
      point := .nesting next
      awaitable := some
        { nested := { except := none, parent := coro, root := root }
          gen := some gen } }
  let s ← s.modify root fun frame =>
    { frame with promise := { frame.promise with top := gen } }
  let s ← s.modify gen fun frame =>
    { frame with promise := { frame.promise with info := some coro } }
  s.resume gen

/-- The call of a generator. -/
def call (body : Local) : State Local Value Error :=
  { s with
    frames := Function.update s.frames s.fresh (some (Frame.new s.fresh body))
    fresh := s.fresh + 1 }

/-- `_Final_awaiter::await_suspend` -/
def finalSuspend (coro : Nat) : Option (State Local Value Error) := do
  let s ← s.modify coro fun frame => { frame with point := .finalSuspend }
  let frame ← s.frames coro
  match frame.promise.info with
  | none => some { s with control := .idle }
  | some info =>
      let infoFrame ← s.frames info
      let awaitable ← infoFrame.awaitable
      let cont := awaitable.nested.parent
      let s ← s.modify awaitable.nested.root fun frame =>
        { frame with promise := { frame.promise with top := cont } }
      let s ← s.modify coro fun frame =>
        { frame with promise := { frame.promise with info := none } }
      s.resume cont

/-- `unhandled_exception`, and the final suspend point behind it, which is not
awaited if the exception leaves `resume`. -/
def unhandledException (coro : Nat) (error : Error) :
    Option (State Local Value Error) := do
  let frame ← s.frames coro
  match frame.promise.info with
  | some info =>
      let infoFrame ← s.frames info
      let awaitable ← infoFrame.awaitable
      let s ← s.modify info fun frame =>
        { frame with
          awaitable := some
            { awaitable with
              nested := { awaitable.nested with except := some error } } }
      s.finalSuspend coro
  | none =>
      (s.modify coro fun frame => { frame with point := .finalSuspend }).map
        fun s => { s with control := .threw error }

/-- The body of a coroutine up to the next point where it may be suspended. -/
def execute (code : Local → Body Local Value Error) (coro : Nat)
    (body : Local) : Option (State Local Value Error) :=
  match code body with
  | .coYield value next => s.yieldValue coro value next
  | .coYieldElements none next =>
      some { s with control := .runs coro (next none) }
  | .coYieldElements (some range) next =>
      (s.call range).awaitSuspend coro s.fresh next
  | .coReturn => s.finalSuspend coro
  | .throws error => s.unhandledException coro error

/-- `_Gen_iter::operator==` with the end, where the generator exists. -/
def done : Bool :=
  match s.coro.bind s.frames with
  | some { point := .finalSuspend, .. } => true
  | _ => false

/-- `_Gen_iter::operator*` -/
def deref : Option Value := do
  let frame ← s.coro.bind s.frames
  let top ← s.frames frame.promise.top
  top.promise.ptr

end State

/-- The steps of the consumer, and those of the bodies.  `begin` needs the
initial suspend point, and an iterator exists after it. -/
def step (code : Local → Body Local Value Error)
    (s : State Local Value Error) : Action →
    Option (State Local Value Error)
  | .begin => do
      let coro ← s.coro
      let frame ← s.frames coro
      match s.control, frame.point with
      | .idle, .initialSuspend _ => s.resume coro
      | _, _ => none
  | .increment => do
      let coro ← s.coro
      let frame ← s.frames coro
      match s.control, frame.point with
      | .idle, .yielded _ | .idle, .nesting _ => s.resume frame.promise.top
      | _, _ => none
  | .run =>
      match s.control with
      | .runs coro body => s.execute code coro body
      | _ => none
  | .destroy => do
      let coro ← s.coro
      match s.control with
      | .runs _ _ => none
      | _ => (s.destroy coro).map fun s =>
          { s with coro := none, control := .idle }

/-- The consumer of a generator with the body `body`. -/
def system (code : Local → Body Local Value Error) (body : Local) :
    TransitionSystem (State Local Value Error) Action where
  initial s := s = State.new body
  step := step code

/-- The values that are yielded. -/
def yielded (code : Local → Body Local Value Error)
    (s : State Local Value Error) : Action → Option Value
  | .run =>
      match s.control with
      | .runs _ body =>
          match code body with
          | .coYield value _ => some value
          | _ => none
      | _ => none
  | _ => none

/-- The body of a generator as a procedure that reports the values it yields
and ends with an exception or without. -/
def activity (code : Local → Body Local Value Error) (body : Local) :
    Activity Local Value Unit (Option Error) :=
  match code body with
  | .coYield value next => .report value fun _ => next
  | .coYieldElements none next => .goOn (next none)
  | .coYieldElements (some range) next => .call range next
  | .coReturn => .finish none
  | .throws error => .finish (some error)

/-- The elements of a generator with the body `body`, where `elements_of`
stands for the elements of its range, and how it ends. -/
def Yields (code : Local → Body Local Value Error) (body : Local)
    (values : List Value) (ends : Option Error) : Prop :=
  Activity.Evaluates (activity code) body (values.map fun value => (value, ()))
    ends

/-- The values are the first elements of a generator with the body `body`,
which may go on forever. -/
def BeginsToYield (code : Local → Body Local Value Error) (body : Local)
    (values : List Value) : Prop :=
  Activity.Begins (activity code) body (values.map fun value => (value, ()))

end CoContext.Generator
