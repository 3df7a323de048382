import CoContext.TransitionSystem
import CoContext.UniqueHandles

/-!
# Frames of tasks

A `task<T>` owns the frame of its coroutine: the destructor and the move
assignment of the object destroy it.  `detach()` gives the frame up, and for
`task<void>` it marks the promise, so that the final awaiter destroys the
frame.  The mark is kept in the bytes of the exception pointer.

A frame keeps its name after it is destroyed, and the number of times that it
was destroyed.
-/

namespace CoContext.TaskFrame

/-- The value type of a task; `object` and `reference` tasks differ in how the
promise keeps the result. -/
inductive ValueKind
  | void
  | object
  | reference
  deriving DecidableEq

/-- How far a coroutine got, between its initial and its final suspend
point. -/
inductive Progress
  | initialSuspend
  | running
  | finalSuspend
  deriving DecidableEq

/-- What the promise keeps in the place of the result: nothing yet, the mark
of a detached task, an exception or a value. -/
inductive Stored
  | mono
  | detached
  | exception
  | value
  deriving DecidableEq

/-- A frame with its promise; without a parent the coroutine continues with
`noop_coroutine()`. -/
structure Frame (Coro : Type*) where
  progress : Progress
  stored : Stored
  parentCoro : Option Coro
  destroyed : Nat
  deriving DecidableEq

namespace Frame

variable {Coro : Type*}

/-- `initial_suspend` suspends the new coroutine. -/
def new (Coro : Type*) : Frame Coro where
  progress := .initialSuspend
  stored := .mono
  parentCoro := none
  destroyed := 0

/-- `handle.done()` -/
def done (frame : Frame Coro) : Bool :=
  frame.progress = .finalSuspend

def destroy (frame : Frame Coro) : Frame Coro :=
  { frame with destroyed := frame.destroyed + 1 }

/-- The handle of the coroutine is resumed. -/
def resume (frame : Frame Coro) : Frame Coro :=
  { frame with progress := .running }

/-- `awaiter_base::await_suspend` -/
def awaitSuspend (awaitingCoro : Coro) (frame : Frame Coro) : Frame Coro :=
  resume { frame with parentCoro := some awaitingCoro }

/-- `return_void`, or `return_value` of the promises with a value. -/
def returnResult (kind : ValueKind) (frame : Frame Coro) : Frame Coro :=
  match kind with
  | .void => frame
  | .object | .reference => { frame with stored := .value }

/-- `unhandled_exception`; `none` if it throws the exception on. -/
def unhandledException (kind : ValueKind) (frame : Frame Coro) :
    Option (Frame Coro) :=
  match kind with
  | .void =>
      if frame.stored = .detached then none
      else some { frame with stored := .exception }
  | .object | .reference => some { frame with stored := .exception }

/-- `task_final_awaiter::await_suspend`, with the coroutine that it
continues. -/
def finalAwaiter (kind : ValueKind) (frame : Frame Coro) :
    Frame Coro × Option Coro :=
  match kind with
  | .void =>
      if frame.stored = .detached then (frame.destroy, frame.parentCoro)
      else (frame, frame.parentCoro)
  | .object | .reference => (frame, frame.parentCoro)

/-- The coroutine awaits its final awaiter. -/
def finalSuspend (kind : ValueKind) (frame : Frame Coro) : Frame Coro :=
  (finalAwaiter kind { frame with progress := .finalSuspend }).1

/-- The coroutine runs to its end. -/
def returns (kind : ValueKind) (frame : Frame Coro) : Frame Coro :=
  (frame.returnResult kind).finalSuspend kind

/-- The coroutine ends with an exception.  If `unhandled_exception` throws,
too, it counts as suspended at its final suspend point, but it does not await
the final awaiter. -/
def throws (kind : ValueKind) (frame : Frame Coro) : Frame Coro :=
  match frame.unhandledException kind with
  | some caught => caught.finalSuspend kind
  | none => { frame with progress := .finalSuspend }

/-- What `task::detach` writes to the promise. -/
def detach (kind : ValueKind) (frame : Frame Coro) : Frame Coro :=
  match kind with
  | .void => { frame with stored := .detached }
  | .object | .reference => frame

end Frame

/-- The task objects that are alive with their handles, and the frames. -/
structure State (Object Name Coro : Type*) where
  handle : Handles Object Name
  frame : Name → Option (Frame Coro)

def State.new (Object Name Coro : Type*) : State Object Name Coro where
  handle _ := none
  frame _ := none

inductive Action (Object Name Coro : Type*)
  /-- A call of the coroutine, which returns the task object. -/
  | call (object : Object) (name : Name)
  | construct (object : Object)
  | moveConstruct (object other : Object)
  | moveAssign (object other : Object)
  | swap (first second : Object)
  | await (object : Object) (awaitingCoro : Coro)
  /-- The coroutine is resumed by its handle, as `co_spawn` does. -/
  | resume (name : Name)
  | returns (name : Name)
  | throws (name : Name)
  | detach (object : Object)
  | destruct (object : Object)

instance {Object Name Coro : Type*} [Inhabited Object] :
    Inhabited (Action Object Name Coro) :=
  ⟨.destruct default⟩

variable {Object Name Coro : Type*} [DecidableEq Object] [DecidableEq Name]

namespace State

/-- A frame is changed. -/
def update (state : State Object Name Coro) (name : Name)
    (change : Frame Coro → Frame Coro) : State Object Name Coro :=
  { state with
    frame :=
      Function.update state.frame name ((state.frame name).map change) }

/-- `if (handle) handle.destroy();` -/
def destroy (state : State Object Name Coro) :
    Option Name → State Object Name Coro
  | none => state
  | some name => state.update name Frame.destroy

def call (state : State Object Name Coro) (object : Object) (name : Name) :
    Option (State Object Name Coro) :=
  match state.handle object, state.frame name with
  | none, none => some
      { handle := state.handle.place object (some name)
        frame := Function.update state.frame name (some (Frame.new Coro)) }
  | _, _ => none

def construct (state : State Object Name Coro) (object : Object) :
    Option (State Object Name Coro) :=
  match state.handle object with
  | none => some { state with handle := state.handle.place object none }
  | some _ => none

def moveConstruct (state : State Object Name Coro) (object other : Object) :
    Option (State Object Name Coro) :=
  match state.handle object, state.handle other with
  | none, some _ => some { state with handle := state.handle.move object other }
  | _, _ => none

def moveAssign (state : State Object Name Coro) (object other : Object) :
    Option (State Object Name Coro) :=
  match state.handle object, state.handle other with
  | some held, some _ =>
      if object ≠ other then
        some
          { state.destroy held with handle := state.handle.move object other }
      else some state
  | _, _ => none

def swap (state : State Object Name Coro) (first second : Object) :
    Option (State Object Name Coro) :=
  match state.handle first, state.handle second with
  | some _, some _ =>
      some { state with handle := state.handle.swap first second }
  | _, _ => none

/-- The frame of a coroutine that can be resumed. -/
def suspended (state : State Object Name Coro) (name : Name) :
    Option (Frame Coro) :=
  (state.frame name).filter fun frame =>
    frame.destroyed = 0 ∧ frame.done = false

/-- The frame of a coroutine that is running. -/
def running (state : State Object Name Coro) (name : Name) :
    Option (Frame Coro) :=
  (state.frame name).filter fun frame =>
    frame.destroyed = 0 ∧ frame.progress = .running

/-- Awaiting a task without a handle, or one that is done, does not resume its
coroutine. -/
def await (state : State Object Name Coro) (object : Object)
    (awaitingCoro : Coro) : Option (State Object Name Coro) :=
  match state.handle object with
  | some (some name) =>
      match state.frame name with
      | some frame =>
          if frame.done then some state
          else (state.suspended name).map fun _ =>
            state.update name (Frame.awaitSuspend awaitingCoro)
      | none => none
  | some none => some state
  | none => none

/-- `task::detach`, which writes to the promise of a `task<void>` without
looking at the handle. -/
def detach (kind : ValueKind) (state : State Object Name Coro)
    (object : Object) : Option (State Object Name Coro) :=
  match state.handle object with
  | some (some name) =>
      some
        { state.update name (Frame.detach kind) with
          handle := state.handle.place object none }
  | some none =>
      match kind with
      | .void => none
      | .object | .reference =>
          some { state with handle := state.handle.place object none }
  | none => none

def destruct (state : State Object Name Coro) (object : Object) :
    Option (State Object Name Coro) :=
  (state.handle object).map fun held =>
    { state.destroy held with handle := state.handle.remove object }

end State

/-- One step of the tasks of a value type. -/
def step (kind : ValueKind) (state : State Object Name Coro) :
    Action Object Name Coro → Option (State Object Name Coro)
  | .call object name => state.call object name
  | .construct object => state.construct object
  | .moveConstruct object other => state.moveConstruct object other
  | .moveAssign object other => state.moveAssign object other
  | .swap first second => state.swap first second
  | .await object awaitingCoro => state.await object awaitingCoro
  | .resume name =>
      (state.suspended name).map fun _ => state.update name Frame.resume
  | .returns name =>
      (state.running name).map fun _ => state.update name (Frame.returns kind)
  | .throws name =>
      (state.running name).map fun _ => state.update name (Frame.throws kind)
  | .detach object => state.detach kind object
  | .destruct object => state.destruct object

variable (Object Name Coro) in
def system (kind : ValueKind) :
    TransitionSystem (State Object Name Coro) (Action Object Name Coro) where
  initial state := state = State.new Object Name Coro
  step := step kind

end CoContext.TaskFrame
