import CoContext.Population
import CoContext.TransitionSystem
import CoContext.TypeList
import Mathlib.Tactic.Simps.Basic

/-!
# Waiting for all of several tasks

`all` spawns one detached child for each task and forgets itself.  A child
constructs its result in its own element of the buffer, unless its task is
void, and counts down; the last one spawns the awaiting coroutine, which
reads the buffer as a tuple and returns it.  The element of a child is computed
from the list of the value types.

A run starts when the parent has spawned every child and suspended.  Each
access to a word of the meta object is one step.
-/

namespace CoContext.WhenAll

/-- The value types of the tasks; `none` is `void`. -/
structure Tasks (Ty : Type*) where
  types : List (Option Ty)
  /-- `static_assert(n >= 2)`. -/
  twoLe : 2 ≤ types.length
  /-- The number of tasks initialises a `uint32_t` in braces, which is
  ill-formed if it narrows. -/
  fits : types.length < 2 ^ 32

variable {Ty : Type*}

namespace Tasks

/-- The children are named by the positions of their tasks. -/
abbrev Child (tasks : Tasks Ty) : Type :=
  Fin tasks.types.length

/-- The value type of the task of `child`. -/
def type (tasks : Tasks Ty) (child : tasks.Child) : Option Ty :=
  tasks.types.get child

variable [DecidableEq Ty]

/-- `out_type_list`. -/
def outTypes (tasks : Tasks Ty) : List (Option Ty) :=
  TypeList.remove tasks.types none

/-- `buffer_offset_v`, a subtraction of `size_t`. -/
def bufferOffset (tasks : Tasks Ty) (idx : Nat) : Option Nat :=
  (TypeList.firstN tasks.types (idx + 1)).map fun first =>
    (idx + 2 ^ 64 - TypeList.count first none) % 2 ^ 64

end Tasks

/-- Where the library places the elements of `buffer`, which are arrays, and
those of the tuple of the value types.  Elements of the buffer lie apart; an
element of an empty class may lie wherever another one does. -/
structure Layout [DecidableEq Ty] (tasks : Tasks Ty) where
  isEmpty : Option Ty → Bool
  bufferAt : Nat → Nat
  valueAt : Nat → Nat
  apart : ∀ first < tasks.outTypes.length, ∀ second < tasks.outTypes.length,
    bufferAt first = bufferAt second → first = second

/-- The position of a child in `all_evaluate_to`. -/
inductive ChildPc
  | awaitNode
  | construct
  | countDown
  | spawn
  | finished
  deriving DecidableEq

/-- A result that was constructed as an object of a type. -/
structure Object (Ty Value : Type*) where
  type : Option Ty
  value : Value
  deriving DecidableEq

/-- The position of the awaiting coroutine in `all`. -/
inductive ParentPc (Ty Value : Type*)
  | suspended
  /-- A component that is read where no object of its type lives is `none`. -/
  | returned (components : List (Option (Object Ty Value)))
  deriving DecidableEq

variable {Value : Type*}

/-- The `all_meta` object and the coroutines that refer to it. -/
structure State (tasks : Tasks Ty) (Value : Type*) where
  waitNum : Nat
  /-- The objects constructed in each element of the buffer, the last one
  first. -/
  slots : Nat → List (Object Ty Value)
  child : tasks.Child → ChildPc
  parent : ParentPc Ty Value
  /-- How often `await_handle` was spawned. -/
  spawned : Nat

/-- The state in which the parent forgets itself. -/
def State.new (tasks : Tasks Ty) (Value : Type*) : State tasks Value where
  waitNum := tasks.types.length
  slots _ := []
  child _ := .awaitNode
  parent := .suspended
  spawned := 0

inductive Action (tasks : Tasks Ty)
  | run (child : tasks.Child)
  | resume
  deriving DecidableEq

instance {tasks : Tasks Ty} : Inhabited (Action tasks) :=
  ⟨.resume⟩

variable {tasks : Tasks Ty}

namespace State

@[simps -fullyApplied]
def setChild (s : State tasks Value) (child : tasks.Child) (pc : ChildPc) :
    State tasks Value :=
  { s with child := Function.update s.child child pc }

/-- `std::construct_at` in an element of the buffer. -/
def construct (s : State tasks Value) (child : tasks.Child) (offset : Nat)
    (value : Value) : State tasks Value :=
  { s.setChild child .countDown with
    slots := Function.update s.slots offset
      (⟨tasks.type child, value⟩ :: s.slots offset) }

/-- `count_down`: the child that subtracts the last one wakes the parent. -/
def countDown (s : State tasks Value) (child : tasks.Child) :
    State tasks Value :=
  { s.setChild child (if s.waitNum = 1 then .spawn else .finished) with
    waitNum := (s.waitNum + 2 ^ 32 - 1) % 2 ^ 32 }

variable [DecidableEq Ty]

/-- The object of a type that lives in the buffer at an address. -/
def objectAt (s : State tasks Value) (layout : Layout tasks)
    (type : Option Ty) (address : Nat) : Option (Object Ty Value) :=
  ((List.range tasks.outTypes.length).find? fun offset =>
    layout.bufferAt offset == address).bind fun offset =>
      (s.slots offset).head?.filter fun object => object.type = type

/-- A component of `as_result`.  An empty class has nothing to be read. -/
def component (s : State tasks Value) (layout : Layout tasks)
    (offset : Nat) : Option (Object Ty Value) :=
  tasks.outTypes[offset]?.bind fun type =>
    if layout.isEmpty type then (s.slots offset).head?
    else s.objectAt layout type (layout.valueAt offset)

/-- `as_result`: the buffer as a tuple of the value types. -/
def asResult (s : State tasks Value) (layout : Layout tasks) :
    List (Option (Object Ty Value)) :=
  (List.range tasks.outTypes.length).map (s.component layout)

/-- The next step of `child`, whose task completes with `value` unless it is
void. -/
def runChild (s : State tasks Value) (child : tasks.Child) (value : Value) :
    Option (State tasks Value) :=
  match s.child child with
  | .awaitNode =>
      some (s.setChild child
        (if tasks.type child = none then .countDown else .construct))
  | .construct =>
      (tasks.bufferOffset child).map fun offset =>
        s.construct child offset value
  | .countDown => some (s.countDown child)
  | .spawn =>
      some { s.setChild child .finished with spawned := s.spawned + 1 }
  | .finished => none

/-- `co_return std::move(meta.as_result())`. -/
def resume (s : State tasks Value) (layout : Layout tasks) :
    Option (State tasks Value) :=
  match s.parent with
  | .suspended =>
      if 0 < s.spawned then
        some { s with parent := .returned (s.asResult layout) }
      else none
  | .returned _ => none

end State

section System

variable [DecidableEq Ty]

def step (layout : Layout tasks) (result : tasks.Child → Value)
    (s : State tasks Value) : Action tasks → Option (State tasks Value)
  | .run child => s.runChild child (result child)
  | .resume => s.resume layout

/-- `all` of the tasks, where the task of each child completes with its
`result` unless it is void. -/
def system (layout : Layout tasks) (result : tasks.Child → Value) :
    TransitionSystem (State tasks Value) (Action tasks) where
  initial s := s = State.new tasks Value
  step := step layout result

end System

/-- The child did not count down. -/
def ChildPc.Pending : ChildPc → Prop
  | .awaitNode | .construct | .countDown => True
  | .spawn | .finished => False

/-- The steps that a child can still take. -/
def ChildPc.remaining : ChildPc → Nat
  | .awaitNode => 4
  | .construct => 3
  | .countDown => 2
  | .spawn => 1
  | .finished => 0

/-- The steps that the awaiting coroutine can still take. -/
def ParentPc.remaining : ParentPc Ty Value → Nat
  | .suspended => 1
  | .returned _ => 0

def State.remaining (s : State tasks Value) : Nat :=
  ∑ child, (s.child child).remaining + s.parent.remaining

end CoContext.WhenAll
