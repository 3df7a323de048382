import CoContext.Population
import CoContext.TransitionSystem
import Mathlib.Tactic.Simps.Basic

/-!
# Waiting for the first of several tasks

`any` spawns one detached child for each task and forgets itself; the first
child that increments `finish_count` stores its result and its position and
spawns the awaiting coroutine.  The children share the ownership of the meta
object, so it outlives the return of the parent.

A run starts when the parent has spawned every child and suspended.  Each
access to a word of the meta object is one step.  The counters stay below the
number of tasks, which is a `uint32_t`, and are natural numbers.
-/

namespace CoContext.WhenAny

/-- The position of a child in `any_evaluate_to`. -/
inductive ChildPc
  | isCancelled
  | awaitNode
  | preempt
  | storeBuffer
  | storeIdx
  | spawn
  /-- It returned without awaiting its task. -/
  | cancelled
  /-- It completed its task after another child had. -/
  | lost
  /-- It spawned the awaiting coroutine and returned. -/
  | won
  deriving DecidableEq

/-- The position of the awaiting coroutine in `any`. -/
inductive ParentPc (Value : Type*)
  | suspended
  | moveBuffer (idx : Nat)
  | returned (idx : Nat) (value : Option Value)
  deriving DecidableEq

/-- The `any_meta` object and the coroutines that share it.  A void task and
the `monostate` in the buffer are `none`. -/
structure State (n : Nat) (Value : Type*) where
  idx : Nat
  finishCount : Nat
  buffer : Option Value
  child : Fin n → ChildPc
  parent : ParentPc Value
  /-- How often `await_handle` was spawned. -/
  spawned : Nat

/-- The state in which the parent forgets itself. -/
def State.new (n : Nat) (Value : Type*) : State n Value where
  idx := 2 ^ 32 - 1
  finishCount := 0
  buffer := none
  child _ := .isCancelled
  parent := .suspended
  spawned := 0

inductive Action (n : Nat)
  | run (child : Fin n)
  | resume
  deriving DecidableEq

instance {n : Nat} : Inhabited (Action n) :=
  ⟨.resume⟩

variable {n : Nat} {Value : Type*}

/-- The position from which a child stores a result. -/
def storing : Option Value → ChildPc
  | none => .storeIdx
  | some _ => .storeBuffer

namespace State

@[simps -fullyApplied]
def setChild (s : State n Value) (child : Fin n) (pc : ChildPc) :
    State n Value :=
  { s with child := Function.update s.child child pc }

/-- `is_cancelled`: the child returns at once if the winner is decided. -/
def isCancelled (s : State n Value) (child : Fin n) : State n Value :=
  s.setChild child (if s.finishCount = 0 then .awaitNode else .cancelled)

/-- `preempt`: the child that increments zero wins. -/
def preempt (s : State n Value) (child : Fin n) (result : Option Value) :
    State n Value :=
  { s.setChild child (if s.finishCount = 0 then storing result else .lost) with
    finishCount := s.finishCount + 1 }

/-- The next step of `child`, whose task completes with `result`. -/
def runChild (s : State n Value) (child : Fin n) (result : Option Value) :
    Option (State n Value) :=
  match s.child child with
  | .isCancelled => some (s.isCancelled child)
  | .awaitNode => some (s.setChild child .preempt)
  | .preempt => some (s.preempt child result)
  | .storeBuffer => some { s.setChild child .storeIdx with buffer := result }
  | .storeIdx => some { s.setChild child .spawn with idx := child }
  | .spawn => some { s.setChild child .won with spawned := s.spawned + 1 }
  | .cancelled | .lost | .won => none

/-- The next step of the awaiting coroutine once it was spawned. -/
def resume (s : State n Value) : Option (State n Value) :=
  match s.parent with
  | .suspended =>
      if 0 < s.spawned then some { s with parent := .moveBuffer s.idx }
      else none
  | .moveBuffer idx => some { s with parent := .returned idx s.buffer }
  | .returned .. => none

end State

def step (result : Fin n → Option Value) (s : State n Value) :
    Action n → Option (State n Value)
  | .run child => s.runChild child (result child)
  | .resume => s.resume

/-- `any` of `n` tasks, where the task of each child completes with its
`result` if it is awaited. -/
def system (result : Fin n → Option Value) :
    TransitionSystem (State n Value) (Action n) where
  initial s := s = State.new n Value
  step := step result

/-- The child increments `finish_count` from zero. -/
def ChildPc.Winning : ChildPc → Prop
  | .storeBuffer | .storeIdx | .spawn | .won => True
  | _ => False

/-- The steps that a child can still take. -/
def ChildPc.remaining : ChildPc → Nat
  | .isCancelled => 6
  | .awaitNode => 5
  | .preempt => 4
  | .storeBuffer => 3
  | .storeIdx => 2
  | .spawn => 1
  | .cancelled | .lost | .won => 0

/-- The steps that the awaiting coroutine can still take. -/
def ParentPc.remaining : ParentPc Value → Nat
  | .suspended => 2
  | .moveBuffer _ => 1
  | .returned .. => 0

def State.remaining (s : State n Value) : Nat :=
  ∑ child, (s.child child).remaining + s.parent.remaining

end CoContext.WhenAny
