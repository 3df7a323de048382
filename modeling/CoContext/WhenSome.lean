import CoContext.Population
import CoContext.TransitionSystem
import Mathlib.Tactic.Simps.Basic

/-!
# Waiting for some of several tasks

`some` spawns one detached child for each of `n` tasks and forgets itself.  A
child whose task completed increments `idx`; what it read there is its rank,
and the first `min_complete` ranks are slots of the buffer.  The child with
the last of these ranks spawns the awaiting coroutine, which moves the buffer
out of the meta object.

A run starts when the parent has spawned every child and suspended.  Each
access to a word of the meta object is one step.  The counter stays below the
number of tasks, which is a `uint32_t`, and is a natural number.
-/

namespace CoContext.WhenSome

/-- An `index_value`; a void task and `monostate` are `none`. -/
structure IndexValue (Value : Type*) where
  index : Nat
  value : Option Value
  deriving DecidableEq

/-- The element that `buffer.resize` constructs. -/
def IndexValue.initial {Value : Type*} : IndexValue Value :=
  ⟨0, none⟩

/-- The position of a child in `some_evaluate_to`. -/
inductive ChildPc (minComplete : Nat)
  | isCancelled
  | awaitNode
  | preempt
  | writeIndex (rank : Fin minComplete)
  | writeValue (rank : Fin minComplete)
  | testRank (rank : Fin minComplete)
  | spawn (rank : Fin minComplete)
  /-- It returned without awaiting its task. -/
  | cancelled
  /-- It completed its task when every slot was taken. -/
  | surplus (rank : Nat)
  /-- It wrote its slot and returned. -/
  | finished (rank : Fin minComplete)
  /-- It accessed `buffer[rank]` after the buffer was moved. -/
  | outOfBounds
  deriving DecidableEq

/-- The position of the awaiting coroutine in `some`. -/
inductive ParentPc
  | suspended
  | returned
  deriving DecidableEq

/-- The `some_meta` object and the coroutines that share it. -/
structure State (n minComplete : Nat) (Value : Type*) where
  idx : Nat
  /-- The storage of the vector, which the awaiting coroutine returns. -/
  buffer : Fin minComplete → IndexValue Value
  child : Fin n → ChildPc minComplete
  parent : ParentPc
  /-- How often `await_handle` was spawned. -/
  spawned : Nat

/-- The state in which the parent forgets itself. -/
def State.new (n minComplete : Nat) (Value : Type*) :
    State n minComplete Value where
  idx := 0
  buffer _ := .initial
  child _ := .isCancelled
  parent := .suspended
  spawned := 0

inductive Action (n : Nat)
  | run (child : Fin n)
  | resume
  deriving DecidableEq

instance {n : Nat} : Inhabited (Action n) :=
  ⟨.resume⟩

variable {n minComplete : Nat} {Value : Type*}

namespace State

@[simps -fullyApplied]
def setChild (s : State n minComplete Value) (child : Fin n)
    (pc : ChildPc minComplete) : State n minComplete Value :=
  { s with child := Function.update s.child child pc }

@[simps -fullyApplied]
def setSlot (s : State n minComplete Value) (rank : Fin minComplete)
    (slot : IndexValue Value) : State n minComplete Value :=
  { s with buffer := Function.update s.buffer rank slot }

/-- `is_cancelled`: the child returns at once if every slot is taken. -/
def isCancelled (s : State n minComplete Value) (child : Fin n) :
    State n minComplete Value :=
  s.setChild child (if minComplete ≤ s.idx then .cancelled else .awaitNode)

/-- `preempt`: the child takes the next rank. -/
def preempt (s : State n minComplete Value) (child : Fin n) :
    State n minComplete Value :=
  { s.setChild child (if free : s.idx < minComplete then
      .writeIndex ⟨s.idx, free⟩ else .surplus s.idx) with
    idx := s.idx + 1 }

/-- `buffer[rank].index = idx`. -/
def writeIndex (s : State n minComplete Value) (child : Fin n)
    (rank : Fin minComplete) (result : Option Value) :
    State n minComplete Value :=
  match s.parent with
  | .suspended =>
      (s.setSlot rank { s.buffer rank with index := child }).setChild child
        (if result.isSome then .writeValue rank else .testRank rank)
  | .returned => s.setChild child .outOfBounds

/-- `any_tuple.value = std::move(result)`, through the reference to the
slot. -/
def writeValue (s : State n minComplete Value) (child : Fin n)
    (rank : Fin minComplete) (result : Option Value) :
    State n minComplete Value :=
  (s.setSlot rank { s.buffer rank with value := result }).setChild child
    (.testRank rank)

/-- The next step of `child`, whose task completes with `result`. -/
def runChild (s : State n minComplete Value) (child : Fin n)
    (result : Option Value) : Option (State n minComplete Value) :=
  match s.child child with
  | .isCancelled => some (s.isCancelled child)
  | .awaitNode => some (s.setChild child .preempt)
  | .preempt => some (s.preempt child)
  | .writeIndex rank => some (s.writeIndex child rank result)
  | .writeValue rank => some (s.writeValue child rank result)
  | .testRank rank =>
      some (s.setChild child
        (if rank.val + 1 = minComplete then .spawn rank else .finished rank))
  | .spawn rank =>
      some { s.setChild child (.finished rank) with spawned := s.spawned + 1 }
  | .cancelled | .surplus _ | .finished _ | .outOfBounds => none

/-- `co_return std::move(meta_ptr->buffer)`. -/
def resume (s : State n minComplete Value) :
    Option (State n minComplete Value) :=
  if s.parent = .suspended ∧ 0 < s.spawned then
    some { s with parent := .returned }
  else
    none

end State

def step (result : Fin n → Option Value) (s : State n minComplete Value) :
    Action n → Option (State n minComplete Value)
  | .run child => s.runChild child (result child)
  | .resume => s.resume

/-- `some` of `n` tasks, where the task of each child completes with its
`result` if it is awaited. -/
def system (minComplete : Nat) (result : Fin n → Option Value) :
    TransitionSystem (State n minComplete Value) (Action n) where
  initial s := s = State.new n minComplete Value
  step := step result

namespace ChildPc

/-- The rank that the child took. -/
def rank : ChildPc minComplete → Option Nat
  | .writeIndex rank | .writeValue rank | .testRank rank | .spawn rank
  | .finished rank => some rank
  | .surplus rank => some rank
  | .isCancelled | .awaitNode | .preempt | .cancelled | .outOfBounds => none

/-- The child took a slot and has not written it yet. -/
def Writing : ChildPc minComplete → Prop
  | .writeIndex _ | .writeValue _ => True
  | _ => False

/-- The task of the child completed. -/
def Completed : ChildPc minComplete → Prop
  | .isCancelled | .awaitNode | .cancelled => False
  | _ => True

/-- The steps that a child can still take. -/
def remaining : ChildPc minComplete → Nat
  | .isCancelled => 7
  | .awaitNode => 6
  | .preempt => 5
  | .writeIndex _ => 4
  | .writeValue _ => 3
  | .testRank _ => 2
  | .spawn _ => 1
  | .cancelled | .surplus _ | .finished _ | .outOfBounds => 0

end ChildPc

/-- The steps that the awaiting coroutine can still take. -/
def ParentPc.remaining : ParentPc → Nat
  | .suspended => 1
  | .returned => 0

def State.remaining (s : State n minComplete Value) : Nat :=
  ∑ child, (s.child child).remaining + s.parent.remaining

/-- If the step spawns the awaiting coroutine, then every slot that was taken
is written. -/
def WritesDone (s : State n minComplete Value) : Action n → Prop
  | .run child => ∀ rank, s.child child = .spawn rank →
      ∀ other, ¬ (s.child other).Writing
  | .resume => True

end CoContext.WhenSome
