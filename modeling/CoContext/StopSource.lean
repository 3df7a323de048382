import CoContext.Population
import CoContext.TransitionSystem
import Mathlib.Data.Fintype.Sum
import Mathlib.Logic.Function.Basic

/-!
# Stop sources, stop tokens and their stop states

A stop state counts the references to it in `m_owners` and the stop sources
among them in the upper bits of `m_value`.  `stop_state_ref` keeps the first
count; the special members of `stop_source` wrap those of the reference and
keep the second one.  A stop token is a reference and nothing else.

The objects are named; one that is not constructed, or destroyed, has no
pointer at all.  A stop state that is allocated gets a new address.
-/

namespace CoContext.StopSource

/-- The counters of a `stop_state_t`. -/
structure StopState where
  mOwners : UInt32
  mValue : UInt32
  deriving DecidableEq

namespace StopState

def stopRequestedBit : UInt32 := 1
def lockedBit : UInt32 := 2
def ssrcCounterInc : UInt32 := 4

/-- A stop state that a stop source creates. -/
def new : StopState where
  mOwners := 1
  mValue := ssrcCounterInc

variable (state : StopState)

def stopPossible : Bool :=
  (state.mValue &&& ~~~lockedBit) != 0

def stopRequested : Bool :=
  (state.mValue &&& stopRequestedBit) != 0

def addOwner : StopState :=
  { state with mOwners := state.mOwners + 1 }

def subOwner : StopState :=
  { state with mOwners := state.mOwners - 1 }

def addSsrc : StopState :=
  { state with mValue := state.mValue + ssrcCounterInc }

def subSsrc : StopState :=
  { state with mValue := state.mValue - ssrcCounterInc }

/-- `request_stop` without callbacks: the lock is taken and released. -/
def requestStop : StopState :=
  if state.stopRequested then state
  else { state with
    mValue := (state.mValue ||| (stopRequestedBit ||| lockedBit)) - lockedBit }

end StopState

/-- The value of `m_ptr`. -/
abbrev Ptr := Option Nat

/-- The objects of type `stop_source`, those of type `stop_token`, and the
heap. -/
structure State (Source Token : Type) where
  ptr : Source ⊕ Token → Option Ptr
  heap : Nat → StopState
  /-- The first address that was never allocated. -/
  next : Nat
  /-- How often the stop state was deleted. -/
  deleted : Nat → Nat
  /-- Somebody has requested a stop. -/
  requested : Nat → Bool

inductive Action (Source Token : Type)
  | newSource (source : Source)
  /-- `stop_source(nostopstate)` -/
  | noStopState (source : Source)
  | copySource (source other : Source)
  | moveSource (source other : Source)
  | copyAssignSource (source other : Source)
  | moveAssignSource (source other : Source)
  | swapSource (source other : Source)
  | destroySource (source : Source)
  | requestStop (source : Source)
  | newToken (token : Token)
  | getToken (token : Token) (source : Source)
  | copyToken (token other : Token)
  | moveToken (token other : Token)
  | copyAssignToken (token other : Token)
  | moveAssignToken (token other : Token)
  | swapToken (token other : Token)
  | destroyToken (token : Token)
  deriving DecidableEq

instance {Source Token : Type} [Inhabited Source] :
    Inhabited (Action Source Token) :=
  ⟨.newSource default⟩

variable {Source Token : Type}

namespace State

def new (Source Token : Type) : State Source Token where
  ptr _ := none
  heap _ := ⟨0, 0⟩
  next := 0
  deleted _ := 0
  requested _ := false

variable (s : State Source Token)

/-- `m_ptr->…`, unless the pointer is null. -/
def modify (ptr : Ptr) (change : StopState → StopState) :
    State Source Token :=
  match ptr with
  | some place =>
      { s with heap :=
          Function.update s.heap place (change (s.heap place)) }
  | none => s

/-- `release_ownership`, unless the pointer is null. -/
def releaseOwnership (ptr : Ptr) : State Source Token :=
  match ptr with
  | some place =>
      { s.modify ptr StopState.subOwner with
        deleted :=
          if (s.heap place).mOwners = 1 then
            Function.update s.deleted place (s.deleted place + 1)
          else s.deleted }
  | none => s

variable [DecidableEq Source] [DecidableEq Token]

def setPtr (object : Source ⊕ Token) (ptr : Option Ptr) :
    State Source Token :=
  { s with ptr := Function.update s.ptr object ptr }

/-- The copy constructor of `stop_state_ref`. -/
def copyRef (object : Source ⊕ Token) (ptr : Ptr) : State Source Token :=
  (s.modify ptr StopState.addOwner).setPtr object (some ptr)

/-- The move constructor of `stop_state_ref`. -/
def moveRef (object other : Source ⊕ Token) (ptr : Ptr) :
    State Source Token :=
  (s.setPtr object (some ptr)).setPtr other (some none)

/-- The copy assignment of `stop_state_ref`, from `ptr` to an object that
holds `old`. -/
def copyAssignRef (object : Source ⊕ Token) (old ptr : Ptr) :
    State Source Token :=
  if ptr ≠ old then
    ((s.modify ptr StopState.addOwner).releaseOwnership old).setPtr object
      (some ptr)
  else s

/-- The move assignment of `stop_state_ref`: a temporary takes the pointer of
`other`, is swapped with the object and destroyed. -/
def moveAssignRef (object other : Source ⊕ Token) (ptr : Ptr) :
    State Source Token :=
  let s := s.setPtr other (some none)
  (s.setPtr object (some ptr)).releaseOwnership (s.ptr object).join

/-- `swap` of `stop_state_ref`. -/
def swapRef (object other : Source ⊕ Token) (first second : Ptr) :
    State Source Token :=
  (s.setPtr object (some second)).setPtr other (some first)

/-- The destructor of `stop_state_ref`. -/
def destroyRef (object : Source ⊕ Token) (ptr : Ptr) : State Source Token :=
  (s.releaseOwnership ptr).setPtr object none

/-- `stop_source()` -/
def newSource (source : Source) : State Source Token :=
  { s.setPtr (.inl source) (some (some s.next)) with
    heap := Function.update s.heap s.next .new
    next := s.next + 1 }

/-- The copy constructor of `stop_source`. -/
def copySource (source : Source) (ptr : Ptr) : State Source Token :=
  (s.copyRef (.inl source) ptr).modify ptr StopState.addSsrc

/-- The destructor of `stop_source`. -/
def destroySource (source : Source) (ptr : Ptr) : State Source Token :=
  (s.modify ptr StopState.subSsrc).destroyRef (.inl source) ptr

/-- The copy assignment of `stop_source`.  What the object held moves to
`sink`, which is destroyed at the end. -/
def copyAssignSource (source : Source) (old ptr : Ptr) :
    State Source Token :=
  if old ≠ ptr then
    let s := s.setPtr (.inl source) (some none)
    let s := (s.copyAssignRef (.inl source) none ptr).modify ptr
      StopState.addSsrc
    (s.modify old StopState.subSsrc).releaseOwnership old
  else s

/-- The move assignment of `stop_source`, which is defaulted. -/
def moveAssignSource (source other : Source) (ptr : Ptr) :
    State Source Token :=
  s.moveAssignRef (.inl source) (.inl other) ptr

def requestStop (ptr : Ptr) : State Source Token :=
  match ptr with
  | some place =>
      { s.modify ptr StopState.requestStop with
        requested := Function.update s.requested place true }
  | none => s

end State

section System

variable [DecidableEq Source] [DecidableEq Token]

/-- Construct an object in place of none. -/
def construct (s : State Source Token) (object : Source ⊕ Token)
    (result : State Source Token) : Option (State Source Token) :=
  if s.ptr object = none then some result else none

def step (s : State Source Token) :
    Action Source Token → Option (State Source Token)
  | .newSource source => construct s (.inl source) (s.newSource source)
  | .noStopState source =>
      construct s (.inl source) (s.setPtr (.inl source) (some none))
  | .copySource source other => do
      let ptr ← s.ptr (.inl other)
      construct s (.inl source) (s.copySource source ptr)
  | .moveSource source other => do
      let ptr ← s.ptr (.inl other)
      construct s (.inl source) (s.moveRef (.inl source) (.inl other) ptr)
  | .copyAssignSource source other => do
      let old ← s.ptr (.inl source)
      let ptr ← s.ptr (.inl other)
      return s.copyAssignSource source old ptr
  | .moveAssignSource source other => do
      let _ ← s.ptr (.inl source)
      let ptr ← s.ptr (.inl other)
      return s.moveAssignSource source other ptr
  | .swapSource source other => do
      let first ← s.ptr (.inl source)
      let second ← s.ptr (.inl other)
      return s.swapRef (.inl source) (.inl other) first second
  | .destroySource source => do
      let ptr ← s.ptr (.inl source)
      return s.destroySource source ptr
  | .requestStop source => do
      let ptr ← s.ptr (.inl source)
      return s.requestStop ptr
  | .newToken token =>
      construct s (.inr token) (s.setPtr (.inr token) (some none))
  | .getToken token source => do
      let ptr ← s.ptr (.inl source)
      construct s (.inr token) (s.copyRef (.inr token) ptr)
  | .copyToken token other => do
      let ptr ← s.ptr (.inr other)
      construct s (.inr token) (s.copyRef (.inr token) ptr)
  | .moveToken token other => do
      let ptr ← s.ptr (.inr other)
      construct s (.inr token) (s.moveRef (.inr token) (.inr other) ptr)
  | .copyAssignToken token other => do
      let old ← s.ptr (.inr token)
      let ptr ← s.ptr (.inr other)
      return s.copyAssignRef (.inr token) old ptr
  | .moveAssignToken token other => do
      let _ ← s.ptr (.inr token)
      let ptr ← s.ptr (.inr other)
      return s.moveAssignRef (.inr token) (.inr other) ptr
  | .swapToken token other => do
      let first ← s.ptr (.inr token)
      let second ← s.ptr (.inr other)
      return s.swapRef (.inr token) (.inr other) first second
  | .destroyToken token => do
      let ptr ← s.ptr (.inr token)
      return s.destroyRef (.inr token) ptr

/-- Any use of stop sources and stop tokens on one thread. -/
def system (Source Token : Type) [DecidableEq Source] [DecidableEq Token] :
    TransitionSystem (State Source Token) (Action Source Token) where
  initial s := s = State.new Source Token
  step := step

end System

section Counts

/-- The object holds the pointer to this stop state. -/
def holds (place : Nat) (ptr : Option Ptr) : Nat :=
  if ptr = some (some place) then 1 else 0

variable [Fintype Source] [Fintype Token]

/-- The live stop sources that refer to the stop state. -/
def sources (s : State Source Token) (place : Nat) : Nat :=
  ∑ source, holds place (s.ptr (.inl source))

/-- The references to the stop state. -/
def refs (s : State Source Token) (place : Nat) : Nat :=
  ∑ object, holds place (s.ptr object)

/-- What is promised in a state, of every stop state that was allocated. -/
structure Counted (s : State Source Token) : Prop where
  sources : ∀ place, 0 < refs s place →
    (s.heap place).mValue.toNat / 4 = sources s place
  owners : ∀ place, 0 < refs s place →
    (s.heap place).mOwners.toNat = refs s place
  stopPossible : ∀ token place, s.ptr (.inr token) = some (some place) →
    ((s.heap place).stopPossible = true ↔
      s.requested place = true ∨ 0 < StopSource.sources s place)
  deleted : ∀ place < s.next,
    s.deleted place = if refs s place = 0 then 1 else 0

/-- The counters have room for what there is to count. -/
def Fits (s : State Source Token) : Prop :=
  ∀ place, sources s place < 2 ^ 30 ∧ refs s place < 2 ^ 32

/-- A stop source that holds a stop state to which there are other references
is assigned from another one that moves. -/
def leaks [DecidableEq Source] (s : State Source Token) :
    Action Source Token → Bool
  | .moveAssignSource source other =>
      match s.ptr (.inl source) with
      | some (some place) => source ≠ other && 2 ≤ refs s place
      | _ => false
  | _ => false

end Counts

end CoContext.StopSource
