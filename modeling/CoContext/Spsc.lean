import CoContext.IntegerArithmetic
import CoContext.TransitionSystem
import Mathlib.Data.Nat.ModEq

/-!
# The cursor of a queue with one producer and one consumer

`m_head` and `m_tail` count what was ever popped and pushed, modulo the width
of `T`.  The differences are computed after integral promotion: in `int` if
`T` is narrower, and in `T` otherwise.  A member that returns `T` converts the
difference back; `is_available` and `is_available_load_head` do not.

The loads are atomic if the cursor is thread-safe, and read the same values.
-/

namespace CoContext.Spsc

/-- The template arguments: the size of `T` in bytes and the binary logarithm
of `capacity`. -/
structure Shape where
  bytes : Nat
  log : Nat
  bytes_pos : 0 < bytes
  log_lt : log < 8 * bytes

namespace Shape

variable (shape : Shape)

def bits : Nat :=
  8 * shape.bytes

def type : IntType :=
  ⟨false, shape.bits⟩

def capacity : Nat :=
  2 ^ shape.log

/-- The type in which expressions of type `T` are computed. -/
def promoted : IntType :=
  shape.type.promoted

/-- The conversion of a result to `T`. -/
def narrow (value : Int) : BitVec shape.bits :=
  BitVec.ofInt shape.bits value

def mask : BitVec shape.bits :=
  BitVec.ofNat shape.bits shape.capacity - 1

end Shape

structure Cursor (shape : Shape) where
  mHead : BitVec shape.bits
  mTail : BitVec shape.bits

namespace Cursor

variable {shape : Shape}

def new (shape : Shape) : Cursor shape :=
  ⟨0, 0⟩

variable (cursor : Cursor shape)

def head : BitVec shape.bits :=
  cursor.mHead &&& shape.mask

def tail : BitVec shape.bits :=
  cursor.mTail &&& shape.mask

def rawHead : BitVec shape.bits :=
  cursor.mHead

def rawTail : BitVec shape.bits :=
  cursor.mTail

def isEmpty : Bool :=
  cursor.mHead = cursor.mTail

def size : Option (BitVec shape.bits) :=
  (shape.promoted.sub cursor.mTail.toNat cursor.mHead.toNat).map shape.narrow

/-- `capacity - (m_tail - head)` before any conversion. -/
def room (head : BitVec shape.bits) : Option Int :=
  (shape.promoted.sub cursor.mTail.toNat head.toNat).bind
    (shape.promoted.sub shape.capacity)

def availableNumber : Option (BitVec shape.bits) :=
  (cursor.room cursor.mHead).map shape.narrow

def isAvailable : Option Bool :=
  (cursor.room cursor.mHead).map fun value => value ≠ 0

def loadHead : BitVec shape.bits :=
  cursor.mHead &&& shape.mask

def loadTail : BitVec shape.bits :=
  cursor.mTail &&& shape.mask

def loadRawHead : BitVec shape.bits :=
  cursor.mHead

def loadRawTail : BitVec shape.bits :=
  cursor.mTail

def loadRawTailRelaxed : BitVec shape.bits :=
  cursor.mTail

def isEmptyLoadHead : Bool :=
  cursor.mTail = cursor.loadRawHead

def isEmptyLoadTail : Bool :=
  cursor.mHead = cursor.loadRawTail

def isEmptyLoadTailRelaxed : Bool :=
  cursor.mHead = cursor.loadRawTailRelaxed

def isAvailableLoadHead : Option Bool :=
  (cursor.room cursor.loadRawHead).map fun value => value ≠ 0

/-- The sentinel `head_full` of `wait_for_available`. -/
def headFull : Option (BitVec shape.bits) :=
  (shape.promoted.sub cursor.mTail.toNat shape.capacity).map shape.narrow

def push (num : BitVec shape.bits) : Option (Cursor shape) :=
  (shape.promoted.add cursor.mTail.toNat num.toNat).map fun tail =>
    { cursor with mTail := shape.narrow tail }

def pop (num : BitVec shape.bits) : Option (Cursor shape) :=
  (shape.promoted.add cursor.mHead.toNat num.toNat).map fun head =>
    { cursor with mHead := shape.narrow head }

/-- A cursor and how many elements were ever pushed and popped. -/
structure Counted (shape : Shape) where
  cursor : Cursor shape
  pushed : Nat
  popped : Nat

inductive Action (shape : Shape)
  | push (num : BitVec shape.bits)
  | pop (num : BitVec shape.bits)
  deriving DecidableEq

instance : Inhabited (Action shape) :=
  ⟨.push 0⟩

namespace Counted

def count (s : Counted shape) : Nat :=
  s.pushed - s.popped

/-- Elements are pushed into free room and popped if they are there. -/
def step (s : Counted shape) : Action shape → Option (Counted shape)
  | .push num =>
      if s.pushed + num.toNat ≤ s.popped + shape.capacity then
        (s.cursor.push num).map fun cursor =>
          { s with cursor := cursor, pushed := s.pushed + num.toNat }
      else
        none
  | .pop num =>
      if s.popped + num.toNat ≤ s.pushed then
        (s.cursor.pop num).map fun cursor =>
          { s with cursor := cursor, popped := s.popped + num.toNat }
      else
        none

end Counted

def system (shape : Shape) :
    TransitionSystem (Counted shape) (Action shape) where
  initial s := s = ⟨.new shape, 0, 0⟩
  step := Counted.step

/-- The slot of the element with a number. -/
def slot (shape : Shape) (number : Nat) : BitVec shape.bits :=
  BitVec.ofNat shape.bits number &&& shape.mask

/-- The members of the cursor agree with the elements that are there. -/
structure Agrees (s : Counted shape) : Prop where
  size : s.cursor.size.map BitVec.toNat = some s.count
  availableNumber : s.cursor.availableNumber.map BitVec.toNat =
    some (shape.capacity - s.count)
  isEmpty : s.cursor.isEmpty = true ↔ s.count = 0
  isEmptyLoadHead : s.cursor.isEmptyLoadHead = true ↔ s.count = 0
  isEmptyLoadTail : s.cursor.isEmptyLoadTail = true ↔ s.count = 0
  isEmptyLoadTailRelaxed :
    s.cursor.isEmptyLoadTailRelaxed = true ↔ s.count = 0
  isAvailable : s.cursor.isAvailable = some (s.count < shape.capacity : Bool)
  isAvailableLoadHead :
    s.cursor.isAvailableLoadHead = some (s.count < shape.capacity : Bool)
  headFull : ∃ sentinel, s.cursor.headFull = some sentinel ∧
    (sentinel = s.cursor.mHead ↔ s.count = shape.capacity)
  /-- The next element to pop and the next one to push are where `head` and
  `tail` say, and no two elements share a slot. -/
  head : s.cursor.head = slot shape s.popped
  tail : s.cursor.tail = slot shape s.pushed
  distinct : ∀ first second,
    s.popped ≤ first → first < s.pushed →
      s.popped ≤ second → second < s.pushed →
        slot shape first = slot shape second → first = second
  pushes : ∀ num, (s.cursor.push num).isSome
  pops : ∀ num, (s.cursor.pop num).isSome

end Cursor

end CoContext.Spsc
