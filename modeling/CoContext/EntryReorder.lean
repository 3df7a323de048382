import CoContext.CursorRing
import CoContext.TransitionSystem
import Mathlib.Data.List.Perm.Basic

/-!
# Entries that are appended in any order

With `sqe_reorder`, `get_sq_entry` takes the next free index from the array
that the kernel reads, and `append_sq_entry` writes the index of an entry back
into the array, so that the entries are consumed in the order in which they
are appended and not in the one in which they were handed out.  The array is
shared by three segments: the indices that the kernel may read, those of the
entries that the application fills, which are stale, and the free ones.

An entry is named by its offset from `sqes`.  Entries are twice as large with
`IORING_SETUP_SQE128`, and the offset is in units of the small ones.
-/

namespace CoContext.EntryReorder

/-- The cursors, the array and the entries, and the entries that the
application got and did not append yet. -/
structure State (Data : Type*) where
  sqeHead : UInt32
  sqeTail : UInt32
  sqeFreeHead : UInt32
  khead : UInt32
  ktail : UInt32
  array : Nat → Nat
  sqes : Nat → Option Data
  held : List Nat

inductive Action (Data : Type*)
  | getSqEntry
  /-- The application writes to an entry. -/
  | fill (entry : Nat) (data : Data)
  | appendSqEntry (entry : Nat)
  | flush
  /-- The kernel takes the next index of the array. -/
  | consume
  deriving DecidableEq

instance {Data : Type*} : Inhabited (Action Data) :=
  ⟨.flush⟩

variable {Data : Type*} (capacity : RingCapacity) (sqe128 : Bool)

/-- The entry with an index. -/
def entryAt (index : Nat) : Nat :=
  index <<< (if sqe128 then 1 else 0)

namespace State

/-- After `init_free_queue`. -/
def new (Data : Type*) : State Data where
  sqeHead := 0
  sqeTail := 0
  sqeFreeHead := 0
  khead := 0
  ktail := 0
  array := id
  sqes _ := none
  held := []

variable (s : State Data)

def getSqEntry : Option Nat :=
  if s.sqeFreeHead - s.khead < capacity.value then
    some (entryAt sqe128 (s.array (capacity.slot s.sqeFreeHead)))
  else none

def appendSqEntry (entry : Nat) : State Data :=
  { s with
    array := Function.update s.array (capacity.slot s.sqeTail) entry
    sqeTail := s.sqeTail + 1
    held := s.held.erase entry }

def flush : State Data :=
  if s.sqeTail ≠ s.sqeHead then
    { s with sqeHead := s.sqeTail, ktail := s.sqeTail }
  else s

/-- `sq_pending` -/
def pending : UInt32 :=
  s.sqeTail - s.khead

/-- `sq_space_left` -/
def spaceLeft : UInt32 :=
  capacity.value - s.pending

/-- The entry that the kernel takes next, with what is in it; an index out of
range is dropped. -/
def nextEntry : Option (Nat × Option Data) :=
  let index := s.array (capacity.slot s.khead)
  if index < capacity.slots then
    some (entryAt sqe128 index, s.sqes (entryAt sqe128 index))
  else none

end State

/-- The application writes to entries that it holds, and appends them. -/
def step (s : State Data) : Action Data → Option (State Data)
  | .getSqEntry =>
      match s.getSqEntry capacity sqe128 with
      | some entry =>
          some { s with
            sqeFreeHead := s.sqeFreeHead + 1
            held := s.held ++ [entry] }
      | none => some s
  | .fill entry data =>
      if entry ∈ s.held then
        some { s with sqes := Function.update s.sqes entry (some data) }
      else none
  | .appendSqEntry entry =>
      if entry ∈ s.held then some (s.appendSqEntry capacity entry) else none
  | .flush => some s.flush
  | .consume =>
      if s.khead ≠ s.ktail then some { s with khead := s.khead + 1 } else none

def system (Data : Type*) (capacity : RingCapacity) (sqe128 : Bool) :
    TransitionSystem (State Data) (Action Data) where
  initial s := s = State.new Data
  step := step capacity sqe128

/-- The entry that is appended, with what is in it. -/
def appended (s : State Data) : Action Data → Option (Nat × Option Data)
  | .appendSqEntry entry => some (entry, s.sqes entry)
  | _ => none

/-- What the kernel takes. -/
def consumed (s : State Data) :
    Action Data → Option (Option (Nat × Option Data))
  | .consume => some (s.nextEntry capacity sqe128)
  | _ => none

end CoContext.EntryReorder
