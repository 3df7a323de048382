import CoContext.CyclicBuffer
import Mathlib.Data.List.Basic

/-!
# The storage of a buffered channel

The channel template keeps its elements in the array `m_buf` between the
pointers `m_first` and `m_last`; the specialization for one element keeps it
in a `std::optional`.  The coroutines of both do the same with their storage,
so the channel is generic in it, and a storage comes with the relation to the
queue of elements it holds.

A pointer is the index of its slot, and a slot is `none` unless an element
was constructed in it.  An operation whose behaviour is undefined, or that
throws, has no result.
-/

namespace CoContext.Channel

/-- The members that the coroutines of a channel use, with their meaning for
the queue of held elements. -/
structure Storage (T Buffer : Type*) where
  capacity : Nat
  new : Buffer
  size : Buffer → Nat
  empty : Buffer → Bool
  full : Buffer → Bool
  /-- The contents of the slot that `acquire` and `drop` destroy. -/
  front : Buffer → Option T
  /-- The contents of the slot that `release` constructs. -/
  back : Buffer → Option T
  /-- The update of `drop`. -/
  discard : Buffer → Option Buffer
  /-- The update of `acquire`, with the element moved out. -/
  take : Buffer → Option (T × Buffer)
  /-- The update of `release`. -/
  put : Buffer → T → Option Buffer
  Holds : Buffer → List T → Prop
  new_holds : Holds new []
  size_eq {buffer items} : Holds buffer items → size buffer = items.length
  length_le {buffer items} : Holds buffer items → items.length ≤ capacity
  empty_iff {buffer items} : Holds buffer items →
    (empty buffer = true ↔ items = [])
  full_iff {buffer items} : Holds buffer items →
    (full buffer = true ↔ items.length = capacity)
  front_eq {buffer item items} : Holds buffer (item :: items) →
    front buffer = some item
  back_eq {buffer items} : Holds buffer items → items.length < capacity →
    back buffer = none
  discard_holds {buffer item items} : Holds buffer (item :: items) →
    ∃ rest, discard buffer = some rest ∧ Holds rest items
  take_holds {buffer item items} : Holds buffer (item :: items) →
    ∃ rest, take buffer = some (item, rest) ∧ Holds rest items
  put_holds {buffer items} : Holds buffer items → items.length < capacity →
    ∀ item, ∃ rest, put buffer item = some rest ∧ Holds rest (items ++ [item])

/-- The members `m_buf`, `m_first`, `m_last` and `m_size`. -/
structure Ring (T : Type*) where
  buf : Nat → Option T
  first : Nat
  last : Nat
  size : Nat

namespace Ring

variable {T : Type*} {capacity : Nat} {ring : Ring T}
variable {item : T} {items : List T}

def new (T : Type*) : Ring T where
  buf _ := none
  first := 0
  last := 0
  size := 0

/-- `std::destroy_at`. -/
def destroyAt (ring : Ring T) (slot : Nat) : Option (Ring T) :=
  match ring.buf slot with
  | none => none
  | some _ => some { ring with buf := Function.update ring.buf slot none }

/-- `std::construct_at`; constructing over an element would leak it. -/
def constructAt (capacity : Nat) (ring : Ring T) (slot : Nat) (item : T) :
    Option (Ring T) :=
  match ring.buf slot with
  | none =>
      if slot < capacity then
        some { ring with buf := Function.update ring.buf slot (some item) }
      else
        none
  | some _ => none

def popOne (capacity : Nat) (ring : Ring T) : Ring T :=
  let popped := { ring with first := ring.first + 1, size := ring.size - 1 }
  if popped.first = capacity then { popped with first := 0 } else popped

def pushOne (capacity : Nat) (ring : Ring T) : Ring T :=
  let pushed := { ring with last := ring.last + 1, size := ring.size + 1 }
  if pushed.last = capacity then { pushed with last := 0 } else pushed

def discard (capacity : Nat) (ring : Ring T) : Option (Ring T) :=
  (ring.destroyAt ring.first).map (popOne capacity)

def take (capacity : Nat) (ring : Ring T) : Option (T × Ring T) :=
  (ring.buf ring.first).bind fun item =>
    (ring.discard capacity).map fun rest => (item, rest)

def put (capacity : Nat) (ring : Ring T) (item : T) : Option (Ring T) :=
  (ring.constructAt capacity ring.last item).map (pushOne capacity)

/-- The live slots are the `m_size` slots starting cyclically at `m_first`,
they hold the elements in order, and `m_last` is one past the last of them. -/
structure Holds (capacity : Nat) (ring : Ring T) (items : List T) : Prop where
  cyclic : CyclicBuffer capacity ring.buf ring.first items
  size_eq : ring.size = items.length
  last_eq : ring.last = (ring.first + ring.size) % capacity

/-- The layout of the ring buffer. -/
structure Cyclic (capacity : Nat) (ring : Ring T) : Prop where
  first_lt : ring.first < capacity
  live_iff : ∀ slot < capacity, (ring.buf slot).isSome ↔
    ∃ offset < ring.size, slot = (ring.first + offset) % capacity
  last_eq : ring.last = (ring.first + ring.size) % capacity

theorem wrap_eq {capacity index : Nat} (indexLt : index < capacity) :
    (if index + 1 = capacity then 0 else index + 1) =
      (index + 1) % capacity := by
  split
  · next atEnd => rw [atEnd, Nat.mod_self]
  · next inside => exact (Nat.mod_eq_of_lt (by omega)).symm

theorem popOne_eq (ring : Ring T) (firstLt : ring.first < capacity) :
    ring.popOne capacity = { ring with
      first := (ring.first + 1) % capacity
      size := ring.size - 1 } := by
  rw [← wrap_eq firstLt]
  unfold popOne
  by_cases atEnd : ring.first + 1 = capacity <;> simp [atEnd]

theorem pushOne_eq (ring : Ring T) (lastLt : ring.last < capacity) :
    ring.pushOne capacity = { ring with
      last := (ring.last + 1) % capacity
      size := ring.size + 1 } := by
  rw [← wrap_eq lastLt]
  unfold pushOne
  by_cases atEnd : ring.last + 1 = capacity <;> simp [atEnd]

namespace Holds

theorem new (capacityPos : 0 < capacity) :
    Holds capacity (Ring.new T) [] where
  cyclic := .vacant capacityPos fun _ => rfl
  size_eq := rfl
  last_eq := (Nat.zero_mod capacity).symm

theorem layout (holds : Holds capacity ring items) : ring.Cyclic capacity where
  first_lt := holds.cyclic.first_lt
  live_iff slot slotLt := by
    rw [holds.size_eq]
    exact holds.cyclic.live_iff slotLt
  last_eq := holds.last_eq

theorem last_lt (holds : Holds capacity ring items) : ring.last < capacity := by
  rw [holds.last_eq]
  exact Nat.mod_lt _ (Nat.zero_lt_of_lt holds.cyclic.first_lt)

theorem back (holds : Holds capacity ring items)
    (room : items.length < capacity) : ring.buf ring.last = none := by
  rw [holds.last_eq, holds.size_eq]
  exact holds.cyclic.back room

theorem discard (holds : Holds capacity ring (item :: items)) :
    ∃ rest, ring.discard capacity = some rest ∧ Holds capacity rest items := by
  have firstLt := holds.cyclic.first_lt
  have sizeEq := holds.size_eq
  rw [List.length_cons] at sizeEq
  have discarded : ring.discard capacity = some
      { ring with
        buf := Function.update ring.buf ring.first none
        first := (ring.first + 1) % capacity
        size := ring.size - 1 } := by
    rw [Ring.discard, destroyAt, holds.cyclic.front]
    simp only [Option.map_some]
    rw [popOne_eq]
    exact firstLt
  have lastEq : (ring.first + ring.size) % capacity =
      ((ring.first + 1) % capacity + (ring.size - 1)) % capacity := by
    rw [Nat.mod_add_mod]
    congr 1
    omega
  exact ⟨_, discarded, holds.cyclic.pop, by simp [sizeEq],
    holds.last_eq.trans lastEq⟩

theorem take (holds : Holds capacity ring (item :: items)) :
    ∃ rest, ring.take capacity = some (item, rest) ∧
      Holds capacity rest items := by
  obtain ⟨rest, discarded, restHolds⟩ := holds.discard
  refine ⟨rest, ?_, restHolds⟩
  rw [Ring.take, holds.cyclic.front, discarded]
  rfl

theorem put (holds : Holds capacity ring items)
    (room : items.length < capacity) (item : T) :
    ∃ rest, ring.put capacity item = some rest ∧
      Holds capacity rest (items ++ [item]) := by
  have lastLt := holds.last_lt
  have slotEq : ring.last = (ring.first + items.length) % capacity := by
    rw [holds.last_eq, holds.size_eq]
  have stored : ring.put capacity item = some
      { ring with
        buf := Function.update ring.buf ring.last (some item)
        last := (ring.last + 1) % capacity
        size := ring.size + 1 } := by
    rw [Ring.put, constructAt, holds.back room]
    simp only [if_pos lastLt, Option.map_some]
    rw [pushOne_eq]
    exact lastLt
  have lastEq : (ring.last + 1) % capacity =
      (ring.first + (ring.size + 1)) % capacity := by
    rw [holds.last_eq, Nat.mod_add_mod, Nat.add_assoc]
  have pushed := holds.cyclic.push room item
  rw [← slotEq] at pushed
  exact ⟨_, stored, pushed, by simp [holds.size_eq], lastEq⟩

end Holds

/-- The storage of `channel<T, capacity>`. -/
def storage (T : Type*) (capacity : Nat) (capacityPos : 0 < capacity) :
    Storage T (Ring T) where
  capacity := capacity
  new := .new T
  size := size
  empty ring := ring.size = 0
  full ring := ring.size = capacity
  front ring := ring.buf ring.first
  back ring := ring.buf ring.last
  discard := discard capacity
  take := take capacity
  put := put capacity
  Holds := Holds capacity
  new_holds := .new capacityPos
  size_eq := Holds.size_eq
  length_le holds := holds.cyclic.length_le
  empty_iff holds := by
    rw [decide_eq_true_iff, holds.size_eq, List.length_eq_zero_iff]
  full_iff holds := by rw [decide_eq_true_iff, holds.size_eq]
  front_eq holds := holds.cyclic.front
  back_eq := Holds.back
  discard_holds := Holds.discard
  take_holds := Holds.take
  put_holds := Holds.put

end Ring

namespace Single

variable {T : Type*}

/-- `m_buf = std::nullopt`, which is fine for an empty optional, too. -/
def discard (_ : Option T) : Option (Option T) :=
  some none

/-- `m_buf.value()` throws if the optional is empty. -/
def take (buf : Option T) : Option (T × Option T) :=
  buf.map fun item => (item, none)

/-- `m_buf.emplace(...)`, which would replace an element. -/
def put (_ : Option T) (item : T) : Option (Option T) :=
  some (some item)

/-- The storage of `channel<T, 1>`. -/
def storage (T : Type*) : Storage T (Option T) where
  capacity := 1
  new := none
  size buf := buf.isSome.toNat
  empty buf := !buf.isSome
  full buf := buf.isSome
  front buf := buf
  back buf := buf
  discard := discard
  take := take
  put := put
  Holds buf items := items = buf.toList
  new_holds := rfl
  size_eq {buf items} holds := by cases buf <;> simp [holds]
  length_le {buf items} holds := by cases buf <;> simp [holds]
  empty_iff {buf items} holds := by cases buf <;> simp [holds]
  full_iff {buf items} holds := by cases buf <;> simp [holds]
  front_eq {buf item items} holds := by
    cases buf with
    | none => simp at holds
    | some stored => simp_all
  back_eq {buf items} holds room := by
    cases buf with
    | none => rfl
    | some stored => simp [holds] at room
  discard_holds {buf item items} holds := by
    cases buf with
    | none => simp at holds
    | some stored => exact ⟨none, rfl, by simp_all⟩
  take_holds {buf item items} holds := by
    cases buf with
    | none => simp at holds
    | some stored => exact ⟨none, by simp_all [take], by simp_all⟩
  put_holds {buf items} holds room item := by
    cases buf with
    | none => exact ⟨some item, rfl, by simp [holds]⟩
    | some stored => simp [holds] at room

end Single

end CoContext.Channel
