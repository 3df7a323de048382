import CoContext.CyclicBuffer
import Mathlib.Algebra.Group.Nat.Defs
import Mathlib.Algebra.Order.Group.Nat

/-!
# Rings with free-running cursors

The cursors of a ring count the items that were ever taken and ever put, modulo
the width of a machine word; the low bits of a cursor are the slot.  A slot
that was taken keeps its stale item, so that the items of the ring are those
between the cursors.  As the capacity is a power of two, cursors that wrap
around still name consecutive slots.
-/

namespace CoContext

/-- A number of slots that a mask can select from a cursor. -/
structure RingCapacity where
  value : UInt32
  bits : Nat
  value_eq : value.toNat = 2 ^ bits

namespace RingCapacity

variable (capacity : RingCapacity)

def mask : UInt32 :=
  capacity.value - 1

/-- The slot that a cursor names. -/
def slot (cursor : UInt32) : Nat :=
  (cursor &&& capacity.mask).toNat

/-- The number of slots. -/
def slots : Nat :=
  capacity.value.toNat

theorem slots_pos : 0 < capacity.slots := by
  rw [slots, capacity.value_eq]
  exact Nat.two_pow_pos capacity.bits

theorem slots_lt : capacity.slots < 4294967296 :=
  capacity.value.toNat_lt

theorem bits_lt : capacity.bits < 32 := by
  have powLt : 2 ^ capacity.bits < 2 ^ 32 := by
    rw [← capacity.value_eq]
    exact capacity.value.toNat_lt
  exact (Nat.pow_lt_pow_iff_right (by decide)).mp powLt

/-- The cursors wrap around at a multiple of the capacity. -/
theorem slots_dvd : capacity.slots ∣ 4294967296 := by
  rw [slots, capacity.value_eq]
  exact Nat.pow_dvd_pow 2 (Nat.le_of_lt capacity.bits_lt)

theorem slot_eq (cursor : UInt32) :
    capacity.slot cursor = cursor.toNat % capacity.slots := by
  have maskEq : capacity.mask.toNat = 2 ^ capacity.bits - 1 := by
    have positive := capacity.slots_pos
    have oneLe : (1 : UInt32) ≤ capacity.value := by
      rw [UInt32.le_iff_toNat_le]
      exact positive
    rw [mask, UInt32.toNat_sub_of_le _ _ oneLe, capacity.value_eq]
    rfl
  rw [slot, UInt32.toNat_and, maskEq, Nat.and_two_pow_sub_one_eq_mod, slots,
    capacity.value_eq]

/-- Where a cursor wraps around does not matter. -/
theorem slot_add (cursor : UInt32) (offset : Nat) :
    capacity.slot (cursor + UInt32.ofNat offset) =
      (cursor.toNat + offset) % capacity.slots := by
  have dvd := capacity.slots_dvd
  rw [slot_eq, UInt32.toNat_add, UInt32.toNat_ofNat',
    Nat.mod_mod_of_dvd _ dvd, Nat.add_mod, Nat.mod_mod_of_dvd _ dvd,
    ← Nat.add_mod]

/-- Cursors less than one revolution apart name different slots. -/
theorem slot_inj {cursor : UInt32} {offset other : Nat}
    (offsetLt : offset < capacity.slots) (otherLt : other < capacity.slots)
    (same : capacity.slot (cursor + UInt32.ofNat offset) =
      capacity.slot (cursor + UInt32.ofNat other)) : offset = other := by
  rw [slot_add, slot_add] at same
  exact CyclicBuffer.slot_inj offsetLt otherLt same

end RingCapacity

/-- The slots between the cursors hold the items in order. -/
structure CursorRing {Item : Type*} (capacity : RingCapacity)
    (slots : Nat → Option Item) (head tail : UInt32) (items : List Item) :
    Prop where
  length_le : items.length ≤ capacity.slots
  tail_eq : tail = head + UInt32.ofNat items.length
  slot_eq : ∀ offset < items.length,
    slots (capacity.slot (head + UInt32.ofNat offset)) = items[offset]?

namespace CursorRing

variable {Item : Type*} {capacity : RingCapacity}
variable {slots : Nat → Option Item} {head tail : UInt32}
variable {item : Item} {items : List Item}

theorem empty (slots : Nat → Option Item) (cursor : UInt32) :
    CursorRing capacity slots cursor cursor [] where
  length_le := Nat.zero_le _
  tail_eq := (UInt32.add_zero cursor).symm
  slot_eq offset offsetLt := by simp at offsetLt

/-- The distance of the cursors is the number of items. -/
theorem size_eq (ring : CursorRing capacity slots head tail items) :
    (tail - head).toNat = items.length := by
  have lengthLe := ring.length_le
  have slotsLt := capacity.slots_lt
  have headLt := head.toNat_lt
  rw [ring.tail_eq, UInt32.toNat_sub, UInt32.toNat_add, UInt32.toNat_ofNat']
  omega

theorem cursor_succ (cursor : UInt32) (offset : Nat) :
    cursor + 1 + UInt32.ofNat offset = cursor + UInt32.ofNat (offset + 1) := by
  rw [UInt32.add_assoc, UInt32.add_comm 1, UInt32.ofNat_add]
  rfl

theorem front (ring : CursorRing capacity slots head tail (item :: items)) :
    slots (capacity.slot head) = some item := by
  have slotEq := ring.slot_eq 0 (Nat.zero_lt_succ _)
  have sumEq : head + UInt32.ofNat 0 = head := UInt32.add_zero head
  rwa [sumEq, List.getElem?_cons_zero] at slotEq

/-- Only the live slots matter. -/
theorem congr {others : Nat → Option Item}
    (ring : CursorRing capacity slots head tail items)
    (agree : ∀ offset < items.length,
      others (capacity.slot (head + UInt32.ofNat offset)) =
        slots (capacity.slot (head + UInt32.ofNat offset))) :
    CursorRing capacity others head tail items where
  length_le := ring.length_le
  tail_eq := ring.tail_eq
  slot_eq offset offsetLt :=
    (agree offset offsetLt).trans (ring.slot_eq offset offsetLt)

/-- Moving the head takes the front item. -/
theorem pop (ring : CursorRing capacity slots head tail (item :: items)) :
    CursorRing capacity slots (head + 1) tail items where
  length_le := Nat.le_of_succ_le ring.length_le
  tail_eq := by rw [cursor_succ, ring.tail_eq, List.length_cons]
  slot_eq offset offsetLt := by
    rw [cursor_succ, ring.slot_eq (offset + 1) (Nat.succ_lt_succ offsetLt),
      List.getElem?_cons_succ]

/-- Moving the head over several items takes them. -/
theorem drop (ring : CursorRing capacity slots head tail items)
    {count : Nat}
    (countLe : count ≤ items.length) :
    CursorRing capacity slots (head + UInt32.ofNat count) tail
      (items.drop count) := by
  induction count with
  | zero =>
      have headEq : head + UInt32.ofNat 0 = head := UInt32.add_zero head
      rwa [headEq, List.drop_zero]
  | succ count ih =>
      have countLt : count < items.length := countLe
      have dropped := ih (Nat.le_of_lt countLt)
      rw [List.drop_eq_getElem_cons countLt] at dropped
      have popped := dropped.pop
      rw [UInt32.ofNat_add, ← UInt32.add_assoc]
      exact popped

/-- The slot behind the last item is none of the live ones. -/
theorem fresh (ring : CursorRing capacity slots head tail items)
    (room : items.length < capacity.slots) {offset : Nat}
    (offsetLt : offset < items.length) :
    capacity.slot (head + UInt32.ofNat offset) ≠ capacity.slot tail := by
  intro same
  rw [ring.tail_eq] at same
  have offsetEq := capacity.slot_inj (Nat.lt_trans offsetLt room) room same
  omega

/-- Filling the slot behind the last item appends an item. -/
theorem push (ring : CursorRing capacity slots head tail items)
    (room : items.length < capacity.slots) (item : Item) :
    CursorRing capacity
      (Function.update slots (capacity.slot tail) (some item)) head (tail + 1)
      (items ++ [item]) where
  length_le := by
    rw [List.length_append, List.length_singleton]
    exact room
  tail_eq := by
    rw [ring.tail_eq, List.length_append, List.length_singleton,
      UInt32.ofNat_add, UInt32.add_assoc]
    rfl
  slot_eq offset offsetLt := by
    rw [List.length_append, List.length_singleton] at offsetLt
    by_cases isBack : offset = items.length
    · subst isBack
      rw [← ring.tail_eq, Function.update_self,
        List.getElem?_append_right (Nat.le_refl _), Nat.sub_self,
        List.getElem?_cons_zero]
    · have before : offset < items.length := by omega
      rw [Function.update_of_ne (ring.fresh room before),
        ring.slot_eq offset before, List.getElem?_append_left before]

/-- What is read between the cursors is what the ring holds. -/
theorem contents (ring : CursorRing capacity slots head tail items) :
    (List.range (tail - head).toNat).map (fun offset =>
      slots (capacity.slot (head + UInt32.ofNat offset))) =
        items.map some := by
  rw [ring.size_eq]
  apply List.ext_getElem?
  intro offset
  by_cases offsetLt : offset < items.length
  · simp [offsetLt, ring.slot_eq offset offsetLt]
  · simp [offsetLt]

end CursorRing

end CoContext
