import Mathlib.Data.List.Basic
import Mathlib.Data.Nat.ModEq
import Mathlib.Logic.Function.Basic

/-!
# Queues in cyclic arrays

A queue of at most `capacity` items occupies consecutive slots of an array
that is read cyclically from a first slot; every other slot is vacant.  The
front item is in the first slot and the next item goes to the slot behind the
last one, wherever the array wraps.
-/

namespace CoContext

/-- The slots from `first` on hold the items in order and nothing else. -/
structure CyclicBuffer {Item : Type*} (capacity : Nat)
    (slots : Nat → Option Item) (first : Nat) (items : List Item) : Prop where
  first_lt : first < capacity
  length_le : items.length ≤ capacity
  slot_eq : ∀ offset < capacity,
    slots ((first + offset) % capacity) = items[offset]?

namespace CyclicBuffer

variable {Item : Type*} {capacity first : Nat} {slots : Nat → Option Item}
variable {item : Item} {items : List Item}

theorem vacant (first_lt : first < capacity)
    (slotsNone : ∀ slot, slots slot = none) :
    CyclicBuffer capacity slots first [] where
  first_lt := first_lt
  length_le := Nat.zero_le _
  slot_eq offset _ := by rw [slotsNone, List.getElem?_nil]

/-- Different offsets are different slots. -/
theorem slot_inj {offset other : Nat} (offsetLt : offset < capacity)
    (otherLt : other < capacity)
    (same : (first + offset) % capacity = (first + other) % capacity) :
    offset = other := by
  have congruent : first + offset ≡ first + other [MOD capacity] := same
  exact (congruent.add_left_cancel' first).eq_of_lt_of_lt offsetLt otherLt

theorem front (buffer : CyclicBuffer capacity slots first (item :: items)) :
    slots first = some item := by
  have capacityPos : 0 < capacity := Nat.zero_lt_of_lt buffer.first_lt
  have slotEq := buffer.slot_eq 0 capacityPos
  rwa [Nat.add_zero, Nat.mod_eq_of_lt buffer.first_lt,
    List.getElem?_cons_zero] at slotEq

theorem exists_offset (first_lt : first < capacity) {slot : Nat}
    (slotLt : slot < capacity) :
    ∃ offset < capacity, slot = (first + offset) % capacity := by
  refine ⟨(slot + (capacity - first)) % capacity,
    Nat.mod_lt _ (by omega), ?_⟩
  have sumEq : first + (slot + (capacity - first)) = slot + capacity := by
    omega
  rw [Nat.add_mod_mod, sumEq, Nat.add_mod_right, Nat.mod_eq_of_lt slotLt]

/-- A slot is live if it is one of the `items.length` slots from the first
one on. -/
theorem live_iff (buffer : CyclicBuffer capacity slots first items)
    {slot : Nat} (slotLt : slot < capacity) :
    (slots slot).isSome ↔
      ∃ offset < items.length, slot = (first + offset) % capacity := by
  constructor
  · intro live
    obtain ⟨offset, offsetLt, slotEq⟩ := exists_offset buffer.first_lt slotLt
    rw [slotEq, buffer.slot_eq offset offsetLt, isSome_getElem?] at live
    exact ⟨offset, live, slotEq⟩
  · rintro ⟨offset, offsetLt, rfl⟩
    have offsetLe := Nat.lt_of_lt_of_le offsetLt buffer.length_le
    rw [buffer.slot_eq offset offsetLe, isSome_getElem?]
    exact offsetLt

/-- The slot behind the last item is vacant unless the queue is full. -/
theorem back (buffer : CyclicBuffer capacity slots first items)
    (room : items.length < capacity) :
    slots ((first + items.length) % capacity) = none := by
  rw [buffer.slot_eq items.length room]
  exact List.getElem?_eq_none (Nat.le_refl _)

/-- Vacating the first slot removes the front item. -/
theorem pop (buffer : CyclicBuffer capacity slots first (item :: items)) :
    CyclicBuffer capacity (Function.update slots first none)
      ((first + 1) % capacity) items := by
  have firstLt := buffer.first_lt
  have lengthLe := buffer.length_le
  rw [List.length_cons] at lengthLe
  refine ⟨Nat.mod_lt _ (by omega), by omega, ?_⟩
  intro offset offsetLt
  have slotEq : ((first + 1) % capacity + offset) % capacity =
      (first + (offset + 1)) % capacity := by
    rw [Nat.mod_add_mod]
    congr 1
    omega
  rw [slotEq]
  by_cases isLast : offset + 1 = capacity
  · -- The last offset from the next slot is the slot that was vacated.
    rw [isLast, Nat.add_mod_right, Nat.mod_eq_of_lt firstLt,
      Function.update_self]
    exact (List.getElem?_eq_none (by omega)).symm
  · have nextLt : offset + 1 < capacity := by omega
    have isOther : (first + (offset + 1)) % capacity ≠ first := by
      intro same
      have sameSlot : (first + (offset + 1)) % capacity =
          (first + 0) % capacity := by
        rw [same, Nat.add_zero, Nat.mod_eq_of_lt firstLt]
      have offsetEq := slot_inj nextLt (by omega) sameSlot
      omega
    rw [Function.update_of_ne isOther, buffer.slot_eq (offset + 1) nextLt,
      List.getElem?_cons_succ]

/-- Filling the slot behind the last item appends an item. -/
theorem push (buffer : CyclicBuffer capacity slots first items)
    (room : items.length < capacity) (item : Item) :
    CyclicBuffer capacity
      (Function.update slots ((first + items.length) % capacity) (some item))
      first (items ++ [item]) := by
  refine ⟨buffer.first_lt, ?_, ?_⟩
  · rw [List.length_append, List.length_singleton]
    exact room
  intro offset offsetLt
  by_cases isBack : offset = items.length
  · rw [isBack, Function.update_self, List.getElem?_append_right (Nat.le_refl _),
      Nat.sub_self, List.getElem?_cons_zero]
  · have isOther : (first + offset) % capacity ≠
        (first + items.length) % capacity := by
      intro same
      exact isBack (slot_inj offsetLt room same)
    rw [Function.update_of_ne isOther, buffer.slot_eq offset offsetLt]
    rcases Nat.lt_or_gt_of_ne isBack with before | behind
    · rw [List.getElem?_append_left before]
    · rw [List.getElem?_eq_none (by omega), List.getElem?_eq_none]
      rw [List.length_append, List.length_singleton]
      omega

end CyclicBuffer

end CoContext
