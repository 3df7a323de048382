import CoContext.ReadyQueue
import CoContext.SpscSafety

/-!
# The cursor of the ready queue

The cursor of the ready queue is `spsc_cursor<uint32_t, swap_capacity>`.  Its
operations on words are what the members of the cursor for every type compute
at this width.
-/

namespace CoContext.Spsc

namespace Shape

variable (shape : Shape)

theorem narrow_cast (value : BitVec shape.bits) :
    shape.narrow value.toNat = value := by
  rw [narrow, BitVec.ofInt_natCast, BitVec.ofNat_toNat, BitVec.setWidth_eq]

theorem narrow_sub (left right : Int) :
    shape.narrow (left - right) = shape.narrow left - shape.narrow right := by
  rw [narrow, Int.sub_eq_add_neg, BitVec.ofInt_add, BitVec.ofInt_neg,
    ← BitVec.sub_eq_add_neg]
  rfl

/-- A difference that is computed after promotion and converted to `T`. -/
theorem narrow_difference (left right : BitVec shape.bits) :
    (shape.promoted.sub left.toNat right.toNat).map shape.narrow =
      some (left - right) := by
  have leftLt := shape.toNat_lt left
  have rightLt := shape.toNat_lt right
  rw [IntType.sub, shape.narrow_result (by omega) (by omega), narrow_sub,
    narrow_cast, narrow_cast]

end Shape

namespace Cursor

variable {shape : Shape}

/-- The free room, converted to `T`. -/
theorem narrow_room (cursor : Cursor shape) (head : BitVec shape.bits) :
    (cursor.room head).map shape.narrow =
      some (BitVec.ofNat shape.bits shape.capacity -
        (cursor.mTail - head)) := by
  have tailLt := shape.toNat_lt cursor.mTail
  have headLt := shape.toNat_lt head
  have capacityLt := shape.capacity_lt
  have differenceEq := shape.narrow_difference cursor.mTail head
  obtain ⟨difference, subEq, narrowEq⟩ :=
    Option.map_eq_some_iff.mp differenceEq
  have bounds : -(shape.modulus : Int) < difference ∧
      difference < shape.modulus := by
    rw [IntType.sub, shape.promoted_result (by omega) (by omega),
      Option.some.injEq] at subEq
    have modulusPos : (0 : Int) < shape.modulus := by omega
    have nonneg := Int.emod_nonneg
      ((cursor.mTail.toNat : Int) - head.toNat) (Int.ne_of_gt modulusPos)
    have below := Int.emod_lt_of_pos
      ((cursor.mTail.toNat : Int) - head.toNat) modulusPos
    split at subEq <;> omega
  rw [room, subEq, Option.bind_some, IntType.sub,
    shape.narrow_result (by omega) (by omega), shape.narrow_sub, narrowEq,
    Shape.narrow, BitVec.ofInt_natCast]

end Cursor

section Words

variable (capacity : RingCapacity) (cur : SpscCursor)

/-- `spsc_cursor<uint32_t, capacity>` -/
def wordShape (capacity : RingCapacity) : Shape :=
  ⟨4, capacity.bits, by decide, capacity.bits_lt⟩

/-- A cursor of words as one of the cursors for every type. -/
def ofWords : Cursor (wordShape capacity) :=
  ⟨cur.mHead.toBitVec, cur.mTail.toBitVec⟩

theorem capacity_toBitVec :
    BitVec.ofNat 32 (wordShape capacity).capacity =
      capacity.value.toBitVec := by
  apply BitVec.eq_of_toNat_eq
  rw [Shape.capacity, wordShape, ← capacity.value_eq, BitVec.toNat_ofNat]
  exact Nat.mod_eq_of_lt capacity.value.toNat_lt

theorem mask_toBitVec :
    (wordShape capacity).mask = capacity.mask.toBitVec := by
  rw [RingCapacity.mask, UInt32.toBitVec_sub, ← capacity_toBitVec]
  rfl

theorem isEmpty_ofWords : (ofWords capacity cur).isEmpty = cur.isEmpty := by
  rw [Cursor.isEmpty, SpscCursor.isEmpty, beq_eq_decide, decide_eq_decide]
  exact UInt32.toBitVec_inj

theorem size_ofWords :
    (ofWords capacity cur).size = some cur.size.toBitVec :=
  (wordShape capacity).narrow_difference cur.mTail.toBitVec cur.mHead.toBitVec

theorem availableNumber_ofWords :
    (ofWords capacity cur).availableNumber =
      some (cur.availableNumber capacity).toBitVec := by
  rw [Cursor.availableNumber, Cursor.narrow_room, SpscCursor.availableNumber,
    UInt32.toBitVec_sub, UInt32.toBitVec_sub, ← capacity_toBitVec]
  rfl

/-- The slots that the ready queue reads and writes. -/
theorem slots_ofWords :
    (ofWords capacity cur).head.toNat = cur.head capacity ∧
      (ofWords capacity cur).tail.toNat = cur.tail capacity := by
  rw [Cursor.head, Cursor.tail, mask_toBitVec]
  exact ⟨rfl, rfl⟩

/-- The ready queue pushes and pops one handle at a time. -/
theorem moves_ofWords :
    (ofWords capacity cur).push 1 = some (ofWords capacity cur.push) ∧
      (ofWords capacity cur).pop 1 = some (ofWords capacity cur.pop) := by
  rw [Cursor.push_eq, Cursor.pop_eq]
  exact ⟨rfl, rfl⟩

end Words

section Runs

variable {Coro : Type*} {capacity : RingCapacity}

/-- What the ready queue does with its cursor is what the class does. -/
structure FollowsCursor (run : (ReadyQueue.system Coro capacity).Run) :
    Prop where
  forwards : ∀ time < run.length, ∀ coro,
    run.action time = .forwardTask coro →
      (run.state (time + 1)).reapSwap =
          Function.update (run.state time).reapSwap
            (ofWords capacity (run.state time).reapCur).tail.toNat
            (some coro) ∧
        (ofWords capacity (run.state time).reapCur).push 1 =
          some (ofWords capacity (run.state (time + 1)).reapCur)
  begins : ∀ time < run.length, run.action time = .doWorkerPart →
    (run.state (time + 1)).num =
      (ofWords capacity (run.state time).reapCur).size.map BitVec.toNat
  schedules : ∀ time < run.length, run.action time = .workOnce →
    ReadyQueue.scheduled capacity (run.state time) (run.action time) =
        some ((run.state time).reapSwap
          (ofWords capacity (run.state time).reapCur).head.toNat) ∧
      (ofWords capacity (run.state time).reapCur).pop 1 =
        some (ofWords capacity (run.state (time + 1)).reapCur)
  isEmpty : ∀ time ≤ run.length,
    (ofWords capacity (run.state time).reapCur).isEmpty = true ↔
      (run.state time).pending capacity = []
  available : ∀ time ≤ run.length,
    (ofWords capacity (run.state time).reapCur).availableNumber.map
        BitVec.toNat =
      some (capacity.slots - ((run.state time).pending capacity).length)

theorem size_toNat {s : ReadyQueue.State Coro} {coros : List Coro}
    (holds : ReadyQueue.Holds capacity s coros) :
    s.reapCur.size.toNat = (s.pending capacity).length := by
  rw [holds.pending]
  exact CursorRing.size_eq holds.ring

/-- While nothing is forwarded to a full ring, the cursor tells how many
handles there are. -/
theorem run_follows_cursor (run : (ReadyQueue.system Coro capacity).Run)
    (guarded : run.Guarded (ReadyQueue.HasRoom capacity)) :
    FollowsCursor run where
  forwards time timeLt coro isForward := by
    have stepEq := run.steps time timeLt
    rw [isForward] at stepEq
    rw [← Option.some.inj stepEq, (slots_ofWords capacity _).2,
      (moves_ofWords capacity _).1]
    exact ⟨rfl, rfl⟩
  begins time timeLt isBegin := by
    have stepEq := run.steps time timeLt
    simp only [isBegin, ReadyQueue.system, ReadyQueue.step,
      Option.ite_none_right_eq_some, Option.some.injEq] at stepEq
    rw [← stepEq.2, size_ofWords]
    rfl
  schedules time timeLt isSchedule := by
    have stepEq := run.steps time timeLt
    rw [isSchedule] at stepEq ⊢
    simp only [ReadyQueue.system, ReadyQueue.step] at stepEq
    split at stepEq
    next num _ =>
      rw [← Option.some.inj stepEq, (slots_ofWords capacity _).1,
        (moves_ofWords capacity _).2]
      exact ⟨rfl, rfl⟩
    next => simp at stepEq
  isEmpty time timeLe := by
    obtain ⟨coros, holds⟩ := ReadyQueue.holds_of_guarded guarded timeLe
    have sizeEq := size_toNat holds
    rw [isEmpty_ofWords, SpscCursor.isEmpty, beq_iff_eq,
      ← List.length_eq_zero_iff, ← sizeEq, SpscCursor.size]
    constructor
    · intro same
      rw [same, UInt32.sub_self]
      rfl
    · intro isZero
      have noDistance : (run.state time).reapCur.mTail -
          (run.state time).reapCur.mHead = 0 :=
        UInt32.toNat_inj.mp isZero
      rw [UInt32.sub_eq_iff_eq_add, UInt32.zero_add] at noDistance
      exact noDistance.symm
  available time timeLe := by
    obtain ⟨coros, holds⟩ := ReadyQueue.holds_of_guarded guarded timeLe
    have sizeEq := size_toNat holds
    have sizeLe : (run.state time).reapCur.size ≤ capacity.value := by
      rw [UInt32.le_iff_toNat_le, sizeEq, holds.pending]
      exact holds.ring.length_le
    rw [availableNumber_ofWords, ← sizeEq]
    exact congrArg some (UInt32.toNat_sub_of_le _ _ sizeLe)

end Runs

end CoContext.Spsc
