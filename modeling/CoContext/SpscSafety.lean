import CoContext.Spsc

/-!
# When a cursor agrees with its elements

The true difference of the cursors is the number of elements or, if `m_tail`
wrapped around and `m_head` did not yet, that number less the modulus.  A
conversion to `T` does not see the modulus.  In `is_available` nothing is
converted, so in `int` a full cursor seems to have room.
-/

namespace CoContext.Spsc

namespace Shape

variable (shape : Shape)

/-- The cursors wrap around at this number. -/
def modulus : Nat :=
  2 ^ shape.bits

theorem modulus_cast : (2 : Int) ^ shape.bits = shape.modulus := by
  rw [modulus]
  push_cast
  rfl

theorem capacity_pos : 0 < shape.capacity :=
  Nat.two_pow_pos shape.log

theorem capacity_lt : shape.capacity < shape.modulus :=
  Nat.pow_lt_pow_right (by decide) shape.log_lt

theorem capacity_dvd : shape.capacity ∣ shape.modulus :=
  Nat.pow_dvd_pow 2 (Nat.le_of_lt shape.log_lt)

/-- Types that are promoted are a byte narrower than `int`. -/
theorem narrow_bits (isNarrow : shape.bits < 32) :
    shape.promoted = IntType.int ∧ shape.modulus ≤ 16777216 := by
  constructor
  · rw [promoted, IntType.promoted]
    exact if_pos isNarrow
  · have bitsLe : shape.bits ≤ 24 := by
      rw [bits] at isNarrow ⊢
      omega
    exact Nat.pow_le_pow_right (by decide) bitsLe

theorem wide_bits (isWide : ¬ shape.bits < 32) :
    shape.promoted = ⟨false, shape.bits⟩ := by
  rw [promoted, IntType.promoted]
  exact if_neg isWide

/-- In `int` the result is exact, and otherwise it is reduced. -/
theorem promoted_result {value : Int} (lower : -shape.modulus ≤ value)
    (upper : value < 2 * shape.modulus) :
    shape.promoted.result value =
      some (if shape.bits < 32 then value else value % shape.modulus) := by
  by_cases isNarrow : shape.bits < 32
  · obtain ⟨isInt, powLe⟩ := shape.narrow_bits isNarrow
    rw [isInt, if_pos isNarrow]
    apply IntType.result_of_fits
    rw [IntType.fits_signed rfl]
    simp only [IntType.int]
    omega
  · rw [shape.wide_bits isNarrow, if_neg isNarrow, ← modulus_cast]
    exact IntType.result_unsigned rfl

theorem toNat_narrow (value : Int) :
    ((shape.narrow value).toNat : Int) = value % shape.modulus := by
  have modulusPos : (0 : Int) < shape.modulus := by
    have := Nat.two_pow_pos shape.bits
    exact_mod_cast this
  have nonneg := Int.emod_nonneg value (Int.ne_of_gt modulusPos)
  rw [narrow, BitVec.toNat_ofInt]
  exact Int.toNat_of_nonneg nonneg

theorem narrow_congr {value other : Int}
    (same : value % shape.modulus = other % shape.modulus) :
    shape.narrow value = shape.narrow other := by
  apply BitVec.eq_of_toNat_eq
  have cast : ((shape.narrow value).toNat : Int) = (shape.narrow other).toNat := by
    rw [toNat_narrow, toNat_narrow, same]
  exact_mod_cast cast

/-- A conversion to `T` does not see whether the result was reduced. -/
theorem narrow_result {value : Int} (lower : -shape.modulus ≤ value)
    (upper : value < 2 * shape.modulus) :
    (shape.promoted.result value).map shape.narrow =
      some (shape.narrow value) := by
  rw [shape.promoted_result lower upper]
  split
  · rfl
  · exact congrArg some (shape.narrow_congr (Int.emod_emod_of_dvd _ (dvd_refl _)))

theorem toNat_lt (value : BitVec shape.bits) : value.toNat < shape.modulus :=
  value.isLt

theorem toNat_ofNat (number : Nat) :
    (BitVec.ofNat shape.bits number).toNat = number % shape.modulus :=
  BitVec.toNat_ofNat ..

/-- A sum that is computed after promotion and converted to `T`. -/
theorem narrow_add (left right : BitVec shape.bits) :
    (shape.promoted.add left.toNat right.toNat).map shape.narrow =
      some (left + right) := by
  have leftLt := shape.toNat_lt left
  have rightLt := shape.toNat_lt right
  rw [IntType.add, shape.narrow_result (by omega) (by omega)]
  rfl

end Shape

namespace Cursor

variable {shape : Shape}

theorem toNat_slot (number : Nat) :
    (slot shape number).toNat = number % shape.capacity := by
  have capacityLt := shape.capacity_lt
  have capacityPos := shape.capacity_pos
  have capacityEq :
      (BitVec.ofNat shape.bits shape.capacity).toNat = shape.capacity := by
    rw [shape.toNat_ofNat, Nat.mod_eq_of_lt capacityLt]
  have oneEq : (1 : BitVec shape.bits).toNat = 1 := by
    change (BitVec.ofNat shape.bits 1).toNat = 1
    rw [shape.toNat_ofNat, Nat.mod_eq_of_lt (by omega)]
  have maskEq : shape.mask.toNat = 2 ^ shape.log - 1 := by
    rw [Shape.mask, BitVec.toNat_sub_of_le]
    · rw [capacityEq, oneEq, Shape.capacity]
    · rw [BitVec.le_def, capacityEq, oneEq]
      exact capacityPos
  rw [slot, BitVec.toNat_and, maskEq, Nat.and_two_pow_sub_one_eq_mod,
    shape.toNat_ofNat]
  exact Nat.mod_mod_of_dvd _ shape.capacity_dvd

theorem push_eq (cursor : Cursor shape) (num : BitVec shape.bits) :
    cursor.push num = some { cursor with mTail := cursor.mTail + num } := by
  have sumEq := shape.narrow_add cursor.mTail num
  obtain ⟨sum, addEq, narrowEq⟩ := Option.map_eq_some_iff.mp sumEq
  rw [push, addEq, Option.map_some, narrowEq]

theorem pop_eq (cursor : Cursor shape) (num : BitVec shape.bits) :
    cursor.pop num = some { cursor with mHead := cursor.mHead + num } := by
  have sumEq := shape.narrow_add cursor.mHead num
  obtain ⟨sum, addEq, narrowEq⟩ := Option.map_eq_some_iff.mp sumEq
  rw [pop, addEq, Option.map_some, narrowEq]

/-- The cursors are the numbers of pushed and popped elements. -/
structure Sound (s : Counted shape) : Prop where
  head_eq : s.cursor.mHead = BitVec.ofNat shape.bits s.popped
  tail_eq : s.cursor.mTail = BitVec.ofNat shape.bits s.pushed
  popped_le : s.popped ≤ s.pushed
  pushed_le : s.pushed ≤ s.popped + shape.capacity

theorem ofNat_add_toNat (number : Nat) (num : BitVec shape.bits) :
    BitVec.ofNat shape.bits number + num =
      BitVec.ofNat shape.bits (number + num.toNat) := by
  apply BitVec.eq_of_toNat_eq
  rw [BitVec.toNat_add, shape.toNat_ofNat, shape.toNat_ofNat]
  exact Nat.mod_add_mod _ _ _

theorem sound_new : Sound (⟨.new shape, 0, 0⟩ : Counted shape) where
  head_eq := rfl
  tail_eq := rfl
  popped_le := Nat.le_refl 0
  pushed_le := Nat.zero_le _

theorem Sound.step {s s' : Counted shape} {action : Action shape}
    (sound : Sound s) (stepEq : s.step action = some s') : Sound s' := by
  have poppedLe := sound.popped_le
  have pushedLe := sound.pushed_le
  cases action with
  | push num =>
      simp only [Counted.step, push_eq, Option.map_some,
        Option.ite_none_right_eq_some, Option.some.injEq] at stepEq
      obtain ⟨room, rfl⟩ := stepEq
      refine ⟨sound.head_eq, ?_, ?_, room⟩
      · change s.cursor.mTail + num = _
        rw [sound.tail_eq]
        exact ofNat_add_toNat _ _
      · change s.popped ≤ s.pushed + num.toNat
        omega
  | pop num =>
      simp only [Counted.step, pop_eq, Option.map_some,
        Option.ite_none_right_eq_some, Option.some.injEq] at stepEq
      obtain ⟨enough, rfl⟩ := stepEq
      refine ⟨?_, sound.tail_eq, enough, ?_⟩
      · change s.cursor.mHead + num = _
        rw [sound.head_eq]
        exact ofNat_add_toNat _ _
      · change s.pushed ≤ s.popped + num.toNat + shape.capacity
        omega

/-- `m_tail` wrapped around once more than `m_head`. -/
abbrev Wrapped (cursor : Cursor shape) : Prop :=
  cursor.mTail < cursor.mHead

namespace Sound

variable {s : Counted shape}

theorem count_le (sound : Sound s) : s.count ≤ shape.capacity := by
  have pushedLe := sound.pushed_le
  rw [Counted.count]
  omega

/-- The cursors differ by the number of elements, up to the modulus. -/
theorem tail_eq_head_add (sound : Sound s) :
    (¬ s.cursor.Wrapped ∧
      s.cursor.mTail.toNat = s.cursor.mHead.toNat + s.count) ∨
    (s.cursor.Wrapped ∧
      s.cursor.mTail.toNat + shape.modulus =
        s.cursor.mHead.toNat + s.count) := by
  have countLe := sound.count_le
  have capacityLt := shape.capacity_lt
  have headLt := shape.toNat_lt s.cursor.mHead
  have poppedLe := sound.popped_le
  have pushedEq : s.pushed = s.popped + s.count := by
    rw [Counted.count]
    omega
  have headEq : s.cursor.mHead.toNat = s.popped % shape.modulus := by
    rw [sound.head_eq, shape.toNat_ofNat]
  have tailEq : s.cursor.mTail.toNat =
      (s.cursor.mHead.toNat + s.count) % shape.modulus := by
    rw [sound.tail_eq, shape.toNat_ofNat, headEq, Nat.mod_add_mod, pushedEq]
  rw [Wrapped, BitVec.lt_def]
  by_cases below : s.cursor.mHead.toNat + s.count < shape.modulus
  · rw [Nat.mod_eq_of_lt below] at tailEq
    left
    omega
  · rw [Nat.mod_eq_sub_mod (by omega), Nat.mod_eq_of_lt (by omega)] at tailEq
    right
    omega

theorem not_wrapped_or (sound : Sound s) :
    (s.cursor.mTail.toNat : Int) - s.cursor.mHead.toNat =
      if s.cursor.Wrapped then (s.count : Int) - shape.modulus
      else (s.count : Int) := by
  rcases sound.tail_eq_head_add with ⟨notWrapped, tailEq⟩ | ⟨wrapped, tailEq⟩
  · rw [if_neg notWrapped]
    omega
  · rw [if_pos wrapped]
    omega

theorem size_eq (sound : Sound s) :
    s.cursor.size = some (BitVec.ofNat shape.bits s.count) := by
  have tailLt := shape.toNat_lt s.cursor.mTail
  have headLt := shape.toNat_lt s.cursor.mHead
  rw [Cursor.size, IntType.sub, shape.narrow_result (by omega) (by omega),
    sound.not_wrapped_or]
  congr 1
  have ofCount : shape.narrow s.count = BitVec.ofNat shape.bits s.count :=
    BitVec.ofInt_natCast ..
  rw [← ofCount]
  apply shape.narrow_congr
  split
  · exact Int.sub_emod_right _ _
  · rfl

/-- The room that is computed, before it is converted. -/
theorem room_eq (sound : Sound s) :
    s.cursor.room s.cursor.mHead =
      some (if shape.bits < 32 ∧ s.cursor.Wrapped then
        (shape.capacity - s.count : Int) + shape.modulus
      else
        shape.capacity - s.count) := by
  have tailLt := shape.toNat_lt s.cursor.mTail
  have headLt := shape.toNat_lt s.cursor.mHead
  have countLe := sound.count_le
  have capacityLt := shape.capacity_lt
  rw [room, IntType.sub, shape.promoted_result (by omega) (by omega),
    Option.bind_some, IntType.sub, sound.not_wrapped_or]
  by_cases isNarrow : shape.bits < 32
  · by_cases wrapped : s.cursor.Wrapped
    · rw [if_pos isNarrow, if_pos wrapped, if_pos ⟨isNarrow, wrapped⟩,
        shape.promoted_result (by omega) (by omega), if_pos isNarrow]
      congr 1
      omega
    · rw [if_pos isNarrow, if_neg wrapped, if_neg fun both => wrapped both.2,
        shape.promoted_result (by omega) (by omega), if_pos isNarrow]
  · have countEq : (if s.cursor.Wrapped then
        (s.count : Int) - shape.modulus else (s.count : Int)) %
          shape.modulus = s.count := by
      split
      · rw [Int.sub_emod_right]
        exact Int.emod_eq_of_lt (by omega) (by omega)
      · exact Int.emod_eq_of_lt (by omega) (by omega)
    rw [if_neg isNarrow, countEq, if_neg fun both => isNarrow both.1,
      shape.promoted_result (by omega) (by omega), if_neg isNarrow,
      Int.emod_eq_of_lt (by omega) (by omega)]

theorem availableNumber_eq (sound : Sound s) :
    s.cursor.availableNumber =
      some (BitVec.ofNat shape.bits (shape.capacity - s.count)) := by
  have countLe := sound.count_le
  rw [Cursor.availableNumber, sound.room_eq, Option.map_some]
  congr 1
  have ofRoom : shape.narrow (shape.capacity - s.count : Nat) =
      BitVec.ofNat shape.bits (shape.capacity - s.count) :=
    BitVec.ofInt_natCast ..
  rw [← ofRoom]
  apply shape.narrow_congr
  split
  · rw [Int.add_emod_right, Int.ofNat_sub countLe]
  · rw [Int.ofNat_sub countLe]

/-- In `int` a full cursor has room if `m_tail` wrapped around. -/
theorem isAvailable_eq (sound : Sound s) :
    s.cursor.isAvailable = some (decide
      (s.count < shape.capacity ∨ shape.bits < 32 ∧ s.cursor.Wrapped)) := by
  have countLe := sound.count_le
  have capacityPos := shape.capacity_pos
  have capacityLt := shape.capacity_lt
  rw [Cursor.isAvailable, sound.room_eq, Option.map_some]
  congr 1
  rw [decide_eq_decide]
  split
  · next both =>
      refine iff_of_true ?_ (Or.inr both)
      omega
  · next notBoth =>
      rw [or_iff_left notBoth]
      omega

theorem headFull_eq (sound : Sound s) :
    ∃ sentinel, s.cursor.headFull = some sentinel ∧
      (sentinel = s.cursor.mHead ↔ s.count = shape.capacity) := by
  have tailLt := shape.toNat_lt s.cursor.mTail
  have headLt := shape.toNat_lt s.cursor.mHead
  have countLe := sound.count_le
  have capacityLt := shape.capacity_lt
  refine ⟨_, shape.narrow_result (by omega) (by omega), ?_⟩
  have same : shape.narrow (s.cursor.mTail.toNat - shape.capacity : Int) =
      shape.narrow (s.cursor.mHead.toNat + (s.count - shape.capacity) : Int) := by
    apply shape.narrow_congr
    rcases sound.tail_eq_head_add with ⟨-, tailEq⟩ | ⟨-, tailEq⟩
    · congr 1
      omega
    · rw [← Int.add_emod_right]
      congr 1
      omega
  rw [same, ← BitVec.toNat_inj, ← Int.ofNat_inj, shape.toNat_narrow]
  by_cases below : (s.cursor.mHead.toNat + (s.count - shape.capacity) : Int) < 0
  · rw [← Int.add_emod_right, Int.emod_eq_of_lt (by omega) (by omega)]
    omega
  · rw [Int.emod_eq_of_lt (by omega) (by omega)]
    omega

theorem isEmpty_iff (sound : Sound s) :
    s.cursor.mHead = s.cursor.mTail ↔ s.count = 0 := by
  have countLe := sound.count_le
  have capacityLt := shape.capacity_lt
  have headLt := shape.toNat_lt s.cursor.mHead
  rw [← BitVec.toNat_inj]
  rcases sound.tail_eq_head_add with ⟨-, tailEq⟩ | ⟨-, tailEq⟩
  · omega
  · omega

/-- Elements less than one revolution apart have different slots. -/
theorem distinct (sound : Sound s) {first second : Nat}
    (firstLe : s.popped ≤ first) (firstLt : first < s.pushed)
    (secondLe : s.popped ≤ second) (secondLt : second < s.pushed)
    (same : slot shape first = slot shape second) : first = second := by
  have pushedLe := sound.pushed_le
  have congruent : first ≡ second [MOD shape.capacity] := by
    have toNatEq := congrArg BitVec.toNat same
    rwa [toNat_slot, toNat_slot] at toNatEq
  have offsets : first - s.popped ≡ second - s.popped [MOD shape.capacity] := by
    refine Nat.ModEq.add_right_cancel' s.popped ?_
    rwa [Nat.sub_add_cancel firstLe, Nat.sub_add_cancel secondLe]
  have offsetEq := offsets.eq_of_lt_of_lt (by omega) (by omega)
  omega

/-- Everything agrees, except for a full cursor in `int` after `m_tail`
wrapped around. -/
theorem agrees_iff (sound : Sound s) :
    Agrees s ↔ ¬ (shape.bits < 32 ∧ s.count = shape.capacity ∧
      s.cursor.mTail < s.cursor.mHead) := by
  have countLe := sound.count_le
  have capacityLt := shape.capacity_lt
  have available := sound.isAvailable_eq
  constructor
  · rintro agrees ⟨isNarrow, isFull, wrapped⟩
    have noRoom := agrees.isAvailable
    rw [available, Option.some.injEq, decide_eq_decide] at noRoom
    exact absurd (noRoom.mp (Or.inr ⟨isNarrow, wrapped⟩)) (by omega)
  · intro regular
    have availableEq :
        s.cursor.isAvailable = some (s.count < shape.capacity : Bool) := by
      rw [available, Option.some.injEq, decide_eq_decide]
      refine ⟨?_, Or.inl⟩
      rintro (isLt | ⟨isNarrow, wrapped⟩)
      · exact isLt
      · by_contra notLt
        exact regular ⟨isNarrow, by omega, wrapped⟩
    have isEmpty := sound.isEmpty_iff
    refine ⟨?_, ?_, ?_, ?_, ?_, ?_, availableEq, availableEq,
      sound.headFull_eq, ?_, ?_, ?_, ?_, ?_⟩
    · rw [sound.size_eq, Option.map_some, shape.toNat_ofNat,
        Nat.mod_eq_of_lt (by omega)]
    · rw [sound.availableNumber_eq, Option.map_some, shape.toNat_ofNat,
        Nat.mod_eq_of_lt (by omega)]
    · rw [Cursor.isEmpty, decide_eq_true_iff]
      exact isEmpty
    · rw [isEmptyLoadHead, decide_eq_true_iff, eq_comm]
      exact isEmpty
    · rw [isEmptyLoadTail, decide_eq_true_iff]
      exact isEmpty
    · rw [isEmptyLoadTailRelaxed, decide_eq_true_iff]
      exact isEmpty
    · rw [Cursor.head, sound.head_eq, slot]
    · rw [Cursor.tail, sound.tail_eq, slot]
    · intro first second firstLe firstLt secondLe secondLt same
      exact sound.distinct firstLe firstLt secondLe secondLt same
    · intro num
      rw [push_eq]
      rfl
    · intro num
      rw [pop_eq]
      rfl

end Sound

theorem sound_of_reachable {s : Counted shape}
    (reached : (system shape).Reachable s) : Sound s := by
  refine reached.invariant ?_ ?_
  · rintro s rfl
    exact sound_new
  · intro s action s' sound stepEq
    exact sound.step stepEq

/-- A cursor of any width agrees with its elements at every time of every run,
unless its type is promoted, it is full and `m_tail` is below `m_head`. -/
theorem run_consistent_iff (shape : Shape) (run : (system shape).Run) :
    ∀ time ≤ run.length, Agrees (run.state time) ↔
      ¬ (shape.bits < 32 ∧ (run.state time).count = shape.capacity ∧
        (run.state time).cursor.mTail < (run.state time).cursor.mHead) :=
  fun _ timeLe => (sound_of_reachable (run.reachable timeLe)).agrees_iff

/-- A cursor of bytes with room for 128 elements wraps around. -/
def byteShape : Shape :=
  ⟨1, 7, by decide, by decide⟩

def wrapRun : (system byteShape).Run :=
  .ofActions ⟨.new byteShape, 0, 0⟩ rfl [.push 128, .pop 128, .push 128]
    (by decide)

/-- The cursor agrees when it is full for the first time, but not when it is
full again after it wrapped around. -/
theorem run_consistent_iff_wrapped :
    Agrees (wrapRun.state 1) ∧ ¬ Agrees (wrapRun.state 3) := by
  have first := run_consistent_iff byteShape wrapRun 1 (by decide)
  have wrapped := run_consistent_iff byteShape wrapRun 3 (by decide)
  exact ⟨first.mpr (by decide), fun agrees => wrapped.mp agrees (by decide)⟩

theorem run_consistent_fails :
    ¬ ∀ (shape : Shape) (run : (system shape).Run),
      ∀ time ≤ run.length, Agrees (run.state time) := by
  intro agrees
  have available := (agrees byteShape wrapRun 3 (by decide)).isAvailable
  exact absurd available (by decide)

end Cursor

end CoContext.Spsc
