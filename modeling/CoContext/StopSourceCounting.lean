import CoContext.StopSource
import Mathlib.Data.Nat.Bitwise

/-!
# What the counters of a stop state count

Every special member replaces what objects point to, and changes the counters
of the stop states that lose or gain a reference.  The move assignment of
`stop_source` releases the old reference without taking back its stop source;
unless this deletes the stop state, the stop state counts one stop source too
many from then on.
-/

namespace CoContext.StopSource

variable {Source Token : Type} {s s' : State Source Token}

section Fields

variable (s)

@[simp]
theorem modify_ptr (ptr : Ptr) (change : StopState → StopState) :
    (s.modify ptr change).ptr = s.ptr := by
  cases ptr <;> rfl

@[simp]
theorem modify_next (ptr : Ptr) (change : StopState → StopState) :
    (s.modify ptr change).next = s.next := by
  cases ptr <;> rfl

@[simp]
theorem modify_requested (ptr : Ptr) (change : StopState → StopState) :
    (s.modify ptr change).requested = s.requested := by
  cases ptr <;> rfl

@[simp]
theorem modify_deleted (ptr : Ptr) (change : StopState → StopState) :
    (s.modify ptr change).deleted = s.deleted := by
  cases ptr <;> rfl

theorem modify_heap (ptr : Ptr) (change : StopState → StopState)
    (place : Nat) : (s.modify ptr change).heap place =
      if ptr = some place then change (s.heap place) else s.heap place := by
  cases ptr with
  | none => rfl
  | some other =>
      by_cases isPlace : place = other
      · subst isPlace
        simp [State.modify]
      · have isOther : other ≠ place := fun same => isPlace same.symm
        simp [State.modify, isPlace, isOther]

@[simp]
theorem releaseOwnership_ptr (ptr : Ptr) :
    (s.releaseOwnership ptr).ptr = s.ptr := by
  cases ptr <;> rfl

@[simp]
theorem releaseOwnership_next (ptr : Ptr) :
    (s.releaseOwnership ptr).next = s.next := by
  cases ptr <;> rfl

@[simp]
theorem releaseOwnership_requested (ptr : Ptr) :
    (s.releaseOwnership ptr).requested = s.requested := by
  cases ptr <;> rfl

theorem releaseOwnership_heap (ptr : Ptr) (place : Nat) :
    (s.releaseOwnership ptr).heap place =
      if ptr = some place then (s.heap place).subOwner
      else s.heap place := by
  rw [← modify_heap s ptr StopState.subOwner]
  cases ptr <;> rfl

theorem releaseOwnership_deleted (ptr : Ptr) (place : Nat) :
    (s.releaseOwnership ptr).deleted place =
      if ptr = some place ∧ (s.heap place).mOwners = 1 then
        s.deleted place + 1
      else s.deleted place := by
  cases ptr with
  | none => rfl
  | some other =>
      by_cases isPlace : place = other
      · subst isPlace
        by_cases isLast : (s.heap place).mOwners = 1
        · simp [State.releaseOwnership, isLast]
        · simp [State.releaseOwnership, isLast]
      · have isOther : other ≠ place := fun same => isPlace same.symm
        by_cases isLast : (s.heap other).mOwners = 1
        · simp [State.releaseOwnership, isLast, isPlace, isOther]
        · simp [State.releaseOwnership, isLast, isOther]

end Fields

section Words

variable {state : StopState} {count : Nat}

theorem and_locked (small : state.mValue.toNat % 4 < 2) :
    state.mValue &&& StopState.lockedBit = 0 := by
  rw [← UInt32.toNat_inj, UInt32.toNat_and]
  have andEq : state.mValue.toNat &&& 2 ^ 1 =
      (state.mValue.toNat.testBit 1).toNat * 2 ^ 1 := Nat.and_two_pow _ _
  have bitEq : state.mValue.toNat.testBit 1 = false := by
    rw [Nat.testBit_eq_decide_div_mod_eq]
    simp only [decide_eq_false_iff_not]
    omega
  rw [bitEq] at andEq
  exact andEq

theorem stopRequested_iff : state.stopRequested = true ↔
    state.mValue.toNat % 2 = 1 := by
  have andEq : state.mValue.toNat &&& 2 ^ 0 =
      (state.mValue.toNat.testBit 0).toNat * 2 ^ 0 := Nat.and_two_pow _ _
  have bitEq := Nat.testBit_eq_decide_div_mod_eq (x := state.mValue.toNat)
    (i := 0)
  have valueEq : (state.mValue &&& StopState.stopRequestedBit).toNat =
      state.mValue.toNat &&& 2 ^ 0 := by
    rw [UInt32.toNat_and]
    rfl
  rw [StopState.stopRequested, bne_iff_ne, ne_eq, ← UInt32.toNat_inj, valueEq,
    andEq, bitEq]
  by_cases odd : state.mValue.toNat % 2 = 1
  · simp [odd]
  · simp [odd]

/-- Without the lock bit, a stop is possible if any other bit is set. -/
theorem stopPossible_iff (small : state.mValue.toNat % 4 < 2) :
    state.stopPossible = true ↔ 0 < state.mValue.toNat := by
  have noLock := and_locked small
  have split : state.mValue = (state.mValue &&& StopState.lockedBit) |||
      (state.mValue &&& ~~~StopState.lockedBit) := by
    have wholeEq : state.mValue &&& (StopState.lockedBit |||
        ~~~StopState.lockedBit) = state.mValue := by
      rw [UInt32.or_not_self, UInt32.and_neg_one]
    rw [← UInt32.toNat_inj, UInt32.toNat_or, UInt32.toNat_and,
      UInt32.toNat_and, ← Nat.and_or_distrib_left, ← UInt32.toNat_or,
      ← UInt32.toNat_and, wholeEq]
  rw [noLock, UInt32.zero_or] at split
  rw [StopState.stopPossible, ← split, bne_iff_ne, ne_eq, ← UInt32.toNat_inj]
  have zeroEq : (0 : UInt32).toNat = 0 := rfl
  rw [zeroEq]
  omega

/-- The stop bit is set, and the lock bit is clear again. -/
theorem requestStop_value (clear : state.mValue.toNat % 4 = 0) :
    state.requestStop.mValue.toNat = state.mValue.toNat + 1 := by
  have notRequested : ¬ state.stopRequested = true := by
    rw [stopRequested_iff]
    omega
  have bound := state.mValue.toNat_lt
  have bits : (StopState.stopRequestedBit ||| StopState.lockedBit).toNat = 3 :=
    rfl
  have orEq : (state.mValue ||| (StopState.stopRequestedBit |||
      StopState.lockedBit)).toNat = state.mValue.toNat + 3 := by
    have sumEq := Nat.two_pow_add_eq_or_of_lt (by decide : 3 < 2 ^ 2)
      (state.mValue.toNat / 4)
    have wholeEq : 2 ^ 2 * (state.mValue.toNat / 4) = state.mValue.toNat := by
      omega
    rw [wholeEq] at sumEq
    rw [UInt32.toNat_or, bits, sumEq]
  rw [StopState.requestStop, if_neg notRequested]
  have lockEq : StopState.lockedBit.toNat = 2 := rfl
  rw [UInt32.toNat_sub, orEq, lockEq]
  omega

theorem requestStop_requested (requested : state.stopRequested = true) :
    state.requestStop = state :=
  if_pos requested

end Words

section Sums

variable [Fintype Source] [Fintype Token]

theorem refs_congr (ptrEq : s'.ptr = s.ptr) (place : Nat) :
    refs s' place = refs s place := by
  rw [refs, refs, ptrEq]

omit [Fintype Token] in
theorem sources_congr (ptrEq : s'.ptr = s.ptr) (place : Nat) :
    sources s' place = sources s place := by
  rw [sources, sources, ptrEq]

variable [DecidableEq Source] [DecidableEq Token]

theorem refs_update {object : Source ⊕ Token} {ptr : Option Ptr}
    (ptrEq : s'.ptr = Function.update s.ptr object ptr) (place : Nat) :
    refs s' place + holds place (s.ptr object) =
      refs s place + holds place ptr := by
  have moved := sum_weight_move (holds place) s.ptr object ptr
  rw [refs, ptrEq]
  exact moved

theorem refs_setPtr (object : Source ⊕ Token) (ptr : Option Ptr)
    (place : Nat) : refs (s.setPtr object ptr) place +
      holds place (s.ptr object) = refs s place + holds place ptr :=
  refs_update rfl place

/-- What an object adds to the stop sources of a stop state. -/
def counts (object : Source ⊕ Token) (place : Nat) (ptr : Option Ptr) : Nat :=
  if object.isLeft then holds place ptr else 0

omit [Fintype Token] in
theorem sources_update {object : Source ⊕ Token} {ptr : Option Ptr}
    (ptrEq : s'.ptr = Function.update s.ptr object ptr) (place : Nat) :
    sources s' place + counts object place (s.ptr object) =
      sources s place + counts object place ptr := by
  cases object with
  | inl source =>
      have moved := sum_weight_move (holds place)
        (fun other => s.ptr (.inl other)) source ptr
      have updateEq : (fun other => s'.ptr (.inl other)) =
          Function.update (fun other => s.ptr (.inl other)) source ptr := by
        funext other
        by_cases isSource : other = source
        · subst isSource
          simp [ptrEq]
        · simp [ptrEq, isSource]
      rw [sources, sources]
      simp only [counts, Sum.isLeft_inl, if_true]
      rw [← moved]
      congr 2
      funext other
      exact congrArg (holds place) (congrFun updateEq other)
  | inr token =>
      have same : sources s' place = sources s place := by
        simp [sources, ptrEq]
      simp [counts, same]

omit [Fintype Token] in
theorem sources_setPtr (object : Source ⊕ Token) (ptr : Option Ptr)
    (place : Nat) : sources (s.setPtr object ptr) place +
      counts object place (s.ptr object) =
        sources s place + counts object place ptr :=
  sources_update rfl place

/-- A stop state that an object refers to has references. -/
theorem refs_pos {object : Source ⊕ Token} {place : Nat}
    (held : s.ptr object = some (some place)) : 0 < refs s place := by
  have released := refs_setPtr (s := s) object none place
  rw [held] at released
  simp only [holds] at released
  simp at released
  omega

omit [DecidableEq Source] [DecidableEq Token] in
theorem sources_eq_zero {place : Nat} (noRefs : refs s place = 0) :
    sources s place = 0 := by
  rw [refs, Finset.sum_eq_zero_iff] at noRefs
  apply Finset.sum_eq_zero
  intro source _
  exact noRefs (.inl source) (Finset.mem_univ _)

end Sums

section Invariant

variable [Fintype Source] [Fintype Token]

/-- The inductive invariant. -/
structure Inv (s : State Source Token) : Prop where
  value : ∀ place, 0 < refs s place → (s.heap place).mValue.toNat =
    4 * sources s place + (s.requested place).toNat
  owners : ∀ place, 0 < refs s place →
    (s.heap place).mOwners.toNat = refs s place
  deleted : ∀ place, s.deleted place =
    if place < s.next ∧ refs s place = 0 then 1 else 0
  fresh : ∀ place, s.next ≤ place →
    refs s place = 0 ∧ s.requested place = false

/-- What a step does to the counters of one stop state.  `source` tells
whether the reference belongs to a stop source. -/
inductive Change (s s' : State Source Token) (place : Nat) : Prop
  | same : refs s' place = refs s place → sources s' place = sources s place →
      s'.heap place = s.heap place → s'.deleted place = s.deleted place →
      Change s s' place
  | retain (source : Bool) : 0 < refs s place →
      refs s' place = refs s place + 1 →
      sources s' place = sources s place + source.toNat →
      s'.heap place = (if source then (s.heap place).addOwner.addSsrc
        else (s.heap place).addOwner) →
      s'.deleted place = s.deleted place → Change s s' place
  | release (source : Bool) : refs s' place + 1 = refs s place →
      sources s' place + source.toNat = sources s place →
      (s'.heap place).mOwners = (s.heap place).mOwners - 1 →
      (0 < refs s' place → (s'.heap place).mValue =
        if source then (s.heap place).mValue - 4
        else (s.heap place).mValue) →
      s'.deleted place = (if (s.heap place).mOwners = 1 then
        s.deleted place + 1 else s.deleted place) → Change s s' place

/-- Steps that replace references keep the invariant. -/
theorem Inv.of_changes (inv : Inv s) (fits : Fits s') (nextEq : s'.next = s.next)
    (requestedEq : s'.requested = s.requested)
    (changes : ∀ place, Change s s' place) : Inv s' := by
  have requestedLe : ∀ place, (s.requested place).toNat ≤ 1 :=
    fun place => Bool.toNat_le _
  have four : (4 : UInt32).toNat = 4 := rfl
  have one : (1 : UInt32).toNat = 1 := rfl
  refine ⟨?_, ?_, ?_, ?_⟩
  · intro place isLive
    have isBit := requestedLe place
    have fit := fits place
    rw [requestedEq]
    cases changes place with
    | same refsEq sourcesEq heapEq =>
        rw [refsEq] at isLive
        rw [heapEq, sourcesEq]
        exact inv.value place isLive
    | retain source live _ sourcesEq heapEq =>
        have before := inv.value place live
        cases source with
        | false =>
            rw [heapEq, sourcesEq]
            exact before
        | true =>
            simp only [Bool.toNat_true] at sourcesEq
            have valueEq : (s'.heap place).mValue =
                (s.heap place).mValue + 4 := by
              rw [heapEq]
              rfl
            rw [valueEq, UInt32.toNat_add, before, four, sourcesEq]
            omega
    | release source refsEq sourcesEq _ valueEq =>
        have before := inv.value place (by omega)
        rw [valueEq isLive]
        cases source with
        | false =>
            simp only [Bool.toNat_false, Nat.add_zero] at sourcesEq
            rw [sourcesEq]
            exact before
        | true =>
            simp only [Bool.toNat_true] at sourcesEq
            have bound := (s.heap place).mValue.toNat_lt
            rw [if_pos rfl, UInt32.toNat_sub, before, four]
            omega
  · intro place isLive
    have fit := fits place
    cases changes place with
    | same refsEq _ heapEq =>
        rw [refsEq] at isLive ⊢
        rw [heapEq]
        exact inv.owners place isLive
    | retain source live refsEq _ heapEq =>
        have before := inv.owners place live
        have ownersEq : (s'.heap place).mOwners =
            (s.heap place).mOwners + 1 := by
          rw [heapEq]
          cases source <;> rfl
        rw [ownersEq, UInt32.toNat_add, before, one, refsEq]
        omega
    | release source refsEq _ ownersEq =>
        have before := inv.owners place (by omega)
        have bound := (s.heap place).mOwners.toNat_lt
        rw [ownersEq, UInt32.toNat_sub, before, one]
        omega
  · intro place
    have before := inv.deleted place
    rw [nextEq]
    cases changes place with
    | same refsEq _ _ deletedEq => rw [deletedEq, refsEq, before]
    | retain source live refsEq _ _ deletedEq =>
        rw [deletedEq, before]
        have stays : ¬ (place < s.next ∧ refs s' place = 0) := by omega
        have was : ¬ (place < s.next ∧ refs s place = 0) := by omega
        rw [if_neg stays, if_neg was]
    | release source refsEq _ _ _ deletedEq =>
        have live : 0 < refs s place := by omega
        have owners := inv.owners place live
        have isAllocated : place < s.next := by
          by_contra notAllocated
          have fresh := (inv.fresh place (by omega)).1
          omega
        have was : ¬ (place < s.next ∧ refs s place = 0) := by omega
        have lastIff : (s.heap place).mOwners = 1 ↔ refs s' place = 0 := by
          rw [← UInt32.toNat_inj, owners, one]
          omega
        rw [deletedEq, before, if_neg was]
        by_cases isLast : refs s' place = 0
        · rw [if_pos (lastIff.mpr isLast), if_pos ⟨isAllocated, isLast⟩]
        · have notLast : ¬ (s.heap place).mOwners = 1 := fun last =>
            isLast (lastIff.mp last)
          rw [if_neg notLast, if_neg fun gone => isLast gone.2]
  · intro place notAllocated
    rw [nextEq] at notAllocated
    obtain ⟨noRefs, notRequested⟩ := inv.fresh place notAllocated
    rw [requestedEq]
    refine ⟨?_, notRequested⟩
    cases changes place with
    | same refsEq => rw [refsEq, noRefs]
    | retain source live => omega
    | release source refsEq => omega

section Changes

variable [DecidableEq Source] [DecidableEq Token]

theorem holds_eq (place : Nat) (ptr : Option Ptr) :
    holds place ptr = if ptr.join = some place then 1 else 0 := by
  cases ptr with
  | none => simp [holds]
  | some ptr => simp [holds]

/-- The counters after an object let go of `old` and took hold of `ptr`. -/
def exchanged (source : Bool) (old ptr : Ptr) (place : Nat)
    (state : StopState) : StopState :=
  if ptr = some place then
    if source then state.addOwner.addSsrc else state.addOwner
  else if old = some place then
    if source then state.subSsrc.subOwner else state.subOwner
  else state

theorem change_of_replace {object : Source ⊕ Token} {after : Option Ptr}
    (ptrEq : s'.ptr = Function.update s.ptr object after)
    (differs : ∀ place, (s.ptr object).join = some place →
      after.join ≠ some place)
    (live : ∀ place, after.join = some place → 0 < refs s place)
    (heapEq : ∀ place, s'.heap place = exchanged object.isLeft
      (s.ptr object).join after.join place (s.heap place))
    (deletedEq : ∀ place, s'.deleted place =
      if (s.ptr object).join = some place ∧ (s.heap place).mOwners = 1 then
        s.deleted place + 1
      else s.deleted place)
    (place : Nat) : Change s s' place := by
  have refsEq := refs_update ptrEq place
  have sourcesEq := sources_update ptrEq place
  simp only [counts, holds_eq] at refsEq sourcesEq
  have heap := heapEq place
  have deleted := deletedEq place
  by_cases gains : after.join = some place
  · have keeps : ¬ (s.ptr object).join = some place := fun loses =>
      differs place loses gains
    rw [exchanged, if_pos gains] at heap
    rw [if_neg fun both => keeps both.1] at deleted
    rw [if_pos gains, if_neg keeps] at refsEq sourcesEq
    apply Change.retain object.isLeft (live place gains) (by omega) ?_ heap
      deleted
    cases object <;> simpa using sourcesEq
  · rw [exchanged, if_neg gains] at heap
    by_cases loses : (s.ptr object).join = some place
    · rw [if_pos loses] at heap
      simp only [loses, true_and] at deleted
      rw [if_neg gains, if_pos loses] at refsEq sourcesEq
      apply Change.release object.isLeft (by omega) ?_ ?_ ?_ deleted
      · cases object <;> simpa using sourcesEq
      · rw [heap]
        cases object <;> rfl
      · intro _
        rw [heap]
        cases object <;> rfl
    · rw [if_neg loses] at heap
      rw [if_neg fun both => loses both.1] at deleted
      rw [if_neg gains, if_neg loses] at refsEq sourcesEq
      apply Change.same (by omega) ?_ heap deleted
      cases object <;> simpa using sourcesEq

/-- A reference moves to another object of the same type. -/
theorem change_of_move {object other : Source ⊕ Token} {ptr : Ptr}
    (vacant : s.ptr object = none) (held : s.ptr other = some ptr)
    (sameType : object.isLeft = other.isLeft)
    (ptrEq : s'.ptr = Function.update
      (Function.update s.ptr object (some ptr)) other (some none))
    (heapEq : s'.heap = s.heap) (deletedEq : s'.deleted = s.deleted)
    (place : Nat) : Change s s' place := by
  have distinct : other ≠ object := by
    rintro rfl
    simp [vacant] at held
  have firstRefs := refs_setPtr (s := s) object (some ptr) place
  have secondRefs := refs_update (s := s.setPtr object (some ptr)) ptrEq place
  have firstSources := sources_setPtr (s := s) object (some ptr) place
  have secondSources :=
    sources_update (s := s.setPtr object (some ptr)) ptrEq place
  have between : (s.setPtr object (some ptr)).ptr other = some ptr := by
    simp [State.setPtr, distinct, held]
  rw [vacant] at firstRefs firstSources
  rw [between] at secondRefs secondSources
  have noneHolds : holds place none = 0 := rfl
  have nullHolds : holds place (some none) = 0 := rfl
  rw [noneHolds] at firstRefs
  rw [nullHolds] at secondRefs
  simp only [counts, noneHolds, sameType] at firstSources
  simp only [counts, nullHolds] at secondSources
  apply Change.same
  · omega
  · by_cases isSource : other.isLeft = true
    · simp only [isSource, if_true] at firstSources secondSources
      omega
    · simp only [isSource] at firstSources secondSources
      omega
  · rw [heapEq]
  · rw [deletedEq]

/-- Two objects of the same type exchange their references. -/
theorem change_of_swap {object other : Source ⊕ Token} {first second : Ptr}
    (holdsFirst : s.ptr object = some first)
    (holdsSecond : s.ptr other = some second)
    (sameType : object.isLeft = other.isLeft)
    (ptrEq : s'.ptr = Function.update
      (Function.update s.ptr object (some second)) other (some first))
    (heapEq : s'.heap = s.heap) (deletedEq : s'.deleted = s.deleted)
    (place : Nat) : Change s s' place := by
  have firstRefs := refs_setPtr (s := s) object (some second) place
  have secondRefs :=
    refs_update (s := s.setPtr object (some second)) ptrEq place
  have firstSources := sources_setPtr (s := s) object (some second) place
  have secondSources :=
    sources_update (s := s.setPtr object (some second)) ptrEq place
  have between : (s.setPtr object (some second)).ptr other = some second := by
    by_cases isObject : other = object
    · subst isObject
      simp [State.setPtr]
    · simp [State.setPtr, isObject, holdsSecond]
  rw [holdsFirst] at firstRefs firstSources
  rw [between] at secondRefs secondSources
  simp only [counts, sameType] at firstSources
  simp only [counts] at secondSources
  apply Change.same
  · omega
  · by_cases isSource : other.isLeft = true
    · simp only [isSource, if_true] at firstSources secondSources
      omega
    · simp only [isSource] at firstSources secondSources
      omega
  · rw [heapEq]
  · rw [deletedEq]

section Members

variable {object other : Source ⊕ Token} {old ptr : Ptr}

/-- What an object refers to has a reference. -/
theorem live_of_held (held : s.ptr object = some ptr) :
    ∀ place, ptr = some place → 0 < refs s place := by
  rintro place rfl
  exact refs_pos held

omit [Fintype Source] [Fintype Token] in
theorem copyRef_heap (place : Nat) : (s.copyRef object ptr).heap place =
    exchanged false none ptr place (s.heap place) := by
  have copyEq : (s.copyRef object ptr).heap place =
      (s.modify ptr StopState.addOwner).heap place := rfl
  rw [copyEq, modify_heap, exchanged]
  simp

omit [Fintype Source] [Fintype Token] in
theorem copySource_heap {source : Source} (place : Nat) :
    (s.copySource source ptr).heap place =
      exchanged true none ptr place (s.heap place) := by
  rw [State.copySource, modify_heap, copyRef_heap, exchanged, exchanged]
  by_cases isPlace : ptr = some place
  · simp [isPlace]
  · simp [isPlace]

omit [Fintype Source] [Fintype Token] in
theorem destroyRef_heap (place : Nat) : (s.destroyRef object old).heap place =
    exchanged false old none place (s.heap place) := by
  have destroyEq : (s.destroyRef object old).heap place =
      (s.releaseOwnership old).heap place := rfl
  rw [destroyEq, releaseOwnership_heap, exchanged]
  simp

omit [Fintype Source] [Fintype Token] in
theorem destroySource_heap {source : Source} (place : Nat) :
    (s.destroySource source old).heap place =
      exchanged true old none place (s.heap place) := by
  rw [State.destroySource, destroyRef_heap, modify_heap, exchanged, exchanged]
  by_cases isPlace : old = some place
  · simp [isPlace]
  · simp [isPlace]

omit [Fintype Source] [Fintype Token] in
theorem copyAssignRef_heap (differs : ptr ≠ old) (place : Nat) :
    (s.copyAssignRef object old ptr).heap place =
      exchanged false old ptr place (s.heap place) := by
  have assignEq : (s.copyAssignRef object old ptr).heap place =
      ((s.modify ptr StopState.addOwner).releaseOwnership old).heap place := by
    rw [State.copyAssignRef, if_pos differs]
    rfl
  rw [assignEq, releaseOwnership_heap, modify_heap, exchanged]
  by_cases gains : ptr = some place
  · have keeps : ¬ old = some place := fun loses =>
      differs (gains.trans loses.symm)
    simp [gains, keeps]
  · simp [gains]

omit [Fintype Source] [Fintype Token] in
/-- Before the sink is destroyed, the object has become a copy. -/
theorem copyAssignSource_eq {source : Source} (differs : old ≠ ptr) :
    s.copyAssignSource source old ptr =
      ((((s.modify ptr StopState.addOwner).setPtr (.inl source)
        (some ptr)).modify ptr StopState.addSsrc).modify old
          StopState.subSsrc).releaseOwnership old := by
  have copied : (s.setPtr (.inl source) (some none)).copyAssignRef
      (.inl source) none ptr =
        (s.modify ptr StopState.addOwner).setPtr (.inl source) (some ptr) := by
    cases ptr with
    | none => rfl
    | some place =>
        rw [State.copyAssignRef, if_pos (Option.some_ne_none place)]
        simp [State.setPtr, State.modify, State.releaseOwnership]
  simp only [State.copyAssignSource, if_pos differs, copied]

omit [Fintype Source] [Fintype Token] in
theorem copyAssignSource_heap {source : Source} (differs : old ≠ ptr)
    (place : Nat) : (s.copyAssignSource source old ptr).heap place =
      exchanged true old ptr place (s.heap place) := by
  have setEq : ((s.modify ptr StopState.addOwner).setPtr (.inl source)
      (some ptr)).heap = (s.modify ptr StopState.addOwner).heap := rfl
  rw [copyAssignSource_eq differs, releaseOwnership_heap, modify_heap,
    modify_heap, setEq, modify_heap, exchanged]
  by_cases gains : ptr = some place
  · have keeps : ¬ old = some place := fun loses =>
      differs (loses.trans gains.symm)
    simp [gains, keeps]
  · by_cases loses : old = some place
    · simp [gains, loses]
    · simp [gains, loses]

omit [Fintype Source] [Fintype Token] in
theorem destroySource_deleted {source : Source} (place : Nat) :
    (s.destroySource source old).deleted place =
      if old = some place ∧ (s.heap place).mOwners = 1 then
        s.deleted place + 1
      else s.deleted place := by
  have destroyEq : (s.destroySource source old).deleted place =
      ((s.modify old StopState.subSsrc).releaseOwnership old).deleted place :=
    rfl
  rw [destroyEq, releaseOwnership_deleted, modify_heap, modify_deleted]
  by_cases loses : old = some place
  · simp [loses, StopState.subSsrc]
  · simp [loses]

omit [Fintype Source] [Fintype Token] in
theorem copyAssignRef_deleted (differs : ptr ≠ old) (place : Nat) :
    (s.copyAssignRef object old ptr).deleted place =
      if old = some place ∧ (s.heap place).mOwners = 1 then
        s.deleted place + 1
      else s.deleted place := by
  have assignEq : (s.copyAssignRef object old ptr).deleted place =
      ((s.modify ptr StopState.addOwner).releaseOwnership old).deleted place := by
    rw [State.copyAssignRef, if_pos differs]
    rfl
  rw [assignEq, releaseOwnership_deleted, modify_heap, modify_deleted]
  by_cases loses : old = some place
  · have keeps : ¬ ptr = some place := fun gains =>
      differs (gains.trans loses.symm)
    simp [keeps]
  · simp [loses]

omit [Fintype Source] [Fintype Token] in
theorem copyAssignSource_deleted {source : Source} (differs : old ≠ ptr)
    (place : Nat) : (s.copyAssignSource source old ptr).deleted place =
      if old = some place ∧ (s.heap place).mOwners = 1 then
        s.deleted place + 1
      else s.deleted place := by
  have setEq : ((s.modify ptr StopState.addOwner).setPtr (.inl source)
      (some ptr)).heap = (s.modify ptr StopState.addOwner).heap := rfl
  have deletedEq : ((s.modify ptr StopState.addOwner).setPtr (.inl source)
      (some ptr)).deleted = (s.modify ptr StopState.addOwner).deleted := rfl
  rw [copyAssignSource_eq differs, releaseOwnership_deleted, modify_heap,
    modify_heap, modify_deleted, modify_deleted, setEq, deletedEq, modify_heap,
    modify_deleted]
  by_cases loses : old = some place
  · have keeps : ¬ ptr = some place := fun gains =>
      differs (loses.trans gains.symm)
    simp [loses, keeps, StopState.subSsrc]
  · simp [loses]

theorem change_of_null (vacant : s.ptr object = none) (place : Nat) :
    Change s (s.setPtr object (some none)) place := by
  have ptrEq : (s.setPtr object (some none)).ptr =
      Function.update s.ptr object (some none) := rfl
  apply change_of_replace ptrEq
  · simp
  · simp
  · intro place
    simp [exchanged, vacant, State.setPtr]
  · intro place
    simp [vacant, State.setPtr]

theorem change_of_copyRef {token : Token} (vacant : s.ptr (.inr token) = none)
    (held : s.ptr other = some ptr) (place : Nat) :
    Change s (s.copyRef (.inr token) ptr) place := by
  have ptrEq : (s.copyRef (.inr token) ptr).ptr =
      Function.update s.ptr (.inr token) (some ptr) := by
    simp [State.copyRef, State.setPtr]
  apply change_of_replace ptrEq
  · simp [vacant]
  · exact live_of_held held
  · intro place
    rw [copyRef_heap, vacant]
    rfl
  · intro place
    simp [vacant, State.copyRef, State.setPtr]

theorem change_of_copySource {source : Source}
    (vacant : s.ptr (.inl source) = none) (held : s.ptr other = some ptr)
    (place : Nat) : Change s (s.copySource source ptr) place := by
  have ptrEq : (s.copySource source ptr).ptr =
      Function.update s.ptr (.inl source) (some ptr) := by
    simp [State.copySource, State.copyRef, State.setPtr]
  apply change_of_replace ptrEq
  · simp [vacant]
  · exact live_of_held held
  · intro place
    rw [copySource_heap, vacant]
    rfl
  · intro place
    simp [vacant, State.copySource, State.copyRef, State.setPtr]

theorem change_of_destroyRef {token : Token}
    (held : s.ptr (.inr token) = some old) (place : Nat) :
    Change s (s.destroyRef (.inr token) old) place := by
  have ptrEq : (s.destroyRef (.inr token) old).ptr =
      Function.update s.ptr (.inr token) none := by
    simp [State.destroyRef, State.setPtr]
  apply change_of_replace ptrEq
  · simp
  · simp
  · intro place
    rw [destroyRef_heap, held]
    rfl
  · intro place
    rw [held]
    exact releaseOwnership_deleted s old place

theorem change_of_destroySource {source : Source}
    (held : s.ptr (.inl source) = some old) (place : Nat) :
    Change s (s.destroySource source old) place := by
  have ptrEq : (s.destroySource source old).ptr =
      Function.update s.ptr (.inl source) none := by
    simp [State.destroySource, State.destroyRef, State.setPtr]
  apply change_of_replace ptrEq
  · simp
  · simp
  · intro place
    rw [destroySource_heap, held]
    rfl
  · intro place
    rw [destroySource_deleted, held]
    rfl

theorem change_of_copyAssignRef {token : Token}
    (holdsOld : s.ptr (.inr token) = some old)
    (holdsPtr : s.ptr other = some ptr) (place : Nat) :
    Change s (s.copyAssignRef (.inr token) old ptr) place := by
  by_cases differs : ptr = old
  · have unchanged : s.copyAssignRef (.inr token) old ptr = s := by
      simp [State.copyAssignRef, differs]
    rw [unchanged]
    exact .same rfl rfl rfl rfl
  · have ptrEq : (s.copyAssignRef (.inr token) old ptr).ptr =
        Function.update s.ptr (.inr token) (some ptr) := by
      simp [State.copyAssignRef, differs, State.setPtr]
    apply change_of_replace ptrEq
    · intro place loses gains
      rw [holdsOld] at loses
      exact differs (gains.trans loses.symm)
    · exact live_of_held holdsPtr
    · intro place
      rw [copyAssignRef_heap differs, holdsOld]
      rfl
    · intro place
      rw [copyAssignRef_deleted differs, holdsOld]
      rfl

theorem change_of_copyAssignSource {source : Source}
    (holdsOld : s.ptr (.inl source) = some old)
    (holdsPtr : s.ptr other = some ptr) (place : Nat) :
    Change s (s.copyAssignSource source old ptr) place := by
  by_cases differs : old = ptr
  · have unchanged : s.copyAssignSource source old ptr = s := by
      simp [State.copyAssignSource, differs]
    rw [unchanged]
    exact .same rfl rfl rfl rfl
  · have ptrEq : (s.copyAssignSource source old ptr).ptr =
        Function.update s.ptr (.inl source) (some ptr) := by
      simp [copyAssignSource_eq differs, State.setPtr]
    apply change_of_replace ptrEq
    · intro place loses gains
      rw [holdsOld] at loses
      exact differs (loses.trans gains.symm)
    · exact live_of_held holdsPtr
    · intro place
      rw [copyAssignSource_heap differs, holdsOld]
      rfl
    · intro place
      rw [copyAssignSource_deleted differs, holdsOld]
      rfl

omit [Fintype Source] [Fintype Token] in
theorem moveAssignRef_eq (isOther : object ≠ other)
    (holdsOld : s.ptr object = some old) :
    s.moveAssignRef object other ptr =
      ((s.setPtr other (some none)).setPtr object (some ptr)).releaseOwnership
        old := by
  have nulled : (s.setPtr other (some none)).ptr object = some old := by
    simp [State.setPtr, isOther, holdsOld]
  simp [State.moveAssignRef, nulled]

/-- A move assignment loses what the object held. -/
theorem moveAssignRef_counts (isOther : object ≠ other)
    (holdsOld : s.ptr object = some old) (holdsPtr : s.ptr other = some ptr)
    (sameType : object.isLeft = other.isLeft) (place : Nat) :
    refs (s.moveAssignRef object other ptr) place + holds place (some old) =
        refs s place ∧
      sources (s.moveAssignRef object other ptr) place +
        counts object place (some old) = sources s place := by
  have nulled : (s.setPtr other (some none)).ptr object = some old := by
    simp [State.setPtr, isOther, holdsOld]
  have ptrEq : (s.moveAssignRef object other ptr).ptr = Function.update
      (s.setPtr other (some none)).ptr object (some ptr) := by
    rw [moveAssignRef_eq isOther holdsOld, releaseOwnership_ptr]
    rfl
  have firstRefs := refs_setPtr (s := s) other (some none) place
  have secondRefs := refs_update ptrEq place
  have firstSources := sources_setPtr (s := s) other (some none) place
  have secondSources := sources_update ptrEq place
  rw [holdsPtr] at firstRefs firstSources
  rw [nulled] at secondRefs secondSources
  have nullHolds : holds place (some none) = 0 := rfl
  rw [nullHolds] at firstRefs
  simp only [counts, nullHolds, ← sameType] at firstSources
  constructor
  · omega
  · by_cases isSource : object.isLeft = true
    · simp only [counts, isSource, if_true] at firstSources secondSources ⊢
      omega
    · have nothing : ∀ ptr, counts object place ptr = 0 := fun _ =>
        if_neg isSource
      rw [if_neg isSource, if_neg isSource] at firstSources
      rw [nothing] at secondSources ⊢
      rw [nothing] at secondSources
      omega

/-- The move assignment changes nothing that the stop sources are counted by,
or deletes what the object held. -/
theorem change_of_moveAssign (holdsOld : s.ptr object = some old)
    (holdsPtr : s.ptr other = some ptr)
    (sameType : object.isLeft = other.isLeft)
    (quiet : object = other ∨ object.isLeft = false ∨
      ∀ place, old = some place → refs s place ≤ 1) (place : Nat) :
    Change s (s.moveAssignRef object other ptr) place := by
  by_cases isSelf : object = other
  · subst isSelf
    have unchanged : s.moveAssignRef object object ptr = s := by
      have restored : Function.update (Function.update s.ptr object (some none))
          object (some ptr) = s.ptr := by
        rw [Function.update_idem, ← holdsPtr, Function.update_eq_self]
      simp [State.moveAssignRef, State.setPtr, State.releaseOwnership,
        restored]
    rw [unchanged]
    exact .same rfl rfl rfl rfl
  · obtain ⟨refsEq, sourcesEq⟩ := moveAssignRef_counts isSelf holdsOld holdsPtr
      sameType place
    have heap : (s.moveAssignRef object other ptr).heap place =
        if old = some place then (s.heap place).subOwner
        else s.heap place := by
      rw [moveAssignRef_eq isSelf holdsOld, releaseOwnership_heap]
      rfl
    have deleted : (s.moveAssignRef object other ptr).deleted place =
        if old = some place ∧ (s.heap place).mOwners = 1 then
          s.deleted place + 1
        else s.deleted place := by
      rw [moveAssignRef_eq isSelf holdsOld, releaseOwnership_deleted]
      rfl
    simp only [counts, holds_eq, Option.join_some] at refsEq sourcesEq
    by_cases loses : old = some place
    · rw [if_pos loses] at heap refsEq sourcesEq
      simp only [loses, true_and] at deleted
      apply Change.release object.isLeft refsEq ?_ ?_ ?_ deleted
      · rw [← sourcesEq]
        cases object.isLeft <;> rfl
      · rw [heap]
        rfl
      · intro isLive
        rw [heap]
        rcases quiet with same | isToken | isLast
        · exact absurd same isSelf
        · rw [isToken]
          rfl
        · have atMost := isLast place loses
          omega
    · rw [if_neg loses] at heap refsEq sourcesEq
      rw [if_neg fun both => loses both.1] at deleted
      apply Change.same refsEq ?_ heap deleted
      rw [ite_self] at sourcesEq
      exact sourcesEq

end Members

section Step

theorem Inv.newSource {source : Source} (inv : Inv s)
    (vacant : s.ptr (.inl source) = none) : Inv (s.newSource source) := by
  obtain ⟨noRefs, notRequested⟩ := inv.fresh s.next (Nat.le_refl _)
  have noSources := sources_eq_zero noRefs
  have refsEq : ∀ place, refs (s.newSource source) place =
      refs s place + if s.next = place then 1 else 0 := by
    intro place
    have update := refs_setPtr (s := s) (.inl source) (some (some s.next)) place
    have newEq : refs (s.newSource source) place =
        refs (s.setPtr (.inl source) (some (some s.next))) place := rfl
    simp only [vacant, holds_eq] at update
    rw [newEq]
    simpa using update
  have sourcesEq : ∀ place, sources (s.newSource source) place =
      sources s place + if s.next = place then 1 else 0 := by
    intro place
    have update := sources_setPtr (s := s) (.inl source)
      (some (some s.next)) place
    have newEq : sources (s.newSource source) place =
        sources (s.setPtr (.inl source) (some (some s.next))) place := rfl
    simp only [vacant, counts, holds_eq] at update
    rw [newEq]
    simpa using update
  have heapEq : ∀ place, (s.newSource source).heap place =
      if s.next = place then .new else s.heap place := by
    intro place
    by_cases isNew : s.next = place
    · subst isNew
      simp [State.newSource]
    · have isOld : place ≠ s.next := fun same => isNew same.symm
      simp [State.newSource, isNew, isOld]
  constructor
  · intro place isLive
    rw [refsEq] at isLive
    rw [sourcesEq, heapEq]
    by_cases isNew : s.next = place
    · subst isNew
      have requestedEq : (s.newSource source).requested s.next = false :=
        notRequested
      rw [if_pos rfl, if_pos rfl, noSources, requestedEq]
      rfl
    · rw [if_neg isNew] at isLive
      rw [if_neg isNew, if_neg isNew]
      exact inv.value place isLive
  · intro place isLive
    rw [refsEq] at isLive ⊢
    rw [heapEq]
    by_cases isNew : s.next = place
    · subst isNew
      rw [if_pos rfl, if_pos rfl, noRefs]
      rfl
    · rw [if_neg isNew] at isLive
      rw [if_neg isNew, if_neg isNew]
      exact inv.owners place isLive
  · intro place
    have before := inv.deleted place
    have deletedEq : (s.newSource source).deleted place = s.deleted place := rfl
    have nextEq : (s.newSource source).next = s.next + 1 := rfl
    rw [deletedEq, before, refsEq, nextEq]
    by_cases isNew : s.next = place
    · subst isNew
      simp
    · have ltIff : place < s.next + 1 ↔ place < s.next := by omega
      simp [isNew, ltIff]
  · intro place notAllocated
    have nextEq : (s.newSource source).next = s.next + 1 := rfl
    rw [nextEq] at notAllocated
    have isOld : ¬ s.next = place := by omega
    obtain ⟨noRefs, notRequested⟩ := inv.fresh place (by omega)
    rw [refsEq, if_neg isOld]
    exact ⟨noRefs, notRequested⟩

theorem Inv.requestStop {source : Source} {ptr : Ptr} (inv : Inv s)
    (held : s.ptr (.inl source) = some ptr) : Inv (s.requestStop ptr) := by
  cases ptr with
  | none => exact inv
  | some requested =>
      have ptrEq : (s.requestStop (some requested)).ptr = s.ptr := rfl
      have heapEq : ∀ place, (s.requestStop (some requested)).heap place =
          if some requested = some place then (s.heap place).requestStop
          else s.heap place := modify_heap s (some requested) _
      have live := refs_pos held
      constructor
      · intro place isLive
        rw [refs_congr ptrEq] at isLive
        rw [sources_congr ptrEq, heapEq]
        have before := inv.value place isLive
        by_cases isPlace : requested = place
        · subst isPlace
          have bitEq : (s.requestStop (some requested)).requested requested =
              true := Function.update_self ..
          rw [if_pos rfl, bitEq]
          by_cases again : s.requested requested = true
          · rw [again] at before
            have already : (s.heap requested).stopRequested = true := by
              rw [stopRequested_iff, before]
              simp only [Bool.toNat_true]
              omega
            rw [requestStop_requested already]
            exact before
          · rw [Bool.not_eq_true] at again
            rw [again] at before
            simp only [Bool.toNat_false, Nat.add_zero] at before
            rw [requestStop_value (by omega), before]
            rfl
        · have bitEq : (s.requestStop (some requested)).requested place =
              s.requested place :=
            Function.update_of_ne (fun same => isPlace same.symm) ..
          rw [if_neg fun same => isPlace (Option.some.inj same), bitEq]
          exact before
      · intro place isLive
        rw [refs_congr ptrEq] at isLive ⊢
        rw [heapEq, ← inv.owners place isLive]
        by_cases isPlace : some requested = some place
        · rw [if_pos isPlace, StopState.requestStop]
          split <;> rfl
        · rw [if_neg isPlace]
      · intro place
        rw [refs_congr ptrEq]
        exact inv.deleted place
      · intro place notAllocated
        obtain ⟨noRefs, notRequested⟩ := inv.fresh place notAllocated
        rw [refs_congr ptrEq]
        refine ⟨noRefs, ?_⟩
        have isOther : place ≠ requested := by
          rintro rfl
          omega
        rw [← notRequested]
        exact Function.update_of_ne isOther ..

omit [Fintype Source] [Fintype Token] [DecidableEq Source]
  [DecidableEq Token] in
theorem construct_eq {object : Source ⊕ Token} {result : State Source Token}
    (constructEq : construct s object result = some s') :
    s.ptr object = none ∧ s' = result := by
  rw [construct] at constructEq
  split at constructEq
  · next vacant => exact ⟨vacant, (Option.some.inj constructEq).symm⟩
  · cases constructEq

/-- A step that leaks nothing keeps the invariant while the counters have room
for what there is to count. -/
theorem Inv.step {action : Action Source Token} (inv : Inv s)
    (stepEq : StopSource.step s action = some s')
    (quiet : leaks s action = false) (fits : Fits s') : Inv s' := by
  cases action with
  | newSource source =>
      obtain ⟨vacant, rfl⟩ := construct_eq stepEq
      exact inv.newSource vacant
  | noStopState source =>
      obtain ⟨vacant, rfl⟩ := construct_eq stepEq
      exact inv.of_changes fits rfl rfl (change_of_null vacant)
  | copySource source other =>
      obtain ⟨ptr, held, restEq⟩ := Option.bind_eq_some_iff.mp stepEq
      obtain ⟨vacant, rfl⟩ := construct_eq restEq
      apply inv.of_changes fits
      · simp [State.copySource, State.copyRef, State.setPtr]
      · simp [State.copySource, State.copyRef, State.setPtr]
      · exact change_of_copySource vacant held
  | moveSource source other =>
      obtain ⟨ptr, held, restEq⟩ := Option.bind_eq_some_iff.mp stepEq
      obtain ⟨vacant, rfl⟩ := construct_eq restEq
      exact inv.of_changes fits rfl rfl
        (change_of_move vacant held rfl rfl rfl rfl)
  | copyAssignSource source other =>
      obtain ⟨old, holdsOld, restEq⟩ := Option.bind_eq_some_iff.mp stepEq
      obtain ⟨ptr, holdsPtr, restEq⟩ := Option.bind_eq_some_iff.mp restEq
      cases restEq
      apply inv.of_changes fits
      · by_cases differs : old = ptr
        · simp [State.copyAssignSource, differs]
        · simp [copyAssignSource_eq differs, State.setPtr]
      · by_cases differs : old = ptr
        · simp [State.copyAssignSource, differs]
        · simp [copyAssignSource_eq differs, State.setPtr]
      · exact change_of_copyAssignSource holdsOld holdsPtr
  | moveAssignSource source other =>
      obtain ⟨old, holdsOld, restEq⟩ := Option.bind_eq_some_iff.mp stepEq
      obtain ⟨ptr, holdsPtr, restEq⟩ := Option.bind_eq_some_iff.mp restEq
      cases restEq
      apply inv.of_changes fits
      · simp [State.moveAssignSource, State.moveAssignRef, State.setPtr]
      · simp [State.moveAssignSource, State.moveAssignRef, State.setPtr]
      · apply change_of_moveAssign holdsOld holdsPtr rfl
        by_cases isSelf : source = other
        · exact .inl (congrArg Sum.inl isSelf)
        · refine .inr (.inr ?_)
          rintro place rfl
          simp only [leaks, holdsOld] at quiet
          simp [isSelf] at quiet
          omega
  | swapSource source other =>
      obtain ⟨first, holdsFirst, restEq⟩ := Option.bind_eq_some_iff.mp stepEq
      obtain ⟨second, holdsSecond, restEq⟩ := Option.bind_eq_some_iff.mp restEq
      cases restEq
      exact inv.of_changes fits rfl rfl
        (change_of_swap holdsFirst holdsSecond rfl rfl rfl rfl)
  | destroySource source =>
      obtain ⟨ptr, held, restEq⟩ := Option.bind_eq_some_iff.mp stepEq
      cases restEq
      apply inv.of_changes fits
      · simp [State.destroySource, State.destroyRef, State.setPtr]
      · simp [State.destroySource, State.destroyRef, State.setPtr]
      · exact change_of_destroySource held
  | requestStop source =>
      obtain ⟨ptr, held, restEq⟩ := Option.bind_eq_some_iff.mp stepEq
      cases restEq
      exact inv.requestStop held
  | newToken token =>
      obtain ⟨vacant, rfl⟩ := construct_eq stepEq
      exact inv.of_changes fits rfl rfl (change_of_null vacant)
  | getToken token source =>
      obtain ⟨ptr, held, restEq⟩ := Option.bind_eq_some_iff.mp stepEq
      obtain ⟨vacant, rfl⟩ := construct_eq restEq
      apply inv.of_changes fits
      · simp [State.copyRef, State.setPtr]
      · simp [State.copyRef, State.setPtr]
      · exact change_of_copyRef vacant held
  | copyToken token other =>
      obtain ⟨ptr, held, restEq⟩ := Option.bind_eq_some_iff.mp stepEq
      obtain ⟨vacant, rfl⟩ := construct_eq restEq
      apply inv.of_changes fits
      · simp [State.copyRef, State.setPtr]
      · simp [State.copyRef, State.setPtr]
      · exact change_of_copyRef vacant held
  | moveToken token other =>
      obtain ⟨ptr, held, restEq⟩ := Option.bind_eq_some_iff.mp stepEq
      obtain ⟨vacant, rfl⟩ := construct_eq restEq
      exact inv.of_changes fits rfl rfl
        (change_of_move vacant held rfl rfl rfl rfl)
  | copyAssignToken token other =>
      obtain ⟨old, holdsOld, restEq⟩ := Option.bind_eq_some_iff.mp stepEq
      obtain ⟨ptr, holdsPtr, restEq⟩ := Option.bind_eq_some_iff.mp restEq
      cases restEq
      apply inv.of_changes fits
      · rw [State.copyAssignRef]
        split <;> simp [State.setPtr]
      · rw [State.copyAssignRef]
        split <;> simp [State.setPtr]
      · exact change_of_copyAssignRef holdsOld holdsPtr
  | moveAssignToken token other =>
      obtain ⟨old, holdsOld, restEq⟩ := Option.bind_eq_some_iff.mp stepEq
      obtain ⟨ptr, holdsPtr, restEq⟩ := Option.bind_eq_some_iff.mp restEq
      cases restEq
      apply inv.of_changes fits
      · simp [State.moveAssignRef, State.setPtr]
      · simp [State.moveAssignRef, State.setPtr]
      · exact change_of_moveAssign holdsOld holdsPtr rfl (.inr (.inl rfl))
  | swapToken token other =>
      obtain ⟨first, holdsFirst, restEq⟩ := Option.bind_eq_some_iff.mp stepEq
      obtain ⟨second, holdsSecond, restEq⟩ := Option.bind_eq_some_iff.mp restEq
      cases restEq
      exact inv.of_changes fits rfl rfl
        (change_of_swap holdsFirst holdsSecond rfl rfl rfl rfl)
  | destroyToken token =>
      obtain ⟨ptr, held, restEq⟩ := Option.bind_eq_some_iff.mp stepEq
      cases restEq
      apply inv.of_changes fits
      · simp [State.destroyRef, State.setPtr]
      · simp [State.destroyRef, State.setPtr]
      · exact change_of_destroyRef held

end Step

end Changes

end Invariant

end CoContext.StopSource
