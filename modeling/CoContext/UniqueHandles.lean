import Mathlib.Logic.Equiv.Basic
import Mathlib.Logic.Function.Basic

/-!
# Objects with unique handles

A move-only object holds a handle to a target, or the null handle.  Handles
pass from object to object when these are moved or swapped, and they are never
copied, so that at most one object refers to a target.  This file follows the
objects that are alive and the targets that are referred to.
-/

namespace CoContext

/-- The objects that are alive, with the handle that each of them holds. -/
abbrev Handles (Object Target : Type*) :=
  Object → Option (Option Target)

namespace Handles

variable {Object Target : Type*}

def Refers (handles : Handles Object Target) (object : Object)
    (target : Target) : Prop :=
  handles object = some (some target)

def Referred (handles : Handles Object Target) (target : Target) : Prop :=
  ∃ object, handles.Refers object target

/-- At most one object refers to a target. -/
def Exclusive (handles : Handles Object Target) : Prop :=
  ∀ first second target, handles.Refers first target →
    handles.Refers second target → first = second

theorem not_refers_of_eq_none {handles : Handles Object Target}
    {object : Object} (isDead : handles object = none) (target : Target) :
    ¬ handles.Refers object target := by
  simp [Refers, isDead]

theorem refers_iff {handles : Handles Object Target} {object : Object}
    {held : Option Target} (holds : handles object = some held)
    (target : Target) : handles.Refers object target ↔ held = some target := by
  simp [Refers, holds]

/-- After an object gave up its handle, the targets that are referred to are
the others. -/
theorem referred_of_others {handles rest : Handles Object Target}
    {object : Object} {held : Option Target} {target : Target}
    (others : ∀ name target, rest.Refers name target ↔
      name ≠ object ∧ handles.Refers name target)
    (exclusive : handles.Exclusive) (holds : handles object = some held) :
    rest.Referred target ↔ held ≠ some target ∧ handles.Referred target := by
  constructor
  · rintro ⟨name, refers⟩
    obtain ⟨isOther, refersBefore⟩ := (others name target).mp refers
    refine ⟨?_, name, refersBefore⟩
    intro isHeld
    exact isOther (exclusive name object target refersBefore
      ((refers_iff holds target).mpr isHeld))
  · rintro ⟨notHeld, name, refers⟩
    refine ⟨name, (others name target).mpr ⟨?_, refers⟩⟩
    rintro rfl
    exact notHeld ((refers_iff holds target).mp refers)

theorem Exclusive.of_others {handles rest : Handles Object Target}
    (others : ∀ name target, rest.Refers name target →
      handles.Refers name target)
    (exclusive : handles.Exclusive) : rest.Exclusive :=
  fun first second target refersFirst refersSecond =>
    exclusive first second target (others first target refersFirst)
      (others second target refersSecond)

variable [DecidableEq Object]

/-- An object holds a handle from now on. -/
def place (handles : Handles Object Target) (object : Object)
    (held : Option Target) : Handles Object Target :=
  Function.update handles object (some held)

/-- An object is destroyed. -/
def remove (handles : Handles Object Target) (object : Object) :
    Handles Object Target :=
  Function.update handles object none

/-- An object takes the handle of another one, which is left with none. -/
def move (handles : Handles Object Target) (object other : Object) :
    Handles Object Target :=
  Function.update (Function.update handles object (handles other)) other
    (some none)

def swap (handles : Handles Object Target) (first second : Object) :
    Handles Object Target :=
  fun object => handles (Equiv.swap first second object)

variable {handles : Handles Object Target} {object other : Object}
variable {held : Option Target} {target : Target}

section Refers

theorem refers_update {value : Option (Option Target)} :
    Refers (Function.update handles object value) other target ↔
      if other = object then value = some (some target)
      else handles.Refers other target := by
  by_cases isIt : other = object
  · subst isIt
    simp [Refers]
  · simp [Refers, isIt]

@[simp]
theorem refers_place : (handles.place object held).Refers other target ↔
    if other = object then held = some target
    else handles.Refers other target := by
  simp [place, refers_update]

@[simp]
theorem refers_remove : (handles.remove object).Refers other target ↔
    other ≠ object ∧ handles.Refers other target := by
  simp [remove, refers_update]

end Refers

section Drops

theorem Exclusive.remove (exclusive : handles.Exclusive) :
    (handles.remove object).Exclusive :=
  exclusive.of_others fun _ _ refers => (refers_remove.mp refers).2

theorem referred_remove (exclusive : handles.Exclusive)
    (holds : handles object = some held) :
    (handles.remove object).Referred target ↔
      held ≠ some target ∧ handles.Referred target :=
  referred_of_others (fun _ _ => refers_remove) exclusive holds

theorem refers_place_none : (handles.place object none).Refers other target ↔
    other ≠ object ∧ handles.Refers other target := by
  simp

theorem Exclusive.place_none (exclusive : handles.Exclusive) :
    (handles.place object none).Exclusive :=
  exclusive.of_others fun _ _ refers => (refers_place_none.mp refers).2

theorem referred_place_none (exclusive : handles.Exclusive)
    (holds : handles object = some held) :
    (handles.place object none).Referred target ↔
      held ≠ some target ∧ handles.Referred target :=
  referred_of_others (fun _ _ => refers_place_none) exclusive holds

/-- Before a new object holds a handle it is as if it held none. -/
theorem referred_place_none_of_dead (isDead : handles object = none) :
    (handles.place object none).Referred target ↔ handles.Referred target := by
  refine exists_congr fun name => ?_
  rw [refers_place_none]
  refine and_iff_right_of_imp fun refers => ?_
  rintro rfl
  exact not_refers_of_eq_none isDead target refers

end Drops

section Fresh

variable {fresh : Target}

theorem Exclusive.place_fresh (exclusive : handles.Exclusive)
    (isFresh : ¬ handles.Referred fresh) :
    (handles.place object (some fresh)).Exclusive := by
  intro first second target refersFirst refersSecond
  rw [refers_place] at refersFirst refersSecond
  split at refersFirst <;> split at refersSecond
  · rename_i isFirst isSecond
    exact isFirst.trans isSecond.symm
  · obtain rfl := Option.some.inj refersFirst
    exact absurd ⟨second, refersSecond⟩ isFresh
  · obtain rfl := Option.some.inj refersSecond
    exact absurd ⟨first, refersFirst⟩ isFresh
  · exact exclusive first second target refersFirst refersSecond

theorem referred_place_fresh (isDead : handles object = none) :
    (handles.place object (some fresh)).Referred target ↔
      target = fresh ∨ handles.Referred target := by
  constructor
  · rintro ⟨name, refers⟩
    rw [refers_place] at refers
    split at refers
    · exact .inl (Option.some.inj refers).symm
    · exact .inr ⟨name, refers⟩
  · rintro (rfl | ⟨name, refers⟩)
    · exact ⟨object, by simp⟩
    · refine ⟨name, refers_place.mpr ?_⟩
      rw [if_neg]
      · exact refers
      · rintro rfl
        exact not_refers_of_eq_none isDead target refers

end Fresh

section Moves

variable {mover first second : Object}

theorem Exclusive.swap (exclusive : handles.Exclusive) :
    (handles.swap first second).Exclusive :=
  fun _ _ target refersOne refersOther =>
    (Equiv.swap first second).injective
      (exclusive _ _ target refersOne refersOther)

theorem referred_swap :
    (handles.swap first second).Referred target ↔ handles.Referred target :=
  ((Equiv.swap first second).surjective.exists
    (p := fun object => handles.Refers object target)).symm

/-- A handle is moved as if it were swapped with the null handle. -/
theorem refers_move (distinct : object ≠ mover) :
    (handles.move object mover).Refers other target ↔
      ((handles.place object none).swap object mover).Refers other target := by
  rw [move, refers_update]
  change _ ↔ (handles.place object none).Refers
    (Equiv.swap object mover other) target
  by_cases isMover : other = mover
  · subst isMover
    simp
  · by_cases isIt : other = object
    · subst isIt
      simp [Ne.symm distinct, isMover, Refers, place]
    · simp [isMover, isIt, refers_update,
        Equiv.swap_apply_of_ne_of_ne isIt isMover]

theorem Exclusive.move (exclusive : handles.Exclusive)
    (distinct : object ≠ mover) : (handles.move object mover).Exclusive :=
  (exclusive.place_none.swap).of_others
    fun _ _ refers => (refers_move distinct).mp refers

theorem referred_move (distinct : object ≠ mover) :
    (handles.move object mover).Referred target ↔
      (handles.place object none).Referred target :=
  (exists_congr fun _ => refers_move distinct).trans referred_swap

end Moves

end Handles

end CoContext
