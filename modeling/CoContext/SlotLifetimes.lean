import Mathlib.Data.List.Nodup
import Mathlib.Logic.Function.Basic

/-!
# Lifetimes of objects in slots

Objects are constructed and destroyed in the slots of a storage.  The events
of a slot must alternate, so that there is at most one object in it, and each
object is destroyed exactly once if they end with a destruction.  A sequence
of events is followed by keeping track of the slots with an object.
-/

namespace CoContext

inductive Lifetime
  | construct
  | destroy
  deriving DecidableEq

namespace Lifetime

/-- Objects that are constructed and then destroyed, one after the other. -/
inductive Paired : List Lifetime → Prop
  | nil : Paired []
  | pair {rest : List Lifetime} : Paired rest →
      Paired (.construct :: .destroy :: rest)

namespace Paired

variable {events : List Lifetime}

theorem append_pair (paired : Paired events) :
    Paired (events ++ [.construct, .destroy]) := by
  induction paired with
  | nil => exact .pair .nil
  | pair _ ih => exact .pair ih

theorem length_even (paired : Paired events) : events.length % 2 = 0 := by
  induction paired with
  | nil => rfl
  | pair _ ih =>
      simp only [List.length_cons]
      omega

end Paired

variable {Slot : Type*} [DecidableEq Slot]

/-- The events of a slot. -/
def ofSlot (slot : Slot) (events : List (Slot × Lifetime)) : List Lifetime :=
  (events.filter fun event => event.1 = slot).map Prod.snd

/-- Every object is destroyed exactly once, before the next one is constructed
in its slot. -/
def Balanced (events : List (Slot × Lifetime)) : Prop :=
  ∀ slot, Paired (ofSlot slot events)

/-- So far every object was destroyed once, except those in the live slots,
which were not destroyed. -/
def Tracks (events : List (Slot × Lifetime)) (live : Slot → Bool) : Prop :=
  ∀ slot, ∃ done, Paired done ∧
    ofSlot slot events = done ++ if live slot then [.construct] else []

theorem ofSlot_append (slot : Slot) (first second : List (Slot × Lifetime)) :
    ofSlot slot (first ++ second) = ofSlot slot first ++ ofSlot slot second := by
  simp [ofSlot]

theorem ofSlot_map (slot : Slot) (slots : List Slot) (event : Lifetime) :
    ofSlot slot (slots.map fun slot => (slot, event)) =
      List.replicate (slots.count slot) event := by
  induction slots with
  | nil => rfl
  | cons first rest ih =>
      have split : ofSlot slot
          ((first :: rest).map fun slot => (slot, event)) =
            ofSlot slot [(first, event)] ++
              ofSlot slot (rest.map fun slot => (slot, event)) :=
        ofSlot_append slot [(first, event)] _
      rw [split, ih, List.count_cons]
      by_cases isIt : first = slot
      · simp [ofSlot, isIt, List.replicate_succ]
      · simp [ofSlot, isIt]

/-- One object in each slot, all of which are destroyed. -/
theorem balanced_of_perm {constructed destroyed : List Slot}
    (nodup : constructed.Nodup) (perm : destroyed.Perm constructed) :
    Balanced (constructed.map (fun slot => (slot, .construct)) ++
      destroyed.map fun slot => (slot, .destroy)) := by
  intro slot
  rw [ofSlot_append, ofSlot_map, ofSlot_map, perm.count_eq]
  have atMost := List.nodup_iff_count_le_one.mp nodup slot
  obtain absent | present : constructed.count slot = 0 ∨
      constructed.count slot = 1 := by omega
  · rw [absent]
    exact .nil
  · rw [present]
    exact .pair .nil

namespace Tracks

variable {events : List (Slot × Lifetime)} {live : Slot → Bool} {slot : Slot}

theorem start : Tracks ([] : List (Slot × Lifetime)) fun _ => false :=
  fun _ => ⟨[], .nil, rfl⟩

theorem construct (tracks : Tracks events live) (isVacant : live slot = false) :
    Tracks (events ++ [(slot, .construct)]) (Function.update live slot true) := by
  intro other
  obtain ⟨done, paired, eventsEq⟩ := tracks other
  refine ⟨done, paired, ?_⟩
  rw [ofSlot_append, eventsEq]
  by_cases isIt : other = slot
  · subst isIt
    simp [ofSlot, isVacant]
  · simp [ofSlot, Function.update_of_ne isIt, Ne.symm isIt]

theorem destroy (tracks : Tracks events live) (isLive : live slot = true) :
    Tracks (events ++ [(slot, .destroy)]) (Function.update live slot false) := by
  intro other
  obtain ⟨done, paired, eventsEq⟩ := tracks other
  by_cases isIt : other = slot
  · subst isIt
    refine ⟨_, paired.append_pair, ?_⟩
    rw [ofSlot_append, eventsEq]
    simp [ofSlot, isLive]
  · refine ⟨done, paired, ?_⟩
    rw [ofSlot_append, eventsEq]
    simp [ofSlot, Function.update_of_ne isIt, Ne.symm isIt]

/-- The lifetimes balance exactly if no slot is live. -/
theorem balanced_iff (tracks : Tracks events live) :
    Balanced events ↔ ∀ slot, live slot = false := by
  constructor
  · intro balanced slot
    obtain ⟨done, paired, eventsEq⟩ := tracks slot
    have whole := (balanced slot).length_even
    have before := paired.length_even
    rw [eventsEq] at whole
    cases isLive : live slot with
    | false => rfl
    | true =>
        rw [isLive, if_pos rfl, List.length_append,
          List.length_singleton] at whole
        omega
  · intro nobody slot
    obtain ⟨done, paired, eventsEq⟩ := tracks slot
    rw [nobody slot] at eventsEq
    rw [eventsEq]
    simpa using paired

end Tracks

end Lifetime

end CoContext
