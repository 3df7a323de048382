import Mathlib.Logic.Function.Basic
import Mathlib.Data.List.Nodup
import Mathlib.Data.List.Perm.Basic

/-!
# Placements of items in disjoint queues

The waiters of a synchronisation primitive are spread over several lists,
some shared and some private to a running operation.  A placement assigns to
every place the duplicate-free list of the items kept there, and no item is
kept in two places.  The operations below keep these two facts, so that a
proof about a primitive only has to say where its steps move the items.
-/

namespace CoContext

/-- Duplicate-free lists of items indexed by places, no item in two places. -/
structure Placement (Place Item : Type*) where
  queue : Place → List Item
  nodup : ∀ place, (queue place).Nodup
  disjoint : ∀ {first second item},
    item ∈ queue first → item ∈ queue second → first = second

namespace Placement

variable {Place Item : Type*}

/-- An item is kept somewhere. -/
def Holds (placement : Placement Place Item) (item : Item) : Prop :=
  ∃ place, item ∈ placement.queue place

theorem Holds.existsUnique {placement : Placement Place Item} {item : Item}
    (holds : placement.Holds item) :
    ∃! place, item ∈ placement.queue place := by
  obtain ⟨place, member⟩ := holds
  exact ⟨place, member, fun other otherMember =>
    placement.disjoint otherMember member⟩

/-- The contents of two different places have no item in common. -/
theorem nodup_append (placement : Placement Place Item)
    {first second : Place} (distinct : first ≠ second) :
    (placement.queue first ++ placement.queue second).Nodup :=
  List.nodup_append'.mpr ⟨placement.nodup first, placement.nodup second,
    fun _ inFirst inSecond => distinct (placement.disjoint inFirst inSecond)⟩

/-- The placement without any item. -/
def empty : Placement Place Item where
  queue _ := []
  nodup _ := List.nodup_nil
  disjoint member := absurd member List.not_mem_nil

@[simp]
theorem queue_empty (place : Place) :
    (empty : Placement Place Item).queue place = [] :=
  rfl

@[simp]
theorem not_holds_empty (item : Item) :
    ¬ (empty : Placement Place Item).Holds item := by
  simp [Holds]

variable [DecidableEq Place]

/-- Append an item that is kept nowhere to one queue. -/
def enqueue (placement : Placement Place Item) (place : Place) (item : Item)
    (fresh : ¬ placement.Holds item) : Placement Place Item where
  queue := Function.update placement.queue place
    (placement.queue place ++ [item])
  nodup := by
    intro other
    by_cases same : other = place
    · subst other
      have notMem : item ∉ placement.queue place :=
        fun member => fresh ⟨place, member⟩
      rw [Function.update_self]
      exact List.nodup_append'.mpr ⟨placement.nodup place,
        List.nodup_singleton item, by simpa using notMem⟩
    · simpa [same] using placement.nodup other
  disjoint := by
    have key : ∀ {other candidate},
        candidate ∈ Function.update placement.queue place
          (placement.queue place ++ [item]) other →
        candidate ∈ placement.queue other ∨
          (candidate = item ∧ other = place) := by
      intro other candidate member
      by_cases same : other = place
      · subst other
        simpa using member
      · exact Or.inl (by simpa [same] using member)
    intro first second candidate firstMember secondMember
    rcases key firstMember with inFirst | ⟨isItem, isPlace⟩
    · rcases key secondMember with inSecond | ⟨isItem, -⟩
      · exact placement.disjoint inFirst inSecond
      · exact absurd ⟨first, isItem ▸ inFirst⟩ fresh
    · rcases key secondMember with inSecond | ⟨-, isPlace'⟩
      · exact absurd ⟨second, isItem ▸ inSecond⟩ fresh
      · rw [isPlace, isPlace']

@[simp]
theorem queue_enqueue (placement : Placement Place Item) (place : Place)
    (item : Item) (fresh : ¬ placement.Holds item) :
    (placement.enqueue place item fresh).queue =
      Function.update placement.queue place
        (placement.queue place ++ [item]) :=
  rfl

theorem holds_enqueue {placement : Placement Place Item} {place : Place}
    {item : Item} {fresh : ¬ placement.Holds item} {candidate : Item} :
    (placement.enqueue place item fresh).Holds candidate ↔
      placement.Holds candidate ∨ candidate = item := by
  constructor
  · rintro ⟨other, member⟩
    by_cases same : other = place
    · subst other
      simp only [queue_enqueue, Function.update_self, List.mem_append,
        List.mem_singleton] at member
      exact member.imp_left fun inQueue => ⟨place, inQueue⟩
    · exact Or.inl ⟨other, by simpa [same] using member⟩
  · rintro (⟨other, member⟩ | rfl)
    · refine ⟨other, ?_⟩
      by_cases same : other = place
      · subst other
        simp [member]
      · simpa [same] using member
    · exact ⟨place, by simp⟩

/-- Keep only a sublist of one queue. -/
def keep (placement : Placement Place Item) (place : Place)
    (kept : List Item) (within : kept.Sublist (placement.queue place)) :
    Placement Place Item where
  queue := Function.update placement.queue place kept
  nodup := by
    intro other
    by_cases same : other = place
    · subst other
      simpa using (placement.nodup place).sublist within
    · simpa [same] using placement.nodup other
  disjoint := by
    have key : ∀ {other candidate},
        candidate ∈ Function.update placement.queue place kept other →
        candidate ∈ placement.queue other := by
      intro other candidate member
      by_cases same : other = place
      · subst other
        exact within.subset (by simpa using member)
      · simpa [same] using member
    intro first second candidate firstMember secondMember
    exact placement.disjoint (key firstMember) (key secondMember)

@[simp]
theorem queue_keep (placement : Placement Place Item) (place : Place)
    (kept : List Item) (within : kept.Sublist (placement.queue place)) :
    (placement.keep place kept within).queue =
      Function.update placement.queue place kept :=
  rfl

theorem holds_keep {placement : Placement Place Item} {place : Place}
    {kept : List Item} {within : kept.Sublist (placement.queue place)}
    {candidate : Item} :
    (placement.keep place kept within).Holds candidate ↔
      placement.Holds candidate ∧
        (candidate ∈ placement.queue place → candidate ∈ kept) := by
  constructor
  · rintro ⟨other, member⟩
    by_cases same : other = place
    · subst other
      rw [queue_keep, Function.update_self] at member
      exact ⟨⟨place, within.subset member⟩, fun _ => member⟩
    · rw [queue_keep, Function.update_of_ne same] at member
      exact ⟨⟨other, member⟩, fun inPlace =>
        absurd (placement.disjoint member inPlace) same⟩
  · rintro ⟨⟨other, member⟩, inKept⟩
    refine ⟨other, ?_⟩
    by_cases same : other = place
    · subst other
      simpa using inKept member
    · simpa [same] using member

/-- Rearrange the contents of two queues. -/
def rearrange (placement : Placement Place Item) (source target : Place)
    (distinct : source ≠ target) (left moved : List Item)
    (perm : (left ++ moved).Perm
      (placement.queue source ++ placement.queue target)) :
    Placement Place Item where
  queue := Function.update (Function.update placement.queue source left)
    target moved
  nodup := by
    have newNodup := List.nodup_append'.mp
      (perm.nodup_iff.mpr (placement.nodup_append distinct))
    intro other
    by_cases isTarget : other = target
    · subst other
      simpa using newNodup.2.1
    by_cases isSource : other = source
    · subst other
      simpa [isTarget] using newNodup.1
    · simpa [isTarget, isSource] using placement.nodup other
  disjoint := by
    have apart := (List.nodup_append'.mp
      (perm.nodup_iff.mpr (placement.nodup_append distinct))).2.2
    have located : ∀ {other candidate},
        candidate ∈ Function.update
          (Function.update placement.queue source left) target moved other →
        (other = target ∧ candidate ∈ moved) ∨
          (other = source ∧ candidate ∈ left) ∨
          (other ≠ source ∧ other ≠ target ∧
            candidate ∈ placement.queue other) := by
      intro other candidate member
      by_cases isTarget : other = target
      · subst other
        exact Or.inl ⟨rfl, by simpa using member⟩
      by_cases isSource : other = source
      · subst other
        exact Or.inr (Or.inl ⟨rfl, by simpa [isTarget] using member⟩)
      · exact Or.inr (Or.inr
          ⟨isSource, isTarget, by simpa [isTarget, isSource] using member⟩)
    have elsewhere : ∀ {other candidate},
        candidate ∈ left ∨ candidate ∈ moved →
        other ≠ source → other ≠ target →
        candidate ∉ placement.queue other := by
      intro other candidate member notSource notTarget inOther
      rcases List.mem_append.mp
        (perm.subset (List.mem_append.mpr member)) with inSource | inTarget
      · exact notSource (placement.disjoint inOther inSource)
      · exact notTarget (placement.disjoint inOther inTarget)
    intro first second candidate firstMember secondMember
    rcases located firstMember with
      ⟨rfl, inMoved⟩ | ⟨rfl, inLeft⟩ | ⟨notSource, notTarget, inFirst⟩ <;>
    rcases located secondMember with
      ⟨rfl, inMoved'⟩ | ⟨rfl, inLeft'⟩ | ⟨notSource', notTarget', inSecond⟩
    · rfl
    · exact (apart inLeft' inMoved).elim
    · exact (elsewhere (Or.inr inMoved) notSource' notTarget' inSecond).elim
    · exact (apart inLeft inMoved').elim
    · rfl
    · exact (elsewhere (Or.inl inLeft) notSource' notTarget' inSecond).elim
    · exact (elsewhere (Or.inr inMoved') notSource notTarget inFirst).elim
    · exact (elsewhere (Or.inl inLeft') notSource notTarget inFirst).elim
    · exact placement.disjoint inFirst inSecond

@[simp]
theorem queue_rearrange (placement : Placement Place Item)
    (source target : Place) (distinct : source ≠ target)
    (left moved : List Item)
    (perm : (left ++ moved).Perm
      (placement.queue source ++ placement.queue target)) :
    (placement.rearrange source target distinct left moved perm).queue =
      Function.update (Function.update placement.queue source left)
        target moved :=
  rfl

theorem holds_rearrange {placement : Placement Place Item}
    {source target : Place} {distinct : source ≠ target}
    {left moved : List Item}
    {perm : (left ++ moved).Perm
      (placement.queue source ++ placement.queue target)}
    {candidate : Item} :
    (placement.rearrange source target distinct left moved perm).Holds
        candidate ↔ placement.Holds candidate := by
  have atEnds : (candidate ∈ left ∨ candidate ∈ moved) ↔
      (candidate ∈ placement.queue source ∨
        candidate ∈ placement.queue target) := by
    simpa using perm.mem_iff (a := candidate)
  constructor
  · rintro ⟨other, member⟩
    by_cases isTarget : other = target
    · subst other
      rcases atEnds.mp (Or.inr (by simpa using member)) with inSource | inTarget
      · exact ⟨source, inSource⟩
      · exact ⟨target, inTarget⟩
    by_cases isSource : other = source
    · subst other
      rcases atEnds.mp (Or.inl (by simpa [isTarget] using member)) with
        inSource | inTarget
      · exact ⟨source, inSource⟩
      · exact ⟨target, inTarget⟩
    · exact ⟨other, by simpa [isTarget, isSource] using member⟩
  · rintro ⟨other, member⟩
    by_cases atEnd : other = source ∨ other = target
    · have inEither : candidate ∈ placement.queue source ∨
          candidate ∈ placement.queue target := by
        rcases atEnd with rfl | rfl
        · exact Or.inl member
        · exact Or.inr member
      rcases atEnds.mpr inEither with inLeft | inMoved
      · exact ⟨source, by simpa [distinct] using inLeft⟩
      · exact ⟨target, by simpa using inMoved⟩
    · simp only [not_or] at atEnd
      exact ⟨other, by simpa [atEnd.1, atEnd.2] using member⟩

end Placement

end CoContext
