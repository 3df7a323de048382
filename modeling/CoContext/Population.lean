import Mathlib.Algebra.BigOperators.Group.Finset.Piecewise
import Mathlib.Data.Fintype.Card

/-!
# Counting agents by position

Counters of concurrent components stand for numbers of agents: the acquirers
that decremented a counter and are not queued yet, the children that have not
counted down.  A population is the finite set of the agents whose position
satisfies a predicate; when one agent moves, only that agent can enter or
leave it.
-/

namespace CoContext

/-- The finite set of the agents whose position is counted. -/
structure Population {Agent Position : Type*} (counted : Position → Prop)
    (position : Agent → Position) where
  members : Finset Agent
  mem_iff : ∀ agent, agent ∈ members ↔ counted (position agent)

namespace Population

variable {Agent Position : Type*} {counted : Position → Prop}
variable {position : Agent → Position}

def size (population : Population counted position) : Nat :=
  population.members.card

/-- Nobody is at a counted position. -/
def nobody (outside : ∀ agent, ¬ counted (position agent)) :
    Population counted position where
  members := ∅
  mem_iff agent := by simp [outside agent]

@[simp]
theorem size_nobody (outside : ∀ agent, ¬ counted (position agent)) :
    (nobody outside).size = 0 :=
  Finset.card_empty

/-- Everybody is at a counted position. -/
def everybody [Fintype Agent] (inside : ∀ agent, counted (position agent)) :
    Population counted position where
  members := Finset.univ
  mem_iff agent := by simp [inside agent]

@[simp]
theorem size_everybody [Fintype Agent]
    (inside : ∀ agent, counted (position agent)) :
    (everybody inside).size = Fintype.card Agent :=
  Finset.card_univ

theorem size_eq_zero_iff (population : Population counted position) :
    population.size = 0 ↔ ∀ agent, ¬ counted (position agent) := by
  simp only [size, Finset.card_eq_zero, Finset.eq_empty_iff_forall_notMem,
    population.mem_iff]

theorem size_pos (population : Population counted position) {agent : Agent}
    (inside : counted (position agent)) : 0 < population.size :=
  Finset.card_pos.mpr ⟨agent, (population.mem_iff agent).mpr inside⟩

theorem one_lt_size (population : Population counted position)
    {first second : Agent} (differ : first ≠ second)
    (firstInside : counted (position first))
    (secondInside : counted (position second)) : 1 < population.size :=
  Finset.one_lt_card.mpr ⟨first, (population.mem_iff first).mpr firstInside,
    second, (population.mem_iff second).mpr secondInside, differ⟩

/-- Agents move, but nobody enters or leaves the population. -/
def keep (population : Population counted position)
    {later : Agent → Position}
    (same : ∀ agent, counted (later agent) ↔ counted (position agent)) :
    Population counted later where
  members := population.members
  mem_iff agent := (population.mem_iff agent).trans (same agent).symm

@[simp]
theorem size_keep (population : Population counted position)
    {later : Agent → Position}
    (same : ∀ agent, counted (later agent) ↔ counted (position agent)) :
    (population.keep same).size = population.size :=
  rfl

section Part

variable {part : Position → Prop}

/-- The members of a part are fewer if one agent is outside of it. -/
theorem size_lt_of_outside (inner : Population part position)
    (outer : Population counted position)
    (isPart : ∀ place, part place → counted place) {agent : Agent}
    (inside : counted (position agent)) (outside : ¬ part (position agent)) :
    inner.size < outer.size := by
  apply Finset.card_lt_card
  rw [Finset.ssubset_iff_of_subset]
  · exact ⟨agent, (outer.mem_iff agent).mpr inside,
      fun isIn => outside ((inner.mem_iff agent).mp isIn)⟩
  · intro other isIn
    exact (outer.mem_iff other).mpr
      (isPart _ ((inner.mem_iff other).mp isIn))

/-- A part that has as many members is all of it. -/
theorem size_eq_iff (inner : Population part position)
    (outer : Population counted position)
    (isPart : ∀ place, part place → counted place) :
    inner.size = outer.size ↔
      ∀ agent, counted (position agent) → part (position agent) := by
  constructor
  · intro sizeEq agent inside
    by_contra outside
    have fewer := inner.size_lt_of_outside outer isPart inside outside
    omega
  · intro all
    have membersEq : inner.members = outer.members := by
      ext agent
      rw [inner.mem_iff, outer.mem_iff]
      exact ⟨isPart _, all agent⟩
    exact congrArg Finset.card membersEq

end Part

variable [DecidableEq Agent]

open Classical in
/-- The population after one agent moved. -/
noncomputable def move (population : Population counted position)
    (agent : Agent) (target : Position) :
    Population counted (Function.update position agent target) where
  members :=
    if counted target then insert agent population.members
    else population.members.erase agent
  mem_iff other := by
    by_cases inside : counted target
    · rw [if_pos inside, Finset.mem_insert, population.mem_iff]
      by_cases isAgent : other = agent
      · subst other
        simp [inside]
      · simp [isAgent]
    · rw [if_neg inside, Finset.mem_erase, population.mem_iff]
      by_cases isAgent : other = agent
      · subst other
        simp [inside]
      · simp [isAgent]

open Classical in
/-- Only the agent that moves changes the size. -/
theorem size_move (population : Population counted position) (agent : Agent)
    (target : Position) :
    (population.move agent target).size +
        (if counted (position agent) then 1 else 0) =
      population.size + (if counted target then 1 else 0) := by
  have memIff := population.mem_iff agent
  by_cases inside : counted target
  · by_cases wasInside : counted (position agent)
    · simp [size, move, inside, wasInside, memIff.mpr wasInside]
    · have fresh : agent ∉ population.members := by rwa [memIff]
      simp [size, move, inside, wasInside, fresh]
  · by_cases wasInside : counted (position agent)
    · have erased := Finset.card_erase_add_one (memIff.mpr wasInside)
      simpa [size, move, inside, wasInside] using erased
    · have fresh : agent ∉ population.members := by rwa [memIff]
      simp [size, move, inside, wasInside, fresh]

end Population

/-- Only the agent that moves changes the total weight of the positions. -/
theorem sum_weight_move {Agent Position : Type*} [Fintype Agent]
    [DecidableEq Agent] (weight : Position → Nat) (position : Agent → Position)
    (agent : Agent) (target : Position) :
    ∑ other, weight (Function.update position agent target other) +
        weight (position agent) =
      ∑ other, weight (position other) + weight target := by
  have composed : (fun other => weight (Function.update position agent target other)) =
      Function.update (fun other => weight (position other)) agent
        (weight target) := by
    funext other
    by_cases isAgent : other = agent
    · subst other
      simp
    · simp [isAgent]
  have split := Finset.add_sum_erase Finset.univ
    (fun other => weight (position other)) (Finset.mem_univ agent)
  rw [composed, Finset.sum_update_of_mem (Finset.mem_univ agent),
    Finset.sdiff_singleton_eq_erase]
  omega

end CoContext
