import Mathlib.Data.Finset.Image
import Mathlib.Data.Fintype.Card

/-!
# Ranks dispensed by a counter

Agents that fetch and increment a shared counter hold pairwise different
ranks, and the ranks held are exactly those below the counter.  Whoever holds
a given rank is thereby elected; once every agent holds a rank the counter is
the number of agents.
-/

namespace CoContext

/-- The counter reads `count`, and `rank` is what each agent fetched. -/
structure Dispensed {Agent : Type*} (rank : Agent → Option Nat)
    (count : Nat) : Prop where
  taken_iff : ∀ number, (∃ agent, rank agent = some number) ↔ number < count
  holder_unique : ∀ {first second : Agent} {number : Nat},
    rank first = some number → rank second = some number → first = second

namespace Dispensed

variable {Agent : Type*} {rank : Agent → Option Nat} {count : Nat}

theorem none_taken (untaken : ∀ agent, rank agent = none) :
    Dispensed rank 0 where
  taken_iff number := by simp [untaken]
  holder_unique := by simp [untaken]

theorem lt (dispensed : Dispensed rank count) {agent : Agent} {number : Nat}
    (held : rank agent = some number) : number < count :=
  (dispensed.taken_iff number).mp ⟨agent, held⟩

/-- An agent fetches the next rank. -/
theorem take [DecidableEq Agent] (dispensed : Dispensed rank count)
    {agent : Agent} (untaken : rank agent = none) :
    Dispensed (Function.update rank agent (some count)) (count + 1) where
  taken_iff number := by
    constructor
    · rintro ⟨holder, held⟩
      by_cases isAgent : holder = agent
      · subst holder
        have numberEq : count = number := by simpa using held
        omega
      · rw [Function.update_of_ne isAgent] at held
        have below := dispensed.lt held
        omega
    · intro below
      by_cases isLast : number = count
      · subst isLast
        exact ⟨agent, by simp⟩
      · obtain ⟨holder, held⟩ :=
          (dispensed.taken_iff number).mpr (by omega)
        have notAgent : holder ≠ agent := by
          intro isAgent
          rw [isAgent, untaken] at held
          cases held
        exact ⟨holder, by rw [Function.update_of_ne notAgent, held]⟩
  holder_unique := by
    intro first second number heldFirst heldSecond
    -- An earlier rank is below the counter, the new one is the counter.
    by_cases isFirst : first = agent
    · by_cases isSecond : second = agent
      · rw [isFirst, isSecond]
      · subst first
        have numberEq : count = number := by simpa using heldFirst
        rw [Function.update_of_ne isSecond] at heldSecond
        have below := dispensed.lt heldSecond
        omega
    · rw [Function.update_of_ne isFirst] at heldFirst
      by_cases isSecond : second = agent
      · subst second
        have numberEq : count = number := by simpa using heldSecond
        have below := dispensed.lt heldFirst
        omega
      · rw [Function.update_of_ne isSecond] at heldSecond
        exact dispensed.holder_unique heldFirst heldSecond

/-- An agent moves and keeps what it fetched. -/
theorem keep [DecidableEq Agent] (dispensed : Dispensed rank count)
    {agent : Agent} {held : Option Nat} (same : held = rank agent) :
    Dispensed (Function.update rank agent held) count := by
  rwa [same, Function.update_eq_self]

/-- The counter is the number of agents that hold a rank. -/
theorem count_eq_card [Fintype Agent] (dispensed : Dispensed rank count) :
    count = (Finset.univ.filter fun agent => (rank agent).isSome).card := by
  have imageEq : (Finset.univ.filter fun agent => (rank agent).isSome).image
      (fun agent => (rank agent).getD 0) = Finset.range count := by
    ext number
    simp only [Finset.mem_image, Finset.mem_filter, Finset.mem_univ, true_and,
      Finset.mem_range, ← dispensed.taken_iff, Option.isSome_iff_exists]
    constructor
    · rintro ⟨agent, ⟨fetched, held⟩, rfl⟩
      exact ⟨agent, by simp [held]⟩
    · rintro ⟨agent, held⟩
      exact ⟨agent, ⟨number, held⟩, by simp [held]⟩
  rw [← Finset.card_range count, ← imageEq]
  apply Finset.card_image_of_injOn
  intro first firstMem second secondMem numberEq
  obtain ⟨fetched, held⟩ : ∃ fetched, rank first = some fetched := by
    simpa [Option.isSome_iff_exists] using firstMem
  obtain ⟨other, heldOther⟩ : ∃ other, rank second = some other := by
    simpa [Option.isSome_iff_exists] using secondMem
  obtain rfl : fetched = other := by simpa [held, heldOther] using numberEq
  exact dispensed.holder_unique held heldOther

theorem count_eq_card_of_all [Fintype Agent] (dispensed : Dispensed rank count)
    (all : ∀ agent, (rank agent).isSome) : count = Fintype.card Agent := by
  rw [dispensed.count_eq_card, Finset.filter_true_of_mem fun agent _ => all agent,
    Finset.card_univ]

end Dispensed

end CoContext
