import CoContext.StopSourceCounting

/-!
# When the counters of the stop states are right

In a run the counters are right in every state if and only if they have room
and no stop source that holds a stop state to which there are other references
is assigned from another stop source that moves.
-/

namespace CoContext.StopSource

variable {Source Token : Type} {s s' : State Source Token}
variable [Fintype Source] [Fintype Token]

theorem Inv.stopPossible (inv : Inv s) {place : Nat}
    (isLive : 0 < refs s place) :
    (s.heap place).stopPossible = true ↔
      s.requested place = true ∨ 0 < sources s place := by
  have value := inv.value place isLive
  have isBit := Bool.toNat_le (s.requested place)
  have bitIff : 0 < (s.requested place).toNat ↔
      s.requested place = true := by
    cases s.requested place <;> simp
  rw [stopPossible_iff (by omega), value, ← bitIff]
  omega

/-- The invariant implies what is promised in a state. -/
theorem Inv.counted [DecidableEq Source] [DecidableEq Token] (inv : Inv s) :
    Counted s := by
  constructor
  · intro place isLive
    have value := inv.value place isLive
    have isBit := Bool.toNat_le (s.requested place)
    omega
  · exact inv.owners
  · intro token place held
    exact inv.stopPossible (refs_pos held)
  · intro place isAllocated
    rw [inv.deleted]
    simp only [isAllocated, true_and]

theorem Inv.new : Inv (State.new Source Token) := by
  have noRefs : ∀ place, refs (State.new Source Token) place = 0 := fun place =>
    Finset.sum_eq_zero fun _ _ => rfl
  constructor
  · intro place isLive
    have none := noRefs place
    omega
  · intro place isLive
    have none := noRefs place
    omega
  · intro place
    exact (if_neg fun both => Nat.not_lt_zero _ both.1).symm
  · intro place _
    exact ⟨noRefs place, rfl⟩

/-- Counters that are right have room for what they count. -/
theorem Counted.fits (counted : Counted s) : Fits s := by
  intro place
  by_cases isLive : 0 < refs s place
  · have sourcesEq := counted.sources place isLive
    have ownersEq := counted.owners place isLive
    have valueLt := (s.heap place).mValue.toNat_lt
    have ownersLt := (s.heap place).mOwners.toNat_lt
    constructor <;> omega
  · have noRefs : refs s place = 0 := by omega
    have noSources := sources_eq_zero noRefs
    constructor <;> omega

variable [DecidableEq Source] [DecidableEq Token]

/-- A step that leaks leaves one stop source too many in the counter. -/
theorem Counted.not_leaks {action : Action Source Token} (before : Counted s)
    (after : Counted s') (stepEq : step s action = some s') :
    leaks s action = false := by
  rw [← Bool.not_eq_true]
  intro isLeak
  cases action with
  | moveAssignSource source other =>
      obtain ⟨old, holdsOld, restEq⟩ := Option.bind_eq_some_iff.mp stepEq
      obtain ⟨ptr, holdsPtr, restEq⟩ := Option.bind_eq_some_iff.mp restEq
      cases restEq
      cases old with
      | none => simp [leaks, holdsOld] at isLeak
      | some place =>
          obtain ⟨isOther, shared⟩ : source ≠ other ∧ 2 ≤ refs s place := by
            simpa [leaks, holdsOld] using isLeak
          have differ : (Sum.inl source : Source ⊕ Token) ≠ .inl other :=
            fun same => isOther (Sum.inl.inj same)
          obtain ⟨refsEq, sourcesEq⟩ := moveAssignRef_counts differ holdsOld
            holdsPtr rfl place
          have heap : ((s.moveAssignSource source other ptr).heap place).mValue =
              (s.heap place).mValue := by
            rw [State.moveAssignSource, moveAssignRef_eq differ holdsOld,
              releaseOwnership_heap, if_pos rfl]
            rfl
          have isOne : holds place (some (some place)) = 1 := if_pos rfl
          have counted : counts (.inl source : Source ⊕ Token) place
              (some (some place)) = 1 := isOne
          rw [isOne] at refsEq
          rw [counted] at sourcesEq
          have wasRight := before.sources place (by omega)
          have stillLive : 0 < refs (s.moveAssignSource source other ptr)
              place := by
            rw [State.moveAssignSource]
            omega
          have isRight := after.sources place stillLive
          rw [heap, State.moveAssignSource] at isRight
          omega
  | newSource | noStopState | copySource | moveSource | copyAssignSource
  | swapSource | destroySource | requestStop | newToken | getToken | copyToken
  | moveToken | copyAssignToken | moveAssignToken | swapToken | destroyToken =>
      simp [leaks] at isLeak

/-- In a run, the counters are right in every state if and only if no step
leaks and they have room for what there is to count. -/
theorem run_counts_iff (run : (system Source Token).Run) :
    (∀ time ≤ run.length, Counted (run.state time)) ↔
      (∀ time < run.length,
        leaks (run.state time) (run.action time) = false) ∧
      ∀ time ≤ run.length, Fits (run.state time) := by
  constructor
  · intro counted
    constructor
    · intro time timeLt
      exact (counted time (Nat.le_of_lt timeLt)).not_leaks
        (counted (time + 1) timeLt) (run.steps time timeLt)
    · intro time timeLe
      exact (counted time timeLe).fits
  · rintro ⟨quiet, fits⟩ time timeLe
    have inv : Inv (run.state time) := by
      induction time with
      | zero =>
          have starts : run.state 0 = State.new Source Token := run.starts
          rw [starts]
          exact .new
      | succ time ih =>
          exact (ih (Nat.le_of_succ_le timeLe)).step (run.steps time timeLe)
            (quiet time timeLe) (fits (time + 1) timeLe)
    exact inv.counted

section Leaked

theorem new_initial : (system Bool Unit).initial (State.new Bool Unit) :=
  rfl

/-- A stop source to whose stop state there is a token is assigned from
another one that moves. -/
def leakedRun : (system Bool Unit).Run :=
  .ofActions (State.new Bool Unit) new_initial
    [.newSource false, .getToken () false, .newSource true,
      .moveAssignSource false true] (by decide)

/-- The token's stop state still counts a stop source, and there is none. -/
theorem run_counts_fails :
    ¬ ∀ run : (system Bool Unit).Run,
      ∀ time ≤ run.length, Counted (run.state time) := by
  intro law
  have counted := law leakedRun 4 (by decide)
  have noSources : sources (leakedRun.state 4) 0 = 0 := by decide
  have isLive : 0 < refs (leakedRun.state 4) 0 := by decide
  have oneCounted : ((leakedRun.state 4).heap 0).mValue.toNat / 4 = 1 := by
    decide
  have isRight := counted.sources 0 isLive
  omega

end Leaked

end CoContext.StopSource
