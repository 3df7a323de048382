import CoContext.WhenAny

/-!
# The winner of a race

Until some child increments `finish_count` from zero the meta object is as
constructed.  From then on the position of that child tells what it has
stored, and no other child is at a position that stores or spawns.
-/

namespace CoContext.WhenAny

variable {n : Nat} {Value : Type*}

/-- The child has not incremented `finish_count` and was not cancelled. -/
def ChildPc.Racing : ChildPc → Prop
  | .isCancelled | .awaitNode | .preempt => True
  | _ => False

/-- The awaiting coroutine reads this position and this result. -/
def ParentPc.Reads (position : Nat) (value : Option Value) :
    ParentPc Value → Prop
  | .suspended => True
  | .moveBuffer idx => idx = position
  | .returned idx returnedValue => idx = position ∧ returnedValue = value

/-- What the winner has stored when it is at the given position. -/
def Stored (s : State n Value) (winner : Fin n) (value : Option Value) :
    ChildPc → Prop
  | .storeBuffer => s.spawned = 0 ∧ s.parent = .suspended
  | .storeIdx => s.buffer = value ∧ s.spawned = 0 ∧ s.parent = .suspended
  | .spawn =>
      s.idx = winner ∧ s.buffer = value ∧ s.spawned = 0 ∧
        s.parent = .suspended
  | .won =>
      s.idx = winner ∧ s.buffer = value ∧ s.spawned = 1 ∧
        s.parent.Reads winner value
  | .isCancelled | .awaitNode | .preempt | .cancelled | .lost => False

/-- No child has completed its task. -/
structure Undecided (s : State n Value) : Prop where
  racing : ∀ child, (s.child child).Racing
  finishCount_eq : s.finishCount = 0
  buffer_eq : s.buffer = none
  spawned_eq : s.spawned = 0
  parent_eq : s.parent = .suspended

/-- `winner` incremented `finish_count` from zero. -/
structure DecidedBy (result : Fin n → Option Value) (s : State n Value)
    (winner : Fin n) : Prop where
  finishCount_ne : s.finishCount ≠ 0
  losing : ∀ child, child ≠ winner → ¬ (s.child child).Winning
  stored : Stored s winner (result winner) (s.child winner)

/-- The inductive invariant. -/
def Consistent (result : Fin n → Option Value) (s : State n Value) : Prop :=
  Undecided s ∨ ∃ winner, DecidedBy result s winner

theorem ChildPc.Racing.not_winning {pc : ChildPc} (racing : pc.Racing) :
    ¬ pc.Winning := by
  cases pc with
  | isCancelled | awaitNode | preempt => exact id
  | _ => exact racing.elim

theorem Stored.winning {s : State n Value} {winner : Fin n}
    {value : Option Value} {pc : ChildPc} (stored : Stored s winner value pc) :
    pc.Winning := by
  cases pc with
  | storeBuffer | storeIdx | spawn | won => trivial
  | _ => exact stored.elim

theorem undecided_new : Undecided (State.new n Value) where
  racing _ := trivial
  finishCount_eq := rfl
  buffer_eq := rfl
  spawned_eq := rfl
  parent_eq := rfl

namespace Undecided

variable {s : State n Value} {child : Fin n}

/-- A child moves on without completing its task. -/
theorem setChild {pc : ChildPc} (undecided : Undecided s)
    (racing : pc.Racing) : Undecided (s.setChild child pc) where
  racing other := by
    by_cases isChild : other = child
    · subst other
      simpa using racing
    · simpa [isChild] using undecided.racing other
  finishCount_eq := undecided.finishCount_eq
  buffer_eq := undecided.buffer_eq
  spawned_eq := undecided.spawned_eq
  parent_eq := undecided.parent_eq

/-- The first child to complete its task wins. -/
theorem preempt (result : Fin n → Option Value) (undecided : Undecided s) :
    DecidedBy result (s.preempt child (result child)) child where
  finishCount_ne := Nat.succ_ne_zero _
  losing other isOther := by
    have racing := undecided.racing other
    simpa [State.preempt, isOther] using racing.not_winning
  stored := by
    have positionEq : (s.preempt child (result child)).child child =
        storing (result child) := by
      simp [State.preempt, undecided.finishCount_eq]
    rw [positionEq]
    cases value : result child with
    | none =>
        exact ⟨undecided.buffer_eq, undecided.spawned_eq, undecided.parent_eq⟩
    | some _ => exact ⟨undecided.spawned_eq, undecided.parent_eq⟩

theorem runChild {result : Fin n → Option Value} {successor : State n Value}
    (undecided : Undecided s)
    (stepEq : s.runChild child (result child) = some successor) :
    Consistent result successor := by
  have racing := undecided.racing child
  cases position : s.child child with
  | isCancelled =>
      have successorEq : s.setChild child .awaitNode = successor := by
        simpa [State.runChild, position, State.isCancelled,
          undecided.finishCount_eq] using stepEq
      rw [← successorEq]
      exact Or.inl (undecided.setChild trivial)
  | awaitNode =>
      have successorEq : s.setChild child .preempt = successor := by
        simpa [State.runChild, position] using stepEq
      rw [← successorEq]
      exact Or.inl (undecided.setChild trivial)
  | preempt =>
      have successorEq : s.preempt child (result child) = successor := by
        simpa [State.runChild, position] using stepEq
      rw [← successorEq]
      exact Or.inr ⟨child, undecided.preempt result⟩
  | _ =>
      rw [position] at racing
      exact racing.elim

theorem resume {successor : State n Value} (undecided : Undecided s)
    (stepEq : s.resume = some successor) : False := by
  simp [State.resume, undecided.parent_eq, undecided.spawned_eq] at stepEq

end Undecided

namespace DecidedBy

variable {result : Fin n → Option Value} {s : State n Value} {winner : Fin n}

theorem winner_unique (decided : DecidedBy result s winner) {child : Fin n}
    (winning : (s.child child).Winning) : child = winner := by
  by_contra isOther
  exact decided.losing child isOther winning

/-- Another child moves to a position at which it does not win. -/
theorem setLosing (decided : DecidedBy result s winner) {child : Fin n}
    (isOther : child ≠ winner) {pc : ChildPc} (losing : ¬ pc.Winning)
    {count : Nat} (countNe : count ≠ 0) :
    DecidedBy result { s.setChild child pc with finishCount := count }
      winner where
  finishCount_ne := countNe
  losing other notWinner := by
    by_cases isChild : other = child
    · subst other
      simpa using losing
    · simpa [isChild] using decided.losing other notWinner
  stored := by
    have winnerEq : (s.setChild child pc).child winner = s.child winner := by
      simp [isOther.symm]
    have stored := decided.stored
    rw [← winnerEq] at stored
    exact stored

theorem runLosing (decided : DecidedBy result s winner) {child : Fin n}
    (isOther : child ≠ winner) {successor : State n Value}
    (stepEq : s.runChild child (result child) = some successor) :
    DecidedBy result successor winner := by
  have losing := decided.losing child isOther
  have countNe := decided.finishCount_ne
  cases position : s.child child with
  | isCancelled =>
      have successorEq : s.setChild child .cancelled = successor := by
        simpa [State.runChild, position, State.isCancelled, countNe]
          using stepEq
      rw [← successorEq]
      exact decided.setLosing isOther id countNe
  | awaitNode =>
      have successorEq : s.setChild child .preempt = successor := by
        simpa [State.runChild, position] using stepEq
      rw [← successorEq]
      exact decided.setLosing isOther id countNe
  | preempt =>
      have successorEq : { s.setChild child .lost with
          finishCount := s.finishCount + 1 } = successor := by
        simpa [State.runChild, position, State.preempt, countNe] using stepEq
      rw [← successorEq]
      exact decided.setLosing isOther id (Nat.succ_ne_zero _)
  | storeBuffer | storeIdx | spawn | won =>
      rw [position] at losing
      exact (losing trivial).elim
  | cancelled | lost => simp [State.runChild, position] at stepEq

/-- The winner moves on; the other children stay where they are. -/
theorem setWinner (decided : DecidedBy result s winner)
    {successor : State n Value} {pc : ChildPc}
    (childEq : successor.child = Function.update s.child winner pc)
    (countEq : successor.finishCount = s.finishCount)
    (stored : Stored successor winner (result winner) pc) :
    DecidedBy result successor winner where
  finishCount_ne := by rw [countEq]; exact decided.finishCount_ne
  losing other isOther := by
    rw [childEq, Function.update_of_ne isOther]
    exact decided.losing other isOther
  stored := by simpa [childEq] using stored

theorem runWinner (decided : DecidedBy result s winner)
    {successor : State n Value}
    (stepEq : s.runChild winner (result winner) = some successor) :
    DecidedBy result successor winner := by
  have stored := decided.stored
  cases position : s.child winner with
  | storeBuffer =>
      rw [position] at stored
      obtain ⟨spawnedEq, parentEq⟩ := stored
      have successorEq : { s.setChild winner .storeIdx with
          buffer := result winner } = successor := by
        simpa [State.runChild, position] using stepEq
      rw [← successorEq]
      exact decided.setWinner rfl rfl ⟨rfl, spawnedEq, parentEq⟩
  | storeIdx =>
      rw [position] at stored
      have successorEq : { s.setChild winner .spawn with
          idx := winner } = successor := by
        simpa [State.runChild, position] using stepEq
      rw [← successorEq]
      exact decided.setWinner rfl rfl ⟨rfl, stored⟩
  | spawn =>
      rw [position] at stored
      obtain ⟨idxEq, bufferEq, spawnedEq, parentEq⟩ := stored
      have successorEq : { s.setChild winner .won with
          spawned := s.spawned + 1 } = successor := by
        simpa [State.runChild, position] using stepEq
      rw [← successorEq]
      refine decided.setWinner rfl rfl ⟨idxEq, bufferEq, ?_, ?_⟩
      · exact congrArg Nat.succ spawnedEq
      · simp only [State.setChild, parentEq]
        trivial
  | won => simp [State.runChild, position] at stepEq
  | _ =>
      rw [position] at stored
      exact stored.elim

/-- The awaiting coroutine is spawned only after everything is stored. -/
theorem won_of_spawned (decided : DecidedBy result s winner)
    (spawned : 0 < s.spawned ∨ s.parent ≠ .suspended) :
    s.child winner = .won ∧ s.idx = winner ∧ s.buffer = result winner ∧
      s.spawned = 1 ∧ s.parent.Reads winner (result winner) := by
  have stored := decided.stored
  cases position : s.child winner with
  | won =>
      rw [position] at stored
      exact ⟨rfl, stored⟩
  | storeBuffer | storeIdx | spawn =>
      rw [position] at stored
      simp only [Stored] at stored
      rcases spawned with spawned | awake
      · omega
      · simp [stored] at awake
  | _ =>
      rw [position] at stored
      exact stored.elim

/-- The awaiting coroutine moves on. -/
theorem setParent (decided : DecidedBy result s winner)
    {parent : ParentPc Value} (position : s.child winner = .won)
    (reads : parent.Reads winner (result winner)) :
    DecidedBy result { s with parent := parent } winner where
  finishCount_ne := decided.finishCount_ne
  losing := decided.losing
  stored := by
    have stored := decided.stored
    rw [position] at stored
    obtain ⟨idxEq, bufferEq, spawnedEq, -⟩ := stored
    simp only [position]
    exact ⟨idxEq, bufferEq, spawnedEq, reads⟩

/-- The awaiting coroutine reads what the winner stored. -/
theorem resume (decided : DecidedBy result s winner)
    {successor : State n Value} (stepEq : s.resume = some successor) :
    DecidedBy result successor winner := by
  cases position : s.parent with
  | suspended =>
      obtain ⟨spawned, successorEq⟩ : 0 < s.spawned ∧
          { s with parent := .moveBuffer s.idx } = successor := by
        simpa [State.resume, position] using stepEq
      obtain ⟨won, idxEq, -⟩ := decided.won_of_spawned (Or.inl spawned)
      rw [← successorEq]
      exact decided.setParent won idxEq
  | moveBuffer idx =>
      have awake : s.parent ≠ .suspended := by simp [position]
      obtain ⟨won, -, bufferEq, -, reads⟩ :=
        decided.won_of_spawned (Or.inr awake)
      have successorEq : { s with parent := .returned idx s.buffer } =
          successor := by
        simpa [State.resume, position] using stepEq
      rw [position] at reads
      rw [← successorEq]
      exact decided.setParent won ⟨reads, bufferEq⟩
  | returned idx value => simp [State.resume, position] at stepEq

end DecidedBy

theorem Consistent.step {result : Fin n → Option Value} {s : State n Value}
    (consistent : Consistent result s) {action : Action n}
    {successor : State n Value}
    (stepEq : step result s action = some successor) :
    Consistent result successor := by
  cases action with
  | run child =>
      rcases consistent with undecided | ⟨winner, decided⟩
      · exact undecided.runChild stepEq
      · by_cases isWinner : child = winner
        · subst isWinner
          exact Or.inr ⟨child, decided.runWinner stepEq⟩
        · exact Or.inr ⟨winner, decided.runLosing isWinner stepEq⟩
  | resume =>
      rcases consistent with undecided | ⟨winner, decided⟩
      · exact (undecided.resume stepEq).elim
      · exact Or.inr ⟨winner, decided.resume stepEq⟩

theorem consistent_of_reachable {result : Fin n → Option Value}
    {s : State n Value} (reached : (system result).Reachable s) :
    Consistent result s := by
  apply reached.invariant
  · intro state isInitial
    rw [show state = State.new n Value from isInitial]
    exact Or.inl undecided_new
  · intro state action successor consistent stepEq
    exact consistent.step stepEq

end CoContext.WhenAny
