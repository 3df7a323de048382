import CoContext.WhenAnyInvariant

/-!
# The result of waiting for the first task

Exactly one child wins, the awaiting coroutine is spawned once, after the
winner stored its result and its position, and these are what it returns.  A
child that starts later does not await its task.
-/

namespace CoContext.WhenAny

variable {n : Nat} {Value : Type*} {result : Fin n → Option Value}

/-- The child returned. -/
def ChildPc.Finished : ChildPc → Prop
  | .cancelled | .lost | .won => True
  | _ => False

/-- What holds in every state of a call. -/
structure Safe (result : Fin n → Option Value) (s : State n Value) :
    Prop where
  winner_unique : ∀ first second, (s.child first).Winning →
    (s.child second).Winning → first = second
  decided_iff : s.finishCount ≠ 0 ↔ ∃ winner, (s.child winner).Winning
  finished : ∀ child, (s.child child).Finished → s.finishCount ≠ 0
  spawned_le : s.spawned ≤ 1
  stored : 0 < s.spawned → ∃ winner, s.child winner = .won ∧
    s.idx = winner ∧ s.buffer = result winner
  resumed : s.parent ≠ .suspended → 0 < s.spawned
  returned : ∀ idx value, s.parent = .returned idx value →
    ∃ winner, s.child winner = .won ∧ idx = winner ∧ value = result winner

/-- The awaiting coroutine was spawned once and returned the position and the
result of a child that won. -/
def Served (result : Fin n → Option Value) (s : State n Value) : Prop :=
  ∃ winner, s.child winner = .won ∧ s.spawned = 1 ∧
    s.parent = .returned winner (result winner)

/-- What holds of a run of a call. -/
structure Correct (run : (system result).Run) : Prop where
  safe : ∀ time ≤ run.length, Safe result (run.state time)
  /-- Only the winner stores a position or a result. -/
  stores : ∀ time < run.length,
    (run.state (time + 1)).idx ≠ (run.state time).idx ∨
      (run.state (time + 1)).buffer ≠ (run.state time).buffer →
    ∃ winner, run.action time = .run winner ∧
      ((run.state time).child winner).Winning
  /-- What the awaiting coroutine reads stays as it was when it was
  spawned. -/
  kept : ∀ first last, first ≤ last → last ≤ run.length →
    0 < (run.state first).spawned →
      (run.state last).idx = (run.state first).idx ∧
        (run.state last).buffer = (run.state first).buffer
  /-- A child that starts after the winner was decided does not await. -/
  late : ∀ first last, first ≤ last → last ≤ run.length → ∀ child,
    (run.state first).child child = .isCancelled →
      (run.state first).finishCount ≠ 0 →
        (run.state last).child child ≠ .awaitNode
  finite : run.length ≤ 6 * n + 2
  /-- Once some child finished, the winner and the awaiting coroutine can move
  on until the call is served. -/
  served : ∀ time ≤ run.length,
    (∃ child, ((run.state time).child child).Finished) →
    (∀ winner, ((run.state time).child winner).Winning →
      step result (run.state time) (.run winner) = none) →
    step result (run.state time) .resume = none →
      Served result (run.state time)
  /-- A run that cannot be continued served the call. -/
  complete : (∀ action, step result (run.state run.length) action = none) →
    Served result (run.state run.length)

theorem ChildPc.Racing.not_finished {pc : ChildPc} (racing : pc.Racing) :
    ¬ pc.Finished := by
  cases pc with
  | isCancelled | awaitNode | preempt => exact id
  | _ => exact racing.elim

theorem Undecided.safe {s : State n Value} (undecided : Undecided s) :
    Safe result s where
  winner_unique first _ winning _ :=
    ((undecided.racing first).not_winning winning).elim
  decided_iff := by
    simp only [undecided.finishCount_eq, ne_eq, not_true_eq_false, false_iff,
      not_exists]
    exact fun child => (undecided.racing child).not_winning
  finished child isFinished :=
    ((undecided.racing child).not_finished isFinished).elim
  spawned_le := by simp [undecided.spawned_eq]
  stored := by simp [undecided.spawned_eq]
  resumed awake := (awake undecided.parent_eq).elim
  returned := by simp [undecided.parent_eq]

theorem DecidedBy.spawned_le {s : State n Value} {winner : Fin n}
    (decided : DecidedBy result s winner) : s.spawned ≤ 1 := by
  by_cases spawned : 0 < s.spawned
  · obtain ⟨-, -, -, spawnedEq, -⟩ := decided.won_of_spawned (Or.inl spawned)
    omega
  · omega

theorem DecidedBy.safe {s : State n Value} {winner : Fin n}
    (decided : DecidedBy result s winner) : Safe result s where
  winner_unique first second winningFirst winningSecond := by
    rw [decided.winner_unique winningFirst,
      decided.winner_unique winningSecond]
  decided_iff :=
    ⟨fun _ => ⟨winner, decided.stored.winning⟩,
      fun _ => decided.finishCount_ne⟩
  finished _ _ := decided.finishCount_ne
  spawned_le := decided.spawned_le
  stored spawned := by
    obtain ⟨won, idxEq, bufferEq, -⟩ :=
      decided.won_of_spawned (Or.inl spawned)
    exact ⟨winner, won, idxEq, bufferEq⟩
  resumed awake := by
    obtain ⟨-, -, -, spawnedEq, -⟩ := decided.won_of_spawned (Or.inr awake)
    omega
  returned idx value position := by
    have awake : s.parent ≠ .suspended := by simp [position]
    obtain ⟨won, -, -, -, reads⟩ := decided.won_of_spawned (Or.inr awake)
    rw [position] at reads
    exact ⟨winner, won, reads.1, reads.2⟩

theorem safe_of_reachable {s : State n Value}
    (reached : (system result).Reachable s) : Safe result s := by
  rcases consistent_of_reachable reached with undecided | ⟨winner, decided⟩
  · exact undecided.safe
  · exact decided.safe

/-- What a step of a child can do. -/
theorem State.runChild_spec {s successor : State n Value} {child : Fin n}
    {value : Option Value} (stepEq : s.runChild child value = some successor) :
    successor.parent = s.parent ∧
      (s.finishCount ≠ 0 → successor.finishCount ≠ 0) ∧
      s.spawned ≤ successor.spawned ∧
      (successor.idx = s.idx ∧ successor.buffer = s.buffer ∨
        (s.child child).Winning) ∧
      ∃ pc, successor.child = Function.update s.child child pc ∧
        pc.remaining < (s.child child).remaining ∧
        (s.child child = .isCancelled → s.finishCount ≠ 0 →
          pc = .cancelled) := by
  cases position : s.child child with
  | isCancelled =>
      have successorEq : s.isCancelled child = successor := by
        simpa [runChild, position] using stepEq
      subst successorEq
      refine ⟨rfl, id, Nat.le_refl _, Or.inl ⟨rfl, rfl⟩, _, rfl, ?_, ?_⟩
      · split <;> decide
      · intro _ countNe
        rw [if_neg countNe]
  | preempt =>
      have successorEq : s.preempt child value = successor := by
        simpa [runChild, position] using stepEq
      subst successorEq
      refine ⟨rfl, fun _ => Nat.succ_ne_zero _, Nat.le_refl _,
        Or.inl ⟨rfl, rfl⟩, _, rfl, ?_, by simp⟩
      split
      · cases value with
        | none | some _ => simp [storing, ChildPc.remaining]
      · decide
  | awaitNode | storeBuffer | storeIdx | spawn =>
      simp only [runChild, position, Option.some.injEq] at stepEq
      subst stepEq
      refine ⟨rfl, id, by simp, ?_, _, rfl, by decide, by simp⟩
      first
      | exact Or.inl ⟨rfl, rfl⟩
      | exact Or.inr trivial
  | cancelled | lost | won => simp [runChild, position] at stepEq

/-- What a step of the awaiting coroutine can do. -/
theorem State.resume_spec {s successor : State n Value}
    (stepEq : s.resume = some successor) :
    ∃ parent, successor = { s with parent := parent } ∧
      parent.remaining < s.parent.remaining := by
  cases position : s.parent with
  | suspended =>
      obtain ⟨-, successorEq⟩ : 0 < s.spawned ∧
          { s with parent := .moveBuffer s.idx } = successor := by
        simpa [resume, position] using stepEq
      exact ⟨_, successorEq.symm, Nat.one_lt_two⟩
  | moveBuffer idx =>
      have successorEq : { s with parent := .returned idx s.buffer } =
          successor := by
        simpa [resume, position] using stepEq
      exact ⟨_, successorEq.symm, Nat.one_pos⟩
  | returned idx value => simp [resume, position] at stepEq

theorem remaining_step {s successor : State n Value} {action : Action n}
    (stepEq : step result s action = some successor) :
    successor.remaining < s.remaining := by
  cases action with
  | run child =>
      obtain ⟨parentEq, -, -, -, pc, childEq, lighter, -⟩ :=
        State.runChild_spec stepEq
      have total := sum_weight_move ChildPc.remaining s.child child pc
      simp only [State.remaining, parentEq, childEq]
      omega
  | resume =>
      obtain ⟨parent, rfl, lighter⟩ := State.resume_spec stepEq
      simp only [State.remaining]
      omega

theorem remaining_new : (State.new n Value).remaining = 6 * n + 2 := by
  simp [State.remaining, State.new, ChildPc.remaining, ParentPc.remaining,
    Nat.mul_comm]

theorem stores_step {s successor : State n Value} {action : Action n}
    (stepEq : step result s action = some successor)
    (stored : successor.idx ≠ s.idx ∨ successor.buffer ≠ s.buffer) :
    ∃ winner, action = .run winner ∧ (s.child winner).Winning := by
  cases action with
  | run child =>
      obtain ⟨-, -, -, same | winning, -⟩ := State.runChild_spec stepEq
      · rcases stored with changed | changed
        · exact (changed same.1).elim
        · exact (changed same.2).elim
      · exact ⟨child, rfl, winning⟩
  | resume =>
      obtain ⟨parent, rfl, -⟩ := State.resume_spec stepEq
      simp at stored

theorem spawned_mono {s successor : State n Value} {action : Action n}
    (stepEq : step result s action = some successor) :
    s.spawned ≤ successor.spawned := by
  cases action with
  | run child =>
      obtain ⟨-, -, spawnedLe, -⟩ := State.runChild_spec stepEq
      exact spawnedLe
  | resume =>
      obtain ⟨parent, rfl, -⟩ := State.resume_spec stepEq
      exact Nat.le_refl _

/-- Once the awaiting coroutine was spawned, nobody stores. -/
theorem kept_step {s successor : State n Value} {action : Action n}
    (reached : (system result).Reachable s) (spawned : 0 < s.spawned)
    (stepEq : step result s action = some successor) :
    successor.idx = s.idx ∧ successor.buffer = s.buffer := by
  by_contra changed
  obtain ⟨child, rfl, winning⟩ :=
    stores_step stepEq (not_and_or.mp changed)
  have safe := safe_of_reachable reached
  obtain ⟨winner, won, -⟩ := safe.stored spawned
  -- The only child that could still store has returned.
  have isWinner : child = winner :=
    safe.winner_unique child winner winning (by rw [won]; trivial)
  simp [step, State.runChild, isWinner, won] at stepEq

/-- `child` did not start or was cancelled, and the winner is decided. -/
def Late (child : Fin n) (s : State n Value) : Prop :=
  s.finishCount ≠ 0 ∧
    (s.child child = .isCancelled ∨ s.child child = .cancelled)

theorem Late.step {s successor : State n Value} {action : Action n}
    {child : Fin n} (late : Late child s)
    (stepEq : step result s action = some successor) :
    Late child successor := by
  obtain ⟨countNe, position⟩ := late
  cases action with
  | run mover =>
      obtain ⟨-, countKept, -, -, pc, childEq, -, cancels⟩ :=
        State.runChild_spec stepEq
      refine ⟨countKept countNe, ?_⟩
      rw [childEq]
      by_cases isMover : child = mover
      · subst mover
        rcases position with starts | cancelled
        · right
          simpa using cancels starts countNe
        · simp [WhenAny.step, State.runChild, cancelled] at stepEq
      · simpa [isMover] using position
  | resume =>
      obtain ⟨parent, rfl, -⟩ := State.resume_spec stepEq
      exact ⟨countNe, position⟩

theorem finished_of_stuck {s : State n Value} {child : Fin n}
    (stuck : step result s (.run child) = none) :
    (s.child child).Finished := by
  cases position : s.child child with
  | cancelled | lost | won => trivial
  | _ => simp [step, State.runChild, position] at stuck

theorem served_of_stuck {s : State n Value}
    (reached : (system result).Reachable s)
    (someFinished : ∃ child, (s.child child).Finished)
    (winnerStuck : ∀ winner, (s.child winner).Winning →
      step result s (.run winner) = none)
    (parentStuck : step result s .resume = none) :
    Served result s := by
  have safe := safe_of_reachable reached
  obtain ⟨child, isFinished⟩ := someFinished
  rcases consistent_of_reachable reached with undecided | ⟨winner, decided⟩
  · exact ((undecided.racing child).not_finished isFinished).elim
  · have winning := decided.stored.winning
    have winnerFinished := finished_of_stuck (winnerStuck winner winning)
    have stored := decided.stored
    cases position : s.child winner with
    | won =>
        rw [position] at stored
        obtain ⟨-, -, spawnedEq, reads⟩ := stored
        cases parentEq : s.parent with
        | suspended =>
            simp [step, State.resume, parentEq, spawnedEq] at parentStuck
        | moveBuffer idx =>
            simp [step, State.resume, parentEq] at parentStuck
        | returned idx value =>
            rw [parentEq] at reads
            obtain ⟨rfl, rfl⟩ := reads
            exact ⟨winner, position, spawnedEq, parentEq⟩
    | storeBuffer | storeIdx | spawn =>
        rw [position] at winnerFinished
        exact winnerFinished.elim
    | _ =>
        rw [position] at winning
        exact winning.elim

/-- In every interleaving of `any` with at least two tasks the awaiting
coroutine returns the position and the result of the one child that won. -/
theorem run_returns_winner (twoLe : 2 ≤ n) (run : (system result).Run) :
    Correct run where
  safe time timeLe := safe_of_reachable (run.reachable timeLe)
  stores time timeLt stored := stores_step (run.steps time timeLt) stored
  kept first last firstLe lastLe spawned := by
    let same : State n Value → Prop := fun s =>
      0 < s.spawned ∧ s.idx = (run.state first).idx ∧
        s.buffer = (run.state first).buffer
    have kept : same (run.state last) := by
      apply run.holds_from same firstLe ⟨spawned, rfl, rfl⟩
      intro time _ timeLt before
      obtain ⟨stillSpawned, sameIdx, sameBuffer⟩ := before
      have stepEq := run.steps time (by omega)
      have reached := run.reachable (show time ≤ run.length by omega)
      obtain ⟨idxEq, bufferEq⟩ := kept_step reached stillSpawned stepEq
      exact ⟨stillSpawned.trans_le (spawned_mono stepEq),
        idxEq.trans sameIdx, bufferEq.trans sameBuffer⟩
    exact kept.2
  late first last firstLe lastLe child starts countNe := by
    have late : Late child (run.state last) := by
      apply run.holds_from (Late child) firstLe
      · exact ⟨countNe, Or.inl starts⟩
      · intro time firstLeTime timeLt late
        exact late.step (run.steps time (by omega))
    intro awaits
    rcases late.2 with position | position <;> simp [position] at awaits
  finite := by
    have bound := run.length_le State.remaining
      fun state action successor stepEq => remaining_step stepEq
    rwa [show run.state 0 = State.new n Value from run.starts,
      remaining_new] at bound
  served time timeLe := served_of_stuck (run.reachable timeLe)
  complete stuck := by
    have isFinished := finished_of_stuck (stuck (.run ⟨0, by omega⟩))
    exact served_of_stuck (run.reachable (Nat.le_refl _)) ⟨_, isFinished⟩
      (fun winner _ => stuck (.run winner)) (stuck .resume)

/-- A void task and a task that completes first. -/
def secondFirst : Fin 2 → Option Nat
  | 0 => none
  | 1 => some 7

/-- Child 1 wins while child 0 awaits its task. -/
def secondFirstRun : (system secondFirst).Run :=
  .ofActions (State.new 2 Nat) rfl
    [.run 0, .run 1, .run 1, .run 1, .run 0, .run 0, .run 1, .run 1, .run 1,
      .resume, .resume] (by decide)

theorem run_returns_winner_second : Correct secondFirstRun ∧
    (secondFirstRun.state 11).parent = .returned 1 (some 7) :=
  ⟨run_returns_winner (Nat.le_refl 2) secondFirstRun, by decide⟩

end CoContext.WhenAny
