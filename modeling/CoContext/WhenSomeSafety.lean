import CoContext.WhenSomeInvariant

/-!
# The slots of waiting for some tasks

The awaiting coroutine is spawned once, and it finds every slot written, in
every run in which no child spawns it while another child that took a slot has
not written it.  Otherwise the child with the last rank overtakes the writer
of an earlier one.
-/

namespace CoContext.WhenSome

variable {n minComplete : Nat} {Value : Type*} {result : Fin n → Option Value}

/-- Each slot holds the index and the value of a child that completed, and no
two slots that of the same child. -/
structure Filled (result : Fin n → Option Value)
    (s : State n minComplete Value) : Prop where
  completed : ∀ rank, ∃ child, (s.child child).Completed ∧
    s.buffer rank = ⟨child, result child⟩
  distinct : ∀ first second,
    (s.buffer first).index = (s.buffer second).index → first = second

/-- What holds in every state of a call. -/
structure Safe (result : Fin n → Option Value)
    (s : State n minComplete Value) : Prop where
  spawned_le : s.spawned ≤ 1
  filled : 0 < s.spawned → Filled result s
  resumed : s.parent = .returned → 0 < s.spawned
  inBounds : ∀ child, s.child child ≠ .outOfBounds

/-- What holds of a run of a call. -/
structure Correct (run : (system minComplete result).Run) : Prop where
  safe : ∀ time ≤ run.length, Safe result (run.state time)
  finite : run.length ≤ 7 * n + 1
  /-- Once enough children completed their tasks, those with a rank can move
  on until the awaiting coroutine was spawned. -/
  served : ∀ time ≤ run.length, minComplete ≤ (run.state time).idx →
    (∀ child, ((run.state time).child child).rank.isSome →
      WritesDone (run.state time) (.run child) →
        step result (run.state time) (.run child) = none) →
    (run.state time).spawned = 1
  /-- A run that cannot be continued within the condition spawned the awaiting
  coroutine, which returned. -/
  complete : (∀ action, WritesDone (run.state run.length) action →
      step result (run.state run.length) action = none) →
    (run.state run.length).spawned = 1 ∧
      (run.state run.length).parent = .returned

theorem ChildPc.completed_of_rank {pc : ChildPc minComplete} {number : Nat}
    (held : pc.rank = some number) : pc.Completed := by
  cases pc with
  | isCancelled | awaitNode | cancelled => cases held
  | _ => trivial

/-- A child with the rank of a slot has written it unless it is still
writing. -/
theorem Sound.slot_eq {s : State n minComplete Value} {child : Fin n}
    {value : Option Value} {pc : ChildPc minComplete}
    (sound : Sound s child value pc) {rank : Fin minComplete}
    (held : pc.rank = some rank.val) (written : ¬ pc.Writing) :
    s.buffer rank = ⟨child, value⟩ := by
  cases pc with
  | writeIndex other | writeValue other => exact (written trivial).elim
  | testRank other =>
      obtain rfl : other = rank := Fin.ext (Option.some.inj held)
      exact sound
  | spawn other | finished other =>
      obtain rfl : other = rank := Fin.ext (Option.some.inj held)
      exact sound.1
  | surplus other =>
      obtain rfl : other = rank.val := Option.some.inj held
      exact (Nat.not_le_of_gt rank.isLt sound).elim
  | isCancelled | awaitNode | preempt | cancelled | outOfBounds => cases held

theorem Consistent.filled {s : State n minComplete Value}
    (consistent : Consistent result s) (spawned : 0 < s.spawned) :
    Filled result s := by
  have full := consistent.full_of_spawned spawned
  have slot : ∀ rank : Fin minComplete, ∃ child,
      (s.child child).rank = some rank.val ∧
        s.buffer rank = ⟨child, result child⟩ := by
    intro rank
    have below : rank.val < s.idx := by omega
    obtain ⟨child, held⟩ := (consistent.dispensed.taken_iff rank).mpr below
    exact ⟨child, held, (consistent.sound child).slot_eq held
      (consistent.written spawned child)⟩
  constructor
  · intro rank
    obtain ⟨child, held, slotEq⟩ := slot rank
    exact ⟨child, ChildPc.completed_of_rank held, slotEq⟩
  · intro first second indexEq
    obtain ⟨firstChild, heldFirst, firstEq⟩ := slot first
    obtain ⟨secondChild, heldSecond, secondEq⟩ := slot second
    rw [firstEq, secondEq] at indexEq
    obtain rfl : firstChild = secondChild := Fin.ext indexEq
    rw [heldFirst] at heldSecond
    exact Fin.ext (Option.some.inj heldSecond)

theorem Consistent.safe {s : State n minComplete Value}
    (consistent : Consistent result s) : Safe result s where
  spawned_le := consistent.spawned_le
  filled := consistent.filled
  resumed := consistent.resumed
  inBounds child position := by
    have sound := consistent.sound child
    rw [position] at sound
    exact sound

/-- What a step of a child does to the children and their parent. -/
theorem State.runChild_spec {s successor : State n minComplete Value}
    {child : Fin n} {value : Option Value}
    (stepEq : s.runChild child value = some successor) :
    successor.parent = s.parent ∧
      ∃ pc, successor.child = Function.update s.child child pc ∧
        pc.remaining < (s.child child).remaining := by
  cases position : s.child child with
  | isCancelled =>
      have successorEq : s.isCancelled child = successor := by
        simpa [runChild, position] using stepEq
      subst successorEq
      refine ⟨rfl, _, rfl, ?_⟩
      split <;> simp [ChildPc.remaining]
  | preempt =>
      have successorEq : s.preempt child = successor := by
        simpa [runChild, position] using stepEq
      subst successorEq
      refine ⟨rfl, _, rfl, ?_⟩
      split <;> simp [ChildPc.remaining]
  | writeIndex rank =>
      have successorEq : s.writeIndex child rank value = successor := by
        simpa [runChild, position] using stepEq
      subst successorEq
      cases parentEq : s.parent with
      | suspended =>
          rw [writeIndex, parentEq]
          refine ⟨parentEq, _, rfl, ?_⟩
          split <;> simp [ChildPc.remaining]
      | returned =>
          rw [writeIndex, parentEq]
          exact ⟨parentEq, _, rfl, Nat.succ_pos _⟩
  | testRank rank =>
      simp only [runChild, position, Option.some.injEq] at stepEq
      subst stepEq
      refine ⟨rfl, _, rfl, ?_⟩
      split <;> simp [ChildPc.remaining]
  | awaitNode | writeValue rank | spawn rank =>
      simp only [runChild, position, Option.some.injEq] at stepEq
      subst stepEq
      exact ⟨rfl, _, rfl, Nat.lt_succ_self _⟩
  | cancelled | surplus _ | finished _ | outOfBounds =>
      simp [runChild, position] at stepEq

theorem remaining_step {s successor : State n minComplete Value}
    {action : Action n} (stepEq : step result s action = some successor) :
    successor.remaining < s.remaining := by
  cases action with
  | run child =>
      obtain ⟨parentEq, pc, childEq, lighter⟩ := State.runChild_spec stepEq
      have total := sum_weight_move ChildPc.remaining s.child child pc
      simp only [State.remaining, parentEq, childEq]
      omega
  | resume =>
      obtain ⟨⟨isSuspended, -⟩, rfl⟩ :
          (s.parent = .suspended ∧ 0 < s.spawned) ∧
            { s with parent := .returned } = successor := by
        simpa [step, State.resume] using stepEq
      simp [State.remaining, isSuspended, ParentPc.remaining]

theorem remaining_new :
    (State.new n minComplete Value).remaining = 7 * n + 1 := by
  simp [State.remaining, State.new, ChildPc.remaining, ParentPc.remaining,
    Nat.mul_comm]

/-- The condition never stops a writer. -/
theorem not_writing_of_stuck {s : State n minComplete Value} {child : Fin n}
    (stuck : WritesDone s (.run child) →
      step result s (.run child) = none) : ¬ (s.child child).Writing := by
  cases position : s.child child with
  | writeIndex rank | writeValue rank =>
      have blocked := stuck fun rank => by simp [position]
      simp [step, State.runChild, position] at blocked
  | _ => exact id

/-- If the children with a rank cannot move within the condition, then the
condition does not stop them. -/
theorem writesDone_of_stuck {s : State n minComplete Value}
    (stuck : ∀ child, (s.child child).rank.isSome →
      WritesDone s (.run child) → step result s (.run child) = none)
    (child : Fin n) : WritesDone s (.run child) := by
  intro rank position other writing
  have held : (s.child other).rank.isSome := by
    cases otherPosition : s.child other with
    | writeIndex rank | writeValue rank => rfl
    | _ =>
        rw [otherPosition] at writing
        exact writing.elim
  exact not_writing_of_stuck (stuck other held) writing

theorem Consistent.served {s : State n minComplete Value}
    (consistent : Consistent result s) (oneLe : 1 ≤ minComplete)
    (full : minComplete ≤ s.idx)
    (stuck : ∀ child, (s.child child).rank.isSome →
      WritesDone s (.run child) →
        WhenSome.step result s (.run child) = none) :
    s.spawned = 1 := by
  -- The child with the last rank can move until it spawned its parent.
  obtain ⟨child, held⟩ :=
    (consistent.dispensed.taken_iff (minComplete - 1)).mpr (by omega)
  have blocked := stuck child (by rw [held]; rfl)
    (writesDone_of_stuck stuck child)
  have sound := consistent.sound child
  cases position : s.child child with
  | finished rank =>
      rw [position] at sound held
      have rankEq : rank.val = minComplete - 1 := Option.some.inj held
      exact sound.2 (by omega)
  | surplus rank =>
      rw [position] at sound held
      have rankEq : rank = minComplete - 1 := Option.some.inj held
      have rankGe : minComplete ≤ rank := sound
      omega
  | writeIndex rank | writeValue rank | testRank rank | spawn rank =>
      simp [WhenSome.step, State.runChild, position] at blocked
  | isCancelled | awaitNode | preempt | cancelled | outOfBounds =>
      rw [position] at held
      cases held

theorem Consistent.full_of_stuck {s : State n minComplete Value}
    (consistent : Consistent result s) (leTasks : minComplete ≤ n)
    (stuck : ∀ child, WhenSome.step result s (.run child) = none) :
    minComplete ≤ s.idx := by
  by_contra notFull
  have all : ∀ child, (s.child child).rank.isSome := by
    intro child
    have blocked := stuck child
    have sound := consistent.sound child
    cases position : s.child child with
    | cancelled =>
        rw [position] at sound
        exact (notFull sound).elim
    | outOfBounds =>
        rw [position] at sound
        exact sound.elim
    | isCancelled | awaitNode | preempt =>
        simp [WhenSome.step, State.runChild, position] at blocked
    | _ => rfl
  have countEq := consistent.dispensed.count_eq_card_of_all all
  rw [Fintype.card_fin] at countEq
  omega

/-- With `1 ≤ min_complete ≤ n` the awaiting coroutine is spawned once and
finds every slot written, if nobody spawns it before the writes are done. -/
theorem run_fills_slots (oneLe : 1 ≤ minComplete) (leTasks : minComplete ≤ n)
    (run : (system minComplete result).Run) (guarded : run.Guarded WritesDone) :
    Correct run where
  safe time timeLe :=
    (consistent_of_reachableBy (guarded.reachableBy timeLe)).safe
  finite := by
    have bound := run.length_le State.remaining
      fun state action successor stepEq => remaining_step stepEq
    rwa [show run.state 0 = State.new n minComplete Value from run.starts,
      remaining_new] at bound
  served time timeLe full stuck :=
    (consistent_of_reachableBy (guarded.reachableBy timeLe)).served oneLe full
      stuck
  complete stuck := by
    have consistent :=
      consistent_of_reachableBy (guarded.reachableBy (Nat.le_refl _))
    have done := writesDone_of_stuck fun child _ => stuck (.run child)
    have full := consistent.full_of_stuck leTasks
      fun child => stuck (.run child) (done child)
    have spawnedEq := consistent.served oneLe full
      fun child _ => stuck (.run child)
    refine ⟨spawnedEq, ?_⟩
    have blocked := stuck .resume trivial
    cases parentEq : (run.state run.length).parent with
    | returned => rfl
    | suspended =>
        simp [step, State.resume, parentEq, spawnedEq] at blocked

instance (pc : ChildPc minComplete) : Decidable pc.Writing :=
  match pc with
  | .writeIndex _ | .writeValue _ => isTrue trivial
  | .isCancelled | .awaitNode | .preempt | .testRank _ | .spawn _
  | .cancelled | .surplus _ | .finished _ | .outOfBounds => isFalse id

instance (s : State n minComplete Value) : DecidablePred (WritesDone s)
  | .run _ => inferInstanceAs (Decidable (∀ _, _ → ∀ _, _))
  | .resume => isTrue trivial

/-- Three tasks, of which the second is void. -/
def threeTasks : Fin 3 → Option Nat
  | 0 => some 5
  | 1 => none
  | 2 => some 7

/-- Children 2 and 1 take the slots and write them in the other order. -/
def orderedRun : (system 2 threeTasks).Run :=
  .ofActions (State.new 3 2 Nat) rfl
    [.run 2, .run 2, .run 1, .run 1, .run 2, .run 1, .run 1, .run 2, .run 2,
      .run 1, .run 2, .run 1, .run 0, .resume] (by decide)

theorem run_fills_slots_ordered : Correct orderedRun := by
  have done : orderedRun.Guarded WritesDone := by
    unfold TransitionSystem.Run.Guarded
    decide
  exact run_fills_slots (by decide) (by decide) orderedRun done

/-- Child 0 takes the first slot, and child 1 takes and writes the last one
and spawns the awaiting coroutine. -/
def overtakingActions : List (Action 2) :=
  [.run 0, .run 0, .run 1, .run 1, .run 0, .run 1, .run 1, .run 1, .run 1,
    .run 1]

def twoTasks : Fin 2 → Option Nat
  | 0 => some 5
  | 1 => some 6

def overtakenState : State 2 2 Nat :=
  ((system 2 twoTasks).exec (State.new 2 2 Nat) overtakingActions).get
    (by decide)

theorem run_fills_slots_fails :
    ¬ ∀ s, (system 2 twoTasks).Reachable s → Safe twoTasks s := by
  intro always
  have reached : (system 2 twoTasks).Reachable overtakenState :=
    TransitionSystem.Reachable.exec (.start rfl) (Option.some_get _).symm
  obtain ⟨child, -, slotEq⟩ :=
    ((always overtakenState reached).filled (by decide)).completed 0
  have unwritten : (overtakenState.buffer 0).value = none := by decide
  rw [slotEq] at unwritten
  revert unwritten
  revert child
  decide

end CoContext.WhenSome
