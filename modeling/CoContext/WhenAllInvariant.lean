import CoContext.WhenAllOffset

/-!
# The countdown

`wait_num` is the number of children that did not count down.  A child that
has not counted down therefore keeps the awaiting coroutine asleep, and the
element of the buffer at its offset holds its result as soon as it constructed
it, and nothing before.
-/

namespace CoContext.WhenAll

variable {Ty Value : Type*} {tasks : Tasks Ty}

/-- The result of `child` as an object of its value type. -/
def Tasks.object (tasks : Tasks Ty) (result : tasks.Child → Value)
    (child : tasks.Child) : Object Ty Value :=
  ⟨tasks.type child, result child⟩

/-- What a child has constructed when it is at a position. -/
def ChildPc.constructed (object : Object Ty Value) :
    ChildPc → List (Object Ty Value)
  | .awaitNode | .construct => []
  | .countDown | .spawn | .finished => [object]

/-- How far the awaiting coroutine is from being spawned. -/
inductive Phase (s : State tasks Value) : Prop
  | counting (spawnedEq : s.spawned = 0)
      (noSpawn : ∀ child, s.child child ≠ .spawn) (waiting : 0 < s.waitNum)
  | waking (spawnedEq : s.spawned = 0) (waker : tasks.Child)
      (position : s.child waker = .spawn)
      (others : ∀ child, child ≠ waker → s.child child = .finished)
  | woken (spawnedEq : s.spawned = 1)
      (finished : ∀ child, s.child child = .finished)

variable [DecidableEq Ty]

/-- The inductive invariant. -/
structure Consistent (layout : Layout tasks) (result : tasks.Child → Value)
    (s : State tasks Value) : Prop where
  pending : ∃ population : Population ChildPc.Pending s.child,
    population.size = s.waitNum
  waitNum_lt : s.waitNum < 2 ^ 32
  typed : ∀ child, s.child child = .construct → (tasks.type child).isSome
  slots : ∀ child offset, (tasks.type child).isSome →
    tasks.bufferOffset child = some offset →
      s.slots offset = (s.child child).constructed (tasks.object result child)
  phase : Phase s
  returned : ∀ components, s.parent = .returned components →
    s.spawned = 1 ∧ components = s.asResult layout

theorem consistent_new (layout : Layout tasks)
    (result : tasks.Child → Value) :
    Consistent layout result (State.new tasks Value) where
  pending := by
    have everybody : ∀ child, ((State.new tasks Value).child child).Pending :=
      fun _ => trivial
    refine ⟨.everybody everybody, ?_⟩
    rw [Population.size_everybody, Fintype.card_fin]
    rfl
  waitNum_lt := tasks.fits
  typed _ position := by cases position
  slots _ _ _ _ := rfl
  phase := .counting rfl (by simp [State.new])
    (Nat.lt_of_lt_of_le Nat.two_pos tasks.twoLe)
  returned _ position := by cases position

/-- Different value types have different offsets. -/
theorem Tasks.bufferOffset_inj {first second : tasks.Child} {offset : Nat}
    (isValue : (tasks.type first).isSome)
    (isSecondValue : (tasks.type second).isSome)
    (firstEq : tasks.bufferOffset first = some offset)
    (secondEq : tasks.bufferOffset second = some offset) : first = second := by
  have order := tasks.offsetsMatch.increasing
  have notBefore : ¬ first < second := by
    rw [order _ _ _ _ isValue isSecondValue firstEq secondEq]
    exact Nat.lt_irrefl offset
  have notAfter : ¬ second < first := by
    rw [order _ _ _ _ isSecondValue isValue secondEq firstEq]
    exact Nat.lt_irrefl offset
  exact le_antisymm (not_lt.mp notAfter) (not_lt.mp notBefore)

namespace Consistent

variable {layout : Layout tasks} {result : tasks.Child → Value}
variable {s successor : State tasks Value}
variable {child : tasks.Child} {pc : ChildPc}

/-- While a child did not count down the awaiting coroutine sleeps. -/
theorem counting (consistent : Consistent layout result s)
    (pending : (s.child child).Pending) :
    s.spawned = 0 ∧ (∀ other, s.child other ≠ .spawn) ∧ 0 < s.waitNum := by
  cases consistent.phase with
  | counting spawnedEq noSpawn waiting =>
      exact ⟨spawnedEq, noSpawn, waiting⟩
  | waking spawnedEq waker position others =>
      by_cases isWaker : child = waker
      · rw [isWaker, position] at pending
        exact pending.elim
      · rw [others child isWaker] at pending
        exact pending.elim
  | woken spawnedEq finished =>
      rw [finished child] at pending
      exact pending.elim

/-- `child` moves and does not count down yet. -/
theorem advance (consistent : Consistent layout result s)
    (pending : (s.child child).Pending) (target : pc.Pending)
    (slots : Nat → List (Object Ty Value))
    (typed : pc = .construct → (tasks.type child).isSome)
    (own : ∀ offset, (tasks.type child).isSome →
      tasks.bufferOffset child = some offset →
        slots offset = pc.constructed (tasks.object result child))
    (others : ∀ other offset, other ≠ child → (tasks.type other).isSome →
      tasks.bufferOffset other = some offset →
        slots offset = s.slots offset) :
    Consistent layout result { s.setChild child pc with slots := slots } := by
  obtain ⟨notSpawned, noSpawn, waiting⟩ := consistent.counting pending
  constructor
  · obtain ⟨population, sizeEq⟩ := consistent.pending
    have sizeMove := population.size_move child pc
    rw [if_pos pending, if_pos target] at sizeMove
    exact ⟨population.move child pc, (Nat.add_right_cancel sizeMove).trans sizeEq⟩
  · exact consistent.waitNum_lt
  · intro other position
    by_cases isChild : other = child
    · subst other
      exact typed (by simpa using position)
    · exact consistent.typed other (by simpa [isChild] using position)
  · intro other offset isValue offsetEq
    by_cases isChild : other = child
    · subst other
      simpa using own offset isValue offsetEq
    · have slotEq := consistent.slots other offset isValue offsetEq
      simpa [isChild] using
        (others other offset isChild isValue offsetEq).trans slotEq
  · refine .counting notSpawned ?_ waiting
    intro other
    by_cases isChild : other = child
    · subst other
      simp only [State.setChild, Function.update_self]
      rintro rfl
      exact target
    · simpa [isChild] using noSpawn other
  · intro components position
    have spawned := (consistent.returned components position).1
    omega

theorem awaitNode (consistent : Consistent layout result s)
    (position : s.child child = .awaitNode) :
    Consistent layout result (s.setChild child
      (if tasks.type child = none then .countDown else .construct)) := by
  have pending : (s.child child).Pending := by
    rw [position]
    trivial
  cases kind : tasks.type child with
  | none =>
      rw [if_pos rfl]
      have target : ChildPc.countDown.Pending := trivial
      apply consistent.advance pending target s.slots (by simp)
      · intro offset isValue
        rw [kind] at isValue
        cases isValue
      · exact fun _ _ _ _ _ => rfl
  | some type =>
      rw [if_neg (by simp)]
      have target : ChildPc.construct.Pending := trivial
      apply consistent.advance pending target s.slots (by simp [kind])
      · intro offset isValue offsetEq
        have slotEq := consistent.slots child offset isValue offsetEq
        rwa [position] at slotEq
      · exact fun _ _ _ _ _ => rfl

theorem construct (consistent : Consistent layout result s)
    (position : s.child child = .construct) {offset : Nat}
    (offsetEq : tasks.bufferOffset child = some offset) :
    Consistent layout result (s.construct child offset (result child)) := by
  have isValue := consistent.typed child position
  have pending : (s.child child).Pending := by
    rw [position]
    trivial
  have target : ChildPc.countDown.Pending := trivial
  have slotEq : s.slots offset = [] := by
    rw [consistent.slots child offset isValue offsetEq, position]
    rfl
  apply consistent.advance pending target _ (by simp)
  · intro other _ otherEq
    obtain rfl : offset = other := by
      rw [offsetEq] at otherEq
      exact Option.some.inj otherEq
    simp [slotEq, ChildPc.constructed, Tasks.object]
  · intro other otherOffset isOther isOtherValue otherEq
    have offsetNe : otherOffset ≠ offset := by
      rintro rfl
      exact isOther
        (Tasks.bufferOffset_inj isOtherValue isValue otherEq offsetEq)
    simp [offsetNe]

/-- The children that are still to count down after `child` did. -/
theorem pending_countDown (consistent : Consistent layout result s)
    (position : s.child child = .countDown) (target : ¬ pc.Pending) :
    ∃ population :
        Population ChildPc.Pending (Function.update s.child child pc),
      population.size + 1 = s.waitNum := by
  obtain ⟨population, sizeEq⟩ := consistent.pending
  have pending : (s.child child).Pending := by
    rw [position]
    trivial
  have sizeMove := population.size_move child pc
  rw [if_pos pending, if_neg target] at sizeMove
  exact ⟨population.move child pc, by omega⟩

/-- What holds of the slots does not depend on who has counted down. -/
theorem slots_setChild (consistent : Consistent layout result s)
    (same : ∀ object : Object Ty Value,
      pc.constructed object = (s.child child).constructed object)
    (other : tasks.Child) {offset : Nat}
    (isValue : (tasks.type other).isSome)
    (offsetEq : tasks.bufferOffset other = some offset) :
    s.slots offset =
      (Function.update s.child child pc other).constructed
        (tasks.object result other) := by
  rw [consistent.slots other offset isValue offsetEq]
  by_cases isChild : other = child
  · subst other
    rw [Function.update_self, same]
  · rw [Function.update_of_ne isChild]

theorem typed_setChild (consistent : Consistent layout result s)
    (target : pc ≠ .construct) (other : tasks.Child)
    (position : Function.update s.child child pc other = .construct) :
    (tasks.type other).isSome := by
  by_cases isChild : other = child
  · subst other
    rw [Function.update_self] at position
    exact (target position).elim
  · rw [Function.update_of_ne isChild] at position
    exact consistent.typed other position

/-- While there is a child that counts down, the subtraction does not
wrap. -/
theorem countDown_eq (consistent : Consistent layout result s)
    (waiting : 0 < s.waitNum) :
    s.countDown child =
      { s.setChild child (if s.waitNum = 1 then .spawn else .finished) with
        waitNum := s.waitNum - 1 } := by
  have waitLt := consistent.waitNum_lt
  have waitEq : (s.waitNum + 2 ^ 32 - 1) % 2 ^ 32 = s.waitNum - 1 := by omega
  rw [State.countDown, waitEq]

/-- The phase after `child` counted down. -/
theorem phase_countDown (consistent : Consistent layout result s)
    (position : s.child child = .countDown) :
    Phase { s.setChild child
      (if s.waitNum = 1 then .spawn else .finished) with
      waitNum := s.waitNum - 1 } := by
  have pending : (s.child child).Pending := by
    rw [position]
    trivial
  obtain ⟨notSpawned, noSpawn, waiting⟩ := consistent.counting pending
  by_cases isLast : s.waitNum = 1
  · obtain ⟨population, sizeEq⟩ :=
      consistent.pending_countDown position
        (show ¬ ChildPc.spawn.Pending from id)
    -- Nobody else is left to count down.
    have counted := population.size_eq_zero_iff.mp (by omega)
    rw [if_pos isLast]
    refine .waking notSpawned child (by simp) ?_
    intro other isOther
    have otherCounted := counted other
    rw [Function.update_of_ne isOther] at otherCounted
    simp only [State.setChild, Function.update_of_ne isOther]
    cases otherPosition : s.child other with
    | finished => rfl
    | spawn => exact (noSpawn other otherPosition).elim
    | awaitNode | construct | countDown =>
        rw [otherPosition] at otherCounted
        exact (otherCounted trivial).elim
  · rw [if_neg isLast]
    refine .counting notSpawned ?_ (by simp only; omega)
    intro other
    by_cases isChild : other = child
    · subst other
      simp
    · simpa [isChild] using noSpawn other

theorem countDown (consistent : Consistent layout result s)
    (position : s.child child = .countDown) :
    Consistent layout result (s.countDown child) := by
  have pending : (s.child child).Pending := by
    rw [position]
    trivial
  obtain ⟨notSpawned, -, waiting⟩ := consistent.counting pending
  have phase := consistent.phase_countDown position
  have waitLt := consistent.waitNum_lt
  rw [consistent.countDown_eq waiting]
  generalize targetEq :
    (if s.waitNum = 1 then ChildPc.spawn else .finished) = target at phase ⊢
  have counted : ¬ target.Pending ∧ target ≠ .construct ∧
      ∀ object : Object Ty Value, target.constructed object = [object] := by
    rw [← targetEq]
    split
    · exact ⟨id, by simp, fun _ => rfl⟩
    · exact ⟨id, by simp, fun _ => rfl⟩
  obtain ⟨notPending, notConstruct, constructed⟩ := counted
  refine ⟨?_, ?_, consistent.typed_setChild notConstruct, ?_, phase, ?_⟩
  · obtain ⟨population, sizeEq⟩ :=
      consistent.pending_countDown position notPending
    exact ⟨population, Nat.eq_sub_of_add_eq sizeEq⟩
  · exact Nat.lt_of_le_of_lt (Nat.sub_le _ _) waitLt
  · intro other offset isValue offsetEq
    have same : ∀ object : Object Ty Value,
        target.constructed object =
          (s.child child).constructed object := by
      intro object
      rw [constructed, position]
      rfl
    exact consistent.slots_setChild same other isValue offsetEq
  · intro components parentEq
    have spawned := (consistent.returned components parentEq).1
    omega

/-- The last child spawns the awaiting coroutine. -/
theorem spawn (consistent : Consistent layout result s)
    (position : s.child child = .spawn) :
    Consistent layout result
      { s.setChild child .finished with spawned := s.spawned + 1 } := by
  obtain ⟨notSpawned, others⟩ : s.spawned = 0 ∧
      ∀ other, other ≠ child → s.child other = .finished := by
    cases consistent.phase with
    | counting spawnedEq noSpawn waiting =>
        exact (noSpawn child position).elim
    | waking spawnedEq waker wakerPosition others =>
        by_cases isWaker : child = waker
        · subst waker
          exact ⟨spawnedEq, others⟩
        · have finished := others child isWaker
          rw [position] at finished
          cases finished
    | woken spawnedEq finished =>
        rw [finished child] at position
        cases position
  constructor
  · obtain ⟨population, sizeEq⟩ := consistent.pending
    have sizeMove := population.size_move child .finished
    rw [position, if_neg (show ¬ ChildPc.spawn.Pending from id),
      if_neg (show ¬ ChildPc.finished.Pending from id)] at sizeMove
    exact ⟨population.move child .finished, sizeMove.trans sizeEq⟩
  · exact consistent.waitNum_lt
  · exact consistent.typed_setChild (by simp)
  · intro other offset
    exact consistent.slots_setChild
      (fun object => by rw [position]; rfl) other
  · apply Phase.woken (congrArg Nat.succ notSpawned)
    intro other
    by_cases isChild : other = child
    · subst other
      simp
    · simpa [isChild] using others other isChild
  · intro components parentEq
    have spawned := (consistent.returned components parentEq).1
    omega

theorem resume (consistent : Consistent layout result s) (spawned : 0 < s.spawned) :
    Consistent layout result { s with parent := .returned (s.asResult layout) } := by
  have phase := consistent.phase
  refine ⟨consistent.pending, consistent.waitNum_lt, consistent.typed,
    consistent.slots, ?_, ?_⟩
  · cases phase with
    | counting spawnedEq noSpawn waiting => omega
    | waking spawnedEq waker position others => omega
    | woken spawnedEq finished => exact .woken spawnedEq finished
  · rintro components position
    obtain rfl : s.asResult layout = components := by simpa using position
    cases phase with
    | counting spawnedEq noSpawn waiting => omega
    | waking spawnedEq waker position others => omega
    | woken spawnedEq finished => exact ⟨spawnedEq, rfl⟩

theorem step (consistent : Consistent layout result s) {action : Action tasks}
    (stepEq : step layout result s action = some successor) :
    Consistent layout result successor := by
  cases action with
  | run child =>
      cases position : s.child child with
      | awaitNode =>
          simp only [WhenAll.step, State.runChild, position,
            Option.some.injEq] at stepEq
          subst stepEq
          exact consistent.awaitNode position
      | construct =>
          simp only [WhenAll.step, State.runChild, position] at stepEq
          obtain ⟨offset, offsetEq, rfl⟩ := Option.map_eq_some_iff.mp stepEq
          exact consistent.construct position offsetEq
      | countDown =>
          simp only [WhenAll.step, State.runChild, position,
            Option.some.injEq] at stepEq
          subst stepEq
          exact consistent.countDown position
      | spawn =>
          simp only [WhenAll.step, State.runChild, position,
            Option.some.injEq] at stepEq
          subst stepEq
          exact consistent.spawn position
      | finished => simp [WhenAll.step, State.runChild, position] at stepEq
  | resume =>
      cases parentEq : s.parent with
      | suspended =>
          obtain ⟨spawned, rfl⟩ : 0 < s.spawned ∧
              { s with parent := .returned (s.asResult layout) } = successor := by
            simpa [WhenAll.step, State.resume, parentEq] using stepEq
          exact consistent.resume spawned
      | returned components =>
          simp [WhenAll.step, State.resume, parentEq] at stepEq

end Consistent

theorem consistent_of_reachable {layout : Layout tasks}
    {result : tasks.Child → Value} {s : State tasks Value}
    (reached : (system layout result).Reachable s) :
    Consistent layout result s := by
  apply reached.invariant
  · intro state isInitial
    rw [show state = State.new tasks Value from isInitial]
    exact consistent_new layout result
  · intro state action successor consistent stepEq
    exact consistent.step stepEq

end CoContext.WhenAll
