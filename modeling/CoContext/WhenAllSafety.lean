import CoContext.WhenAllInvariant

/-!
# The tuple of all results

The awaiting coroutine is spawned once, after every child counted down, and
every element of the buffer was constructed once by then.  The tuple it
returns lists the results of the tasks that are not void, in order, exactly if
the library places the elements of the tuple of their types where it places
those of the buffer.  Where a value type is an empty class, it need not.
-/

namespace CoContext.WhenAll

variable {Ty Value : Type*} [DecidableEq Ty] {tasks : Tasks Ty}
variable {layout : Layout tasks} {result : tasks.Child → Value}

/-- The element of the tuple of the value types is where the buffer has it, or
has nothing to be read. -/
def Layout.AgreesAt (layout : Layout tasks) (offset : Nat) : Prop :=
  tasks.outTypes[offset]?.any layout.isEmpty ∨
    layout.valueAt offset = layout.bufferAt offset

def Layout.Agrees (layout : Layout tasks) : Prop :=
  ∀ offset < tasks.outTypes.length, layout.AgreesAt offset

instance (layout : Layout tasks) : Decidable layout.Agrees :=
  inferInstanceAs (Decidable (∀ _ < _, _ = true ∨ _ = _))

/-- The results of the tasks that are not void, in order. -/
def Tasks.results (tasks : Tasks Ty) (result : tasks.Child → Value) :
    List (Option (Object Ty Value)) :=
  tasks.valueChildren.map fun child => some (tasks.object result child)

/-- What holds in every state of a call. -/
structure Safe (result : tasks.Child → Value) (s : State tasks Value) :
    Prop where
  spawned_le : s.spawned ≤ 1
  /-- No child accesses the meta object when its frame may be gone. -/
  finished : 0 < s.spawned → ∀ child, s.child child = .finished
  /-- No element is constructed twice. -/
  constructed_le : ∀ offset < tasks.outTypes.length,
    (s.slots offset).length ≤ 1
  constructed : 0 < s.spawned → ∀ offset < tasks.outTypes.length,
    ∃ child : tasks.Child, tasks.bufferOffset child = some offset ∧
      s.slots offset = [tasks.object result child]
  resumed : s.parent ≠ .suspended → 0 < s.spawned
  returned : ∀ components, s.parent = .returned components →
    components = tasks.results result

/-- What holds of a run of a call. -/
structure Correct (run : (system layout result).Run) : Prop where
  safe : ∀ time ≤ run.length, Safe result (run.state time)
  finite : run.length ≤ 4 * tasks.types.length + 1
  /-- A run that cannot be continued spawned the awaiting coroutine, which
  returned. -/
  complete : (∀ action, step layout result (run.state run.length) action = none) →
    (run.state run.length).spawned = 1 ∧
      (run.state run.length).parent = .returned (tasks.results result)

/-- The buffer has one element at each of its places. -/
theorem Layout.find_bufferAt {offset : Nat}
    (below : offset < tasks.outTypes.length) :
    ((List.range tasks.outTypes.length).find? fun other =>
      layout.bufferAt other == layout.bufferAt offset) = some offset := by
  cases found : (List.range tasks.outTypes.length).find? fun other =>
      layout.bufferAt other == layout.bufferAt offset with
  | none =>
      have notThere := List.find?_eq_none.mp found offset
        (List.mem_range.mpr below)
      simp at notThere
  | some other =>
      have otherLt := List.mem_range.mp (List.mem_of_find?_eq_some found)
      have samePlace := List.find?_some found
      rw [beq_iff_eq] at samePlace
      rw [layout.apart other otherLt offset below samePlace]

namespace Consistent

variable {s : State tasks Value}

theorem woken (consistent : Consistent layout result s) (spawned : 0 < s.spawned) :
    s.spawned = 1 ∧ ∀ child, s.child child = .finished := by
  cases consistent.phase with
  | counting spawnedEq noSpawn waiting => omega
  | waking spawnedEq waker position others => omega
  | woken spawnedEq finished => exact ⟨spawnedEq, finished⟩

theorem spawned_le (consistent : Consistent layout result s) : s.spawned ≤ 1 := by
  by_cases spawned : 0 < s.spawned
  · exact Nat.le_of_eq (consistent.woken spawned).1
  · omega

theorem slot_eq (consistent : Consistent layout result s)
    (finished : ∀ child, s.child child = .finished) {child : tasks.Child}
    {offset : Nat} (isValue : (tasks.type child).isSome)
    (offsetEq : tasks.bufferOffset child = some offset) :
    s.slots offset = [tasks.object result child] := by
  rw [consistent.slots child offset isValue offsetEq, finished child]
  rfl

/-- The component of a child is its result where the layouts agree. -/
theorem component_eq (consistent : Consistent layout result s)
    (finished : ∀ child, s.child child = .finished) {child : tasks.Child}
    {offset : Nat} (isValue : (tasks.type child).isSome)
    (offsetEq : tasks.bufferOffset child = some offset)
    (agrees : layout.AgreesAt offset) :
    s.component layout offset = some (tasks.object result child) := by
  have slotEq := consistent.slot_eq finished isValue offsetEq
  obtain ⟨other, otherEq, typeEq⟩ := tasks.offsetsMatch.typed child isValue
  obtain rfl : offset = other := by
    rw [offsetEq] at otherEq
    exact Option.some.inj otherEq
  rw [Layout.AgreesAt, typeEq, Option.any_some] at agrees
  rw [State.component, typeEq, Option.bind_some]
  split
  · rw [slotEq]
    rfl
  · next notEmpty =>
      have below := List.getElem?_eq_some_iff.mp typeEq |>.1
      rw [agrees.resolve_left notEmpty, State.objectAt,
        layout.find_bufferAt below, Option.bind_some, slotEq]
      simp [Tasks.object]

theorem asResult_eq (consistent : Consistent layout result s)
    (finished : ∀ child, s.child child = .finished)
    (agrees : layout.Agrees) :
    s.asResult layout = tasks.results result := by
  apply List.ext_getElem
  · rw [State.asResult, Tasks.results, List.length_map, List.length_map,
      List.length_range, tasks.length_outTypes]
  · intro offset below belowResults
    have offsetLt : offset < tasks.outTypes.length := by
      simpa [State.asResult] using below
    have indexLt : offset < tasks.valueChildren.length := by
      simpa [Tasks.results] using belowResults
    obtain ⟨child, isValue, offsetEq⟩ := tasks.exists_bufferOffset offsetLt
    have childEq := tasks.getElem?_valueChildren isValue offsetEq
    rw [List.getElem?_eq_getElem indexLt, Option.some.injEq] at childEq
    have componentEq := consistent.component_eq finished isValue offsetEq
      (agrees offset offsetLt)
    simp [State.asResult, Tasks.results, componentEq, childEq]

/-- A component that is read elsewhere is not the result of its task, if this
one alone has that result. -/
theorem component_ne (consistent : Consistent layout result s)
    (finished : ∀ child, s.child child = .finished) {child : tasks.Child}
    {offset : Nat} (isValue : (tasks.type child).isSome)
    (offsetEq : tasks.bufferOffset child = some offset)
    (disagrees : ¬ layout.AgreesAt offset)
    (differs : ∀ other, other ≠ child → result other ≠ result child) :
    s.component layout offset ≠ some (tasks.object result child) := by
  obtain ⟨other, otherEq, typeEq⟩ := tasks.offsetsMatch.typed child isValue
  obtain rfl : offset = other := by
    rw [offsetEq] at otherEq
    exact Option.some.inj otherEq
  rw [Layout.AgreesAt, typeEq, Option.any_some, not_or] at disagrees
  rw [State.component, typeEq, Option.bind_some, if_neg disagrees.1,
    State.objectAt]
  intro readEq
  obtain ⟨place, placeEq, readEq⟩ := Option.bind_eq_some_iff.mp readEq
  obtain ⟨readEq, _⟩ := Option.filter_eq_some_iff.mp readEq
  have isPlace := List.find?_some placeEq
  have placeLt := List.mem_range.mp (List.mem_of_find?_eq_some placeEq)
  obtain ⟨reader, isReader, readerEq⟩ := tasks.exists_bufferOffset placeLt
  rw [consistent.slot_eq finished isReader readerEq, List.head?_cons,
    Option.some.injEq] at readEq
  have same : reader = child := by
    by_contra notChild
    exact differs reader notChild (congrArg Object.value readEq)
  rw [same, offsetEq, Option.some.injEq] at readerEq
  rw [← readerEq, beq_iff_eq] at isPlace
  exact disagrees.2 isPlace.symm

theorem safe (consistent : Consistent layout result s)
    (agrees : layout.Agrees) : Safe result s where
  spawned_le := consistent.spawned_le
  finished spawned := (consistent.woken spawned).2
  constructed_le offset below := by
    obtain ⟨child, isValue, offsetEq⟩ := tasks.exists_bufferOffset below
    rw [consistent.slots child offset isValue offsetEq]
    cases s.child child <;> simp [ChildPc.constructed]
  constructed spawned offset below := by
    obtain ⟨child, isValue, offsetEq⟩ := tasks.exists_bufferOffset below
    have slotEq := consistent.slots child offset isValue offsetEq
    rw [(consistent.woken spawned).2 child] at slotEq
    exact ⟨child, offsetEq, slotEq⟩
  resumed awake := by
    cases parentEq : s.parent with
    | suspended => exact (awake parentEq).elim
    | returned components =>
        have spawned := (consistent.returned components parentEq).1
        omega
  returned components parentEq := by
    obtain ⟨spawned, componentsEq⟩ := consistent.returned components parentEq
    have finished := (consistent.woken (by omega)).2
    rw [componentsEq, consistent.asResult_eq finished agrees]

/-- A child that cannot move returned. -/
theorem finished_of_stuck (consistent : Consistent layout result s)
    {child : tasks.Child}
    (stuck : WhenAll.step layout result s (.run child) = none) :
    s.child child = .finished := by
  cases position : s.child child with
  | finished => rfl
  | construct =>
      have isValue := consistent.typed child position
      have offsetEq := tasks.bufferOffset_eq child isValue
      simp [WhenAll.step, State.runChild, position, offsetEq] at stuck
  | awaitNode | countDown | spawn =>
      simp [WhenAll.step, State.runChild, position] at stuck

theorem served (consistent : Consistent layout result s)
    (stuck : ∀ action, WhenAll.step layout result s action = none) :
    s.spawned = 1 ∧ s.parent = .returned (s.asResult layout) := by
  have finished : ∀ child, s.child child = .finished :=
    fun child => consistent.finished_of_stuck (stuck (.run child))
  have spawnedEq : s.spawned = 1 := by
    cases consistent.phase with
    | counting spawnedEq noSpawn waiting =>
        obtain ⟨population, sizeEq⟩ := consistent.pending
        have nobody := population.size_eq_zero_iff.mpr fun child => by
          rw [finished child]
          exact id
        omega
    | waking spawnedEq waker position others =>
        rw [finished waker] at position
        cases position
    | woken spawnedEq finished => exact spawnedEq
  refine ⟨spawnedEq, ?_⟩
  cases parentEq : s.parent with
  | suspended =>
      have blocked := stuck .resume
      simp [WhenAll.step, State.resume, parentEq, spawnedEq] at blocked
  | returned components =>
      rw [(consistent.returned components parentEq).2]

end Consistent

/-- What a step of a child does to the children and their parent. -/
theorem State.runChild_spec {s successor : State tasks Value}
    {child : tasks.Child} {value : Value}
    (stepEq : s.runChild child value = some successor) :
    successor.parent = s.parent ∧
      ∃ pc, successor.child = Function.update s.child child pc ∧
        pc.remaining < (s.child child).remaining := by
  cases position : s.child child with
  | construct =>
      simp only [runChild, position] at stepEq
      obtain ⟨offset, -, rfl⟩ := Option.map_eq_some_iff.mp stepEq
      exact ⟨rfl, .countDown, rfl, by decide⟩
  | awaitNode =>
      simp only [runChild, position, Option.some.injEq] at stepEq
      subst stepEq
      refine ⟨rfl, _, rfl, ?_⟩
      split <;> decide
  | countDown =>
      simp only [runChild, position, countDown, setChild,
        Option.some.injEq] at stepEq
      subst stepEq
      simp only [true_and]
      refine ⟨_, rfl, ?_⟩
      split <;> decide
  | spawn =>
      simp only [runChild, position, Option.some.injEq] at stepEq
      subst stepEq
      exact ⟨rfl, .finished, rfl, by decide⟩
  | finished => simp [runChild, position] at stepEq

theorem remaining_step {s successor : State tasks Value}
    {action : Action tasks}
    (stepEq : step layout result s action = some successor) :
    successor.remaining < s.remaining := by
  cases action with
  | run child =>
      obtain ⟨parentEq, pc, childEq, lighter⟩ := State.runChild_spec stepEq
      have total := sum_weight_move ChildPc.remaining s.child child pc
      simp only [State.remaining, parentEq, childEq]
      omega
  | resume =>
      cases parentEq : s.parent with
      | suspended =>
          obtain ⟨-, rfl⟩ : 0 < s.spawned ∧
              { s with parent := .returned (s.asResult layout) } = successor := by
            simpa [step, State.resume, parentEq] using stepEq
          simp [State.remaining, parentEq, ParentPc.remaining]
      | returned components => simp [step, State.resume, parentEq] at stepEq

omit [DecidableEq Ty] in
theorem remaining_new :
    (State.new tasks Value).remaining = 4 * tasks.types.length + 1 := by
  simp [State.remaining, State.new, ChildPc.remaining, ParentPc.remaining,
    Nat.mul_comm]

theorem correct_of_agrees (agrees : layout.Agrees)
    (run : (system layout result).Run) : Correct run where
  safe time timeLe :=
    (consistent_of_reachable (run.reachable timeLe)).safe agrees
  finite := by
    have bound := run.length_le State.remaining
      fun state action successor stepEq => remaining_step stepEq
    rwa [show run.state 0 = State.new tasks Value from run.starts,
      remaining_new] at bound
  complete stuck := by
    have consistent := consistent_of_reachable (run.reachable (Nat.le_refl _))
    obtain ⟨spawnedEq, parentEq⟩ := consistent.served stuck
    have finished := (consistent.woken (by omega)).2
    exact ⟨spawnedEq, by rw [parentEq, consistent.asResult_eq finished agrees]⟩

/-- A run to the end shows a component that is read at another place. -/
theorem agrees_of_correct [Nontrivial Value] {layout : Layout tasks}
    (correct : ∀ (result : tasks.Child → Value)
      (run : (system layout result).Run), Correct run) : layout.Agrees := by
  intro offset below
  by_contra disagrees
  obtain ⟨child, isValue, offsetEq⟩ := tasks.exists_bufferOffset below
  obtain ⟨own, others, different⟩ := exists_pair_ne Value
  -- The result of this child is that of no other.
  let result : tasks.Child → Value := Function.update (fun _ => others) child own
  have ownEq : result child = own := Function.update_self ..
  have differs : ∀ other, other ≠ child → result other ≠ result child := by
    intro other notChild
    rw [ownEq, show result other = others from Function.update_of_ne notChild ..]
    exact different.symm
  obtain ⟨run, stuck⟩ := TransitionSystem.Run.exists_stuck State.remaining
    (fun _ _ _ stepEq => remaining_step stepEq)
    (show (system layout result).initial (State.new tasks Value) from rfl)
  have consistent := consistent_of_reachable (run.reachable (Nat.le_refl _))
  obtain ⟨spawnedEq, parentEq⟩ := consistent.served stuck
  have finished := (consistent.woken (by omega)).2
  have componentsEq : (run.state run.length).asResult layout =
      tasks.results result :=
    ParentPc.returned.inj
      (parentEq.symm.trans ((correct result run).complete stuck).2)
  apply consistent.component_ne finished isValue offsetEq disagrees differs
  have componentEq := congrArg (fun components => components[offset]?)
    componentsEq
  simpa [State.asResult, Tasks.results, below,
    tasks.getElem?_valueChildren isValue offsetEq] using componentEq

/-- For every list of at least two value types the offsets number the types
that are not void, and the awaiting coroutine returns the results in this
order, in every interleaving, exactly if the library places the elements of
the two tuples alike. -/
theorem run_returns_results_iff [Nontrivial Value] (tasks : Tasks Ty)
    (layout : Layout tasks) :
    tasks.OffsetsMatch ∧
      ((∀ (result : tasks.Child → Value) (run : (system layout result).Run),
        Correct run) ↔ layout.Agrees) :=
  ⟨tasks.offsetsMatch, agrees_of_correct,
    fun agrees _ run => correct_of_agrees agrees run⟩

/-- Tasks with the value types void, 0, void and 0. -/
def mixedTasks : Tasks Nat where
  types := [none, some 0, none, some 0]
  twoLe := by decide
  fits := by decide

example : (List.range 4).map mixedTasks.bufferOffset =
    [some (2 ^ 64 - 1), some 0, some 0, some 1] := by decide

/-- Both tuples have their last element first. -/
def mixedLayout : Layout mixedTasks where
  isEmpty _ := false
  bufferAt offset := 4 - 4 * offset
  valueAt offset := 4 - 4 * offset
  apart := by decide

def mixedResult (child : mixedTasks.Child) : Nat :=
  child.val

theorem mixed_initial : (system mixedLayout mixedResult).initial
    (State.new mixedTasks Nat) :=
  rfl

/-- The children run one after the other. -/
def mixedRun : (system mixedLayout mixedResult).Run :=
  .ofActions (State.new mixedTasks Nat) mixed_initial
    [.run ⟨0, by decide⟩, .run ⟨0, by decide⟩, .run ⟨1, by decide⟩,
      .run ⟨1, by decide⟩, .run ⟨1, by decide⟩, .run ⟨2, by decide⟩,
      .run ⟨2, by decide⟩, .run ⟨3, by decide⟩, .run ⟨3, by decide⟩,
      .run ⟨3, by decide⟩, .run ⟨3, by decide⟩, .resume]
    (by decide)

theorem run_returns_results_iff_mixed : Correct mixedRun :=
  (run_returns_results_iff mixedTasks mixedLayout).2.mpr (by decide) _ mixedRun

/-- The tasks of `all(task<int>, task<std::monostate>)`, whose value types are
0 and 1. -/
def monostateTasks : Tasks Nat where
  types := [some 0, some 1]
  twoLe := by decide
  fits := by decide

/-- The buffer begins with the array for the empty class, which takes no room
in the tuple of the value types. -/
def monostateLayout : Layout monostateTasks where
  isEmpty type := type == some 1
  bufferAt offset := 4 - 4 * offset
  valueAt _ := 0
  apart := by decide

theorem run_returns_results_fails :
    ¬ ∀ (result : monostateTasks.Child → Nat)
      (run : (system monostateLayout result).Run), Correct run := by
  intro correct
  have disagrees : ¬ monostateLayout.Agrees := by decide
  exact disagrees (agrees_of_correct correct)

end CoContext.WhenAll
