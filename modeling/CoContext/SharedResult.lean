import CoContext.WhenAllSafety
import CoContext.WhenAnyInvariant
import CoContext.WhenSomeInvariant

/-!
# The result of a shared task

Everybody who awaits a copy of a `shared_task` gets a reference to the one
value in its promise.  `any` and `all` copy that value into their meta objects;
`some` moves from it, which leaves `residue` of the value behind.

A run has any number of direct awaiters and of calls of `any`, `some` and
`all`, each with tasks of which some are copies of the shared task.  Nobody
gets the reference before the shared task has returned, so that the value
stands in the promise from the start.
-/

namespace CoContext.SharedResult

/-- What completes a component of a combinator. -/
inductive Source (Result : Type*)
  /-- A copy of the shared task. -/
  | shared
  /-- Another task. -/
  | other (result : Result)
  deriving DecidableEq

variable {Value Ty : Type*} [DecidableEq Ty]

/-- What a component of `any` or `some` completes with. -/
def Source.optional (stored : Value) : Source (Option Value) → Option Value
  | shared => some stored
  | other result => result

/-- What a component of `all` completes with. -/
def Source.plain (stored : Value) : Source Value → Value
  | shared => stored
  | other result => result

/-- The calls of the combinators, with the tasks of each. -/
structure Calls (AnyCall SomeCall AllCall Ty Value : Type*)
    [DecidableEq Ty] where
  anyTasks : AnyCall → List (Source (Option Value))
  minComplete : SomeCall → Nat
  someTasks : SomeCall → List (Source (Option Value))
  allTypes : AllCall → WhenAll.Tasks Ty
  allLayout : ∀ call, WhenAll.Layout (allTypes call)
  allTasks : ∀ call, (allTypes call).Child → Source Value
  /-- The shared task is not void. -/
  valued : ∀ call child, allTasks call child = .shared →
    ((allTypes call).type child).isSome

variable {Direct AnyCall SomeCall AllCall : Type*}

namespace Calls

variable (calls : Calls AnyCall SomeCall AllCall Ty Value)

def anyResult (stored : Value) (call : AnyCall)
    (child : Fin (calls.anyTasks call).length) : Option Value :=
  ((calls.anyTasks call).get child).optional stored

def someResult (stored : Value) (call : SomeCall)
    (child : Fin (calls.someTasks call).length) : Option Value :=
  ((calls.someTasks call).get child).optional stored

def allResult (stored : Value) (call : AllCall)
    (child : (calls.allTypes call).Child) : Value :=
  (calls.allTasks call child).plain stored

end Calls

structure State (Direct : Type*)
    (calls : Calls AnyCall SomeCall AllCall Ty Value) where
  /-- The value in the promise. -/
  stored : Value
  /-- What a direct awaiter found there. -/
  direct : Direct → Option Value
  any : ∀ call, WhenAny.State (calls.anyTasks call).length Value
  some : ∀ call, WhenSome.State (calls.someTasks call).length
    (calls.minComplete call) Value
  all : ∀ call, WhenAll.State (calls.allTypes call) Value

inductive Action (Direct : Type*)
    (calls : Calls AnyCall SomeCall AllCall Ty Value)
  /-- A coroutine goes on behind its `co_await` of the shared task. -/
  | direct (awaiter : Direct)
  | any (call : AnyCall)
      (action : WhenAny.Action (calls.anyTasks call).length)
  | some (call : SomeCall)
      (action : WhenSome.Action (calls.someTasks call).length)
  | all (call : AllCall) (action : WhenAll.Action (calls.allTypes call))

variable {calls : Calls AnyCall SomeCall AllCall Ty Value}

def State.new (Direct : Type*)
    (calls : Calls AnyCall SomeCall AllCall Ty Value) (value : Value) :
    State Direct calls where
  stored := value
  direct _ := none
  any _ := WhenAny.State.new _ Value
  some _ := WhenSome.State.new _ _ Value
  all _ := WhenAll.State.new _ Value

/-- The step moves from the value in the promise:
`any_tuple.value = std::move(result)` for a copy of the shared task. -/
def moves (s : State Direct calls) : Action Direct calls → Bool
  | .some call (.run child) =>
      match (calls.someTasks call).get child, (s.some call).child child with
      | .shared, .writeValue _ => true
      | _, _ => false
  | .some _ .resume | .direct _ | .any .. | .all .. => false

section System

variable [DecidableEq Direct] [DecidableEq AnyCall] [DecidableEq SomeCall]
  [DecidableEq AllCall]

def step (residue : Value → Value) (s : State Direct calls) :
    Action Direct calls → Option (State Direct calls)
  | .direct awaiter =>
      if s.direct awaiter = none then
        some { s with direct := Function.update s.direct awaiter s.stored }
      else none
  | .any call action =>
      (WhenAny.step (calls.anyResult s.stored call) (s.any call) action).map
        fun successor => { s with any := Function.update s.any call successor }
  | .some call action =>
      (WhenSome.step (calls.someResult s.stored call) (s.some call) action).map
        fun successor => { s with
          some := Function.update s.some call successor
          stored := if moves s (.some call action) then residue s.stored
            else s.stored }
  | .all call action =>
      (WhenAll.step (calls.allLayout call) (calls.allResult s.stored call)
        (s.all call) action).map
          fun successor =>
            { s with all := Function.update s.all call successor }

/-- The awaiters of a shared task that returned `value`. -/
def system (Direct : Type*) [DecidableEq Direct]
    (calls : Calls AnyCall SomeCall AllCall Ty Value)
    (residue : Value → Value) (value : Value) :
    TransitionSystem (State Direct calls) (Action Direct calls) where
  initial s := s = State.new Direct calls value
  step := step residue

end System

/-- What is promised in a state: the value in the promise is what the shared
task returned, and so is what direct awaiters found and what the combinators
returned for its copies.  A slot of `some` that was returned before it was
written has no result of a task. -/
structure Unchanged (value : Value) (s : State Direct calls) : Prop where
  stored : s.stored = value
  direct : ∀ awaiter found, s.direct awaiter = some found → found = value
  any_returns : ∀ call child found, (calls.anyTasks call).get child = .shared →
    (s.any call).parent = .returned child found → found = some value
  some_returns : ∀ call child rank found,
    (calls.someTasks call).get child = .shared →
    (s.some call).parent = .returned →
      ((s.some call).buffer rank).index = child →
        ((s.some call).buffer rank).value = some found → found = value
  all_returns : ∀ call child offset components,
    calls.allTasks call child = .shared →
    (s.all call).parent = .returned components →
      (calls.allTypes call).bufferOffset child = some offset →
        components[offset]? =
          some (some ⟨(calls.allTypes call).type child, value⟩)

/-- The tuples that `all` returns have the copies of the shared task where the
buffers have them. -/
def Calls.Agrees (calls : Calls AnyCall SomeCall AllCall Ty Value) : Prop :=
  ∀ call child offset, calls.allTasks call child = .shared →
    (calls.allTypes call).bufferOffset child = some offset →
      (calls.allLayout call).AgreesAt offset

section Invariant

/-- The inductive invariant: each combinator runs as if its copies of the
shared task had completed with the value all along. -/
structure Faithful (value : Value) (s : State Direct calls) : Prop where
  stored : s.stored = value
  direct : ∀ awaiter found, s.direct awaiter = some found → found = value
  any_consistent : ∀ call,
    WhenAny.Consistent (calls.anyResult value call) (s.any call)
  some_slots : ∀ call,
    WhenSome.Slots (calls.someResult value call) (s.some call)
  all_consistent : ∀ call,
    WhenAll.Consistent (calls.allLayout call) (calls.allResult value call)
      (s.all call)

variable {value : Value} {s successor : State Direct calls}

theorem Faithful.any_eq (faithful : Faithful value s) {call : AnyCall}
    {child : Fin (calls.anyTasks call).length} {found : Option Value}
    (isShared : (calls.anyTasks call).get child = .shared)
    (returned : (s.any call).parent = .returned child found) :
    found = some value := by
  rcases faithful.any_consistent call with undecided | ⟨winner, decided⟩
  · have suspended := undecided.parent_eq
    rw [returned] at suspended
    simp at suspended
  · have awake : (s.any call).parent ≠ .suspended := by simp [returned]
    obtain ⟨_, _, _, _, reads⟩ := decided.won_of_spawned (.inr awake)
    rw [returned] at reads
    obtain ⟨isWinner, rfl⟩ := reads
    rw [← Fin.ext isWinner, Calls.anyResult, isShared]
    rfl

theorem Faithful.some_eq (faithful : Faithful value s) {call : SomeCall}
    {child : Fin (calls.someTasks call).length}
    {rank : Fin (calls.minComplete call)} {found : Value}
    (isShared : (calls.someTasks call).get child = .shared)
    (index : ((s.some call).buffer rank).index = child)
    (stored : ((s.some call).buffer rank).value = some found) :
    found = value := by
  obtain ⟨writer, isWriter, result⟩ :=
    (faithful.some_slots call).holds rank found stored
  rw [index] at isWriter
  rw [← Fin.ext isWriter, Calls.someResult, isShared] at result
  exact (Option.some.inj result).symm

theorem Faithful.all_eq (faithful : Faithful value s)
    (agrees : calls.Agrees) {call : AllCall}
    {child : (calls.allTypes call).Child} {offset : Nat}
    {components : List (Option (WhenAll.Object Ty Value))}
    (isShared : calls.allTasks call child = .shared)
    (returned : (s.all call).parent = .returned components)
    (offsetEq : (calls.allTypes call).bufferOffset child = some offset) :
    components[offset]? =
      some (some ⟨(calls.allTypes call).type child, value⟩) := by
  have consistent := faithful.all_consistent call
  have isValue := calls.valued call child isShared
  obtain ⟨spawnedEq, rfl⟩ := consistent.returned components returned
  have finished := (consistent.woken (by omega)).2
  have below : offset < (calls.allTypes call).outTypes.length := by
    rw [(calls.allTypes call).length_outTypes]
    exact (List.getElem?_eq_some_iff.mp
      ((calls.allTypes call).getElem?_valueChildren isValue offsetEq)).1
  have componentEq := consistent.component_eq finished isValue offsetEq
    (agrees call child offset isShared offsetEq)
  simp [WhenAll.State.asResult, below, componentEq, WhenAll.Tasks.object,
    Calls.allResult, isShared, Source.plain]

theorem Faithful.unchanged (faithful : Faithful value s)
    (agrees : calls.Agrees) : Unchanged value s where
  stored := faithful.stored
  direct := faithful.direct
  any_returns _ _ _ isShared returned := faithful.any_eq isShared returned
  some_returns _ _ _ _ isShared _ index stored :=
    faithful.some_eq isShared index stored
  all_returns _ _ _ _ isShared returned offsetEq :=
    faithful.all_eq agrees isShared returned offsetEq

variable [DecidableEq Direct] [DecidableEq AnyCall] [DecidableEq SomeCall]
  [DecidableEq AllCall]

/-- A step that does not move from the value, or whose move leaves the value
behind, changes nothing. -/
theorem Faithful.step {residue : Value → Value} {action : Action Direct calls}
    (faithful : Faithful value s)
    (harmless : moves s action = true → residue value = value)
    (stepEq : SharedResult.step residue s action = some successor) :
    Faithful value successor := by
  obtain ⟨stored, direct, anyKept, someKept, allKept⟩ := faithful
  cases action with
  | direct awaiter =>
      simp only [SharedResult.step, Option.ite_none_right_eq_some,
        Option.some.injEq] at stepEq
      obtain ⟨_, rfl⟩ := stepEq
      refine ⟨stored, ?_, anyKept, someKept, allKept⟩
      intro other found isFound
      by_cases isAwaiter : other = awaiter
      · subst other
        simp only [Function.update_self, Option.some.injEq] at isFound
        rw [← isFound, stored]
      · simp only [Function.update_of_ne isAwaiter] at isFound
        exact direct other found isFound
  | any call action =>
      obtain ⟨t, callEq, rfl⟩ := Option.map_eq_some_iff.mp stepEq
      rw [stored] at callEq
      refine ⟨stored, direct, ?_, someKept, allKept⟩
      intro other
      by_cases isCall : other = call
      · subst other
        simpa using (anyKept call).step callEq
      · simpa [isCall] using anyKept other
  | some call action =>
      obtain ⟨t, callEq, rfl⟩ := Option.map_eq_some_iff.mp stepEq
      rw [stored] at callEq
      refine ⟨?_, direct, anyKept, ?_, allKept⟩
      · split
        next isMove =>
          rw [stored]
          exact harmless isMove
        next => exact stored
      · intro other
        by_cases isCall : other = call
        · subst other
          simpa using (someKept call).step callEq
        · simpa [isCall] using someKept other
  | all call action =>
      obtain ⟨t, callEq, rfl⟩ := Option.map_eq_some_iff.mp stepEq
      rw [stored] at callEq
      refine ⟨stored, direct, anyKept, someKept, ?_⟩
      intro other
      by_cases isCall : other = call
      · subst other
        simpa using (allKept call).step callEq
      · simpa [isCall] using allKept other

variable {residue : Value → Value}

end Invariant

instance [Inhabited Direct] : Inhabited (Action Direct calls) :=
  ⟨.direct default⟩

section Kept

end Kept

section Stolen

end Stolen

end CoContext.SharedResult
