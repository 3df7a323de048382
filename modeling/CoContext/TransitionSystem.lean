import Mathlib.Data.List.Basic
import Mathlib.Data.Nat.Init
import Mathlib.Tactic.Simps.Basic

/-!
# Executable transition systems

A concurrent component is modelled by a partial step function on an explicit
state: an action names the agent that moves and resolves every scheduling
choice, and `none` means that the action is not enabled.  This file develops
reachability, indexed runs and the induction rules shared by all components.
Reachability is relative to a predicate on steps, so that the conditions under
which a component behaves are stated as conditions on the steps of a run.
-/

namespace CoContext

/-- A partial, deterministic step function with a set of initial states. -/
structure TransitionSystem (State Action : Type*) where
  initial : State → Prop
  step : State → Action → Option State

namespace TransitionSystem

variable {State Action : Type*}

/-- The states reached by runs all of whose steps satisfy `allowed`. -/
inductive ReachableBy (system : TransitionSystem State Action)
    (allowed : State → Action → Prop) : State → Prop
  | start {state : State} : system.initial state →
      ReachableBy system allowed state
  | next {state successor : State} {action : Action} :
      ReachableBy system allowed state → allowed state action →
      system.step state action = some successor →
      ReachableBy system allowed successor

/-- The states reached by arbitrary runs. -/
def Reachable (system : TransitionSystem State Action) : State → Prop :=
  system.ReachableBy fun _ _ => True

variable {system : TransitionSystem State Action}
variable {allowed : State → Action → Prop}

/-- The induction rule for inductive invariants of restricted runs. -/
theorem ReachableBy.invariant {invariant : State → Prop}
    (base : ∀ state, system.initial state → invariant state)
    (preserved : ∀ state action successor, invariant state →
      allowed state action → system.step state action = some successor →
      invariant successor)
    {state : State} (reached : system.ReachableBy allowed state) :
    invariant state := by
  induction reached with
  | start isInitial => exact base _ isInitial
  | next _ permitted stepEq ih => exact preserved _ _ _ ih permitted stepEq

/-- The induction rule for inductive invariants of arbitrary runs. -/
theorem Reachable.invariant {invariant : State → Prop}
    (base : ∀ state, system.initial state → invariant state)
    (preserved : ∀ state action successor, invariant state →
      system.step state action = some successor → invariant successor)
    {state : State} (reached : system.Reachable state) :
    invariant state :=
  ReachableBy.invariant base
    (fun state action successor holds _ => preserved state action successor holds)
    reached

/-- Perform a list of actions in order. -/
def exec (system : TransitionSystem State Action) (state : State) :
    List Action → Option State
  | [] => some state
  | action :: actions =>
      (system.step state action).bind fun successor =>
        system.exec successor actions

theorem exec_append (state : State) (first second : List Action) :
    system.exec state (first ++ second) =
      (system.exec state first).bind fun middle =>
        system.exec middle second := by
  induction first generalizing state with
  | nil => rfl
  | cons action first ih =>
      simp only [List.cons_append, exec, Option.bind_assoc]
      congr 1
      funext successor
      exact ih successor

theorem Reachable.exec {state last : State} {actions : List Action}
    (reached : system.Reachable state)
    (execEq : system.exec state actions = some last) :
    system.Reachable last := by
  induction actions generalizing state with
  | nil =>
      obtain rfl : state = last := by simpa [TransitionSystem.exec] using execEq
      exact reached
  | cons action actions ih =>
      obtain ⟨successor, stepEq, restEq⟩ :
          ∃ successor, system.step state action = some successor ∧
            system.exec successor actions = some last := by
        simpa [TransitionSystem.exec, Option.bind_eq_some_iff] using execEq
      exact ih (.next reached trivial stepEq) restEq

/-- A finite run with its states and actions indexed by time. -/
structure Run (system : TransitionSystem State Action) where
  length : Nat
  state : Nat → State
  action : Nat → Action
  starts : system.initial (state 0)
  steps : ∀ time < length,
    system.step (state time) (action time) = some (state (time + 1))

namespace Run

/-- Every step of the run satisfies `allowed`. -/
def Guarded (run : system.Run) (allowed : State → Action → Prop) : Prop :=
  ∀ time < run.length, allowed (run.state time) (run.action time)

theorem Guarded.reachableBy {run : system.Run}
    (guarded : run.Guarded allowed) {time : Nat} (timeLe : time ≤ run.length) :
    system.ReachableBy allowed (run.state time) := by
  induction time with
  | zero => exact .start run.starts
  | succ time ih =>
      exact .next (ih (by omega)) (guarded time (by omega))
        (run.steps time (by omega))

theorem reachable (run : system.Run) {time : Nat}
    (timeLe : time ≤ run.length) : system.Reachable (run.state time) :=
  Guarded.reachableBy (fun _ _ => trivial) timeLe

/-- A property kept by each step of an interval of the run holds from its
start to its end. -/
theorem holds_from (run : system.Run) (property : State → Prop)
    {first last : Nat} (firstLe : first ≤ last)
    (base : property (run.state first))
    (kept : ∀ time, first ≤ time → time < last →
      property (run.state time) → property (run.state (time + 1))) :
    property (run.state last) := by
  induction last, firstLe using Nat.le_induction with
  | base => exact base
  | succ last firstLe ih =>
      exact kept last firstLe (by omega)
        (ih fun time firstLeTime timeLt => kept time firstLeTime (by omega))

/-- A weight that every step decreases bounds the length of a run. -/
theorem length_le (run : system.Run) (weight : State → Nat)
    (decreases : ∀ state action successor,
      system.step state action = some successor →
        weight successor < weight state) :
    run.length ≤ weight (run.state 0) := by
  have spent : ∀ time ≤ run.length,
      weight (run.state time) + time ≤ weight (run.state 0) := by
    intro time timeLe
    induction time with
    | zero => exact Nat.le_refl _
    | succ time ih =>
        have before := ih (by omega)
        have lighter := decreases _ _ _ (run.steps time (by omega))
        omega
  exact Nat.le_of_add_left_le (spent run.length (Nat.le_refl _))

/-- The observations made by the steps from time `first` on, before time
`last`. -/
def log {Event : Type*} (observe : State → Action → Option Event)
    (run : system.Run) (first last : Nat) : List Event :=
  (List.range' first (last - first)).filterMap fun time =>
    observe (run.state time) (run.action time)

section Log

variable {Event : Type*} {observe : State → Action → Option Event}

@[simp]
theorem log_self (run : system.Run) (time : Nat) :
    run.log observe time time = [] := by
  simp [log]

theorem log_append (run : system.Run) {first middle last : Nat}
    (firstLe : first ≤ middle) (middleLe : middle ≤ last) :
    run.log observe first last =
      run.log observe first middle ++ run.log observe middle last := by
  rw [log, log, log, ← List.filterMap_append]
  congr 1
  have middleEq : middle = first + 1 * (middle - first) := by omega
  have lengthEq : last - first = (middle - first) + (last - middle) := by omega
  rw [lengthEq, ← List.range'_append, ← middleEq]

theorem log_single (run : system.Run) (time : Nat) :
    run.log observe time (time + 1) =
      (observe (run.state time) (run.action time)).toList := by
  simp only [log, Nat.add_sub_cancel_left, List.range'_one]
  cases observed : observe (run.state time) (run.action time) <;>
    simp [observed]

/-- The log up to the next step. -/
theorem log_next (run : system.Run) (time : Nat) :
    run.log observe 0 (time + 1) = run.log observe 0 time ++
      (observe (run.state time) (run.action time)).toList := by
  rw [run.log_append (Nat.zero_le time) (Nat.le_succ time), run.log_single]

theorem mem_log (run : system.Run) {first last : Nat} {event : Event} :
    event ∈ run.log observe first last ↔
      ∃ time, first ≤ time ∧ time < last ∧
        observe (run.state time) (run.action time) = some event := by
  simp only [log, List.mem_filterMap, List.mem_range'_1]
  constructor
  · rintro ⟨time, ⟨firstLe, timeLt⟩, observed⟩
    exact ⟨time, firstLe, by omega, observed⟩
  · rintro ⟨time, firstLe, timeLt, observed⟩
    exact ⟨time, ⟨firstLe, by omega⟩, observed⟩

/-- The log around a step that makes an observation. -/
theorem log_around (run : system.Run) {first time last : Nat} {event : Event}
    (firstLe : first ≤ time) (timeLt : time < last)
    (observed : observe (run.state time) (run.action time) = some event) :
    run.log observe first last =
      run.log observe first time ++
        event :: run.log observe (time + 1) last := by
  rw [run.log_append firstLe (by omega : time ≤ last),
    run.log_append (by omega : time ≤ time + 1) (by omega : time + 1 ≤ last),
    log_single, observed]
  rfl

end Log

/-- The run that makes one more step. -/
def extend (run : system.Run) (action : Action) (last : State)
    (stepEq : system.step (run.state run.length) action = some last) :
    system.Run where
  length := run.length + 1
  state time := if time ≤ run.length then run.state time else last
  action time := if time < run.length then run.action time else action
  starts := by
    rw [if_pos (Nat.zero_le _)]
    exact run.starts
  steps := by
    intro time timeLt
    rw [if_pos (by omega : time ≤ run.length)]
    by_cases before : time < run.length
    · rw [if_pos before, if_pos (by omega : time + 1 ≤ run.length)]
      exact run.steps time before
    · obtain rfl : time = run.length := by omega
      rw [if_neg before, if_neg (by omega)]
      exact stepEq

section Extend

variable {run : system.Run} {action : Action} {last : State}
variable {stepEq : system.step (run.state run.length) action = some last}

theorem extend_state :
    (run.extend action last stepEq).state
      (run.extend action last stepEq).length = last :=
  if_neg (by simp [extend])

theorem extend_log {Event : Type*} (observe : State → Action → Option Event) :
    (run.extend action last stepEq).log observe 0
        (run.extend action last stepEq).length =
      run.log observe 0 run.length ++
        (observe (run.state run.length) action).toList := by
  have before : (run.extend action last stepEq).log observe 0 run.length =
      run.log observe 0 run.length := by
    rw [log, log]
    apply List.filterMap_congr
    intro time mem
    have timeLt : time < run.length := by
      simpa using mem
    simp [extend, timeLt, Nat.le_of_lt timeLt]
  have lastStep : observe ((run.extend action last stepEq).state run.length)
      ((run.extend action last stepEq).action run.length) =
        observe (run.state run.length) action := by
    simp [extend]
  have lengthEq : (run.extend action last stepEq).length = run.length + 1 :=
    rfl
  rw [lengthEq, log_next, before, lastStep]

/-- Where every step decreases a weight, a run goes on until it is stuck. -/
theorem exists_stuck_from (weight : State → Nat)
    (decreases : ∀ state action successor,
      system.step state action = some successor →
        weight successor < weight state) (run : system.Run) :
    ∃ longer : system.Run, ∀ action,
      system.step (longer.state longer.length) action = none := by
  induction remaining : weight (run.state run.length) using
    Nat.strongRecOn generalizing run with
  | ind remaining ih =>
      by_cases stuck : ∀ action,
          system.step (run.state run.length) action = none
      · exact ⟨run, stuck⟩
      · obtain ⟨action, moves⟩ := not_forall.mp stuck
        obtain ⟨last, stepEq⟩ := Option.ne_none_iff_exists'.mp moves
        have lighter := decreases _ _ _ stepEq
        refine ih _ ?_ (run.extend action last stepEq) rfl
        rwa [extend_state, ← remaining]

theorem exists_stuck [Inhabited Action] (weight : State → Nat)
    (decreases : ∀ state action successor,
      system.step state action = some successor →
        weight successor < weight state) {first : State}
    (isInitial : system.initial first) :
    ∃ run : system.Run, ∀ action,
      system.step (run.state run.length) action = none :=
  exists_stuck_from weight decreases
    { length := 0
      state := fun _ => first
      action := fun _ => default
      starts := isInitial
      steps := fun _ timeLt => absurd timeLt (Nat.not_lt_zero _) }

end Extend

/-- A run of another system, whose states are read off those of this run. -/
@[simps]
def map {State' Action' : Type*} {other : TransitionSystem State' Action'}
    (run : system.Run) (view : State → State') (label : Action → Action')
    (starts : other.initial (view (run.state 0)))
    (steps : ∀ time < run.length, other.step (view (run.state time))
      (label (run.action time)) = some (view (run.state (time + 1)))) :
    other.Run where
  length := run.length
  state time := view (run.state time)
  action time := label (run.action time)
  starts := starts
  steps := steps

/-- The run that performs a list of enabled actions. -/
def ofActions [Inhabited Action] (first : State)
    (isInitial : system.initial first) (actions : List Action)
    (enabled : (system.exec first actions).isSome) : system.Run where
  length := actions.length
  state time := (system.exec first (actions.take time)).getD first
  action time := actions[time]?.getD default
  starts := isInitial
  steps := by
    intro time timeLt
    have splitEq : actions.take time ++
        actions[time] :: actions.drop (time + 1) = actions := by
      rw [← List.drop_eq_getElem_cons timeLt, List.take_append_drop]
    have restSome : ((system.exec first (actions.take time)).bind fun middle =>
        (system.step middle actions[time]).bind fun successor =>
          system.exec successor (actions.drop (time + 1))).isSome := by
      have whole := enabled
      rw [← splitEq, exec_append] at whole
      exact whole
    have takeSucc : actions.take (time + 1) =
        actions.take time ++ [actions[time]] :=
      List.take_succ_eq_append_getElem timeLt
    rw [takeSucc, exec_append, List.getElem?_eq_getElem timeLt]
    cases reached : system.exec first (actions.take time) with
    | none => simp [reached] at restSome
    | some middle =>
        cases stepped : system.step middle actions[time] with
        | none => simp [reached, stepped] at restSome
        | some successor => simp [exec, stepped]

end Run

/-! The agents of concrete runs are numbered.  Their numerals hold no proof, so
that they are the same terms in every module. -/

instance (priority := 2000) agentOfNat {count index : Nat} :
    OfNat (Fin (count + 1)) index :=
  ⟨Fin.ofNat (count + 1) index⟩

instance (priority := 2000) agentInhabited {count : Nat} :
    Inhabited (Fin (count + 1)) :=
  ⟨Fin.ofNat (count + 1) 0⟩

end TransitionSystem

end CoContext
