import CoContext.TransitionSystem
import Mathlib.Logic.Function.Basic

/-!
# Operations that end with an exception

The agents of a transition system run operations, which lock resources and
change values.  Over such a system, an operation may also throw at certain
points.  Then it is over, and its agent remains where the exception left it.
Every operation has an agent of its own, so an agent whose operation is over
does not act again.
-/

namespace CoContext

/-- How an operation ends for its caller. -/
inductive Unwinding.Outcome
  | returned
  | threw
  | undefined
  deriving DecidableEq

/-- Where the operations of a system may throw, and what they lock and
change. -/
structure Unwinding {State Action : Type*}
    (base : TransitionSystem State Action) (Agent Point Lock : Type*) where
  agent : Action → Agent
  /-- The agent runs no operation. -/
  outside : State → Agent → Bool
  /-- The state in which an exception at a point leaves the system. -/
  unwind : State → Agent → Point → Option State
  outcome : State → Agent → Point → Unwinding.Outcome
  locked : State → Lock → Prop
  owns : State → Agent → Lock → Prop
  sameValues : State → State → Prop
  unwind_cases {state successor : State} {thrower : Agent} {point : Point} :
    unwind state thrower point = some successor → successor = state ∨
      ∃ action, agent action = thrower ∧
        base.step state action = some successor

namespace Unwinding

/-- A state of the system and the outcomes of the operations that are over. -/
structure Outcomes (State Agent : Type*) where
  state : State
  outcome : Agent → Option Outcome

inductive Event (Action Agent Point : Type*)
  | proceed (action : Action)
  | throw (agent : Agent) (point : Point)
  deriving DecidableEq

instance {Action Agent Point : Type*} [Inhabited Action] :
    Inhabited (Event Action Agent Point) :=
  ⟨.proceed default⟩

variable {State Action Agent Point Lock : Type*}
variable {base : TransitionSystem State Action}
variable (unwinding : Unwinding base Agent Point Lock)

def actor : Event Action Agent Point → Agent
  | .proceed action => unwinding.agent action
  | .throw agent _ => agent

variable [DecidableEq Agent]

/-- The state after an operation is or is not over. -/
def finish (s : Outcomes State Agent) (agent : Agent) (successor : State)
    (outcome : Option Outcome) : Outcomes State Agent :=
  ⟨successor, Function.update s.outcome agent outcome⟩

def step (s : Outcomes State Agent) (event : Event Action Agent Point) :
    Option (Outcomes State Agent) :=
  if s.outcome (unwinding.actor event) = none then
    match event with
    | .proceed action =>
        (base.step s.state action).map fun successor =>
          finish s (unwinding.agent action) successor
            (if unwinding.outside successor (unwinding.agent action) then
              some .returned
            else
              none)
    | .throw agent point =>
        (unwinding.unwind s.state agent point).map fun successor =>
          finish s agent successor
            (some (unwinding.outcome s.state agent point))
  else
    none

def system : TransitionSystem (Outcomes State Agent)
    (Event Action Agent Point) where
  initial s := base.initial s.state ∧ s.outcome = fun _ => none
  step := unwinding.step

/-- The operation threw and left everything as if it had not been called: the
caller gets the exception, no step of the operation changed the values, and
each lock that it owned is free or belongs to an operation that goes on. -/
structure Survives (run : unwinding.system.Run) (time : Nat)
    (agent : Agent) : Prop where
  propagates : (run.state (time + 1)).outcome agent = some .threw
  sameValues : ∀ earlier ≤ time,
    unwinding.actor (run.action earlier) = agent →
      unwinding.sameValues (run.state earlier).state
        (run.state (earlier + 1)).state
  free : ∀ lock,
    (∃ earlier ≤ time, unwinding.owns (run.state earlier).state agent lock) →
      unwinding.locked (run.state (time + 1)).state lock →
        ∃ other, (run.state (time + 1)).outcome other = none ∧
          unwinding.owns (run.state (time + 1)).state other lock

section Steps

variable {unwinding}
variable {s s' : Outcomes State Agent} {event : Event Action Agent Point}

/-- What a step does to the outcomes and to the system. -/
theorem step_cases (stepEq : unwinding.step s event = some s') :
    s.outcome (unwinding.actor event) = none ∧
      ∃ successor outcome,
        s' = finish s (unwinding.actor event) successor outcome ∧
          ((∃ action, event = .proceed action ∧
              base.step s.state action = some successor ∧
              (outcome = none ↔ unwinding.outside successor
                (unwinding.actor event) = false)) ∨
            ∃ agent point, event = .throw agent point ∧
              unwinding.unwind s.state agent point = some successor ∧
              outcome = some (unwinding.outcome s.state agent point)) := by
  unfold step at stepEq
  rw [Option.ite_none_right_eq_some] at stepEq
  obtain ⟨running, stepEq⟩ := stepEq
  refine ⟨running, ?_⟩
  cases event with
  | proceed action =>
      obtain ⟨successor, baseEq, rfl⟩ := Option.map_eq_some_iff.mp stepEq
      refine ⟨successor, _, rfl, Or.inl ⟨action, rfl, baseEq, ?_⟩⟩
      simp [actor]
  | throw agent point =>
      obtain ⟨successor, unwindEq, rfl⟩ := Option.map_eq_some_iff.mp stepEq
      exact ⟨successor, _, rfl, Or.inr ⟨agent, point, rfl, unwindEq, rfl⟩⟩

/-- Each step keeps the state of the system or is a step of the system. -/
theorem step_base (stepEq : unwinding.step s event = some s') :
    s'.state = s.state ∨
      ∃ action, unwinding.agent action = unwinding.actor event ∧
        base.step s.state action = some s'.state := by
  obtain ⟨-, successor, outcome, rfl, moved⟩ := step_cases stepEq
  rcases moved with ⟨action, rfl, baseEq, -⟩ |
    ⟨agent, point, rfl, unwindEq, -⟩
  · exact Or.inr ⟨action, rfl, baseEq⟩
  · exact unwinding.unwind_cases unwindEq

/-- An operation that is over remains so. -/
theorem outcome_step (stepEq : unwinding.step s event = some s')
    {agent : Agent} {outcome : Outcome}
    (isOver : s.outcome agent = some outcome) :
    s'.outcome agent = some outcome := by
  obtain ⟨running, successor, ended, rfl, -⟩ := step_cases stepEq
  have isOther : agent ≠ unwinding.actor event := by
    rintro rfl
    rw [running] at isOver
    contradiction
  change Function.update s.outcome _ ended agent = some outcome
  rw [Function.update_of_ne isOther, isOver]

end Steps

section Runs

variable {unwinding}

theorem base_reachable (run : unwinding.system.Run) {time : Nat}
    (timeLe : time ≤ run.length) :
    base.Reachable (run.state time).state := by
  induction time with
  | zero => exact .start run.starts.1
  | succ time ih =>
      have reached := ih (by omega)
      rcases step_base (run.steps time (by omega)) with same |
        ⟨action, -, baseEq⟩
      · rw [same]
        exact reached
      · exact .next reached trivial baseEq

theorem outcome_later (run : unwinding.system.Run) {first last : Nat}
    (firstLe : first ≤ last) (lastLe : last ≤ run.length) {agent : Agent}
    {outcome : Outcome}
    (isOver : (run.state first).outcome agent = some outcome) :
    (run.state last).outcome agent = some outcome := by
  induction last, firstLe using Nat.le_induction with
  | base => exact isOver
  | succ last firstLe ih =>
      exact outcome_step (run.steps last (by omega)) (ih (by omega))

/-- The agent has begun an operation. -/
def Begun (unwinding : Unwinding base Agent Point Lock)
    (s : Outcomes State Agent) (agent : Agent) : Prop :=
  s.outcome agent ≠ none ∨ unwinding.outside s.state agent = false

/-- Other agents do not take an agent out of its operation. -/
def Private (unwinding : Unwinding base Agent Point Lock) : Prop :=
  ∀ state action successor agent,
    base.step state action = some successor →
      agent ≠ unwinding.agent action →
        unwinding.outside state agent = false →
          unwinding.outside successor agent = false

theorem begun_step (isPrivate : unwinding.Private)
    {s s' : Outcomes State Agent} {event : Event Action Agent Point}
    (stepEq : unwinding.step s event = some s') {agent : Agent}
    (begun : unwinding.Begun s agent ∨ unwinding.actor event = agent) :
    unwinding.Begun s' agent := by
  obtain ⟨running, successor, outcome, rfl, moved⟩ := step_cases stepEq
  by_cases acts : agent = unwinding.actor event
  · subst acts
    simp only [Begun, finish, Function.update_self]
    rcases moved with ⟨action, rfl, -, goesOn⟩ | ⟨-, -, -, -, rfl⟩
    · by_cases isOver : outcome = none
      · exact Or.inr (goesOn.mp isOver)
      · exact Or.inl isOver
    · exact Or.inl (by simp)
  · have begun := begun.resolve_right (Ne.symm acts)
    simp only [Begun, finish, Function.update_of_ne acts]
    refine begun.imp_right fun inside => ?_
    rcases step_base stepEq with same | ⟨action, actorEq, baseEq⟩
    · change successor = s.state at same
      rw [same]
      exact inside
    · exact isPrivate _ _ _ _ baseEq (by rwa [actorEq]) inside

/-- An agent that has not begun an operation did not act and was always
outside. -/
theorem untouched (isPrivate : unwinding.Private)
    (run : unwinding.system.Run) {time : Nat} (timeLe : time ≤ run.length)
    {agent : Agent} (notBegun : ¬ unwinding.Begun (run.state time) agent) :
    ∀ earlier ≤ time, ¬ unwinding.Begun (run.state earlier) agent ∧
      (earlier < time → unwinding.actor (run.action earlier) ≠ agent) := by
  have later : ∀ earlier ≤ time, unwinding.Begun (run.state earlier) agent →
      unwinding.Begun (run.state time) agent := by
    intro earlier earlierLe begun
    induction time, earlierLe using Nat.le_induction with
    | base => exact begun
    | succ time earlierLe ih =>
        refine begun_step isPrivate (run.steps time (by omega)) (Or.inl ?_)
        by_contra notYet
        exact notYet (ih (by omega) notYet)
  intro earlier earlierLe
  refine ⟨fun begun => notBegun (later earlier earlierLe begun), ?_⟩
  intro earlierLt acts
  refine notBegun (later (earlier + 1) earlierLt ?_)
  exact begun_step isPrivate (run.steps earlier (by omega)) (Or.inr acts)

/-- An exception before the operation began leaves no trace of it. -/
theorem survives_of_not_begun (isPrivate : unwinding.Private)
    (run : unwinding.system.Run) {time : Nat} (timeLt : time < run.length)
    {agent : Agent} (notBegun : ¬ unwinding.Begun (run.state time) agent)
    (propagates : (run.state (time + 1)).outcome agent = some .threw)
    (same : unwinding.sameValues (run.state time).state
      (run.state (time + 1)).state)
    (ownsNothing : ∀ earlier ≤ time,
      unwinding.outside (run.state earlier).state agent = true →
        ∀ lock, ¬ unwinding.owns (run.state earlier).state agent lock) :
    unwinding.Survives run time agent where
  propagates := propagates
  sameValues earlier earlierLe acts := by
    have before := untouched isPrivate run (by omega) notBegun earlier earlierLe
    obtain rfl : earlier = time := by
      by_contra distinct
      exact before.2 (by omega) acts
    exact same
  free lock := by
    rintro ⟨earlier, earlierLe, owned⟩
    have before := untouched isPrivate run (by omega) notBegun earlier earlierLe
    refine absurd owned (ownsNothing earlier earlierLe ?_ lock)
    simpa [Begun] using fun inside => before.1 (Or.inr inside)

end Runs

end Unwinding

end CoContext
