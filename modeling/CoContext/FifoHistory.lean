import CoContext.TransitionSystem

/-!
# Histories of first-in first-out service

A history records who joined a waiting line, who was served from its front and
who was served without waiting.  It is accepted when every service takes the
front of the line and nobody is served past a non-empty line.  Accepted
histories serve in arrival order and never let a later arrival overtake, and a
transition system that simulates a line has accepted histories only.
-/

namespace CoContext

/-- The observable events of a waiting line. -/
inductive FifoEvent (Client : Type*)
  | enqueued (client : Client)
  | served (client : Client)
  | bypassed (client : Client)
  deriving DecidableEq

namespace FifoEvent

variable {Client : Type*}

/-- The event is admissible for the first line and leaves the second one. -/
def Changes : FifoEvent Client → List Client → List Client → Prop
  | .enqueued client, line, line' => client ∉ line ∧ line' = line ++ [client]
  | .served client, line, line' => line = client :: line'
  | .bypassed _, line, line' => line = [] ∧ line' = []

def arrival? : FifoEvent Client → Option Client
  | .enqueued client => some client
  | .served _ | .bypassed _ => none

def service? : FifoEvent Client → Option Client
  | .served client => some client
  | .enqueued _ | .bypassed _ => none

end FifoEvent

/-- A history leads from one line to another by admissible events. -/
def FifoHistory {Client : Type*} :
    List (FifoEvent Client) → List Client → List Client → Prop
  | [], line, last => line = last
  | event :: events, line, last =>
      ∃ middle, event.Changes line middle ∧ FifoHistory events middle last

namespace FifoHistory

variable {Client : Type*} {line last : List Client}
variable {events : List (FifoEvent Client)}

theorem append_iff {first second : List (FifoEvent Client)} :
    FifoHistory (first ++ second) line last ↔
      ∃ middle, FifoHistory first line middle ∧
        FifoHistory second middle last := by
  induction first generalizing line with
  | nil => simp [FifoHistory]
  | cons event first ih =>
      simp only [List.cons_append, FifoHistory, ih]
      constructor
      · rintro ⟨middle, changes, later, firstPart, secondPart⟩
        exact ⟨later, ⟨middle, changes, firstPart⟩, secondPart⟩
      · rintro ⟨later, ⟨middle, changes, firstPart⟩, secondPart⟩
        exact ⟨middle, changes, later, firstPart, secondPart⟩

@[simp]
theorem nil_iff : FifoHistory [] line last ↔ line = last :=
  Iff.rfl

@[simp]
theorem singleton_iff {event : FifoEvent Client} :
    FifoHistory [event] line last ↔ event.Changes line last := by
  simp [FifoHistory]

/-- Services happen in arrival order: the clients at the start followed by
the arrivals are the clients served followed by the line. -/
theorem arrivals_eq (history : FifoHistory events line last) :
    line ++ events.filterMap FifoEvent.arrival? =
      events.filterMap FifoEvent.service? ++ last := by
  induction events generalizing line with
  | nil =>
      obtain rfl : line = last := history
      simp
  | cons event events ih =>
      obtain ⟨middle, changes, rest⟩ := history
      have restEq := ih rest
      cases event with
      | enqueued client =>
          obtain ⟨-, rfl⟩ := changes
          simpa [List.filterMap_cons, FifoEvent.arrival?,
            FifoEvent.service?] using restEq
      | served client =>
          obtain rfl : line = client :: middle := changes
          simpa [List.filterMap_cons, FifoEvent.arrival?,
            FifoEvent.service?] using restEq
      | bypassed client =>
          obtain ⟨rfl, rfl⟩ := changes
          simpa [List.filterMap_cons, FifoEvent.arrival?,
            FifoEvent.service?] using restEq

/-- While a client stays in the line, only clients in front of it are served
and it stays behind some of them. -/
theorem only_front_served {front back : List Client} {client : Client}
    (history : FifoHistory events (front ++ client :: back) last)
    (unserved : FifoEvent.served client ∉ events) :
    (∃ front' back', last = front' ++ client :: back') ∧
      (∀ other, FifoEvent.bypassed other ∉ events) ∧
      ∀ other, FifoEvent.served other ∈ events → other ∈ front := by
  induction events generalizing front back with
  | nil =>
      obtain rfl : front ++ client :: back = last := history
      exact ⟨⟨front, back, rfl⟩, by simp, by simp⟩
  | cons event events ih =>
      simp only [List.mem_cons, not_or] at unserved
      obtain ⟨middle, changes, rest⟩ := history
      cases event with
      | enqueued other =>
          obtain ⟨-, rfl⟩ := changes
          rw [List.append_assoc, List.cons_append] at rest
          simpa using ih rest unserved.2
      | served other =>
          cases front with
          | nil =>
              obtain ⟨rfl, -⟩ := List.cons.inj changes
              exact absurd rfl unserved.1
          | cons first front =>
              obtain ⟨rfl, rfl⟩ := List.cons.inj changes
              obtain ⟨stays, noBypass, frontServed⟩ := ih rest unserved.2
              refine ⟨stays, by simpa using noBypass, ?_⟩
              intro candidate isServed
              rcases List.mem_cons.mp isServed with now | later
              · obtain rfl : candidate = first := by simpa using now
                exact List.mem_cons_self
              · exact List.mem_cons_of_mem _ (frontServed candidate later)
      | bypassed other => exact absurd changes.1 (by simp)

/-- While a client waits, nobody is served without waiting and nobody who
arrives behind it is served. -/
theorem no_overtaking {before after : List (FifoEvent Client)}
    {client : Client}
    (history : FifoHistory (before ++ .enqueued client :: after) line last)
    (unserved : FifoEvent.served client ∉ after) :
    (∀ other, FifoEvent.bypassed other ∉ after) ∧
      ∀ between later other, after = between ++ .enqueued other :: later →
        FifoEvent.served other ∉ later := by
  obtain ⟨front, -, _, ⟨-, rfl⟩, waiting⟩ := append_iff.mp history
  refine ⟨(only_front_served waiting unserved).2.1, ?_⟩
  rintro between later other rfl isServed
  simp only [List.mem_append, List.mem_cons, not_or] at unserved
  obtain ⟨middle, firstPart, _, ⟨fresh, rfl⟩, laterPart⟩ :=
    append_iff.mp waiting
  obtain ⟨⟨front', back', rfl⟩, -, -⟩ :=
    only_front_served firstPart unserved.1
  rw [List.append_assoc, List.cons_append] at laterPart
  exact fresh (List.mem_append_left _
    ((only_front_served laterPart unserved.2.2).2.2 other isServed))

end FifoHistory

namespace TransitionSystem

variable {State Action Client : Type*}

/-- The states of a system stand for waiting lines, and each step is at most
one admissible event of the line. -/
structure FifoSimulation (system : TransitionSystem State Action)
    (observe : State → Action → Option (FifoEvent Client))
    (relates : State → List Client → Prop) : Prop where
  base : ∀ state, system.initial state → relates state []
  step : ∀ state line action successor, relates state line →
    system.step state action = some successor →
    ∃ line', relates successor line' ∧
      FifoHistory (observe state action).toList line line'

namespace FifoSimulation

variable {system : TransitionSystem State Action}
variable {observe : State → Action → Option (FifoEvent Client)}
variable {relates : State → List Client → Prop}

theorem history (simulation : system.FifoSimulation observe relates)
    (run : system.Run) {time : Nat} (timeLe : time ≤ run.length) :
    ∃ line, relates (run.state time) line ∧
      FifoHistory (run.log observe 0 time) [] line := by
  induction time with
  | zero => exact ⟨[], simulation.base _ run.starts, by simp⟩
  | succ time ih =>
      obtain ⟨line, related, soFar⟩ := ih (by omega)
      obtain ⟨line', related', event⟩ :=
        simulation.step _ _ _ _ related (run.steps time (by omega))
      refine ⟨line', related', ?_⟩
      rw [run.log_append (Nat.zero_le time) (by omega : time ≤ time + 1),
        Run.log_single, FifoHistory.append_iff]
      exact ⟨line, soFar, event⟩

/-- Clients are served in the order of their arrivals. -/
theorem services_prefix (simulation : system.FifoSimulation observe relates)
    (run : system.Run) {time : Nat} (timeLe : time ≤ run.length) :
    (run.log observe 0 time).filterMap FifoEvent.service? <+:
      (run.log observe 0 time).filterMap FifoEvent.arrival? := by
  obtain ⟨line, -, history⟩ := simulation.history run timeLe
  exact ⟨line, history.arrivals_eq.symm⟩

/-- From its arrival until its service, nobody passes a client: nobody is
served without waiting, and nobody who arrives later is served. -/
theorem no_overtaking (simulation : system.FifoSimulation observe relates)
    (run : system.Run) {arrival now : Nat} {client : Client}
    (arrivalLt : arrival < now) (nowLe : now ≤ run.length)
    (arrives : observe (run.state arrival) (run.action arrival) =
      some (.enqueued client))
    (waits : ∀ time, arrival < time → time < now →
      observe (run.state time) (run.action time) ≠ some (.served client)) :
    (∀ time other, arrival < time → time < now →
      observe (run.state time) (run.action time) ≠ some (.bypassed other)) ∧
    ∀ later time other, arrival < later → later < time → time < now →
      observe (run.state later) (run.action later) = some (.enqueued other) →
      observe (run.state time) (run.action time) ≠ some (.served other) := by
  obtain ⟨line, -, history⟩ := simulation.history run nowLe
  rw [run.log_around (Nat.zero_le arrival) arrivalLt arrives] at history
  have unserved : FifoEvent.served client ∉
      run.log observe (arrival + 1) now := by
    rw [run.mem_log]
    rintro ⟨time, arrivalLe, timeLt, served⟩
    exact waits time (by omega) timeLt served
  obtain ⟨noBypass, noOvertaking⟩ := history.no_overtaking unserved
  constructor
  · intro time other arrivalLtTime timeLt bypassed
    exact noBypass other
      (run.mem_log.mpr ⟨time, by omega, timeLt, bypassed⟩)
  · intro later time other arrivalLtLater laterLt timeLt enqueued served
    have afterArrival := run.log_around
      (by omega : arrival + 1 ≤ later) (by omega : later < now) enqueued
    exact noOvertaking _ _ other afterArrival
      (run.mem_log.mpr ⟨time, by omega, timeLt, served⟩)

end FifoSimulation

end TransitionSystem

end CoContext
