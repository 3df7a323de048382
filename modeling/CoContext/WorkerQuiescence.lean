import CoContext.WorkerBlocking
import CoContext.WorkerTracking

/-!
# When a lone worker stops

A lone worker sets `will_stop` behind a second poll that found nothing while
`requests_to_reap` is zero.  No coroutine waits for I/O then, and a worker that
has nothing left to do stops in its next iteration.

An I/O that is kept and completes before it is awaited makes a null handle
ready.  The worker never gets behind that handle, so that it does not stop
either.
-/

namespace CoContext.Worker

open Request TransitionSystem

variable {Coro Info : Type*}

section Positions

/-- The coroutines only await their I/O, yield and spawn.  Nobody calls
`can_stop`, and the kernel consumes all entries and skips the completions that
it is to skip. -/
def State.awaitsAll (s : State Coro Info) : Action Coro Info → Bool
  | .detach _ | .send _ | .receive _ | .canStop => false
  | .enter consumed => s.consumesAll (.enter consumed)
  | .complete chain outcome => s.quietSkips (.complete chain outcome)
  | .work | .await _ | .create _ | .awaitKept _ | .yield | .spawn _ | .block
  | .interrupt | .deinit => true

/-- What the position of the loop says about the queues and the counters. -/
def State.Placed (s : State Coro Info) : Prop :=
  match s.pc with
  | .schedule num | .running _ num => num ≤ s.reapSwap.length
  | .submitAndWait _ | .waiting => s.requestsToSubmit ≠ 0
  | .waitUring => 0 < s.requestsToReap ∧ s.reapSwap = []
  | .pollCompletion false 0 => s.rings.cq ≠ []
  | .badPath | .pollCompletion true 0 | .isNotOver 0 => s.reapSwap = []
  | .stopped => s.willStop = true
  | .loop | .pollSubmission | .completionPart | .pollCompletion _ _
  | .isFastPath _ | .isNotOver _ => True

/-- A lone worker whose loop is over once it is to stop. -/
structure Alone (s : State Coro Info) : Prop where
  readyCount : s.readyCount = 1
  stops : s.willStop = true → s.pc = .loop ∨ s.pc = .stopped
  placed : s.Placed

namespace Alone

variable {s s' : State Coro Info}

/-- A step that does not move the worker. -/
theorem stays (alone : Alone s) (pc : s'.pc = s.pc)
    (readyCount : s'.readyCount = s.readyCount)
    (willStop : s'.willStop = s.willStop)
    (reap : s'.requestsToReap = s.requestsToReap)
    (submit : s'.requestsToSubmit = s.requestsToSubmit)
    (reapSwap : s'.reapSwap = s.reapSwap)
    (cq : s.rings.cq ≠ [] → s'.rings.cq ≠ []) : Alone s' where
  readyCount := readyCount.trans alone.readyCount
  stops := by
    rw [willStop, pc]
    exact alone.stops
  placed := by
    have placed := alone.placed
    unfold State.Placed at placed ⊢
    rw [pc, reap, submit, reapSwap, willStop]
    split at placed <;> first | exact placed | exact cq placed

/-- A step of the running coroutine, which makes others ready. -/
theorem runs (alone : Alone s) {coro : Coro} {num : Nat}
    (pc : s.pc = .running coro num)
    (readyCount : s'.readyCount = s.readyCount)
    (willStop : s'.willStop = s.willStop)
    (reapSwap : ∃ more, s'.reapSwap = s.reapSwap ++ more)
    (pcEq : s'.pc = .running coro num ∨ s'.pc = .schedule num) :
    Alone s' := by
  have placed := alone.placed
  have goesOn : s.willStop ≠ true := fun stops => by
    simpa [pc] using alone.stops stops
  obtain ⟨more, reapSwapEq⟩ := reapSwap
  rw [State.Placed, pc] at placed
  refine ⟨readyCount.trans alone.readyCount, ?_, ?_⟩
  · rw [willStop]
    exact fun stops => absurd stops goesOn
  · have longer : num ≤ s'.reapSwap.length := by
      rw [reapSwapEq, List.length_append]
      omega
    unfold State.Placed
    rcases pcEq with isPc | isPc <;> simpa [isPc] using longer

theorem control (alone : Alone s) {pc : Pc Coro} (control : Control s pc) :
    Alone { s with pc } := by
  have placed := alone.placed
  have stops := alone.stops
  have readyCount := alone.readyCount
  refine ⟨readyCount, ?_, ?_⟩
  · cases control with
    | stop _ _ => exact fun _ => .inr rfl
    | doWorkerPart pc goesOn => exact fun stops => by simp [goesOn] at stops
    | fastPath _ _ => exact fun _ => .inl rfl
    | doSubmissionPart pc | nothingToSubmit pc _ | submitAndWait pc _
    | nothingToPeek pc _ | peeked pc _ | polled pc _ | polledAgain pc _
    | badPath pc _ _ | waitUring pc _ _ | pollAgain pc _ | waited pc =>
        exact fun willStop => by simpa [pc] using stops willStop
  · cases control with
    | stop _ willStop => exact willStop
    | doSubmissionPart _ | nothingToSubmit _ _
    | nothingToPeek _ _ | polled _ _ | fastPath _ _ => trivial
    | peeked _ notEmpty => exact notEmpty
    | doWorkerPart _ _ => exact Nat.le_refl _
    | submitAndWait _ notZero => exact notZero
    | badPath _ _ isEmpty => exact isEmpty
    | waitUring pc _ reaps =>
        rw [State.Placed, pc] at placed
        have reaping : 0 < s.requestsToReap := by omega
        exact ⟨reaping, placed⟩
    | pollAgain pc _ =>
        rw [State.Placed, pc] at placed
        exact placed
    | waited pc =>
        rw [State.Placed, pc] at placed
        exact placed.2
    | @polledAgain handledNum pc _ =>
        rw [State.Placed, pc] at placed
        cases handledNum with
        | zero => exact placed
        | succ _ => trivial

end Alone

variable [DecidableEq Coro] [DecidableEq Info]

omit [DecidableEq Info] in
theorem forwardTask_extends (s : State Coro Info) (handle : Option Coro) :
    (s.forwardTask handle).reapSwap = s.reapSwap ++ [handle] := by
  cases handle <;> rfl

omit [DecidableEq Info] in
@[simp]
theorem forwardTask_willStop (s : State Coro Info) (handle : Option Coro) :
    (s.forwardTask handle).willStop = s.willStop := by
  cases handle <;> rfl

@[simp]
theorem handleCqEntry_willStop (s : State Coro Info) (cqe : Cqe Coro Info) :
    (s.handleCqEntry cqe).willStop = s.willStop := by
  unfold State.handleCqEntry
  cases cqe.userData <;> simp [State.storeResult]

theorem handleCqEntry_extends (s : State Coro Info) (cqe : Cqe Coro Info) :
    ∃ more, (s.handleCqEntry cqe).reapSwap = s.reapSwap ++ more := by
  unfold State.handleCqEntry
  cases cqe.userData with
  | nop | taskInfoLinkSqe _ => exact ⟨[], (List.append_nil _).symm⟩
  | taskInfo _ | coroutineHandle _ | msgRing _ =>
      exact ⟨_, forwardTask_extends _ _⟩

@[simp]
theorem resume_willStop (s : State Coro Info) (coro : Coro) :
    (s.resume coro).willStop = s.willStop := by
  unfold State.resume
  split <;> rfl

theorem Alone.step {s s' : State Coro Info} {action : Action Coro Info}
    (alone : Alone s) (awaits : s.awaitsAll action = true)
    (transition : Transition s action s') : Alone s' := by
  have placed := alone.placed
  have stops := alone.stops
  have readyCount := alone.readyCount
  cases transition with
  | control control => exact alone.control control
  | interrupt pc => exact alone.control (.waited pc)
  | schedule pc queue =>
      refine ⟨by simpa using readyCount, ?_, ?_⟩
      · simpa [pc] using stops
      · rw [State.Placed, pc, queue] at placed
        exact Nat.le_of_succ_le_succ placed
  | submitted pc _ =>
      exact ⟨readyCount, by simpa [pc] using stops, trivial⟩
  | @handle badPath handledNum _ _ pc _ =>
      refine ⟨by simpa using readyCount, by simpa [pc] using stops, ?_⟩
      cases badPath <;> trivial
  | isNotOver _ => exact ⟨readyCount, fun _ => .inl rfl, trivial⟩
  | await pc _ | awaitKept pc _ _ _ | block pc =>
      exact alone.runs pc rfl rfl ⟨[], (List.append_nil _).symm⟩ (.inr rfl)
  | create pc _ =>
      exact alone.runs pc rfl rfl ⟨[], (List.append_nil _).symm⟩ (.inl pc)
  | yield pc => exact alone.runs pc rfl rfl ⟨_, rfl⟩ (.inr rfl)
  | spawn pc _ => exact alone.runs pc rfl rfl ⟨_, rfl⟩ (.inl pc)
  | @enter willWait _ pc _ _ =>
      rw [State.Placed, pc] at placed
      cases willWait with
      | true =>
          exact ⟨readyCount, by simpa [State.enter, pc] using stops, placed⟩
      | false =>
          exact ⟨readyCount, by simpa [State.enter, pc] using stops, trivial⟩
  | complete completeEq _ _ =>
      refine alone.stays rfl rfl rfl rfl rfl rfl fun notEmpty => ?_
      obtain ⟨_, _, _, _, rfl⟩ := Rings.complete_eq_some completeEq
      simp [notEmpty]
  | detach _ _ | sendSelf _ | send _ _ | receive _ | canStop =>
      simp [State.awaitsAll] at awaits
  | deinit isMore => omega

end Positions

section NullHandles

/-- The worker will come to a null handle before it polls again. -/
def State.Nulled (s : State Coro Info) : Prop :=
  match s.pc with
  | .pollCompletion _ handledNum | .isFastPath handledNum
  | .isNotOver handledNum => handledNum ≠ 0 ∧ none ∈ s.reapSwap
  | .loop => s.willStop = false ∧ none ∈ s.reapSwap
  | .schedule num | .running _ num => none ∈ s.reapSwap.take num
  | .pollSubmission | .submitAndWait _ | .waiting | .completionPart | .badPath
  | .waitUring | .stopped => False

variable {s s' : State Coro Info}

theorem Nulled.runs (nulled : s.Nulled) {coro : Coro} {num : Nat}
    (pc : s.pc = .running coro num)
    (reapSwap : ∃ more, s'.reapSwap = s.reapSwap ++ more)
    (pcEq : s'.pc = .running coro num ∨ s'.pc = .schedule num) :
    s'.Nulled := by
  obtain ⟨more, reapSwapEq⟩ := reapSwap
  rw [State.Nulled, pc] at nulled
  have stillAhead : none ∈ s'.reapSwap.take num := by
    rw [reapSwapEq, List.take_append]
    exact List.mem_append_left _ nulled
  unfold State.Nulled
  rcases pcEq with isPc | isPc <;> simpa only [isPc] using stillAhead

theorem Nulled.control (nulled : s.Nulled) (alone : Alone s) {pc : Pc Coro}
    (control : Control s pc) : State.Nulled { s with pc } := by
  unfold State.Nulled at nulled
  cases control with
  | stop pc stops => simp [pc, stops] at nulled
  | doWorkerPart pc _ =>
      rw [pc] at nulled
      simpa [State.Nulled] using nulled.2
  | polled pc _ | polledAgain pc _ =>
      rw [pc] at nulled
      exact nulled
  | fastPath pc _ =>
      rw [pc] at nulled
      have stops := alone.stops
      exact ⟨by simpa [pc] using stops, nulled.2⟩
  | doSubmissionPart pc | nothingToSubmit pc _ | submitAndWait pc _
  | nothingToPeek pc _ | peeked pc _ | badPath pc _ _ | waitUring pc _ _
  | pollAgain pc _ | waited pc => simp [pc] at nulled

variable [DecidableEq Coro] [DecidableEq Info]

theorem Nulled.step {action : Action Coro Info} (nulled : s.Nulled)
    (alone : Alone s) (awaits : s.awaitsAll action = true)
    (transition : Transition s action s') : s'.Nulled := by
  have position := nulled
  unfold State.Nulled at position
  cases transition with
  | control control => exact Nulled.control nulled alone control
  | interrupt pc | submitted pc _ | enter pc _ _ => simp [pc] at position
  | schedule pc queue => simpa [State.Nulled, pc, queue] using position
  | @handle _ _ cqe _ pc _ =>
      obtain ⟨more, reapSwap⟩ := handleCqEntry_extends s cqe
      rw [pc] at position
      refine ⟨Nat.succ_ne_zero _, ?_⟩
      rw [reapSwap]
      exact List.mem_append_left _ position.2
  | isNotOver pc =>
      have stops := alone.stops
      rw [pc] at position
      refine ⟨?_, position.2⟩
      simpa [pc, position.1] using stops
  | await pc _ | awaitKept pc _ _ _ | block pc =>
      exact Nulled.runs nulled pc ⟨[], (List.append_nil _).symm⟩ (.inr rfl)
  | create pc _ =>
      exact Nulled.runs nulled pc ⟨[], (List.append_nil _).symm⟩ (.inl pc)
  | yield pc => exact Nulled.runs nulled pc ⟨_, rfl⟩ (.inr rfl)
  | spawn pc _ => exact Nulled.runs nulled pc ⟨_, rfl⟩ (.inl pc)
  | complete _ _ _ | deinit _ => exact nulled
  | detach _ _ | sendSelf _ | send _ _ | receive _ | canStop =>
      simp [State.awaitsAll] at awaits

/-- The completion of an I/O that was not awaited yet forwards a null
handle. -/
theorem nulled_of_kept {badPath : Bool} {handledNum : Nat}
    {cqe : Cqe Coro Info} {info : Info} (data : cqe.userData = .taskInfo info)
    (handle : s.handle info = none) :
    State.Nulled { s.handleCqEntry cqe with
      pc := .pollCompletion badPath (handledNum + 1) } := by
  refine ⟨Nat.succ_ne_zero _, ?_⟩
  have handleEq : (s.info info).bind TaskInfo.handle = none := handle
  simp [State.handleCqEntry, data, State.handle, handleEq, State.forwardTask]

end NullHandles

section LastIteration

/-- Nothing is left that the worker could handle. -/
structure State.Drained (s : State Coro Info) : Prop where
  reapSwap : s.reapSwap = []
  requestsToSubmit : s.requestsToSubmit = 0
  requestsToReap : s.requestsToReap = 0
  cq : s.rings.cq = []

/-- The steps of a drained worker until it has stopped. -/
def State.stepsToStop (s : State Coro Info) : Option Nat :=
  match s.pc with
  | .loop => some (if s.willStop then 1 else 9)
  | .schedule 0 => some 8
  | .pollSubmission => some 7
  | .completionPart => some 6
  | .isFastPath 0 => some 5
  | .badPath => some 4
  | .pollCompletion true 0 => some 3
  | .isNotOver 0 => some 2
  | .stopped => some 0
  -- it has handled completions and will go round once more
  | .pollCompletion _ (_ + 1) => some 11
  | .isFastPath (_ + 1) | .isNotOver (_ + 1) => some 10
  | .pollCompletion false 0 | .schedule (_ + 1) | .running ..
  | .submitAndWait _ | .waiting | .waitUring => none

/-- What a worker with nothing left to do goes through, from the top of its
loop on. -/
def lastIteration : List (Pc Coro × Bool) :=
  [(.loop, false), (.schedule 0, false), (.pollSubmission, false),
    (.completionPart, false), (.isFastPath 0, false), (.badPath, false),
    (.pollCompletion true 0, false), (.isNotOver 0, false), (.loop, true),
    (.stopped, true)]

/-- A drained worker, for which no request will post a completion. -/
structure Draining (s : State Coro Info) (steps : Nat) : Prop where
  drained : s.Drained
  silent : awaited s.rings.inFlight.flatten = []
  stepsToStop : s.stepsToStop = some steps

variable {s s' : State Coro Info}

theorem Draining.control (alone : Alone s) {steps : Nat}
    (draining : Draining s steps) {pc : Pc Coro} (control : Control s pc) :
    ∃ rest, steps = rest + 1 ∧ Draining { s with pc } rest := by
  have stops := alone.stops
  have left := draining.stepsToStop
  have keeps : ∀ rest, State.stepsToStop { s with pc } = some rest →
      steps = rest + 1 →
      ∃ rest, steps = rest + 1 ∧ Draining { s with pc } rest := by
    intro rest restEq stepsEq
    exact ⟨rest, stepsEq, ⟨draining.drained.1, draining.drained.2,
      draining.drained.3, draining.drained.4⟩, draining.silent, restEq⟩
  unfold State.stepsToStop at left
  cases control with
  | stop pc willStop =>
      simp only [pc, willStop, if_true, Option.some.injEq] at left
      exact keeps 0 rfl left.symm
  | doWorkerPart pc goesOn =>
      simp only [pc, goesOn, Bool.false_eq_true, if_false,
        Option.some.injEq] at left
      refine keeps 8 ?_ left.symm
      simp [draining.drained.reapSwap, State.stepsToStop]
  | doSubmissionPart pc =>
      simp only [pc, Option.some.injEq] at left
      exact keeps 7 rfl left.symm
  | nothingToSubmit pc _ =>
      simp only [pc, Option.some.injEq] at left
      exact keeps 6 rfl left.symm
  | submitAndWait pc notZero =>
      exact absurd draining.drained.requestsToSubmit notZero
  | nothingToPeek pc _ =>
      simp only [pc, Option.some.injEq] at left
      exact keeps 5 rfl left.symm
  | peeked pc notEmpty => exact absurd draining.drained.cq notEmpty
  | @polled handledNum pc _ =>
      cases handledNum with
      | zero => simp [pc] at left
      | succ _ =>
          simp only [pc, Option.some.injEq] at left
          exact keeps 10 rfl left.symm
  | @polledAgain handledNum pc _ =>
      cases handledNum with
      | zero =>
          simp only [pc, Option.some.injEq] at left
          exact keeps 2 rfl left.symm
      | succ _ =>
          simp only [pc, Option.some.injEq] at left
          exact keeps 10 rfl left.symm
  | @fastPath handledNum pc isFast =>
      have goesOn : s.willStop = false := by simpa [pc] using stops
      cases handledNum with
      | zero =>
          simp [draining.drained.reapSwap,
            draining.drained.requestsToSubmit] at isFast
      | succ _ =>
          simp only [pc, Option.some.injEq] at left
          refine keeps 9 ?_ left.symm
          simp [State.stepsToStop, goesOn]
  | badPath pc _ _ =>
      simp only [pc, Option.some.injEq] at left
      exact keeps 4 rfl left.symm
  | waitUring pc _ reaps =>
      have readyCount := alone.readyCount
      have nothing := draining.drained.requestsToReap
      omega
  | pollAgain pc _ =>
      simp only [pc, Option.some.injEq] at left
      exact keeps 3 rfl left.symm
  | waited pc => simp [pc] at left

/-- A drained worker has a next step until it has stopped. -/
theorem Draining.enabled [DecidableEq Coro] [DecidableEq Info]
    {steps : Nat} (draining : Draining s steps) (runs : s.pc ≠ .stopped) :
    s.work.isSome := by
  have left := draining.stepsToStop
  unfold State.stepsToStop at left
  have isEmpty := draining.drained.cq
  unfold State.work
  cases pc : s.pc with
  | schedule num =>
      cases num with
      | zero => rfl
      | succ num => simp [pc] at left
  | stopped => exact absurd pc runs
  | running _ _ | submitAndWait _ | waiting | waitUring => simp [pc] at left
  | pollCompletion _ _ => simp [isEmpty]
  | loop | pollSubmission | completionPart | isFastPath _ | badPath
  | isNotOver _ => rfl

/-- The requests that are left complete in silence. -/
theorem Draining.complete {steps chain : Nat} {outcome : Outcome}
    {sqe : Sqe Coro Info} {rings : Rings (UserData Coro Info)}
    (draining : Draining s steps)
    (completeEq : s.rings.complete chain outcome = some (sqe, rings))
    (quiet : s.quietSkips (.complete chain outcome) = true) :
    rings.cq = [] ∧ awaited rings.inFlight.flatten = [] := by
  have silent := draining.silent
  simp only [State.quietSkips, completeEq] at quiet
  obtain ⟨before, rest, after, flightEq, rfl⟩ :=
    Rings.complete_eq_some completeEq
  simp only [flightEq, List.flatten_append, List.flatten_cons, awaited_append,
    List.append_eq_nil_iff] at silent ⊢
  rw [awaited_cons, List.append_eq_nil_iff] at silent
  obtain ⟨beforeSilent, ⟨isSilent, restSilent⟩, afterSilent⟩ := silent
  refine ⟨⟨draining.drained.cq, ?_⟩, beforeSilent, restSilent, afterSilent⟩
  cases skips : sqe.skipSuccess with
  | false => simp [awaited_of_not_skips skips] at isSilent
  | true =>
      have notPosted : sqe.posts outcome = false := by simpa [skips] using quiet
      simp [notPosted]

/-- The steps of the worker, and not those of the kernel. -/
def State.works (_ : State Coro Info) : Action Coro Info → Option Unit
  | .work => some ()
  | _ => none

variable [DecidableEq Coro] [DecidableEq Info]

theorem Draining.step {steps : Nat} {action : Action Coro Info}
    (alone : Alone s) (draining : Draining s steps)
    (awaits : s.awaitsAll action = true)
    (transition : Transition s action s') :
    ∃ rest, Draining s' rest ∧
      steps = rest + (s.works action).toList.length := by
  have left := draining.stepsToStop
  have readyCount := alone.readyCount
  unfold State.stepsToStop at left
  cases transition with
  | control control =>
      obtain ⟨rest, stepsEq, restDraining⟩ := draining.control alone control
      exact ⟨rest, restDraining, stepsEq⟩
  | schedule _ queue => simp [draining.drained.reapSwap] at queue
  | handle _ front => simp [draining.drained.cq] at front
  | @isNotOver handledNum pc =>
      have stops := alone.stops
      have goesOn : s.willStop = false := by simpa [pc] using stops
      refine ⟨if handledNum = 0 then 1 else 9, ⟨⟨draining.drained.1,
        draining.drained.2, draining.drained.3, draining.drained.4⟩,
        draining.silent, ?_⟩, ?_⟩
      · simp [State.stepsToStop, goesOn, readyCount,
          draining.drained.requestsToReap]
      · cases handledNum with
        | zero =>
            simp only [pc, Option.some.injEq] at left
            exact left.symm
        | succ _ =>
            simp only [pc, Option.some.injEq] at left
            exact left.symm
  | complete completeEq _ _ =>
      obtain ⟨cq, silent⟩ := draining.complete completeEq awaits
      exact ⟨steps, ⟨⟨draining.drained.1, draining.drained.2,
        draining.drained.3, cq⟩, silent, draining.stepsToStop⟩, rfl⟩
  | submitted pc _ | await pc _ | create pc _ | awaitKept pc _ _ _ | yield pc
  | spawn pc _ | block pc | enter pc _ _ | interrupt pc => simp [pc] at left
  | detach _ _ | sendSelf _ | send _ _ | receive _ | canStop =>
      simp [State.awaitsAll] at awaits
  | deinit isMore => omega

omit [DecidableEq Coro] [DecidableEq Info] in
/-- The position of a drained worker in its last iteration. -/
theorem Draining.position {steps : Nat} (alone : Alone s)
    (draining : Draining s steps) (isLast : steps ≤ 9) :
    lastIteration[9 - steps]? = some (s.pc, s.willStop) := by
  have left := draining.stepsToStop
  have stops := alone.stops
  unfold State.stepsToStop at left
  cases pc : s.pc with
  | loop =>
      cases willStop : s.willStop <;>
        simp only [pc, willStop, Bool.false_eq_true, if_true, if_false,
          Option.some.injEq] at left <;> rw [← left] <;> rfl
  | stopped =>
      have placed := alone.placed
      rw [State.Placed, pc] at placed
      simp only [pc, Option.some.injEq] at left
      rw [placed, ← left]
      rfl
  | pollSubmission | completionPart | badPath =>
      simp only [pc, Option.some.injEq] at left
      rw [pc] at stops
      rw [show s.willStop = false by simpa using stops, ← left]
      rfl
  | schedule num =>
      rw [pc] at stops
      cases num with
      | zero =>
          simp only [pc, Option.some.injEq] at left
          rw [show s.willStop = false by simpa using stops, ← left]
          rfl
      | succ num => simp [pc] at left
  | isFastPath num | isNotOver num =>
      rw [pc] at stops
      cases num with
      | zero =>
          simp only [pc, Option.some.injEq] at left
          rw [show s.willStop = false by simpa using stops, ← left]
          rfl
      | succ num =>
          simp only [pc, Option.some.injEq] at left
          omega
  | pollCompletion badPath num =>
      rw [pc] at stops
      cases num with
      | zero =>
          cases badPath <;>
            simp only [pc, Option.some.injEq, reduceCtorEq] at left
          rw [show s.willStop = false by simpa using stops, ← left]
          rfl
      | succ num =>
          simp only [pc, Option.some.injEq] at left
          omega
  | running _ _ | submitAndWait _ | waiting | waitUring => simp [pc] at left

end LastIteration

section Runs

variable [DecidableEq Coro] [DecidableEq Info]

omit [DecidableEq Coro] [DecidableEq Info] in
theorem quietSkips_of_awaitsAll {s : State Coro Info}
    {action : Action Coro Info} (awaits : s.awaitsAll action = true) :
    s.quietSkips action = true := by
  cases action <;> first | rfl | exact awaits

omit [DecidableEq Coro] [DecidableEq Info] in
theorem consumesAll_of_awaitsAll {s : State Coro Info}
    {action : Action Coro Info} (awaits : s.awaitsAll action = true) :
    s.consumesAll action = true := by
  cases action <;> first | rfl | exact awaits

omit [DecidableEq Coro] [DecidableEq Info] in
theorem quietIo_of_quietSkips {s : State Coro Info}
    {action : Action Coro Info} (quiet : s.quietSkips action = true) :
    s.quietIo action = true := by
  cases action with
  | complete chain outcome =>
      simp only [State.quietSkips, State.quietIo] at quiet ⊢
      split at quiet <;> simp_all
  | _ => rfl

theorem alone_of_run {run : (system Coro Info).Run}
    (alone : (run.state 0).readyCount = 1)
    (awaits : run.Guarded fun s action => s.awaitsAll action = true)
    {time : Nat} (timeLe : time ≤ run.length) : Alone (run.state time) := by
  induction time with
  | zero =>
      obtain ⟨coros, readyCount, _, _, startEq⟩ := run.starts
      refine ⟨alone, ?_, ?_⟩ <;> rw [startEq]
      · simp [State.new]
      · trivial
  | succ time ih =>
      exact (ih (by omega)).step (awaits time timeLe)
        (transition_of_step (run.steps time timeLe))

/-- As long as no null handle is ready, each coroutine that awaits I/O is owed
its completion. -/
theorem tracked_or_nulled {run : (system Coro Info).Run}
    (alone : (run.state 0).readyCount = 1)
    (awaits : run.Guarded fun s action => s.awaitsAll action = true)
    {time : Nat} (timeLe : time ≤ run.length) :
    Tracked (run.state time) ∨ (run.state time).Nulled := by
  induction time with
  | zero =>
      obtain ⟨coros, readyCount, nodup, _, startEq⟩ := run.starts
      rw [startEq]
      exact .inl (tracked_new nodup readyCount)
  | succ time ih =>
      have stepEq := run.steps time timeLe
      have transition := transition_of_step stepEq
      have quiet := quietIo_of_quietSkips
        (quietSkips_of_awaitsAll (awaits time timeLe))
      rcases ih (by omega) with tracked | nulled
      · by_cases first :
            (run.state time).awaitedFirst (run.action time) = true
        · exact .inl (tracked.step quiet first transition)
        · obtain ⟨badPath, handledNum, cqe, rest, info, record, isWork, pc,
            front, data, isRecord, isKept⟩ := exists_kept first
          have handle := kept_handle run (Nat.le_of_lt timeLe) info record
            isRecord isKept
          rw [isWork] at stepEq
          simp only [system, step, State.work, pc, front] at stepEq
          rw [← Option.some.inj stepEq]
          exact .inr (nulled_of_kept data (by simp [State.handle, isRecord,
            handle]))
      · exact .inr (Nulled.step nulled
          (alone_of_run alone awaits (Nat.le_of_lt timeLe))
          (awaits time timeLe) transition)

omit [DecidableEq Coro] [DecidableEq Info] in
/-- Data that is still to come back keeps `requests_to_reap` from zero. -/
theorem expected_pos {s : State Coro Info} (tagged : Tagged s) {info : Info}
    (isOutstanding : .taskInfo info ∈ s.rings.outstanding) :
    0 < s.rings.expected := by
  simp only [Rings.outstanding, List.mem_append, List.mem_map] at isOutstanding
  unfold Rings.expected
  rcases isOutstanding with ⟨cqe, inCq, data⟩ | inFlight | inSq
  · have own := tagged.cq cqe inCq
    rw [data] at own
    have counted : cqe ∈ s.rings.cq.filter fun cqe => !cqe.foreign :=
      List.mem_filter.mpr ⟨inCq, by rw [own]; rfl⟩
    have positive := List.length_pos_of_mem counted
    omega
  · have positive := List.length_pos_of_mem inFlight
    omega
  · have positive := List.length_pos_of_mem inSq
    omega

/-- The ready queue is empty, no entry waits for submission and no coroutine
waits for I/O. -/
structure State.Quiescent (s : State Coro Info) : Prop where
  reapSwap : s.reapSwap = []
  sq : s.rings.sq = []
  noneAwaits : ∀ coro await, s.status coro ≠ .awaiting await

/-- The decision to stop. -/
theorem isNotOver_of_stop {s s' : State Coro Info}
    {action : Action Coro Info} (awaits : s.awaitsAll action = true)
    (transition : Transition s action s') (goesOn : s.willStop = false)
    (stops : s'.willStop = true) :
    s.pc = .isNotOver 0 ∧ s.requestsToReap = 0 := by
  cases transition with
  | isNotOver pc =>
      simp only [goesOn, Bool.false_or, decide_eq_true_eq] at stops
      exact ⟨by rw [pc, stops.1], stops.2.2⟩
  | control _ | submitted _ _ | await _ _ | detach _ _ | create _ _
  | awaitKept _ _ _ _ | sendSelf _ | send _ _ | block _ | complete _ _ _
  | receive _ | interrupt _ | deinit _ | schedule _ _ | handle _ _ | yield _
  | spawn _ _ => simp [State.suspend, State.construct, goesOn] at stops
  | @enter willWait _ _ _ _ =>
      cases willWait <;> simp [State.enter, goesOn] at stops
  | canStop => simp [State.awaitsAll] at awaits

theorem quiescent_of_stop {run : (system Coro Info).Run}
    (alone : (run.state 0).readyCount = 1)
    (awaits : run.Guarded fun s action => s.awaitsAll action = true)
    {time : Nat} (timeLt : time < run.length)
    (goesOn : (run.state time).willStop = false)
    (stops : (run.state (time + 1)).willStop = true) :
    (run.state time).Quiescent := by
  have timeLe := Nat.le_of_lt timeLt
  obtain ⟨pc, isZero⟩ := isNotOver_of_stop (awaits time timeLt)
    (transition_of_step (run.steps time timeLt)) goesOn stops
  have reapCount : (run.state time).requestsToReap =
      (run.state time).rings.expected :=
    (run_reap_count run).mpr (fun time timeLt =>
      quietSkips_of_awaitsAll (awaits time timeLt)) time timeLe
  have submitted : Submitted (run.state time) :=
    submitted_of_run (fun time timeLt =>
      consumesAll_of_awaitsAll (awaits time timeLt)) timeLe
  have placed := (alone_of_run alone awaits timeLe).placed
  rw [State.Placed, pc] at placed
  refine ⟨placed, ?_, ?_⟩
  · have count := submitted.count (by simp [pc])
    have offered := submitted.offered (by rw [pc]; trivial)
    exact List.eq_nil_of_length_eq_zero (count.trans offered)
  · intro coro await isAwaiting
    rcases tracked_or_nulled alone awaits timeLe with tracked | nulled
    · have isOwed := tracked.awaiting coro await isAwaiting
      have positive := expected_pos (tagged_of_run run timeLe)
        (List.mem_of_mem_filter isOwed)
      omega
    · simp [State.Nulled, pc] at nulled

/-- Between two states a drained worker takes the steps that it has less. -/
theorem Draining.later {run : (system Coro Info).Run}
    (alone : (run.state 0).readyCount = 1)
    (awaits : run.Guarded fun s action => s.awaitsAll action = true)
    {time later steps : Nat} (draining : Draining (run.state time) steps)
    (timeLe : time ≤ later) (laterLe : later ≤ run.length) :
    ∃ rest, Draining (run.state later) rest ∧
      steps = rest + (run.log State.works time later).length := by
  induction later, timeLe using Nat.le_induction with
  | base => exact ⟨steps, draining, by simp⟩
  | succ later timeLe ih =>
      obtain ⟨before, drainingBefore, stepsEq⟩ := ih (by omega)
      obtain ⟨rest, drainingRest, restEq⟩ := drainingBefore.step
        (alone_of_run alone awaits (Nat.le_of_lt laterLe))
        (awaits later laterLe) (transition_of_step (run.steps later laterLe))
      refine ⟨rest, drainingRest, ?_⟩
      rw [run.log_append timeLe (Nat.le_succ later), List.length_append,
        run.log_single]
      omega

/-- A drained worker goes on to stop, unless a coroutine runs. -/
theorem draining_of_drained {run : (system Coro Info).Run}
    (alone : (run.state 0).readyCount = 1)
    (awaits : run.Guarded fun s action => s.awaitsAll action = true)
    {time : Nat} (timeLe : time ≤ run.length)
    (drained : (run.state time).Drained)
    (noneRuns : ∀ coro, ¬ (run.state time).pc.Runs coro) :
    ∃ steps ≤ 11, Draining (run.state time) steps := by
  have reapCount : (run.state time).requestsToReap =
      (run.state time).rings.expected :=
    (run_reap_count run).mpr (fun time timeLt =>
      quietSkips_of_awaitsAll (awaits time timeLt)) time timeLe
  have silent : awaited (run.state time).rings.inFlight.flatten = [] := by
    apply List.eq_nil_of_length_eq_zero
    have isZero := drained.requestsToReap
    unfold Rings.expected at reapCount
    omega
  have placed := (alone_of_run alone awaits timeLe).placed
  unfold State.Placed at placed
  suffices ∃ steps ≤ 11, (run.state time).stepsToStop = some steps by
    obtain ⟨steps, stepsLe, stepsToStop⟩ := this
    exact ⟨steps, stepsLe, drained, silent, stepsToStop⟩
  unfold State.stepsToStop
  cases pc : (run.state time).pc with
  | loop =>
      refine ⟨_, ?_, rfl⟩
      split <;> omega
  | schedule num =>
      cases num with
      | zero => exact ⟨8, by omega, rfl⟩
      | succ num => simp [pc, drained.reapSwap] at placed
  | running coro num => exact absurd ⟨num, pc⟩ (noneRuns coro)
  | submitAndWait _ | waiting =>
      rw [pc] at placed
      exact absurd drained.requestsToSubmit placed
  | waitUring =>
      rw [pc] at placed
      have isZero := drained.requestsToReap
      omega
  | pollCompletion badPath num =>
      cases num with
      | zero =>
          cases badPath with
          | false =>
              rw [pc] at placed
              exact absurd drained.cq placed
          | true => exact ⟨3, by omega, rfl⟩
      | succ num => exact ⟨11, by omega, by cases badPath <;> rfl⟩
  | isFastPath num | isNotOver num =>
      cases num with
      | zero => exact ⟨_, by omega, rfl⟩
      | succ num => exact ⟨10, by omega, rfl⟩
  | pollSubmission | completionPart | badPath | stopped =>
      exact ⟨_, by omega, rfl⟩

/-- From this time on the worker takes a few steps without ever blocking, and
stops in the iteration that it begins next. -/
structure StopsNext (run : (system Coro Info).Run) (time : Nat) : Prop where
  enabled : ∀ later, time ≤ later → later ≤ run.length →
    (run.state later).pc ≠ .stopped → (run.state later).work.isSome
  bounded : ∀ later, time ≤ later → later ≤ run.length →
    (run.log State.works time later).length ≤ 11
  iteration : ∀ top later, time ≤ top → top ≤ later → later ≤ run.length →
    (run.state top).pc = .loop → (run.state top).willStop = false →
    lastIteration[(run.log State.works top later).length]? =
      some ((run.state later).pc, (run.state later).willStop)

theorem stopsNext_of_drained {run : (system Coro Info).Run}
    (alone : (run.state 0).readyCount = 1)
    (awaits : run.Guarded fun s action => s.awaitsAll action = true)
    {time : Nat} (timeLe : time ≤ run.length)
    (drained : (run.state time).Drained)
    (noneRuns : ∀ coro, ¬ (run.state time).pc.Runs coro) :
    StopsNext run time := by
  obtain ⟨steps, stepsLe, draining⟩ :=
    draining_of_drained alone awaits timeLe drained noneRuns
  refine ⟨?_, ?_, ?_⟩
  · intro later timeLeLater laterLe notStopped
    obtain ⟨rest, drainingLater, _⟩ :=
      draining.later alone awaits timeLeLater laterLe
    exact drainingLater.enabled notStopped
  · intro later timeLeLater laterLe
    obtain ⟨rest, _, stepsEq⟩ :=
      draining.later alone awaits timeLeLater laterLe
    omega
  · intro top later timeLeTop topLe laterLe pc goesOn
    obtain ⟨atTop, drainingTop, _⟩ :=
      draining.later alone awaits timeLeTop (by omega)
    have isNine : atTop = 9 := by
      have left := drainingTop.stepsToStop
      simp only [State.stepsToStop, pc, goesOn, Bool.false_eq_true, if_false,
        Option.some.injEq] at left
      exact left.symm
    obtain ⟨rest, drainingLater, stepsEq⟩ :=
      drainingTop.later alone awaits topLe laterLe
    have position := drainingLater.position
      (alone_of_run alone awaits laterLe) (by omega)
    have worked : (run.log State.works top later).length = 9 - rest := by omega
    rw [worked, position]

/-- A lone worker stops only when nothing is left to do, and then it does. -/
theorem run_stops_at_quiescence (run : (system Coro Info).Run)
    (alone : (run.state 0).readyCount = 1)
    (awaits : run.Guarded fun s action => s.awaitsAll action = true) :
    (∀ time < run.length, (run.state time).willStop = false →
      (run.state (time + 1)).willStop = true →
        (run.state time).Quiescent) ∧
    ∀ time ≤ run.length, (run.state time).Drained →
      (∀ coro, ¬ (run.state time).pc.Runs coro) → StopsNext run time :=
  ⟨fun _ => quiescent_of_stop alone awaits,
    fun _ => stopsNext_of_drained alone awaits⟩

/-- A coroutine awaits an I/O, goes on and finishes. -/
def awaitRun : (system (Fin 2) (Fin 2)).Run :=
  Run.ofActions (State.new (Fin 2) [0] 1) initial_single
    ([.work, .work, .await (.single (.io 0)), .work, .work, .enter 1,
      .complete 0 (.succeeded 5)] ++ List.replicate 7 .work ++ [.block] ++
        List.replicate 8 .work)
    (by decide)

theorem run_stops_at_quiescence_awaiting :
    (awaitRun.state 21).willStop = false ∧
      (awaitRun.state 22).willStop = true ∧ (awaitRun.state 15).Drained ∧
      (∀ time < 23, (awaitRun.state time).willStop = false →
        (awaitRun.state (time + 1)).willStop = true →
          (awaitRun.state time).Quiescent) ∧
      ∀ time ≤ 23, (awaitRun.state time).Drained →
        (∀ coro, ¬ (awaitRun.state time).pc.Runs coro) →
          StopsNext awaitRun time :=
  ⟨by decide, by decide, ⟨by decide, by decide, by decide, by decide⟩,
    run_stops_at_quiescence awaitRun rfl
      (by unfold TransitionSystem.Run.Guarded; decide)⟩

end Runs

end CoContext.Worker
