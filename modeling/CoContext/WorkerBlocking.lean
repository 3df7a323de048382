import CoContext.WorkerAccounting

/-!
# When a lone worker blocks

A lone worker blocks in `submit_and_wait` when it has something to submit and
no coroutine is ready, and in `wait_uring` when `requests_to_reap` is positive.
The second counts only requests that post a completion; the first does not
look at what it submits.
-/

namespace CoContext.Worker

open Request TransitionSystem

variable {Coro Info : Type*}

/-- The worker waits for a completion. -/
def Pc.Blocked : Pc Coro → Prop
  | .waiting | .waitUring => True
  | _ => False

/-- `poll_submission` is not entered with entries to submit, no coroutine ready
and no completion available unless `requests_to_reap` is positive, which is
what `do_completion_part_bad_path` asks for; and the kernel consumes all the
entries that it is offered. -/
def State.submitsAwaited (s : State Coro Info) : Action Coro Info → Bool
  | .work =>
      match s.pc with
      | .pollSubmission =>
          s.requestsToSubmit == 0 || !s.reapSwap.isEmpty ||
            !s.rings.cq.isEmpty || decide (0 < s.requestsToReap)
      | _ => true
  | action => s.consumesAll action

theorem consumesAll_of_submitsAwaited {s : State Coro Info}
    {action : Action Coro Info} (awaits : s.submitsAwaited action = true) :
    s.consumesAll action = true := by
  cases action <;> first | rfl | exact awaits

/-- What the positions around a blocking call say about the requests. -/
structure Wakeable (s : State Coro Info) : Prop where
  alone : s.readyCount = 1
  submitting : s.pc = .submitAndWait true →
    s.rings.Coming ∨ awaited s.rings.sq ≠ []
  blocked : s.pc.Blocked → s.rings.Coming

/-- A step that neither reaches nor leaves a blocking call. -/
theorem Wakeable.of_pc {s s' : State Coro Info} (wakeable : Wakeable s)
    (readyCount : s'.readyCount = s.readyCount)
    (notSubmitting : s'.pc ≠ .submitAndWait true)
    (notBlocked : ¬ s'.pc.Blocked) : Wakeable s' where
  alone := readyCount.trans wakeable.alone
  submitting submitting := absurd submitting notSubmitting
  blocked blocked := absurd blocked notBlocked

/-- The steps of the kernel keep what a blocked worker waits for. -/
theorem Wakeable.keeps {s s' : State Coro Info} (wakeable : Wakeable s)
    (pcEq : s'.pc = s.pc) (readyCount : s'.readyCount = s.readyCount)
    (coming : s.rings.Coming → s'.rings.Coming)
    (soon : awaited s.rings.sq ≠ [] → awaited s'.rings.sq ≠ []) :
    Wakeable s' where
  alone := readyCount.trans wakeable.alone
  submitting submitting :=
    (wakeable.submitting (pcEq ▸ submitting)).imp coming soon
  blocked blocked := coming (wakeable.blocked (pcEq ▸ blocked))

/-- The bad path blocks only for a request that it counted. -/
theorem coming_of_waitUring {s : State Coro Info} (wakeable : Wakeable s)
    (submitted : Submitted s) (counted : s.requestsToReap ≤ s.rings.expected)
    (pc : s.pc = .badPath)
    (reaps : 0 < s.requestsToReap ∨ 1 < s.readyCount) : s.rings.Coming := by
  have positive : 0 < s.requestsToReap := by
    have alone := wakeable.alone
    omega
  have isZero := submitted.offered (by rw [pc]; trivial)
  have count := submitted.count (by simp [pc])
  have isEmpty := List.eq_nil_of_length_eq_zero (count.trans isZero)
  refine (Rings.coming_of_expected (by omega)).resolve_right ?_
  simp [isEmpty]

/-- `poll_submission` blocks for a completion that is there or for a request
that was counted. -/
theorem coming_of_pollSubmission {s : State Coro Info}
    (counted : s.requestsToReap ≤ s.rings.expected)
    (awaits : s.submitsAwaited .work = true) (pc : s.pc = .pollSubmission)
    (notZero : s.requestsToSubmit ≠ 0) (isEmpty : s.reapSwap.isEmpty = true) :
    s.rings.Coming ∨ awaited s.rings.sq ≠ [] := by
  have available : s.rings.cq ≠ [] ∨ 0 < s.requestsToReap := by
    rw [State.submitsAwaited, pc] at awaits
    simpa [notZero, isEmpty] using awaits
  rcases available with isSome | positive
  · exact .inl (.inl isSome)
  · exact Rings.coming_of_expected (by omega)

variable [DecidableEq Coro] [DecidableEq Info]

@[simp]
theorem handleCqEntry_readyCount (s : State Coro Info)
    (cqe : Cqe Coro Info) :
    (s.handleCqEntry cqe).readyCount = s.readyCount := by
  unfold State.handleCqEntry State.forwardTask
  cases cqe.userData <;> simp only [State.storeResult] <;> (try split) <;> rfl

@[simp]
theorem resume_readyCount (s : State Coro Info) (coro : Coro) :
    (s.resume coro).readyCount = s.readyCount := by
  unfold State.resume
  split <;> rfl

omit [DecidableEq Coro] [DecidableEq Info] in
theorem Wakeable.control {s : State Coro Info} {pc : Pc Coro}
    (wakeable : Wakeable s)
    (submitted : Submitted s) (counted : s.requestsToReap ≤ s.rings.expected)
    (awaits : s.submitsAwaited .work = true) (control : Control s pc) :
    Wakeable { s with pc } := by
  cases control with
  | stop _ _ | doWorkerPart _ _ | doSubmissionPart _ | nothingToSubmit _ _
  | nothingToPeek _ _ | peeked _ _ | polled _ _ | polledAgain _ _
  | fastPath _ _ | badPath _ _ _ | pollAgain _ _ | waited _ =>
      exact wakeable.of_pc rfl (by simp) id
  | submitAndWait pc notZero =>
      have coming := coming_of_pollSubmission counted awaits pc notZero
      refine ⟨wakeable.alone, fun waits => coming ?_, False.elim⟩
      simpa using waits
  | waitUring pc _ reaps =>
      have coming := coming_of_waitUring wakeable submitted counted pc reaps
      exact ⟨wakeable.alone, by simp, fun _ => coming⟩

theorem Wakeable.step {s s' : State Coro Info} {action : Action Coro Info}
    (wakeable : Wakeable s) (submitted : Submitted s)
    (counted : s.requestsToReap ≤ s.rings.expected)
    (awaits : s.submitsAwaited action = true)
    (transition : Transition s action s') : Wakeable s' := by
  cases transition with
  | control isControl =>
      exact wakeable.control submitted counted awaits isControl
  | interrupt _ => exact wakeable.of_pc rfl (by simp) id
  | schedule _ _ => exact wakeable.of_pc (by simp) (by simp) id
  | submitted _ _ => exact wakeable.of_pc rfl (by simp) id
  | handle _ _ => exact wakeable.of_pc (by simp) (by simp) id
  | isNotOver _ => exact wakeable.of_pc rfl (by simp) id
  | await _ _ | awaitKept _ _ _ _ | sendSelf _ | block _ =>
      exact wakeable.of_pc rfl (by simp [State.suspend]) id
  | detach pc _ | create pc _ | send pc _ =>
      exact wakeable.of_pc rfl (by simp [pc]) (by simp [pc, Pc.Blocked])
  | yield _ =>
      exact wakeable.of_pc rfl (by simp [State.suspend, State.forwardTask]) id
  | spawn pc _ =>
      exact wakeable.of_pc rfl (by simp [State.forwardTask, pc])
        (by simp [State.forwardTask, pc, Pc.Blocked])
  | @enter willWait consumed pc _ _ =>
      cases willWait with
      | false => exact wakeable.of_pc rfl (by simp [State.enter]) id
      | true =>
          refine ⟨wakeable.alone, by simp [State.enter], fun _ => ?_⟩
          apply Rings.Coming.enter _ (wakeable.submitting pc)
          simpa [State.submitsAwaited, State.consumesAll] using awaits
  | complete completeEq _ _ =>
      refine wakeable.keeps rfl rfl (Rings.Coming.complete completeEq) ?_
      obtain ⟨_, _, _, _, rfl⟩ := Rings.complete_eq_some completeEq
      exact id
  | receive _ =>
      exact wakeable.keeps rfl rfl (fun _ => Rings.Coming.receive _ _) id
  | canStop => exact wakeable.keeps rfl rfl id id
  | deinit isMore =>
      have alone := wakeable.alone
      omega

theorem wakeable_of_run {run : (system Coro Info).Run}
    (alone : (run.state 0).readyCount = 1)
    (awaits : run.Guarded fun s action => s.submitsAwaited action = true)
    {time : Nat} (timeLe : time ≤ run.length) :
    Wakeable (run.state time) := by
  have consumesAll : run.Guarded fun s action =>
      s.consumesAll action = true := fun time timeLt =>
    consumesAll_of_submitsAwaited (awaits time timeLt)
  induction time with
  | zero =>
      obtain ⟨coros, readyCount, _, _, startEq⟩ := run.starts
      refine ⟨alone, ?_, ?_⟩ <;> rw [startEq]
      · simp [State.new]
      · exact False.elim
  | succ time ih =>
      have before : time ≤ run.length := Nat.le_of_lt timeLe
      exact (ih before).step (submitted_of_run consumesAll before)
        (reap_le_expected run before) (awaits time timeLe)
        (transition_of_step (run.steps time timeLe))

/-- A lone worker only blocks when a completion is available or will be posted
by a request in flight. -/
theorem run_blocks_for_completion (run : (system Coro Info).Run)
    (alone : (run.state 0).readyCount = 1)
    (awaits : run.Guarded fun s action => s.submitsAwaited action = true) :
    ∀ time ≤ run.length, (run.state time).pc.Blocked →
      (run.state time).rings.Coming :=
  fun _ timeLe => (wakeable_of_run alone awaits timeLe).blocked

/-- A coroutine detaches one I/O and awaits another one. -/
def mixedRun : (system (Fin 2) (Fin 2)).Run :=
  Run.ofActions (State.new (Fin 2) [0] 1) initial_single
    [.work, .work, .detach (.io 0), .await (.single (.io 1)), .work, .work,
      .enter 2]
    (by decide)

theorem run_blocks_for_completion_mixed :
    (mixedRun.state 7).pc = .waiting ∧ ∀ time ≤ 7,
      (mixedRun.state time).pc.Blocked → (mixedRun.state time).rings.Coming :=
  ⟨by decide, run_blocks_for_completion mixedRun rfl
    (by unfold TransitionSystem.Run.Guarded; decide)⟩

/-- With the detached I/O alone the worker waits for nothing. -/
theorem run_blocks_for_completion_fails :
    ¬ ∀ run : (system (Fin 2) (Fin 2)).Run, (run.state 0).readyCount = 1 →
      ∀ time ≤ run.length, (run.state time).pc.Blocked →
        (run.state time).rings.Coming := by
  intro coming
  have blocked : (detachRun.state 7).pc = .waiting ∧
      (detachRun.state 7).rings.cq = [] ∧
      awaited (detachRun.state 7).rings.inFlight.flatten = [] := by decide
  have comes := coming detachRun rfl 7 (by decide)
    (by rw [blocked.1]; trivial)
  exact comes.elim (fun available => available blocked.2.1)
    fun inFlight => inFlight blocked.2.2

end CoContext.Worker
