import CoContext.WorkerTransition

/-!
# The accounts of a worker

`requests_to_reap` is meant to be the number of completions that the requests
of the ring still have, and `requests_to_submit` the number of entries that
the kernel has not consumed.  Both are taken down in advance: the former when
a request is flagged to skip its completion, which it posts all the same when
it fails; the latter when `io_uring_enter` returns, however many entries it
consumed.
-/

namespace CoContext.Worker

open Request TransitionSystem

variable {Coro Info : Type*}

def UserData.isMsgRing : UserData Coro Info → Bool
  | msgRing _ => true
  | nop | taskInfo _ | coroutineHandle _ | taskInfoLinkSqe _ => false

/-- The entries carry no coroutine. -/
def Untagged (sqes : List (Sqe Coro Info)) : Prop :=
  ∀ sqe ∈ sqes, sqe.userData.isMsgRing = false

/-- The completions of other rings, and no others, carry coroutines. -/
structure Tagged (s : State Coro Info) : Prop where
  cq : ∀ cqe ∈ s.rings.cq, cqe.foreign = cqe.userData.isMsgRing
  inFlight : Untagged s.rings.inFlight.flatten
  sq : Untagged s.rings.sq

/-- The request that the kernel ends posts no completion if it was flagged to
skip it. -/
def State.quietSkips (s : State Coro Info) : Action Coro Info → Bool
  | .complete chain outcome =>
      match s.rings.complete chain outcome with
      | some (sqe, _) => !(sqe.skipSuccess && sqe.posts outcome)
      | none => true
  | _ => true

/-- The kernel consumes all the entries that it is offered. -/
def State.consumesAll (s : State Coro Info) : Action Coro Info → Bool
  | .enter consumed => consumed == s.rings.sq.length
  | _ => true

section Expressions

theorem Untagged.append {first second : List (Sqe Coro Info)}
    (firstUntagged : Untagged first) (secondUntagged : Untagged second) :
    Untagged (first ++ second) := by
  intro sqe inBoth
  exact (List.mem_append.mp inBoth).elim (firstUntagged sqe)
    (secondUntagged sqe)

theorem Untagged.modify {sqes : List (Sqe Coro Info)}
    (untagged : Untagged sqes) {change : Sqe Coro Info → Sqe Coro Info}
    (keeps : ∀ sqe : Sqe Coro Info, sqe.userData.isMsgRing = false →
      (change sqe).userData.isMsgRing = false) (index : Nat) :
    Untagged (sqes.modify index change) := by
  induction sqes generalizing index with
  | nil => simpa using untagged
  | cons first rest ih =>
      have restUntagged : Untagged rest := fun sqe inRest =>
        untagged sqe (List.mem_cons_of_mem first inRest)
      cases index with
      | zero =>
          intro sqe inModified
          rw [List.modify_zero_cons, List.mem_cons] at inModified
          rcases inModified with rfl | inRest
          · exact keeps first (untagged first (by simp))
          · exact restUntagged sqe inRest
      | succ index =>
          intro sqe inModified
          rw [List.modify_succ_cons, List.mem_cons] at inModified
          rcases inModified with rfl | inRest
          · exact untagged sqe (by simp)
          · exact ih restUntagged index sqe inRest

theorem Prepared.link_untagged {lhs rhs : Prepared Coro Info}
    (lhsUntagged : Untagged lhs.sqes) (rhsUntagged : Untagged rhs.sqes) :
    Untagged (lhs.link rhs).sqes := by
  apply Untagged.append _ rhsUntagged
  apply lhsUntagged.modify
  intro sqe untagged
  cases data : sqe.userData <;>
    simp_all [setLinkSqe, UserData.setLinkSqe, UserData.isMsgRing]

theorem Prepared.detach_untagged {prepared : Prepared Coro Info}
    (untagged : Untagged prepared.sqes) : Untagged prepared.detach.sqes := by
  apply untagged.modify
  exact fun _ => id

theorem untagged_lazyAwaiter (info : Info) :
    Untagged (Prepared.lazyAwaiter info : Prepared Coro Info).sqes := by
  simp [Untagged, Prepared.lazyAwaiter, Sqe.lazyAwaiter, UserData.isMsgRing]

theorem untagged_timeout (timed timer : Info) :
    Untagged (Prepared.timeout timed timer : Prepared Coro Info).sqes := by
  simp [Untagged, Prepared.timeout, Sqe.lazyAwaiter, Sqe.lazyLinkTimeout,
    Sqe.setLink, Sqe.setCqeSkip, UserData.isMsgRing]

theorem untagged_msgRing : Untagged [(Sqe.msgRing : Sqe Coro Info)] := by
  simp [Untagged, Sqe.msgRing, UserData.isMsgRing]

theorem Io.untagged (io : Io Info) :
    Untagged (io.prepared : Prepared Coro Info).sqes := by
  cases io with
  | io info => exact untagged_lazyAwaiter info
  | timeout timed timer => exact untagged_timeout timed timer

theorem LinkIo.untagged (io : LinkIo Info) :
    Untagged (io.prepared : Prepared Coro Info).sqes := by
  induction io with
  | awaiters lhs rhs =>
      exact Prepared.link_untagged (untagged_lazyAwaiter lhs)
        (untagged_lazyAwaiter rhs)
  | linkAwaiter lhs rhs ih =>
      exact Prepared.link_untagged ih (untagged_lazyAwaiter rhs)
  | links lhs rhs lhsIH rhsIH => exact Prepared.link_untagged lhsIH rhsIH
  | awaiterTimeout lhs timed timer =>
      exact Prepared.link_untagged (untagged_lazyAwaiter lhs)
        (untagged_timeout timed timer)

theorem Expr.untagged (expr : Expr Info) :
    Untagged (expr.prepared : Prepared Coro Info).sqes := by
  cases expr with
  | single io => exact io.untagged
  | link io => exact io.untagged

end Expressions

section Effects

/-- What a step does to the rings and to `requests_to_reap`. -/
inductive Effect (s : State Coro Info) :
    Action Coro Info → State Coro Info → Prop
  | none {action : Action Coro Info} {s' : State Coro Info} :
      s.quietSkips action = true → s'.rings = s.rings → s'.requestsToReap = s.requestsToReap →
      Effect s action s'
  | prepare {action : Action Coro Info} {s' : State Coro Info}
      (sqes : List (Sqe Coro Info)) : s.quietSkips action = true →
      Untagged sqes →
      s'.rings = (s.withSqes sqes).rings →
      s'.requestsToReap = (s.withSqes sqes).requestsToReap →
      Effect s action s'
  | handle {action : Action Coro Info} {s' : State Coro Info}
      {cqe : Cqe Coro Info} {rest : List (Cqe Coro Info)} :
      s.quietSkips action = true →
      s.rings.cq = cqe :: rest → s'.rings = s.rings.seen →
      s'.requestsToReap = s.requestsToReap -
        (if cqe.userData.isMsgRing then 0 else 1) → Effect s action s'
  | enter {consumed : Nat} {s' : State Coro Info} :
      s'.rings = s.rings.enter consumed →
      s'.requestsToReap = s.requestsToReap → Effect s (.enter consumed) s'
  | complete {chain : Nat} {outcome : Outcome} {sqe : Sqe Coro Info}
      {s' : State Coro Info} :
      s.rings.complete chain outcome = some (sqe, s'.rings) →
      s'.requestsToReap = s.requestsToReap →
      Effect s (.complete chain outcome) s'
  | receive {action : Action Coro Info} {s' : State Coro Info}
      {coro : Coro} : s.quietSkips action = true →
      s'.rings = s.rings.receive (.msgRing coro) 0 →
      s'.requestsToReap = s.requestsToReap → Effect s action s'

theorem Tagged.step {s s' : State Coro Info} {action : Action Coro Info}
    (tagged : Tagged s) (effect : Effect s action s') : Tagged s' := by
  cases effect with
  | none _ ringsEq _ =>
      exact ⟨ringsEq ▸ tagged.cq, ringsEq ▸ tagged.inFlight,
        ringsEq ▸ tagged.sq⟩
  | prepare sqes _ untagged ringsEq _ =>
      refine ⟨ringsEq ▸ tagged.cq, ringsEq ▸ tagged.inFlight, ?_⟩
      rw [ringsEq]
      exact tagged.sq.append untagged
  | handle _ front ringsEq _ =>
      refine ⟨?_, ?_, ?_⟩ <;> rw [ringsEq]
      · intro cqe inRest
        exact tagged.cq cqe (List.mem_of_mem_tail inRest)
      · exact tagged.inFlight
      · exact tagged.sq
  | enter ringsEq _ =>
      refine ⟨?_, ?_, ?_⟩ <;> rw [ringsEq]
      · exact tagged.cq
      · simp only [Rings.enter, List.flatten_append, flatten_chains]
        exact tagged.inFlight.append fun sqe taken =>
          tagged.sq sqe (List.mem_of_mem_take taken)
      · exact fun sqe left => tagged.sq sqe (List.mem_of_mem_drop left)
  | @complete chain outcome sqe _ completeEq _ =>
      obtain ⟨before, rest, after, flightEq, ringsEq⟩ :=
        Rings.complete_eq_some completeEq
      have inFlight := tagged.inFlight
      rw [flightEq] at inFlight
      refine ⟨?_, ?_, ?_⟩ <;> rw [ringsEq]
      · intro cqe inCq
        rcases List.mem_append.mp inCq with inOld | isNew
        · exact tagged.cq cqe inOld
        · split at isNew
          · obtain rfl := List.mem_singleton.mp isNew
            exact (inFlight sqe (by simp)).symm
          · simp at isNew
      · intro other inRest
        apply inFlight other
        simp only [List.flatten_append, List.flatten_cons, List.mem_append,
          List.mem_cons] at inRest ⊢
        tauto
      · exact tagged.sq
  | receive _ ringsEq _ =>
      refine ⟨?_, ?_, ?_⟩ <;> rw [ringsEq]
      · intro cqe inCq
        rcases List.mem_append.mp inCq with inOld | isNew
        · exact tagged.cq cqe inOld
        · obtain rfl := List.mem_singleton.mp isNew
          rfl
      · exact tagged.inFlight
      · exact tagged.sq

variable [DecidableEq Coro] [DecidableEq Info]

omit [DecidableEq Info] in
@[simp]
theorem forwardTask_rings (s : State Coro Info) (handle : Option Coro) :
    (s.forwardTask handle).rings = s.rings := by
  cases handle <;> rfl

omit [DecidableEq Info] in
@[simp]
theorem forwardTask_requestsToReap (s : State Coro Info)
    (handle : Option Coro) :
    (s.forwardTask handle).requestsToReap = s.requestsToReap := by
  cases handle <;> rfl

@[simp]
theorem handleCqEntry_rings (s : State Coro Info) (cqe : Cqe Coro Info) :
    (s.handleCqEntry cqe).rings = s.rings.seen := by
  unfold State.handleCqEntry
  cases cqe.userData <;> simp [State.storeResult]

theorem handleCqEntry_requestsToReap (s : State Coro Info)
    (cqe : Cqe Coro Info) :
    (s.handleCqEntry cqe).requestsToReap = s.requestsToReap -
      (if cqe.userData.isMsgRing then 0 else 1) := by
  unfold State.handleCqEntry
  cases cqe.userData <;> simp [State.storeResult, UserData.isMsgRing]

@[simp]
theorem resume_rings (s : State Coro Info) (coro : Coro) :
    (s.resume coro).rings = s.rings := by
  unfold State.resume
  split <;> rfl

@[simp]
theorem resume_requestsToReap (s : State Coro Info) (coro : Coro) :
    (s.resume coro).requestsToReap = s.requestsToReap := by
  unfold State.resume
  split <;> rfl

theorem Transition.effect {s s' : State Coro Info}
    {action : Action Coro Info} (transition : Transition s action s') :
    Effect s action s' := by
  cases transition with
  | submitted _ isWork => rcases isWork with rfl | rfl <;> exact .none rfl rfl rfl
  | control _ | isNotOver _ | interrupt _ | canStop | deinit _ =>
      exact .none rfl rfl rfl
  | schedule _ _ =>
      exact .none rfl (resume_rings s _) (resume_requestsToReap s _)
  | handle _ front =>
      exact .handle rfl front (handleCqEntry_rings s _)
        (handleCqEntry_requestsToReap s _)
  | await _ _ => exact .prepare _ rfl (Expr.untagged _) rfl rfl
  | detach _ _ =>
      exact .prepare _ rfl (Prepared.detach_untagged (Io.untagged _)) rfl rfl
  | create _ _ => exact .prepare _ rfl (untagged_lazyAwaiter _) rfl rfl
  | awaitKept _ _ _ _ | yield _ | spawn _ _ | block _ =>
      exact .none rfl rfl rfl
  | sendSelf _ | send _ _ => exact .prepare _ rfl untagged_msgRing rfl rfl
  | @enter willWait consumed _ _ _ =>
      cases willWait <;> exact .enter rfl rfl
  | complete completeEq _ _ => exact .complete completeEq rfl
  | receive _ => exact .receive rfl rfl rfl

end Effects

section Reaping

variable [DecidableEq Coro] [DecidableEq Info]

omit [DecidableEq Coro] [DecidableEq Info] in
/-- Only a completion that was to be skipped unbalances the account. -/
theorem Effect.balance {s s' : State Coro Info} {action : Action Coro Info}
    (tagged : Tagged s) (effect : Effect s action s') :
    s'.requestsToReap - s'.rings.expected =
      s.requestsToReap - s.rings.expected -
        if s.quietSkips action then 0 else 1 := by
  cases effect with
  | none quiet ringsEq reapEq => simp [ringsEq, reapEq, quiet]
  | prepare sqes quiet _ ringsEq reapEq =>
      have expected : (s.withSqes sqes).rings.expected =
          s.rings.expected + (awaited sqes).length :=
        Rings.expected_append sqes
      rw [ringsEq, reapEq, quiet, expected, State.withSqes_requestsToReap]
      simp only [if_true]
      omega
  | @handle _ _ cqe _ quiet front ringsEq reapEq =>
      have foreign := tagged.cq cqe (by simp [front])
      rw [ringsEq, reapEq, quiet, Rings.expected_seen front, foreign]
      split
      · simp
      · simp
        omega
  | enter ringsEq reapEq =>
      simp [ringsEq, reapEq, State.quietSkips]
  | @complete chain outcome sqe _ completeEq reapEq =>
      have expected := Rings.expected_complete completeEq
      simp only [State.quietSkips, completeEq, reapEq, expected]
      cases sqe.skipSuccess && sqe.posts outcome
      · simp
      · simp
        omega
  | receive quiet ringsEq reapEq => simp [ringsEq, reapEq, quiet]

theorem tagged_of_run (run : (system Coro Info).Run) {time : Nat}
    (timeLe : time ≤ run.length) : Tagged (run.state time) := by
  apply (run.reachable timeLe).invariant
  · rintro state ⟨coros, readyCount, _, _, rfl⟩
    exact ⟨by simp [State.new, Rings.empty],
      by simp [Untagged, State.new, Rings.empty],
      by simp [Untagged, State.new, Rings.empty]⟩
  · intro state action successor tagged stepEq
    exact tagged.step (transition_of_step stepEq).effect

theorem balance_of_run (run : (system Coro Info).Run) {time : Nat}
    (timeLt : time < run.length) :
    (run.state (time + 1)).requestsToReap -
        (run.state (time + 1)).rings.expected =
      (run.state time).requestsToReap - (run.state time).rings.expected -
        if (run.state time).quietSkips (run.action time) then 0 else 1 :=
  (transition_of_step (run.steps time timeLt)).effect.balance
    (tagged_of_run run (Nat.le_of_lt timeLt))

theorem balance_of_start (run : (system Coro Info).Run) :
    (run.state 0).requestsToReap = (run.state 0).rings.expected := by
  obtain ⟨coros, readyCount, _, _, startEq⟩ := run.starts
  rw [startEq]
  rfl

/-- The counter never exceeds what is still to be handled. -/
theorem reap_le_expected (run : (system Coro Info).Run) {time : Nat}
    (timeLe : time ≤ run.length) :
    (run.state time).requestsToReap ≤ (run.state time).rings.expected := by
  induction time with
  | zero => exact Int.le_of_eq (balance_of_start run)
  | succ time ih =>
      have before := ih (by omega)
      have balance := balance_of_run run timeLe
      split at balance <;> omega

/-- `requests_to_reap` is the number of completions still to be handled in
every state of a run if and only if no request posts a completion that it was
flagged to skip. -/
theorem run_reap_count (run : (system Coro Info).Run) :
    (∀ time ≤ run.length,
      (run.state time).requestsToReap = (run.state time).rings.expected) ↔
      run.Guarded fun s action => s.quietSkips action = true := by
  constructor
  · intro counted time timeLt
    have balance := balance_of_run run timeLt
    have before := counted time (Nat.le_of_lt timeLt)
    have after := counted (time + 1) timeLt
    by_contra noisy
    rw [if_neg noisy] at balance
    omega
  · intro quiet time timeLe
    induction time with
    | zero => exact balance_of_start run
    | succ time ih =>
        have before := ih (by omega)
        have balance := balance_of_run run timeLe
        rw [quiet time timeLe] at balance
        simp only [if_true] at balance
        omega

theorem initial_single :
    (system (Fin 2) (Fin 2)).initial (State.new (Fin 2) [0] 1) :=
  ⟨[0], 1, List.nodup_singleton 0, Nat.one_pos, rfl⟩

/-- A coroutine detaches one I/O, which fails. -/
def detachRun : (system (Fin 2) (Fin 2)).Run :=
  Run.ofActions (State.new (Fin 2) [0] 1) initial_single
    [.work, .work, .detach (.io 0), .block, .work, .work, .enter 1,
      .complete 0 (.failed (-9)), .work, .work, .work]
    (by decide)

theorem run_reap_count_fails :
    ¬ ∀ run : (system (Fin 2) (Fin 2)).Run, ∀ time ≤ run.length,
      (run.state time).requestsToReap =
        (run.state time).rings.expected := by
  intro counted
  have negative : (detachRun.state 11).requestsToReap = -1 ∧
      (detachRun.state 11).rings.expected = 0 := by decide
  have counts := counted detachRun 11 (by decide)
  rw [negative.1, negative.2] at counts
  exact absurd counts (by decide)

end Reaping

section Submitting

/-- The positions at which nothing is prepared and not yet offered to the
kernel. -/
def Pc.Offered : Pc Coro → Prop
  | .badPath | .pollCompletion true _ | .waitUring | .isNotOver _ => True
  | _ => False

/-- The counter of entries agrees with the ring. -/
structure Submitted (s : State Coro Info) : Prop where
  count : s.pc ≠ .waiting → s.rings.sq.length = s.requestsToSubmit
  waiting : s.pc = .waiting → s.rings.sq = []
  offered : s.pc.Offered → s.requestsToSubmit = 0

/-- A running coroutine only adds entries, which it counts. -/
theorem Submitted.running {s s' : State Coro Info} {coro : Coro} {num : Nat}
    (submitted : Submitted s) (pc : s.pc = .running coro num)
    (sqes : List (Sqe Coro Info))
    (sqEq : s'.rings.sq = s.rings.sq ++ sqes)
    (countEq : s'.requestsToSubmit = s.requestsToSubmit + sqes.length)
    (notWaiting : s'.pc ≠ .waiting) (notOffered : ¬ s'.pc.Offered) :
    Submitted s' where
  count _ := by
    have count := submitted.count (by simp [pc])
    rw [sqEq, countEq, List.length_append, count]
  waiting isWaiting := absurd isWaiting notWaiting
  offered isOffered := absurd isOffered notOffered

variable [DecidableEq Coro] [DecidableEq Info]

omit [DecidableEq Info] in
@[simp]
theorem forwardTask_requestsToSubmit (s : State Coro Info)
    (handle : Option Coro) :
    (s.forwardTask handle).requestsToSubmit = s.requestsToSubmit := by
  cases handle <;> rfl

@[simp]
theorem handleCqEntry_requestsToSubmit (s : State Coro Info)
    (cqe : Cqe Coro Info) :
    (s.handleCqEntry cqe).requestsToSubmit = s.requestsToSubmit := by
  unfold State.handleCqEntry
  cases cqe.userData <;> simp [State.storeResult]

@[simp]
theorem resume_requestsToSubmit (s : State Coro Info) (coro : Coro) :
    (s.resume coro).requestsToSubmit = s.requestsToSubmit := by
  unfold State.resume
  split <;> rfl

omit [DecidableEq Coro] [DecidableEq Info] in
theorem Submitted.control {s : State Coro Info} {pc : Pc Coro}
    (submitted : Submitted s) (control : Control s pc) :
    Submitted { s with pc } := by
  have moves : s.pc ≠ .waiting → pc ≠ .waiting →
      (pc.Offered → s.requestsToSubmit = 0) → Submitted { s with pc } :=
    fun wasNotWaiting notWaiting offered =>
      ⟨fun _ => submitted.count wasNotWaiting,
        fun isWaiting => absurd isWaiting notWaiting, offered⟩
  cases control with
  | stop pc _ | doWorkerPart pc _ | doSubmissionPart pc | nothingToSubmit pc _
  | submitAndWait pc _ | nothingToPeek pc _ | peeked pc _ | polled pc _
  | fastPath pc _ => exact moves (by simp [pc]) (by simp) False.elim
  | badPath pc isZero _ => exact moves (by simp [pc]) (by simp) fun _ => isZero
  | polledAgain pc _ | waitUring pc _ _ | pollAgain pc _ | waited pc =>
      refine moves (by simp [pc]) (by simp) fun _ => submitted.offered ?_
      rw [pc]
      trivial

theorem Submitted.step {s s' : State Coro Info} {action : Action Coro Info}
    (submitted : Submitted s) (consumesAll : s.consumesAll action = true)
    (transition : Transition s action s') : Submitted s' := by
  cases transition with
  | control isControl => exact submitted.control isControl
  | schedule pc _ =>
      have count := submitted.count (by simp [pc])
      exact ⟨fun _ => by simpa using count, by simp, False.elim⟩
  | submitted pc _ =>
      exact ⟨fun _ => by simp [submitted.waiting pc], by simp, False.elim⟩
  | @handle badPath handledNum cqe rest pc _ =>
      have count := submitted.count (by simp [pc])
      refine ⟨fun _ => ?_, by simp, fun isOffered => ?_⟩
      · simpa [Rings.seen] using count
      · have offered := submitted.offered
        rw [pc] at offered
        rw [handleCqEntry_requestsToSubmit]
        cases badPath
        · exact isOffered.elim
        · exact offered trivial
  | isNotOver pc =>
      exact ⟨fun _ => submitted.count (by simp [pc]), by simp, False.elim⟩
  | await pc _ =>
      exact submitted.running pc _ rfl rfl (by simp [State.suspend]) id
  | detach pc _ =>
      exact submitted.running pc _ rfl rfl (by simp [pc])
        (by simp [pc, Pc.Offered])
  | create pc _ =>
      exact submitted.running pc _ rfl rfl (by simp [pc])
        (by simp [pc, Pc.Offered])
  | awaitKept pc _ _ _ =>
      exact submitted.running pc [] (by simp [State.suspend]) rfl
        (by simp [State.suspend]) id
  | yield pc =>
      exact submitted.running pc [] (by simp [State.suspend]) rfl
        (by simp [State.suspend, State.forwardTask]) id
  | spawn pc _ =>
      exact submitted.running pc [] (by simp) rfl
        (by simp [State.forwardTask, pc])
        (by simp [State.forwardTask, pc, Pc.Offered])
  | sendSelf pc =>
      exact submitted.running pc _ rfl rfl (by simp [State.suspend]) id
  | send pc _ =>
      exact submitted.running pc _ rfl rfl (by simp [pc])
        (by simp [pc, Pc.Offered])
  | block pc =>
      exact submitted.running pc [] (by simp [State.suspend]) rfl
        (by simp [State.suspend]) id
  | @enter willWait consumed pc _ _ =>
      have isAll : consumed = s.rings.sq.length := by
        simpa [State.consumesAll] using consumesAll
      have isEmpty : (s.rings.enter consumed).sq = [] := by
        simp [Rings.enter, isAll]
      cases willWait with
      | true => exact ⟨by simp [State.enter], fun _ => isEmpty, False.elim⟩
      | false =>
          exact ⟨fun _ => by simp [State.enter, isEmpty], by simp [State.enter],
            False.elim⟩
  | complete completeEq _ _ =>
      obtain ⟨_, _, _, _, rfl⟩ := Rings.complete_eq_some completeEq
      exact ⟨submitted.count, submitted.waiting, submitted.offered⟩
  | interrupt pc => exact submitted.control (.waited pc)
  | receive _ | canStop | deinit _ =>
      exact ⟨submitted.count, submitted.waiting, submitted.offered⟩

theorem submitted_of_run {run : (system Coro Info).Run}
    (consumesAll : run.Guarded fun s action => s.consumesAll action = true)
    {time : Nat} (timeLe : time ≤ run.length) :
    Submitted (run.state time) := by
  apply (consumesAll.reachableBy timeLe).invariant
  · rintro state ⟨coros, readyCount, _, _, rfl⟩
    exact ⟨fun _ => rfl, by simp [State.new], False.elim⟩
  · intro state action successor submitted consumes stepEq
    exact submitted.step consumes (transition_of_step stepEq)

/-- Nothing prepared is left behind while the kernel consumes whatever it is
offered. -/
theorem run_submits_all (run : (system Coro Info).Run)
    (consumesAll : run.Guarded fun s action => s.consumesAll action = true) :
    ∀ time ≤ run.length,
      ((run.state time).requestsToSubmit = 0 →
        (run.state time).rings.sq = []) ∧
      ((run.state time).pc = .waitUring → (run.state time).rings.sq = []) := by
  intro time timeLe
  have submitted := submitted_of_run consumesAll timeLe
  have emptied : (run.state time).requestsToSubmit = 0 →
      (run.state time).rings.sq = [] := by
    intro isZero
    by_cases isWaiting : (run.state time).pc = .waiting
    · exact submitted.waiting isWaiting
    · have count := submitted.count isWaiting
      exact List.eq_nil_of_length_eq_zero (count.trans isZero)
  refine ⟨emptied, fun pc => emptied (submitted.offered ?_)⟩
  rw [pc]
  trivial

/-- A coroutine awaits a chain of two requests, and the kernel consumes
`consumed` entries; it takes `actions` from there. -/
def chainRun (consumed : Nat) (actions : List (Action (Fin 2) (Fin 2)))
    (enabled : ((system (Fin 2) (Fin 2)).exec (State.new (Fin 2) [0] 1)
      ([.work, .work, .await (.link (.awaiters 0 1)), .work, .work,
        .enter consumed] ++ actions)).isSome) :
    (system (Fin 2) (Fin 2)).Run :=
  Run.ofActions (State.new (Fin 2) [0] 1) initial_single _ enabled

theorem run_submits_all_chain :
    ((chainRun 2 [] (by decide)).state 6).pc = .waiting ∧
      ∀ time ≤ 6,
        (((chainRun 2 [] (by decide)).state time).requestsToSubmit = 0 →
          ((chainRun 2 [] (by decide)).state time).rings.sq = []) ∧
        (((chainRun 2 [] (by decide)).state time).pc = .waitUring →
          ((chainRun 2 [] (by decide)).state time).rings.sq = []) :=
  ⟨by decide, run_submits_all (chainRun 2 [] (by decide))
    (by unfold TransitionSystem.Run.Guarded; decide)⟩

theorem initial_pair :
    (system (Fin 2) (Fin 2)).initial (State.new (Fin 2) [0, 1] 1) :=
  ⟨[0, 1], 1, by decide, Nat.one_pos, rfl⟩

/-- Two coroutines each await a request.  The kernel rejects the first one and
stops behind it.  The worker handles its completion, resumes the first
coroutine and waits for the second request, which it never submits. -/
def shortRun : (system (Fin 2) (Fin 2)).Run :=
  Run.ofActions (State.new (Fin 2) [0, 1] 1) initial_pair
    [.work, .work, .await (.single (.io 0)), .work, .await (.single (.io 1)),
      .work, .work, .enter 1, .complete 0 (.failed (-22)), .work, .work, .work,
      .work, .work, .work, .work, .block, .work, .work, .work, .work, .work]
    (by decide)

theorem run_submits_all_fails :
    ¬ ∀ run : (system (Fin 2) (Fin 2)).Run, ∀ time ≤ run.length,
      ((run.state time).requestsToSubmit = 0 →
        (run.state time).rings.sq = []) ∧
      ((run.state time).pc = .waitUring →
        (run.state time).rings.sq = []) := by
  intro submits
  have left : (shortRun.state 22).pc = .waitUring ∧
      (shortRun.state 22).rings.sq.length = 1 := by decide
  have isEmpty := (submits shortRun 22 (by decide)).2 left.1
  simp [isEmpty] at left

end Submitting

end CoContext.Worker
