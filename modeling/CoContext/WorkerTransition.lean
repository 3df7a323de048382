import CoContext.Worker

/-!
# The transitions of a worker

Every step of a worker is one of the transitions below.  Invariants are proved
from this list, and never by unfolding the step function.
-/

namespace CoContext.Worker

open Request

variable {Coro Info : Type*}

namespace State

/-- The entries are in the ring and counted. -/
@[simps -fullyApplied]
def withSqes (s : State Coro Info) (sqes : List (Sqe Coro Info)) :
    State Coro Info :=
  { s with
    rings := { s.rings with sq := s.rings.sq ++ sqes }
    requestsToReap := s.requestsToReap + (awaited sqes).length
    requestsToSubmit := s.requestsToSubmit + sqes.length }

theorem prepare_eq (s : State Coro Info) (sqe : Sqe Coro Info) :
    s.prepare sqe = s.withSqes [sqe] := by
  cases skips : sqe.skipSuccess with
  | false =>
      simp [prepare, withSqes, Rings.prepare, skips,
        awaited_of_not_skips skips]
  | true =>
      simp [prepare, withSqes, Rings.prepare, skips, awaited_of_skips skips]

theorem prepareAll_eq (s : State Coro Info) (sqes : List (Sqe Coro Info)) :
    s.prepareAll sqes = s.withSqes sqes := by
  induction sqes generalizing s with
  | nil => simp [prepareAll, withSqes]
  | cons sqe sqes ih =>
      have restEq := ih (s.prepare sqe)
      unfold prepareAll at restEq ⊢
      rw [List.foldl_cons, restEq, prepare_eq]
      simp only [withSqes, awaited_cons sqe sqes, List.append_assoc,
        List.singleton_append, List.length_append, List.length_cons,
        List.length_nil]
      congr 1 <;> omega

end State

variable [DecidableEq Coro] [DecidableEq Info]

/-- The decisions of the loop that only move its position. -/
inductive Control (s : State Coro Info) : Pc Coro → Prop
  | stop : s.pc = .loop → s.willStop = true → Control s .stopped
  | doWorkerPart : s.pc = .loop → s.willStop = false →
      Control s (.schedule s.reapSwap.length)
  | doSubmissionPart : s.pc = .schedule 0 → Control s .pollSubmission
  | nothingToSubmit : s.pc = .pollSubmission → s.requestsToSubmit = 0 →
      Control s .completionPart
  | submitAndWait : s.pc = .pollSubmission → s.requestsToSubmit ≠ 0 →
      Control s (.submitAndWait s.reapSwap.isEmpty)
  | nothingToPeek : s.pc = .completionPart → s.rings.cq = [] →
      Control s (.isFastPath 0)
  | peeked : s.pc = .completionPart → s.rings.cq ≠ [] →
      Control s (.pollCompletion false 0)
  | polled {handledNum : Nat} : s.pc = .pollCompletion false handledNum →
      s.rings.cq = [] → Control s (.isFastPath handledNum)
  | polledAgain {handledNum : Nat} : s.pc = .pollCompletion true handledNum →
      s.rings.cq = [] → Control s (.isNotOver handledNum)
  | fastPath {handledNum : Nat} : s.pc = .isFastPath handledNum →
      s.requestsToSubmit ≠ 0 ∨ s.reapSwap ≠ [] ∨ handledNum ≠ 0 →
      Control s .loop
  | badPath : s.pc = .isFastPath 0 → s.requestsToSubmit = 0 →
      s.reapSwap = [] → Control s .badPath
  | waitUring : s.pc = .badPath → s.rings.cq = [] →
      0 < s.requestsToReap ∨ 1 < s.readyCount → Control s .waitUring
  | pollAgain : s.pc = .badPath →
      (s.rings.cq = [] → s.requestsToReap ≤ 0 ∧ s.readyCount ≤ 1) →
      Control s (.pollCompletion true 0)
  | waited : s.pc = .waitUring → Control s (.pollCompletion true 0)

/-- The steps of a worker and of what surrounds it. -/
inductive Transition (s : State Coro Info) :
    Action Coro Info → State Coro Info → Prop
  | control {pc : Pc Coro} : Control s pc → Transition s .work { s with pc }
  | schedule {coro : Coro} {rest : List (Option Coro)} {num : Nat} :
      s.pc = .schedule (num + 1) → s.reapSwap = some coro :: rest →
      Transition s .work { s.resume coro with
        reapSwap := rest
        pc := .running coro num }
  | submitted {action : Action Coro Info} : s.pc = .waiting →
      action = .work ∨ action = .interrupt → Transition s action
        { s with pc := .completionPart, requestsToSubmit := 0 }
  | handle {badPath : Bool} {handledNum : Nat} {cqe : Cqe Coro Info}
      {rest : List (Cqe Coro Info)} :
      s.pc = .pollCompletion badPath handledNum →
      s.rings.cq = cqe :: rest →
      Transition s .work { s.handleCqEntry cqe with
        pc := .pollCompletion badPath (handledNum + 1) }
  | isNotOver {handledNum : Nat} : s.pc = .isNotOver handledNum →
      Transition s .work { s with
        pc := .loop
        willStop := s.willStop || decide
          (handledNum = 0 ∧ ¬ 1 < s.readyCount ∧ s.requestsToReap = 0) }
  | await {coro : Coro} {num : Nat} {expr : Expr Info} :
      s.pc = .running coro num → s.Free expr.infos →
      Transition s (.await expr)
        (((s.withSqes expr.prepared.sqes).construct coro
          ⟨expr.infos, expr.lastIo⟩).suspend coro num
            (.awaiting ⟨expr.infos, expr.lastIo⟩))
  | detach {coro : Coro} {num : Nat} {io : Io Info} :
      s.pc = .running coro num → s.Free io.infos →
      Transition s (.detach io) (s.withSqes io.prepared.detach.sqes)
  | create {coro : Coro} {num : Nat} {info : Info} :
      s.pc = .running coro num → s.info info = none →
      Transition s (.create info) { s.withSqes [.lazyAwaiter info] with
        info := Function.update s.info info (some ⟨none, none, coro, true⟩)
        outcome := Function.update s.outcome info none }
  | awaitKept {coro : Coro} {num : Nat} {info : Info}
      {record : TaskInfo Coro} : s.pc = .running coro num →
      s.info info = some record → record.owner = coro → record.kept = true →
      Transition s (.awaitKept info) ({ s with
        info := Function.update s.info info
          (some { record with handle := some coro, kept := false })
        }.suspend coro num (.awaiting ⟨[info], info⟩))
  | yield {coro : Coro} {num : Nat} : s.pc = .running coro num →
      Transition s .yield
        ((s.suspend coro num .idle).forwardTask (some coro))
  | spawn {coro other : Coro} {num : Nat} : s.pc = .running coro num →
      s.status other = .idle →
      Transition s (.spawn other) (s.forwardTask (some other))
  | sendSelf {coro : Coro} {num : Nat} : s.pc = .running coro num →
      Transition s (.send coro)
        ((s.withSqes [.msgRing]).suspend coro num .idle)
  | send {coro other : Coro} {num : Nat} : s.pc = .running coro num →
      s.status other = .idle →
      Transition s (.send other) (s.withSqes [.msgRing])
  | block {coro : Coro} {num : Nat} : s.pc = .running coro num →
      Transition s .block (s.suspend coro num .idle)
  | enter {willWait : Bool} {consumed : Nat} : s.pc = .submitAndWait willWait →
      0 < consumed → consumed ≤ s.rings.sq.length →
      Transition s (.enter consumed) (s.enter consumed willWait)
  | complete {chain : Nat} {outcome : Outcome} {sqe : Sqe Coro Info}
      {rings : Rings (UserData Coro Info)} {outcomes : Info → Option Int} :
      s.rings.complete chain outcome = some (sqe, rings) →
      (∀ info, sqe.userData = .taskInfo info → sqe.skipSuccess = false →
        outcomes = Function.update s.outcome info (some outcome.res)) →
      ((∀ info, sqe.userData = .taskInfo info → sqe.skipSuccess = true) →
        outcomes = s.outcome) →
      Transition s (.complete chain outcome)
        { s with rings, outcome := outcomes }
  | receive {coro : Coro} : s.status coro = .idle →
      Transition s (.receive coro) { s.setStatus coro .handedOver with
        rings := s.rings.receive (.msgRing coro) 0 }
  | interrupt : s.pc = .waitUring →
      Transition s .interrupt { s with pc := .pollCompletion true 0 }
  | canStop : Transition s .canStop { s with willStop := true }
  | deinit : 1 < s.readyCount →
      Transition s .deinit { s with readyCount := s.readyCount - 1 }

theorem transition_of_work {s successor : State Coro Info}
    (stepEq : s.work = some successor) : Transition s .work successor := by
  have control : ∀ {pc : Pc Coro}, Control s pc →
      Transition s .work { s with pc } := .control
  unfold State.work at stepEq
  cases pc : s.pc with
  | loop =>
      simp only [pc, Option.some.injEq] at stepEq
      subst stepEq
      split
      next willStop => exact control (.stop pc willStop)
      next goesOn => exact control (.doWorkerPart pc (by simpa using goesOn))
  | schedule num =>
      cases num with
      | zero =>
          simp only [pc, Option.some.injEq] at stepEq
          subst stepEq
          exact control (.doSubmissionPart pc)
      | succ num =>
          simp only [pc] at stepEq
          split at stepEq
          next coro rest queue =>
            obtain rfl := Option.some.inj stepEq
            exact .schedule pc queue
          next => simp at stepEq
  | pollSubmission =>
      simp only [pc, Option.some.injEq] at stepEq
      subst stepEq
      split
      next isZero => exact control (.nothingToSubmit pc isZero)
      next notZero => exact control (.submitAndWait pc notZero)
  | waiting =>
      simp only [pc] at stepEq
      split at stepEq
      next => simp at stepEq
      next =>
        obtain rfl := Option.some.inj stepEq
        exact .submitted pc (.inl rfl)
  | completionPart =>
      simp only [pc, Option.some.injEq] at stepEq
      subst stepEq
      split
      next isEmpty => exact control (.nothingToPeek pc isEmpty)
      next notEmpty => exact control (.peeked pc notEmpty)
  | pollCompletion badPath handledNum =>
      simp only [pc] at stepEq
      split at stepEq
      next isEmpty =>
        obtain rfl := Option.some.inj stepEq
        cases badPath
        · exact control (.polled pc isEmpty)
        · exact control (.polledAgain pc isEmpty)
      next cqe rest front =>
        obtain rfl := Option.some.inj stepEq
        exact .handle pc front
  | isFastPath handledNum =>
      simp only [pc, Option.some.injEq] at stepEq
      subst stepEq
      split
      next isFast => exact control (.fastPath pc isFast)
      next notFast =>
        simp only [not_or, Ne, Decidable.not_not] at notFast
        obtain ⟨isZero, isEmpty, rfl⟩ := notFast
        exact control (.badPath pc isZero isEmpty)
  | badPath =>
      simp only [pc, Option.some.injEq] at stepEq
      subst stepEq
      split
      next blocks => exact control (.waitUring pc blocks.1 blocks.2)
      next proceeds =>
        refine control (.pollAgain pc fun isEmpty => ?_)
        simp only [isEmpty, true_and, not_or] at proceeds
        omega
  | waitUring =>
      simp only [pc] at stepEq
      split at stepEq
      next => simp at stepEq
      next =>
        obtain rfl := Option.some.inj stepEq
        exact control (.waited pc)
  | isNotOver handledNum =>
      simp only [pc, Option.some.injEq] at stepEq
      subst stepEq
      exact .isNotOver pc
  | running _ _ | submitAndWait _ | stopped => simp [pc] at stepEq

theorem transition_of_runCoro {s successor : State Coro Info} {coro : Coro}
    {num : Nat} {action : Action Coro Info} (pc : s.pc = .running coro num)
    (stepEq : s.runCoro coro num action = some successor) :
    Transition s action successor := by
  cases action with
  | await expr =>
      simp only [State.runCoro, State.prepareAll_eq] at stepEq
      split at stepEq
      next free =>
        obtain rfl := Option.some.inj stepEq
        exact .await pc free
      next => simp at stepEq
  | detach io =>
      simp only [State.runCoro, State.prepareAll_eq] at stepEq
      split at stepEq
      next free =>
        obtain rfl := Option.some.inj stepEq
        exact .detach pc free
      next => simp at stepEq
  | create info =>
      simp only [State.runCoro, State.prepare_eq] at stepEq
      split at stepEq
      next free =>
        obtain rfl := Option.some.inj stepEq
        exact .create pc free
      next => simp at stepEq
  | awaitKept info =>
      simp only [State.runCoro] at stepEq
      split at stepEq
      next record isRecord =>
        split at stepEq
        next isKept =>
          obtain rfl := Option.some.inj stepEq
          exact .awaitKept pc isRecord isKept.1 isKept.2
        next => simp at stepEq
      next => simp at stepEq
  | yield =>
      obtain rfl := Option.some.inj stepEq
      exact .yield pc
  | spawn other =>
      simp only [State.runCoro] at stepEq
      split at stepEq
      next isIdle =>
        obtain rfl := Option.some.inj stepEq
        exact .spawn pc isIdle
      next => simp at stepEq
  | send other =>
      simp only [State.runCoro, State.prepare_eq] at stepEq
      split at stepEq
      next isCoro =>
        obtain rfl := Option.some.inj stepEq
        subst isCoro
        exact .sendSelf pc
      next =>
        split at stepEq
        next isIdle =>
          obtain rfl := Option.some.inj stepEq
          exact .send pc isIdle
        next => simp at stepEq
  | block =>
      obtain rfl := Option.some.inj stepEq
      exact .block pc
  | work | enter _ | complete _ _ | receive _ | interrupt | canStop | deinit =>
      simp [State.runCoro] at stepEq

theorem transition_of_step {s successor : State Coro Info}
    {action : Action Coro Info} (stepEq : step s action = some successor) :
    Transition s action successor := by
  cases action with
  | work => exact transition_of_work stepEq
  | enter consumed =>
      simp only [step] at stepEq
      split at stepEq
      next willWait pc =>
        split at stepEq
        next bounds =>
          obtain rfl := Option.some.inj stepEq
          exact .enter pc bounds.1 bounds.2
        next => simp at stepEq
      next => simp at stepEq
  | complete chain outcome =>
      simp only [step, State.complete] at stepEq
      split at stepEq
      next sqe rings completeEq =>
        split at stepEq
        next info isInfo posts =>
          obtain rfl := Option.some.inj stepEq
          refine .complete completeEq ?_ ?_
          · intro other isOther _
            obtain rfl : info = other := by simpa [isInfo] using isOther
            rfl
          · intro skips
            simp [skips info isInfo] at posts
        next notInfo =>
          obtain rfl := Option.some.inj stepEq
          refine .complete completeEq ?_ fun _ => rfl
          exact fun info isInfo posts => absurd posts (notInfo info isInfo)
      next => simp at stepEq
  | receive coro =>
      simp only [step] at stepEq
      split at stepEq
      next isIdle =>
        obtain rfl := Option.some.inj stepEq
        exact .receive isIdle
      next => simp at stepEq
  | interrupt =>
      simp only [step] at stepEq
      split at stepEq
      next pc =>
        obtain rfl := Option.some.inj stepEq
        exact .submitted pc (.inr rfl)
      next pc =>
        obtain rfl := Option.some.inj stepEq
        exact .interrupt pc
      next => simp at stepEq
  | canStop =>
      obtain rfl := Option.some.inj stepEq
      exact .canStop
  | deinit =>
      simp only [step] at stepEq
      split at stepEq
      next isMore =>
        obtain rfl := Option.some.inj stepEq
        exact .deinit isMore
      next => simp at stepEq
  | await _ | detach _ | create _ | awaitKept _ | yield | spawn _ | send _
  | block =>
      simp only [step] at stepEq
      split at stepEq
      next coro num pc => exact transition_of_runCoro pc stepEq
      next => simp at stepEq

end CoContext.Worker
