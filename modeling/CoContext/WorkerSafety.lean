import CoContext.WorkerOrder

/-!
# What the handling of completions is safe for

While no detached I/O fails, no link timeout is rejected and chains stay
whole, each completion that is handled resumes a coroutine that waits for it
or stores into a record that still exists.  If moreover each I/O is awaited
before its completion is handled, each `co_await` goes on once, with the
result of its I/O.
-/

namespace CoContext.Worker

open Request TransitionSystem

variable {Coro Info : Type*}

section Handling

variable [DecidableEq Coro] [DecidableEq Info]

/-- The running coroutine creates an I/O without awaiting it. -/
def Action.isCreate : Action Coro Info → Bool
  | create _ => true
  | work | await _ | detach _ | awaitKept _ | yield | spawn _ | send _ | block
  | enter _ | complete _ _ | receive _ | interrupt | canStop | deinit => false

/-- The data of the completion that is handled next resumes a coroutine that
waits for it, or stores into the record of an awaiter that exists. -/
def State.HandlesSoundly (s : State Coro Info) : UserData Coro Info → Prop
  | .nop => True
  | .taskInfo info => ∃ record coro await, s.info info = some record ∧
      record.handle = some coro ∧ s.status coro = .awaiting await ∧
        await.lastIo = info
  | .coroutineHandle coro | .msgRing coro => s.status coro = .handedOver
  | .taskInfoLinkSqe info => ∃ record, s.info info = some record

omit [DecidableEq Coro] [DecidableEq Info] in
/-- Nothing is kept, so that nothing is handled early. -/
theorem awaitedFirst_of_unkept {s : State Coro Info}
    (unkept : ∀ info record, s.info info = some record → record.kept = false)
    (action : Action Coro Info) : s.awaitedFirst action = true := by
  by_contra early
  obtain ⟨_, _, _, _, info, record, _, _, _, _, isRecord, isKept⟩ :=
    exists_kept early
  simp [unkept info record isRecord] at isKept

theorem unkept_of_run {run : (system Coro Info).Run}
    (created : run.Guarded fun _ action => action.isCreate = false)
    {time : Nat} (timeLe : time ≤ run.length) :
    ∀ info record, (run.state time).info info = some record →
      record.kept = false := by
  induction time with
  | zero =>
      obtain ⟨coros, readyCount, _, _, startEq⟩ := run.starts
      simp [startEq, State.new]
  | succ time ih =>
      intro info record isRecord
      rcases record_of_step (transition_of_step (run.steps time timeLe))
        isRecord with ⟨before, wasRecord, _, kept⟩ | notKept | isCreate
      · rw [kept]
        exact ih (by omega) info before wasRecord
      · exact notKept
      · have notCreate := created time timeLe
        rw [isCreate.1] at notCreate
        simp [Action.isCreate] at notCreate

theorem ordered_of_run {run : (system Coro Info).Run}
    (sound : run.Guarded fun s action => s.soundIo action = true)
    (awaited : run.Guarded fun s action => s.awaitedFirst action = true)
    {time : Nat} (timeLe : time ≤ run.length) :
    Tracked (run.state time) ∧ Ordered (run.state time) := by
  induction time with
  | zero =>
      obtain ⟨coros, readyCount, nodup, _, startEq⟩ := run.starts
      rw [startEq]
      refine ⟨tracked_new nodup readyCount, ?_, ?_, ?_⟩
      · simp [Closed, State.new, Rings.empty]
      · simp [State.linked, State.new, Rings.outstanding, Rings.empty]
      · simp [State.linked, State.new, Rings.outstanding, Rings.empty]
  | succ time ih =>
      obtain ⟨tracked, ordered⟩ := ih (by omega)
      have transition := transition_of_step (run.steps time timeLe)
      have quiet := quietIo_of_soundIo (sound time timeLe)
      exact ⟨tracked.step quiet (awaited time timeLe) transition,
        ordered.step tracked (sound time timeLe) (awaited time timeLe)
          transition⟩

omit [DecidableEq Info] in
theorem handlesSoundly_of_ordered {s : State Coro Info} (tracked : Tracked s)
    (ordered : Ordered s) {cqe : Cqe Coro Info}
    {rest : List (Cqe Coro Info)} (front : s.rings.cq = cqe :: rest)
    (awaited : ∀ info, cqe.userData = .taskInfo info →
      (s.info info).any TaskInfo.kept = false) :
    s.HandlesSoundly cqe.userData := by
  have isOwed : cqe.userData.resumes = true → cqe.userData ∈ s.owed :=
    owed_of_front front
  cases data : cqe.userData with
  | nop => trivial
  | taskInfo info =>
      obtain ⟨record, await, isRecord, handle, isAwaiting, isLast⟩ :=
        tracked.awaiting_of_front front data (awaited info data)
      exact ⟨record, _, await, isRecord, handle, isAwaiting, isLast⟩
  | coroutineHandle coro =>
      rw [data] at isOwed
      exact absurd (isOwed rfl) (tracked.noHandle coro)
  | taskInfoLinkSqe info =>
      have isLinked : .taskInfoLinkSqe info ∈ s.linked := by
        rw [← data]
        exact linked_of_front front (by rw [data]; rfl)
      obtain ⟨_, _, holds, _⟩ := ordered.links info isLinked
      obtain ⟨record, isRecord, _⟩ := holds.record
      exact ⟨record, isRecord⟩
  | msgRing coro =>
      rw [data] at isOwed
      exact tracked.msgRing coro (isOwed rfl)

/-- No completion resumes the wrong coroutine or stores into a record that is
gone. -/
theorem handlesSoundly_of_run (run : (system Coro Info).Run)
    (created : run.Guarded fun _ action => action.isCreate = false)
    (sound : run.Guarded fun s action => s.soundIo action = true) :
    ∀ time ≤ run.length, ∀ badPath handledNum cqe rest,
      (run.state time).pc = .pollCompletion badPath handledNum →
      (run.state time).rings.cq = cqe :: rest →
        (run.state time).HandlesSoundly cqe.userData := by
  intro time timeLe _ _ cqe rest _ front
  have awaited : run.Guarded fun s action => s.awaitedFirst action = true :=
    fun time timeLt => awaitedFirst_of_unkept
      (unkept_of_run created (Nat.le_of_lt timeLt)) _
  obtain ⟨tracked, ordered⟩ := ordered_of_run sound awaited timeLe
  apply handlesSoundly_of_ordered tracked ordered front
  intro info _
  rw [Option.any_eq_false]
  exact fun record isRecord => by
    simp [unkept_of_run created timeLe info record isRecord]

/-- The kernel may complete what stands behind a timed operand first.  The
awaiter of that operand is gone when its own completion comes. -/
example :
    let s := ((system (Fin 2) (Fin 4)).exec (State.new (Fin 4) [0] 1)
      ([.work, .work,
        .await (.link (.linkAwaiter (.awaiterTimeout 0 1 2) 3)), .work, .work,
        .enter 4, .complete 1 (.succeeded 0)] ++ List.replicate 7 .work ++
        [.block, .complete 0 (.succeeded 0), .work, .work, .work])).getD
          (State.new (Fin 4) [0] 1)
    s.pc = .pollCompletion false 0 ∧
      s.rings.cq.map Completion.userData = [.taskInfoLinkSqe 0] ∧
        s.info 0 = none := by
  decide

end Handling

section Outcomes

variable [DecidableEq Coro] [DecidableEq Info] {s s' : State Coro Info}

/-- The results that completions carry are those with which the kernel ended
the I/O, and a coroutine that is ready behind a `co_await` finds its own. -/
structure Delivered (s : State Coro Info) : Prop where
  cq : ∀ cqe ∈ s.rings.cq, ∀ info, cqe.userData = .taskInfo info →
    s.outcome info = some cqe.res
  ready : ∀ coro await, s.status coro = .ready (some await) → ∃ record res,
    s.info await.lastIo = some record ∧ record.result = some res ∧
      s.outcome await.lastIo = some res

omit [DecidableEq Info] in
@[simp]
theorem forwardTask_outcome (s : State Coro Info) (handle : Option Coro) :
    (s.forwardTask handle).outcome = s.outcome := by
  cases handle <;> rfl

@[simp]
theorem handleCqEntry_outcome (s : State Coro Info) (cqe : Cqe Coro Info) :
    (s.handleCqEntry cqe).outcome = s.outcome := by
  unfold State.handleCqEntry
  cases cqe.userData <;> simp [State.storeResult]

/-- Only the kernel changes the outcome of an I/O whose record exists. -/
theorem outcome_of_step {action : Action Coro Info} {info : Info}
    {record : TaskInfo Coro} (transition : Transition s action s')
    (notComplete : ∀ chain outcome, action ≠ .complete chain outcome)
    (isRecord : s.info info = some record) :
    s'.outcome info = s.outcome info := by
  cases transition with
  | control _ | submitted _ _ | isNotOver _ | detach _ _ | awaitKept _ _ _ _
  | sendSelf _ | send _ _ | block _ | receive _ | interrupt _ | canStop
  | deinit _ | yield _ | spawn _ _ => rfl
  | @enter willWait _ _ _ _ => cases willWait <;> rfl
  | @schedule coro _ _ _ _ =>
      simp only [State.resume]
      split <;> rfl
  | handle _ _ => simp
  | await _ free =>
      refine if_neg fun inTemporaries => ?_
      simp [free.2 info inTemporaries] at isRecord
  | create _ free =>
      refine Function.update_of_ne ?_ _ _
      rintro rfl
      simp [free] at isRecord
  | complete _ _ _ => exact absurd rfl (notComplete _ _)

omit [DecidableEq Coro] [DecidableEq Info] in
/-- Only the kernel posts completions of I/O. -/
theorem Effect.mem_cq {action : Action Coro Info} (effect : Effect s action s')
    (notComplete : ∀ chain outcome, action ≠ .complete chain outcome)
    {cqe : Cqe Coro Info} {info : Info} (data : cqe.userData = .taskInfo info)
    (inCq : cqe ∈ s'.rings.cq) : cqe ∈ s.rings.cq := by
  cases effect with
  | none _ ringsEq _ => rwa [ringsEq] at inCq
  | prepare _ _ _ ringsEq _ =>
      rw [ringsEq] at inCq
      exact inCq
  | handle _ _ ringsEq _ =>
      rw [ringsEq] at inCq
      exact List.mem_of_mem_tail inCq
  | enter ringsEq _ =>
      rw [ringsEq] at inCq
      exact inCq
  | complete _ _ => exact absurd rfl (notComplete _ _)
  | receive _ ringsEq _ =>
      rw [ringsEq, Rings.receive, List.mem_append] at inCq
      refine inCq.resolve_right fun isNew => ?_
      simp [List.mem_singleton.mp isNew] at data

omit [DecidableEq Coro] [DecidableEq Info] in
theorem mem_awaited_of_complete {chain : Nat} {outcome : Outcome}
    {sqe : Sqe Coro Info} {rings : Rings (UserData Coro Info)}
    (completeEq : s.rings.complete chain outcome = some (sqe, rings))
    (posts : sqe.skipSuccess = false) :
    sqe.userData ∈ awaited s.rings.inFlight.flatten := by
  obtain ⟨before, rest, after, flightEq, _⟩ :=
    Rings.complete_eq_some completeEq
  apply List.mem_map_of_mem
  apply List.mem_filter.mpr
  simp [flightEq, posts]

omit [DecidableEq Info] in
/-- The request that is ended has no completion yet. -/
theorem Tracked.not_mem_cq (tracked : Tracked s) {info : Info}
    (inFlight : .taskInfo info ∈ awaited s.rings.inFlight.flatten) :
    ∀ cqe ∈ s.rings.cq, cqe.userData ≠ .taskInfo info := by
  intro cqe inCq data
  have nodup := tracked.nodup
  rw [State.owed, Rings.outstanding, List.filter_append,
    List.nodup_append] at nodup
  refine nodup.2.2 (.taskInfo info) ?_ (.taskInfo info) ?_ rfl
  · exact List.mem_filter.mpr
      ⟨List.mem_map.mpr ⟨cqe, inCq, data⟩, rfl⟩
  · exact List.mem_filter.mpr ⟨List.mem_append_left _ inFlight, rfl⟩

omit [DecidableEq Coro] [DecidableEq Info] in
theorem owed_of_inFlight {info : Info}
    (inFlight : .taskInfo info ∈ awaited s.rings.inFlight.flatten) :
    .taskInfo info ∈ s.owed := by
  apply List.mem_filter.mpr
  exact ⟨List.mem_append_right _ (List.mem_append_left _ inFlight), rfl⟩

/-- Only the handling of a completion makes a coroutine ready behind a
`co_await`. -/
theorem ready_of_step {action : Action Coro Info} {coro : Coro}
    {await : Await Info} (tracked : Tracked s)
    (awaited : s.awaitedFirst action = true)
    (transition : Transition s action s')
    (isReady : s'.status coro = .ready (some await)) :
    s.status coro = .ready (some await) ∨
      (s.status coro = .awaiting await ∧ ∃ cqe rest,
        s.rings.cq = cqe :: rest ∧ cqe.userData = .taskInfo await.lastIo ∧
          s'.info = (s.storeResult await.lastIo cqe.res).info ∧
            s'.outcome = s.outcome) := by
  have moved : ∀ other status,
      s'.status = Function.update s.status other status →
      status ≠ .ready (some await) → s.status coro = .ready (some await) := by
    intro other status statusEq notReady
    rw [statusEq] at isReady
    by_cases isOther : coro = other
    · rw [isOther, Function.update_self] at isReady
      exact absurd isReady notReady
    · rwa [Function.update_of_ne isOther] at isReady
  cases transition with
  | control _ | submitted _ _ | isNotOver _ | detach _ _ | send _ _
  | complete _ _ _ | interrupt _ | canStop | deinit _ | create _ _ =>
      exact .inl isReady
  | @enter willWait _ _ _ _ => cases willWait <;> exact .inl isReady
  | sendSelf _ | block _ | receive _ | await _ _ | awaitKept _ _ _ _ =>
      exact .inl (moved _ _ rfl (by simp))
  | @yield other _ _ =>
      refine .inl (moved other (.ready none) ?_ (by simp))
      simp [State.forwardTask, State.suspend, Status.forwarded, Status.pending]
  | @spawn _ other _ _ isIdle =>
      refine .inl (moved other (.ready none) ?_ (by simp))
      simp [State.forwardTask, isIdle, Status.forwarded, Status.pending]
  | @schedule other _ _ _ _ =>
      exact .inl (moved other .running (resume_status other) (by simp))
  | @handle _ _ cqe rest pc front =>
      have isOwed : cqe.userData.resumes = true → cqe.userData ∈ s.owed :=
        owed_of_front front
      unfold State.handleCqEntry at isReady moved ⊢
      cases data : cqe.userData with
      | nop | taskInfoLinkSqe _ =>
          rw [data] at isReady
          exact .inl isReady
      | coroutineHandle other =>
          rw [data] at isOwed
          exact absurd (isOwed rfl) (tracked.noHandle other)
      | msgRing other =>
          rw [data] at isOwed moved
          have handedOver := tracked.msgRing other (isOwed rfl)
          refine .inl (moved other (.ready none) ?_ (by simp))
          simp [State.forwardTask, handedOver, Status.forwarded,
            Status.pending]
      | taskInfo place =>
          obtain ⟨record, await', isRecord, handle, isAwaiting, rfl⟩ :=
            tracked.awaiting_of_front front data
              (by simpa [State.awaitedFirst, pc, front, data] using awaited)
          have handleEq : (s.info await'.lastIo).bind TaskInfo.handle =
              some record.owner := by
            rw [isRecord]
            exact handle
          simp only [data, State.handle, handleEq] at isReady moved ⊢
          by_cases isOwner : coro = record.owner
          · subst isOwner
            have sameAwait : await' = await := by
              simpa [State.forwardTask, State.storeResult, isAwaiting,
                Status.forwarded, Status.pending] using isReady
            subst sameAwait
            exact .inr ⟨isAwaiting, cqe, rest, front, data, rfl, rfl⟩
          · left
            simpa [State.forwardTask, State.storeResult, isOwner] using isReady

/-- A step keeps what a ready coroutine finds. -/
theorem Delivered.keeps {action : Action Coro Info} {coro : Coro}
    {await : Await Info} (delivered : Delivered s) (tracked : Tracked s)
    (ordered : Ordered s) (awaited : s.awaitedFirst action = true)
    (transition : Transition s action s')
    (wasReady : s.status coro = .ready (some await))
    (isReady : s'.status coro = .ready (some await)) :
    ∃ record res, s'.info await.lastIo = some record ∧
      record.result = some res ∧ s.outcome await.lastIo = some res := by
  obtain ⟨record, res, isRecord, result, outcome⟩ :=
    delivered.ready coro await wasReady
  have isPending : (s.status coro).pending = some await := by
    rw [wasReady]
    rfl
  obtain ⟨record', isRecord', owner, notKept⟩ := tracked.owned coro await
    isPending _ (tracked.lastIo coro await isPending).1
  obtain rfl := Option.some.inj (isRecord.symm.trans isRecord')
  refine ⟨record, res, ?_, result, outcome⟩
  rcases tracked.frame transition isPending isRecord notKept with
    ⟨sameRecord, _⟩ | ⟨_, _, cqe, rest, rfl, pc, front, rfl⟩ |
      ⟨other, rest, num, rfl, pc, queue, rfl⟩
  · exact sameRecord
  · -- the stores of results find records of coroutines that still wait
    have stored : ∀ place coro' await',
        s.status coro' = .awaiting await' →
        (∃ record', s.info place = some record' ∧ record'.owner = coro') →
        ∀ res, (s.storeResult place res).info await.lastIo = some record := by
      rintro place coro' await' isAwaiting ⟨record', isRecord', owner'⟩ res
      refine (Function.update_of_ne ?_ _ _).trans isRecord
      rintro rfl
      obtain rfl := Option.some.inj (isRecord.symm.trans isRecord')
      rw [owner] at owner'
      simp [owner', isAwaiting] at wasReady
    simp only [State.handleCqEntry]
    cases data : cqe.userData with
    | nop | coroutineHandle _ | msgRing _ => simpa using isRecord
    | taskInfo place =>
        obtain ⟨record', await', isRecord', _, isAwaiting, _⟩ :=
          tracked.awaiting_of_front front data
            (by simpa [State.awaitedFirst, pc, front, data] using awaited)
        simp only [forwardTask_info]
        exact stored place _ await' isAwaiting ⟨record', isRecord', rfl⟩
          cqe.res
    | taskInfoLinkSqe place =>
        have isLinked := linked_of_front front (by rw [data]; rfl)
        rw [data] at isLinked
        obtain ⟨_, await', holds, _⟩ := ordered.links place isLinked
        obtain ⟨record', isRecord', owner', _⟩ := holds.record
        exact stored place _ await' holds.isAwaiting
          ⟨record', isRecord', owner'⟩ cqe.res
  · have isOther : record.owner ≠ other := by
      rintro rfl
      simp [owner] at isReady
    exact tracked.resume_other isOther isRecord

omit [DecidableEq Coro] [DecidableEq Info] in
theorem owed_of_cq {cqe : Cqe Coro Info} {info : Info}
    (inCq : cqe ∈ s.rings.cq) (data : cqe.userData = .taskInfo info) :
    .taskInfo info ∈ s.owed := by
  apply List.mem_filter.mpr
  exact ⟨List.mem_append_left _ (List.mem_map.mpr ⟨cqe, inCq, data⟩), rfl⟩

/-- The kernel ends an I/O that nobody is ready behind. -/
theorem Delivered.complete {chain : Nat} {outcome : Outcome}
    {sqe : Sqe Coro Info} {rings : Rings (UserData Coro Info)}
    {outcomes : Info → Option Int} (delivered : Delivered s)
    (tracked : Tracked s)
    (completeEq : s.rings.complete chain outcome = some (sqe, rings))
    (quiet : s.quietIo (.complete chain outcome) = true)
    (ended : ∀ info, sqe.userData = .taskInfo info →
      sqe.skipSuccess = false →
        outcomes = Function.update s.outcome info (some outcome.res))
    (skipped : (∀ info, sqe.userData = .taskInfo info →
      sqe.skipSuccess = true) → outcomes = s.outcome) :
    Delivered { s with rings, outcome := outcomes } := by
  -- the other outcomes stay
  have stays : ∀ info, (∀ place, sqe.userData = .taskInfo place →
      sqe.skipSuccess = false → info ≠ place) →
        outcomes info = s.outcome info := by
    intro info isOther
    by_cases isIo : ∃ place, sqe.userData = .taskInfo place ∧
        sqe.skipSuccess = false
    · obtain ⟨place, data, posts⟩ := isIo
      rw [ended place data posts,
        Function.update_of_ne (isOther place data posts)]
    · rw [skipped]
      intro place data
      by_contra posts
      exact isIo ⟨place, data, by simpa using posts⟩
  have inFlight : ∀ place, sqe.userData = .taskInfo place →
      sqe.skipSuccess = false →
        .taskInfo place ∈ awaited s.rings.inFlight.flatten :=
    fun place data posts => data ▸ mem_awaited_of_complete completeEq posts
  constructor
  · intro cqe inCq info data
    obtain ⟨_, _, _, _, rfl⟩ := Rings.complete_eq_some completeEq
    rcases List.mem_append.mp inCq with inOld | isNew
    · refine (stays info ?_).trans (delivered.cq cqe inOld info data)
      rintro place placeData posts rfl
      exact tracked.not_mem_cq (inFlight info placeData posts) cqe inOld data
    · split at isNew
      next posts =>
        obtain rfl := List.mem_singleton.mp isNew
        have awaits : sqe.skipSuccess = false := by
          simp only [State.quietIo, completeEq] at quiet
          cases skips : sqe.skipSuccess with
          | false => rfl
          | true =>
              simp only at data
              simp [skips, posts, data, UserData.isNop] at quiet
        exact (congrFun (ended info data awaits) info).trans
          (Function.update_self _ _ _)
      next => simp at isNew
  · intro coro await isReady
    obtain ⟨record, res, isRecord, result, outcomeEq⟩ :=
      delivered.ready coro await isReady
    refine ⟨record, res, isRecord, result, (stays _ ?_).trans outcomeEq⟩
    rintro place data posts rfl
    obtain ⟨record', isRecord', waits⟩ := tracked.taskInfo _
      (owed_of_inFlight (inFlight _ data posts))
    have isPending : (s.status coro).pending = some await := by
      rw [show s.status coro = .ready (some await) from isReady]
      rfl
    obtain ⟨record'', isRecord'', owner, notKept⟩ := tracked.owned coro await
      isPending _ (tracked.lastIo coro await isPending).1
    obtain rfl := Option.some.inj (isRecord'.symm.trans isRecord'')
    rcases waits with isKept | ⟨await', isAwaiting, _⟩
    · simp [notKept] at isKept
    · rw [owner, show s.status coro = .ready (some await) from isReady]
        at isAwaiting
      simp at isAwaiting

theorem Delivered.step {action : Action Coro Info} (delivered : Delivered s)
    (tracked : Tracked s) (ordered : Ordered s)
    (sound : s.soundIo action = true)
    (awaited : s.awaitedFirst action = true)
    (transition : Transition s action s') : Delivered s' := by
  by_cases isComplete : ∃ chain outcome, action = .complete chain outcome
  · obtain ⟨chain, outcome, rfl⟩ := isComplete
    cases transition with
    | submitted _ isWork => simp at isWork
    | complete completeEq ended skipped =>
        exact delivered.complete tracked completeEq sound ended skipped
  · have notComplete : ∀ chain outcome,
        action ≠ .complete chain outcome := by
      simpa using isComplete
    constructor
    · intro cqe inCq info data
      have inOld := transition.effect.mem_cq notComplete data inCq
      obtain ⟨record, isRecord, _⟩ :=
        tracked.taskInfo info (owed_of_cq inOld data)
      rw [outcome_of_step transition notComplete isRecord]
      exact delivered.cq cqe inOld info data
    · intro coro await isReady
      rcases ready_of_step tracked awaited transition isReady with
        wasReady | ⟨isAwaiting, cqe, rest, front, data, info, outcome⟩
      · obtain ⟨record, res, isRecord, result, outcomeEq⟩ :=
          delivered.keeps tracked ordered awaited transition wasReady isReady
        obtain ⟨record', _, wasRecord, _⟩ :=
          delivered.ready coro await wasReady
        refine ⟨record, res, isRecord, result, ?_⟩
        rw [outcome_of_step transition notComplete wasRecord, outcomeEq]
      · have isPending : (s.status coro).pending = some await := by
          rw [isAwaiting]
          rfl
        obtain ⟨record, isRecord, _⟩ := tracked.owned coro await isPending _
          (tracked.lastIo coro await isPending).1
        refine ⟨{ record with result := some cqe.res }, cqe.res, ?_, rfl, ?_⟩
        · rw [info]
          simp [State.storeResult, isRecord]
        · rw [outcome]
          exact delivered.cq cqe (by simp [front]) _ data

end Outcomes

section Continuations

variable [DecidableEq Coro]

/-- The coroutine begins a `co_await` of I/O. -/
def State.begins (coro : Coro) (s : State Coro Info) :
    Action Coro Info → Option (Await Info)
  | .await expr =>
      match s.pc with
      | .running other _ =>
          if other = coro then some ⟨expr.infos, expr.lastIo⟩ else none
      | _ => none
  | .awaitKept info =>
      match s.pc with
      | .running other _ => if other = coro then some ⟨[info], info⟩ else none
      | _ => none
  | _ => none

/-- The coroutine goes on behind a `co_await` of I/O. -/
def State.continues (coro : Coro) (s : State Coro Info) :
    Action Coro Info → Option (Await Info)
  | .work =>
      match s.pc, s.reapSwap with
      | .schedule (_ + 1), some other :: _ =>
          if other = coro then (s.status coro).pending else none
      | _, _ => none
  | _ => none

variable [DecidableEq Info] {s s' : State Coro Info}

omit [DecidableEq Info] in
theorem continues_eq_none {coro : Coro}
    (notSchedule : ∀ num, s.pc ≠ .schedule (num + 1)) :
    s.continues coro .work = none := by
  simp only [State.continues]
  split
  next num _ _ pc _ => exact absurd pc (notSchedule num)
  next => rfl

omit [DecidableEq Info] in
/-- Whoever becomes ready goes on from where it was. -/
@[simp]
theorem forwardTask_pending (s : State Coro Info) (handle : Option Coro)
    (coro : Coro) :
    ((s.forwardTask handle).status coro).pending =
      (s.status coro).pending := by
  cases handle with
  | none => rfl
  | some other =>
      by_cases isOther : coro = other
      · subst isOther
        simp [State.forwardTask, Status.forwarded, Status.pending]
      · simp [State.forwardTask, isOther]

@[simp]
theorem handleCqEntry_pending (s : State Coro Info) (cqe : Cqe Coro Info)
    (coro : Coro) :
    ((s.handleCqEntry cqe).status coro).pending =
      (s.status coro).pending := by
  unfold State.handleCqEntry
  cases cqe.userData <;> simp [State.storeResult]

/-- A step begins at most one `co_await` or ends one. -/
theorem pending_of_step {action : Action Coro Info} (tracked : Tracked s)
    (transition : Transition s action s') (coro : Coro) :
    (s.status coro).pending.toList ++ (s.begins coro action).toList =
      (s.continues coro action).toList ++
        (s'.status coro).pending.toList := by
  have same : (s'.status coro).pending = (s.status coro).pending →
      s.begins coro action = none → s.continues coro action = none →
        (s.status coro).pending.toList ++ (s.begins coro action).toList =
          (s.continues coro action).toList ++
            (s'.status coro).pending.toList := by
    intro pending begins continues
    simp [pending, begins, continues]
  have running : ∀ {other num}, s.pc = .running other num →
      (s.status other).pending = none := by
    intro other num pc
    rw [(tracked.running other).mpr ⟨num, pc⟩]
    rfl
  have moved : ∀ other status, (s.status other).pending = none →
      status.pending = none →
        (Function.update s.status other status coro).pending =
          (s.status coro).pending := by
    intro other status leaves enters
    by_cases isOther : coro = other
    · rw [isOther, Function.update_self, leaves, enters]
    · rw [Function.update_of_ne isOther]
  cases transition with
  | control control =>
      refine same rfl rfl (continues_eq_none fun num pc => ?_)
      cases control <;> simp_all
  | submitted pc isWork =>
      rcases isWork with rfl | rfl
      · exact same rfl rfl (continues_eq_none (by simp [pc]))
      · exact same rfl rfl rfl
  | isNotOver pc => exact same rfl rfl (continues_eq_none (by simp [pc]))
  | handle pc _ =>
      exact same (handleCqEntry_pending s _ coro) rfl
        (continues_eq_none (by simp [pc]))
  | detach _ _ | create _ _ | send _ _ | complete _ _ _ | interrupt _
  | canStop | deinit _ => exact same rfl rfl rfl
  | @enter willWait _ _ _ _ => cases willWait <;> exact same rfl rfl rfl
  | spawn _ _ => exact same (forwardTask_pending s _ coro) rfl rfl
  | receive isIdle =>
      exact same (moved _ _ (by rw [isIdle]; rfl) rfl) rfl rfl
  | sendSelf pc | block pc => exact same (moved _ _ (running pc) rfl) rfl rfl
  | yield pc =>
      refine same ?_ rfl rfl
      rw [forwardTask_pending]
      exact moved _ _ (running pc) rfl
  | @schedule other rest num pc queue =>
      simp only [State.begins, State.continues, pc, queue, resume_status]
      by_cases isOther : other = coro
      · simp [isOther, Status.pending]
      · simp [isOther, Ne.symm isOther]
  | @await other num expr pc free =>
      simp only [State.begins, State.continues, pc]
      by_cases isOther : other = coro
      · subst isOther
        rw [running pc]
        simp [State.suspend, Status.pending]
      · simp [isOther, Ne.symm isOther, State.suspend, State.construct]
  | @awaitKept other num info record pc _ _ _ =>
      simp only [State.begins, State.continues, pc]
      by_cases isOther : other = coro
      · subst isOther
        rw [running pc]
        simp [State.suspend, Status.pending]
      · simp [isOther, Ne.symm isOther, State.suspend]

/-- Each `co_await` of I/O goes on once, with the result of its I/O, in a run
of a system whose states show a worker. -/
structure ContinuesOnce {Outer : Type*}
    {system : TransitionSystem Outer (Action Coro Info)}
    (view : Outer → State Coro Info) (run : system.Run) : Prop where
  /-- No null handle is forwarded. -/
  noNull : ∀ time ≤ run.length, none ∉ (view (run.state time)).reapSwap
  /-- Those that began are those that went on and the one that is pending. -/
  once : ∀ time ≤ run.length, ∀ coro,
    run.log (fun s => (view s).begins coro) 0 time =
      run.log (fun s => (view s).continues coro) 0 time ++
        ((view (run.state time)).status coro).pending.toList
  /-- The completion that is waited for is still to be handled, once. -/
  coming : ∀ time ≤ run.length, ∀ coro await,
    (view (run.state time)).status coro = .awaiting await →
      (view (run.state time)).rings.outstanding.count
        (.taskInfo await.lastIo) = 1
  queued : ∀ time ≤ run.length, ∀ coro await,
    (view (run.state time)).status coro = .ready await →
      (view (run.state time)).reapSwap.count (some coro) = 1
  result : ∀ time < run.length, ∀ coro await,
    (view (run.state time)).continues coro (run.action time) = some await →
      ∃ res, (view (run.state time)).outcome await.lastIo = some res ∧
        (view (run.state (time + 1))).value coro = some res

theorem delivered_of_run {run : (system Coro Info).Run}
    (sound : run.Guarded fun s action => s.soundIo action = true)
    (awaited : run.Guarded fun s action => s.awaitedFirst action = true)
    {time : Nat} (timeLe : time ≤ run.length) :
    Delivered (run.state time) := by
  induction time with
  | zero =>
      obtain ⟨coros, readyCount, _, _, startEq⟩ := run.starts
      rw [startEq]
      refine ⟨by simp [State.new, Rings.empty], ?_⟩
      intro coro await isReady
      simp only [State.new] at isReady
      split at isReady <;> simp at isReady
  | succ time ih =>
      obtain ⟨tracked, ordered⟩ :=
        ordered_of_run sound awaited (Nat.le_of_lt timeLe)
      exact (ih (by omega)).step tracked ordered (sound time timeLe)
        (awaited time timeLe) (transition_of_step (run.steps time timeLe))

omit [DecidableEq Info] in
/-- A coroutine that goes on was ready, and the worker resumes it. -/
theorem of_continues {action : Action Coro Info} {coro : Coro}
    {await : Await Info} (tracked : Tracked s)
    (continues : s.continues coro action = some await) :
    s.status coro = .ready (some await) ∧ action = .work ∧
      ∃ rest num, s.pc = .schedule (num + 1) ∧
        s.reapSwap = some coro :: rest := by
  unfold State.continues at continues
  split at continues
  next =>
    split at continues
    next num other rest pc queue =>
      split at continues
      next isCoro =>
        subst isCoro
        obtain ⟨pending, isReady⟩ :=
          tracked.ready_of_queue (queue ▸ List.mem_cons_self)
        rw [isReady] at continues
        obtain rfl : pending = some await := continues
        exact ⟨isReady, rfl, rest, num, pc, queue⟩
      next => simp at continues
    next => simp at continues
  next => simp at continues

theorem result_of_continues {action : Action Coro Info} {coro : Coro}
    {await : Await Info} (tracked : Tracked s) (delivered : Delivered s)
    (stepEq : step s action = some s')
    (continues : s.continues coro action = some await) :
    ∃ res, s.outcome await.lastIo = some res ∧ s'.value coro = some res := by
  obtain ⟨isReady, rfl, rest, num, pc, queue⟩ :=
    of_continues tracked continues
  obtain ⟨record, res, isRecord, result, outcome⟩ :=
    delivered.ready coro await isReady
  simp only [step, State.work, pc, queue] at stepEq
  rw [← Option.some.inj stepEq,
    resume_of_some (by rw [isReady]; rfl : _ = some await)]
  exact ⟨res, outcome, by simp [isRecord, result]⟩

/-- If each I/O is awaited before its completion is handled, each `co_await`
goes on once. -/
theorem continuesOnce_of_run (run : (system Coro Info).Run)
    (sound : run.Guarded fun s action => s.soundIo action = true)
    (awaited : run.Guarded fun s action => s.awaitedFirst action = true) :
    ContinuesOnce (fun s => s) run where
  noNull time timeLe := (ordered_of_run sound awaited timeLe).1.noNull
  once time timeLe coro := by
    induction time with
    | zero =>
        obtain ⟨coros, readyCount, _, _, startEq⟩ := run.starts
        simp only [run.log_self, startEq, State.new]
        split <;> rfl
    | succ time ih =>
        have before := ih (by omega)
        have tracked :=
          (ordered_of_run sound awaited (Nat.le_of_lt timeLe)).1
        have pending := pending_of_step tracked
          (transition_of_step (run.steps time timeLe)) coro
        rw [run.log_append (Nat.zero_le time) (Nat.le_succ time), run.log_single,
          run.log_append (Nat.zero_le time) (Nat.le_succ time), run.log_single,
          before, List.append_assoc, pending, List.append_assoc]
  coming time timeLe coro await isAwaiting := by
    have tracked := (ordered_of_run sound awaited timeLe).1
    have isOwed := tracked.awaiting coro await isAwaiting
    have count := tracked.nodup.count (a := .taskInfo await.lastIo)
    rw [if_pos isOwed, State.owed] at count
    rwa [List.count_filter rfl] at count
  queued time timeLe coro await isReady := by
    have queue := (ordered_of_run sound awaited timeLe).1.queue coro
    rw [queue, isReady]
    rfl
  result time timeLt coro await continues :=
    result_of_continues
      (ordered_of_run sound awaited (Nat.le_of_lt timeLt)).1
      (delivered_of_run sound awaited (Nat.le_of_lt timeLt))
      (run.steps time timeLt) continues

end Continuations

end CoContext.Worker
