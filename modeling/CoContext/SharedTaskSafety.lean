import CoContext.SharedTaskInvariant

/-!
# What the awaiters of a shared task observe

The task is started once.  Whoever `try_await` suspended is on the stack that
the final exchange takes and is scheduled once; whoever it did not suspend
finds the result stored; and nobody stays suspended behind a completed task.
-/

namespace CoContext.SharedTask

open TransitionSystem

variable {Coro Ctx Value Error : Type*}

/-- `try_await` returns true to `coro` in this step. -/
def Queues (s successor : State Coro Ctx Value Error) (coro : Coro) : Prop :=
  s.pc coro ≠ .suspended ∧ successor.pc coro = .suspended

/-- The action awaits the task anew. -/
def Action.IsAwait : Action Coro Ctx Value Error → Prop
  | .await .. => True
  | _ => False

variable [DecidableEq Coro]

/-- The final exchange of the task. -/
def Exchanges (s : State Coro Ctx Value Error)
    (action : Action Coro Ctx Value Error) : Prop :=
  s.body = .finalSuspend ∧
    match action with
    | .finalAwait => True
    | _ => False

/-- Nothing can happen any more but that a coroutine awaits the task anew. -/
def Quiescent (s : State Coro Ctx Value Error) : Prop :=
  ∀ action, ¬ action.IsAwait → step s action = none

/-- What the protocol guarantees in every state of a run and of the steps of a
run. -/
structure Served (run : (system Coro Ctx Value Error).Run) : Prop where
  /-- The task is started by the one coroutine that claimed it. -/
  started_once : ∀ time ≤ run.length,
    ((run.state time).waiters = .notStarted ∧ (run.state time).starts = 0) ∨
    ((run.state time).starts = 0 ∧
      ∃! coro, (run.state time).pc coro = .resume) ∨
    ((run.state time).starts = 1 ∧
      ∀ coro, (run.state time).pc coro ≠ .resume)
  /-- Every suspended coroutine is on the list that the exchange takes. -/
  taken : ∀ queued < run.length, ∀ exchanged < run.length, ∀ coro,
    Queues (run.state queued) (run.state (queued + 1)) coro →
    Exchanges (run.state exchanged) (run.action exchanged) →
      queued < exchanged ∧ LinkedFrom (run.state exchanged).next
        (run.state exchanged).waiters.head coro
  scheduled_once : ∀ queued last, queued < last → last ≤ run.length →
    ∀ coro, Queues (run.state queued) (run.state (queued + 1)) coro →
    (run.state last).body = .done →
      ((run.state last).scheduled.map Prod.snd).count coro = 1
  scheduled_le_once : ∀ time ≤ run.length, ∀ coro,
    ((run.state time).scheduled.map Prod.snd).count coro ≤ 1
  /-- Nobody goes on before the result is stored. -/
  proceeds : ∀ time ≤ run.length, ∀ coro,
    (run.state time).pc coro = .awaitResume →
      (run.state time).result.isSome
  observes : ∀ time ≤ run.length, ∀ coro result,
    (run.state time).pc coro = .resumed result →
      result = (run.state time).result ∧ result.isSome
  /-- Whoever still waits for a completed task was scheduled. -/
  not_stranded : ∀ time ≤ run.length, (run.state time).body = .done →
    ∀ coro, (run.state time).pc coro = .suspended →
      (run.state time).Scheduled coro
  quiescent : ∀ time ≤ run.length, Quiescent (run.state time) → ∀ coro,
    (run.state time).pc coro = .idle ∨
      ∃ result, (run.state time).pc coro = .resumed result

section Steps

/-- The call of `coroutine.resume()` has returned whenever the task rests. -/
def Rested (s : State Coro Ctx Value Error) : Prop :=
  s.body = .suspended ∨ s.body = .done → s.resumer = none

omit [DecidableEq Coro] in
theorem rested_of_body {s : State Coro Ctx Value Error}
    (notSuspended : s.body ≠ .suspended) (notDone : s.body ≠ .done) :
    Rested s := by
  rintro (isSuspended | isDone)
  · exact absurd isSuspended notSuspended
  · exact absurd isDone notDone

theorem rested_returnResume (s : State Coro Ctx Value Error) :
    Rested s.returnResume := by
  intro _
  unfold State.returnResume
  cases resumer : s.resumer with
  | none => exact resumer
  | some coro => rfl

theorem rested_visit (s : State Coro Ctx Value Error)
    (pointer : Option Coro) : Rested (s.visit pointer) := by
  cases pointer with
  | none => exact rested_returnResume _
  | some waiter =>
      exact rested_of_body (by simp [State.visit]) (by simp [State.visit])

theorem Rested.runAwait {s successor : State Coro Ctx Value Error}
    {coro : Coro} {spurious : Bool} (rested : Rested s)
    (stepEq : s.runAwait coro spurious = some successor) :
    Rested successor := by
  unfold State.runAwait at stepEq
  split at stepEq <;>
    simp only [Option.some.injEq, reduceCtorEq] at stepEq <;> subst stepEq
  · unfold State.awaitReady
    split <;> exact rested
  · exact rested
  · unfold State.start
    split <;> exact rested
  · exact rested_of_body (by simp [State.resumeTask])
      (by simp [State.resumeTask])
  · exact rested
  · unfold State.push
    split
    · exact rested
    · split <;> exact rested
  · exact rested

theorem Rested.step {s successor : State Coro Ctx Value Error}
    {action : Action Coro Ctx Value Error} (rested : Rested s)
    (stepEq : SharedTask.step s action = some successor) :
    Rested successor := by
  cases action with
  | run coro spurious => exact rested.runAwait stepEq
  | finalAwait =>
      simp only [SharedTask.step, State.finalAwait] at stepEq
      split at stepEq <;>
        simp only [Option.some.injEq, reduceCtorEq] at stepEq <;>
        subst stepEq
      · exact rested_visit _ _
      · exact rested_of_body (by simp) (by simp)
      · exact rested_visit _ _
  | await coro ctx =>
      simp only [SharedTask.step] at stepEq
      split at stepEq <;>
        simp only [Option.some.injEq, reduceCtorEq] at stepEq <;>
        subst stepEq <;> exact rested
  | wake coro =>
      simp only [SharedTask.step] at stepEq
      split at stepEq <;> [split at stepEq; skip] <;>
        simp only [Option.some.injEq, reduceCtorEq] at stepEq
      subst stepEq
      exact rested
  | suspend =>
      simp only [SharedTask.step] at stepEq
      split at stepEq <;>
        simp only [Option.some.injEq, reduceCtorEq] at stepEq
      subst stepEq
      exact rested_returnResume _
  | resume | returnValue _ | unhandledException _ =>
      simp only [SharedTask.step] at stepEq
      split at stepEq <;>
        simp only [Option.some.injEq, reduceCtorEq] at stepEq
      subst stepEq
      exact rested_of_body (by simp) (by simp)

/-- The coroutine was suspended by `try_await` and not resumed, or it was
scheduled. -/
def State.Waits (s : State Coro Ctx Value Error) (coro : Coro) : Prop :=
  s.pc coro = .suspended ∨ s.Scheduled coro

/-- What no step undoes. -/
structure Advances (s s' : State Coro Ctx Value Error) : Prop where
  ready : s.waiters = .ready → s'.waiters = .ready
  waits : ∀ coro, s.Waits coro → s'.Waits coro
  suspends : s.waiters = .ready → ∀ coro, s'.pc coro = .suspended →
    s.pc coro = .suspended

omit [DecidableEq Coro] in
theorem Advances.trans {s s' s'' : State Coro Ctx Value Error}
    (first : Advances s s') (second : Advances s' s'') : Advances s s'' where
  ready isReady := second.ready (first.ready isReady)
  waits coro waits := second.waits coro (first.waits coro waits)
  suspends isReady coro suspended :=
    first.suspends isReady coro
      (second.suspends (first.ready isReady) coro suspended)

theorem waits_setPc {s : State Coro Ctx Value Error} {coro : Coro}
    (woken : s.pc coro = .suspended → s.Scheduled coro)
    (pc : Pc Coro Ctx Value Error) :
    ∀ other, s.Waits other → (s.setPc coro pc).Waits other := by
  intro other waits
  by_cases isCoro : other = coro
  · subst isCoro
    exact .inr (waits.elim woken id)
  · apply waits.imp_left
    intro suspended
    rw [State.setPc_pc, Function.update_of_ne isCoro]
    exact suspended

theorem advances_setPc {s : State Coro Ctx Value Error} {coro : Coro}
    {pc : Pc Coro Ctx Value Error}
    (woken : s.pc coro = .suspended → s.Scheduled coro)
    (notSuspended : pc ≠ .suspended) : Advances s (s.setPc coro pc) where
  ready := id
  waits := waits_setPc woken pc
  suspends _ other suspended := by
    by_cases isCoro : other = coro
    · simp [isCoro, notSuspended] at suspended
    · rwa [State.setPc_pc, Function.update_of_ne isCoro] at suspended

theorem advances_returnResume {s : State Coro Ctx Value Error}
    (resumer : ∀ coro, s.resumer = some coro → s.pc coro ≠ .suspended) :
    Advances s s.returnResume := by
  unfold State.returnResume
  cases resumerEq : s.resumer with
  | none => exact ⟨id, fun _ => id, fun _ _ => id⟩
  | some coro =>
      have moved : Advances s (s.setPc coro .reload) := advances_setPc
        (fun suspended => absurd suspended (resumer coro resumerEq)) (by simp)
      exact ⟨moved.ready, moved.waits, moved.suspends⟩

theorem advances_visit {s : State Coro Ctx Value Error}
    (resumer : ∀ coro, s.resumer = some coro → s.pc coro ≠ .suspended)
    (pointer : Option Coro) : Advances s (s.visit pointer) := by
  cases pointer with
  | none =>
      have returned : Advances { s with body := .done } (s.visit none) :=
        advances_returnResume resumer
      exact ⟨returned.ready, returned.waits, returned.suspends⟩
  | some waiter => exact ⟨id, fun _ => id, fun _ _ => id⟩

theorem advances_push {s : State Coro Ctx Value Error}
    {coro : Coro} {oldWaiters : Waiters Coro}
    (atPush : s.pc coro = .push oldWaiters) (spurious : Bool) :
    Advances s (s.push coro oldWaiters spurious) := by
  have woken : s.pc coro = .suspended → s.Scheduled coro := by simp [atPush]
  unfold State.push
  split
  next => exact advances_setPc woken (by simp)
  next notReady =>
    split
    next unchanged =>
      have wasNotReady : s.waiters ≠ .ready := by rwa [unchanged.1]
      exact ⟨fun isReady => absurd isReady wasNotReady,
        waits_setPc woken .suspended,
        fun isReady => absurd isReady wasNotReady⟩
    next =>
      have moved : Advances s (s.setPc coro (.push s.waiters)) :=
        advances_setPc woken (by simp)
      exact ⟨id, moved.waits, moved.suspends⟩

theorem advances_runAwait {s successor : State Coro Ctx Value Error}
    {coro : Coro} {spurious : Bool}
    (stepEq : s.runAwait coro spurious = some successor) :
    Advances s successor := by
  have moves : s.pc coro ≠ .suspended → ∀ pc, pc ≠ .suspended →
      Advances s (s.setPc coro pc) := fun notSuspended pc =>
    advances_setPc fun suspended => absurd suspended notSuspended
  unfold State.runAwait at stepEq
  cases pc : s.pc coro <;>
    simp only [pc, Option.some.injEq, reduceCtorEq] at stepEq <;>
    subst stepEq
  case awaitReady ctx =>
    unfold State.awaitReady
    split
    · exact moves (by simp [pc]) _ (by simp)
    · have moved := moves (by simp [pc]) .load (by simp)
      exact ⟨id, moved.waits, moved.suspends⟩
  case start =>
    unfold State.start
    split
    next unstarted =>
      have moved := moves (by simp [pc]) .resume (by simp)
      exact ⟨by simp [unstarted], moved.waits, moved.suspends⟩
    next => exact moves (by simp [pc]) _ (by simp)
  case resume =>
    have moved := moves (by simp [pc]) .inResume (by simp)
    exact ⟨id, moved.waits, moved.suspends⟩
  case push oldWaiters => exact advances_push pc spurious
  case load =>
    apply moves (by simp [pc])
    split <;> simp
  case reload => exact moves (by simp [pc]) _ (by simp)
  case awaitResume => exact moves (by simp [pc]) _ (by simp)

theorem Consistent.advances {s successor : State Coro Ctx Value Error}
    {action : Action Coro Ctx Value Error} (consistent : Consistent s)
    (stepEq : SharedTask.step s action = some successor) :
    Advances s successor := by
  have resumer : ∀ coro, s.resumer = some coro → s.pc coro ≠ .suspended := by
    intro coro isResumer
    simp [(consistent.resumer_iff coro).mp isResumer]
  cases action with
  | run coro spurious => exact advances_runAwait stepEq
  | finalAwait =>
      simp only [SharedTask.step, State.finalAwait] at stepEq
      split at stepEq <;>
        simp only [Option.some.injEq, reduceCtorEq] at stepEq <;>
        subst stepEq
      · have visits :=
          advances_visit (s := { s with waiters := .ready }) resumer
            s.waiters.head
        exact ⟨fun _ => visits.ready rfl, visits.waits,
          fun _ => visits.suspends rfl⟩
      · refine ⟨id, ?_, fun _ _ => id⟩
        intro other waits
        apply waits.imp_right
        intro scheduled
        simp only [State.Scheduled, List.map_append, List.mem_append]
        exact .inl scheduled
      · exact advances_visit resumer _
  | await coro ctx =>
      simp only [SharedTask.step] at stepEq
      split at stepEq <;>
        simp only [Option.some.injEq, reduceCtorEq] at stepEq <;>
        subst stepEq
      next atIdle => exact advances_setPc (by simp [atIdle]) (by simp)
      next atResumed => exact advances_setPc (by simp [atResumed]) (by simp)
  | wake coro =>
      simp only [SharedTask.step] at stepEq
      split at stepEq
      next =>
        split at stepEq
        next scheduled =>
          obtain rfl := Option.some.inj stepEq
          exact advances_setPc (fun _ => scheduled) (by simp)
        next => simp at stepEq
      next => simp at stepEq
  | suspend =>
      simp only [SharedTask.step] at stepEq
      split at stepEq <;>
        simp only [Option.some.injEq, reduceCtorEq] at stepEq
      subst stepEq
      have returned :=
        advances_returnResume (s := { s with body := .suspended }) resumer
      exact ⟨returned.ready, returned.waits, returned.suspends⟩
  | resume | returnValue _ | unhandledException _ =>
      simp only [SharedTask.step] at stepEq
      split at stepEq <;>
        simp only [Option.some.injEq, reduceCtorEq] at stepEq
      subst stepEq
      exact ⟨id, fun _ => id, fun _ _ => id⟩

end Steps

section States

variable {s : State Coro Ctx Value Error}

omit [DecidableEq Coro] in
theorem Consistent.result_of_ready (consistent : Consistent s)
    (isReady : s.waiters = .ready) : s.result.isSome := by
  have exchanged := consistent.ready_iff.mp isReady
  rw [consistent.result_iff]
  cases body : s.body <;> simp_all [Body.Exchanged, Body.Completed]

omit [DecidableEq Coro] in
theorem Consistent.started_once (consistent : Consistent s) :
    (s.waiters = .notStarted ∧ s.starts = 0) ∨
    (s.starts = 0 ∧ ∃! coro, s.pc coro = .resume) ∨
    (s.starts = 1 ∧ ∀ coro, s.pc coro ≠ .resume) := by
  have starts := consistent.starts
  by_cases isInitial : s.body = .initialSuspend
  · rw [isInitial] at starts
    by_cases unstarted : s.waiters = .notStarted
    · exact .inl ⟨unstarted, starts⟩
    · obtain ⟨coro, atResume⟩ := consistent.started unstarted isInitial
      exact .inr (.inl ⟨starts, coro, atResume, fun other otherResumes =>
        consistent.starter_unique other coro otherResumes atResume⟩)
  · refine .inr (.inr ⟨?_, ?_⟩)
    · rw [starts]
      cases body : s.body <;> first | rfl | exact absurd body isInitial
    · intro coro atResume
      have sound := consistent.sound coro
      rw [atResume] at sound
      exact isInitial sound.2

omit [DecidableEq Coro] in
theorem Consistent.linked_of_suspended (consistent : Consistent s)
    (notExchanged : ¬ s.body.Exchanged) {coro : Coro}
    (suspended : s.pc coro = .suspended) :
    LinkedFrom s.next s.waiters.head coro := by
  obtain ⟨line, represents⟩ := consistent.line
  have notReady : s.waiters ≠ .ready := by
    rwa [Ne, consistent.ready_iff]
  have inLine : coro ∈ line := by
    rw [represents.mem_iff]
    exact ⟨suspended,
      fun scheduled => notReady (consistent.scheduled_ready coro scheduled)⟩
  cases waiters : s.waiters with
  | notStarted => simp [represents.empty waiters] at inLine
  | ready => exact absurd waiters notReady
  | started head =>
      exact (represents.stack head waiters).linkedFrom_iff.mpr inLine

omit [DecidableEq Coro] in
theorem Consistent.scheduled_of_done (consistent : Consistent s)
    (isDone : s.body = .done) {coro : Coro}
    (suspended : s.pc coro = .suspended) : s.Scheduled coro := by
  obtain ⟨line, represents⟩ := consistent.line
  by_contra notScheduled
  have inLine := (represents.mem_iff coro).mpr ⟨suspended, notScheduled⟩
  simp [represents.drained isDone] at inLine

/-- The body of a quiescent state was not resumed or has completed. -/
theorem body_of_quiescent (quiescent : Quiescent s) :
    s.body = .initialSuspend ∨ s.body = .done := by
  cases body : s.body with
  | initialSuspend => exact .inl rfl
  | done => exact .inr rfl
  | running =>
      have stuck := quiescent .suspend id
      simp [step, body] at stuck
  | suspended =>
      have stuck := quiescent .resume id
      simp [step, body] at stuck
  | finalSuspend | coSpawn _ | readNext _ =>
      have stuck := quiescent .finalAwait id
      simp [step, State.finalAwait, body] at stuck

theorem Consistent.returned_of_quiescent (consistent : Consistent s)
    (rested : Rested s) (quiescent : Quiescent s) (coro : Coro) :
    s.pc coro = .idle ∨ ∃ result, s.pc coro = .resumed result := by
  have nobodyRuns : ∀ other, s.runAwait other false = none := fun other =>
    quiescent (.run other false) id
  have resting := body_of_quiescent quiescent
  have stuck := nobodyRuns coro
  unfold State.runAwait at stuck
  cases pc : s.pc coro with
  | idle => exact .inl rfl
  | resumed result => exact .inr ⟨result, rfl⟩
  | awaitReady _ | load | start | resume | reload | push _ | awaitResume =>
      simp [pc] at stuck
  | inResume =>
      have sound := consistent.sound coro
      rw [pc] at sound
      have noResumer := rested (.inr (resting.resolve_left sound.2))
      have isResumer := (consistent.resumer_iff coro).mpr pc
      simp [noResumer] at isResumer
  | suspended =>
      exfalso
      rcases resting with isInitial | isDone
      · have notExchanged : ¬ s.body.Exchanged := by
          rw [isInitial]
          exact id
        have linked := consistent.linked_of_suspended notExchanged pc
        have isStarted : s.waiters ≠ .notStarted := by
          intro unstarted
          rw [unstarted] at linked
          cases linked
        obtain ⟨starter, atResume⟩ := consistent.started isStarted isInitial
        have starterStuck := nobodyRuns starter
        simp [State.runAwait, atResume] at starterStuck
      · have woken := quiescent (.wake coro) id
        simp [SharedTask.step, pc, consistent.scheduled_of_done isDone pc] at woken

end States

section Runs

variable (run : (system Coro Ctx Value Error).Run)

theorem consistent_of_run {time : Nat} (timeLe : time ≤ run.length) :
    Consistent (run.state time) :=
  consistent_of_reachable (run.reachable timeLe)

theorem rested_of_run {time : Nat} (timeLe : time ≤ run.length) :
    Rested (run.state time) := by
  apply (run.reachable timeLe).invariant
  · rintro state rfl
    exact rested_of_body (by simp [State.new]) (by simp [State.new])
  · intro state action successor rested stepEq
    exact rested.step stepEq

theorem advances_of_run {first last : Nat} (firstLe : first ≤ last)
    (lastLe : last ≤ run.length) :
    Advances (run.state first) (run.state last) := by
  induction last, firstLe using Nat.le_induction with
  | base => exact ⟨id, fun _ => id, fun _ _ => id⟩
  | succ last firstLe ih =>
      exact (ih (by omega)).trans
        ((consistent_of_run run (by omega)).advances
          (run.steps last (by omega)))

variable {run}

/-- The exchange makes the word ready and suspends nobody. -/
theorem exchanges_spec {time : Nat} (timeLt : time < run.length)
    (exchanges : Exchanges (run.state time) (run.action time)) :
    (run.state (time + 1)).waiters = .ready ∧
      ∀ coro, (run.state (time + 1)).pc coro = .suspended →
        (run.state time).pc coro = .suspended := by
  obtain ⟨atExchange, isFinal⟩ := exchanges
  have stepEq := run.steps time timeLt
  cases action : run.action time <;> simp only [action] at isFinal
  simp only [system, action, step, State.finalAwait, atExchange,
    Option.some.injEq] at stepEq
  have visits : Advances { run.state time with waiters := .ready }
      (run.state (time + 1)) := by
    rw [← stepEq]
    apply advances_visit
    intro coro isResumer
    have consistent := consistent_of_run run (Nat.le_of_lt timeLt)
    simp [(consistent.resumer_iff coro).mp isResumer]
  exact ⟨visits.ready rfl, visits.suspends rfl⟩

theorem waits_of_queues {queued time : Nat} {coro : Coro}
    (queues : Queues (run.state queued) (run.state (queued + 1)) coro)
    (queuedLt : queued < time) (timeLe : time ≤ run.length) :
    (run.state time).Waits coro :=
  (advances_of_run run queuedLt timeLe).waits coro (.inl queues.2)

/-- A coroutine is queued before the exchange, or never. -/
theorem queued_lt_exchanged {queued exchanged : Nat} {coro : Coro}
    (queuedLt : queued < run.length) (exchangedLt : exchanged < run.length)
    (queues : Queues (run.state queued) (run.state (queued + 1)) coro)
    (exchanges : Exchanges (run.state exchanged) (run.action exchanged)) :
    queued < exchanged := by
  by_contra notBefore
  obtain ⟨isReady, suspendsNobody⟩ := exchanges_spec exchangedLt exchanges
  by_cases same : exchanged = queued
  · subst same
    exact queues.1 (suspendsNobody coro queues.2)
  · have advanced : Advances (run.state (exchanged + 1))
        (run.state queued) := advances_of_run run (by omega) (by omega)
    have moved := advances_of_run run (Nat.le_succ queued) queuedLt
    exact queues.1 (moved.suspends (advanced.ready isReady) coro queues.2)

end Runs

theorem run_start_await (run : (system Coro Ctx Value Error).Run) :
    Served run where
  started_once time timeLe := (consistent_of_run run timeLe).started_once
  taken queued queuedLt exchanged exchangedLt coro queues exchanges := by
    have queuedBefore :=
      queued_lt_exchanged queuedLt exchangedLt queues exchanges
    refine ⟨queuedBefore, ?_⟩
    have consistent := consistent_of_run run (Nat.le_of_lt exchangedLt)
    have notExchanged : ¬ (run.state exchanged).body.Exchanged := by
      rw [exchanges.1]
      exact id
    apply consistent.linked_of_suspended notExchanged
    have waits := waits_of_queues queues queuedBefore (Nat.le_of_lt exchangedLt)
    apply waits.resolve_right
    intro scheduled
    exact notExchanged (consistent.ready_iff.mp
      (consistent.scheduled_ready coro scheduled))
  scheduled_once queued last queuedLt lastLe coro queues isDone := by
    have consistent := consistent_of_run run lastLe
    have scheduled : (run.state last).Scheduled coro :=
      (waits_of_queues queues queuedLt lastLe).elim
        (consistent.scheduled_of_done isDone) id
    exact List.count_eq_one_of_mem consistent.scheduled_nodup scheduled
  scheduled_le_once time timeLe coro :=
    List.nodup_iff_count_le_one.mp
      (consistent_of_run run timeLe).scheduled_nodup coro
  proceeds time timeLe coro atAwaitResume := by
    have consistent := consistent_of_run run timeLe
    have sound := consistent.sound coro
    rw [atAwaitResume] at sound
    exact consistent.result_of_ready sound
  observes time timeLe coro result atResumed := by
    have consistent := consistent_of_run run timeLe
    have sound := consistent.sound coro
    rw [atResumed] at sound
    refine ⟨sound.2, ?_⟩
    rw [sound.2]
    exact consistent.result_of_ready sound.1
  not_stranded time timeLe isDone _ suspended :=
    (consistent_of_run run timeLe).scheduled_of_done isDone suspended
  quiescent time timeLe quiescent coro :=
    (consistent_of_run run timeLe).returned_of_quiescent
      (rested_of_run run timeLe) quiescent coro

/-- The first awaiter starts a task that completes at once, while the second
one is about to push itself. -/
example : (((system (Fin 2) (Fin 2) Nat Empty).exec
    (State.new (Fin 2) (Fin 2) Nat Empty)
    [.await 0 0, .run 0 false, .run 0 false, .run 0 false, .run 0 false,
      .await 1 1, .run 1 false, .run 1 false, .returnValue 7,
      .run 1 false, .finalAwait, .finalAwait, .finalAwait, .wake 1,
      .run 1 false, .run 0 false, .run 0 false, .run 0 false]).map
      fun s => (s.scheduled, s.starts)) = some ([(some 1, 1)], 1) := by
  decide

end CoContext.SharedTask
