import CoContext.IoContextSafety
import CoContext.WorkerQuiescence

/-!
# Each context of a program is a worker

Once a context has passed, all contexts that exist are ready, and if none is
constructed later then `ready_count` only falls, by one whenever another
context finishes.  So each context performs a run of the worker, and what
holds in all runs of the worker holds of each context.

A worker decides to stop only where it reads that it is alone.  So contexts
that are two and whose coroutines do not call `can_stop` never stop.
-/

namespace CoContext

namespace Worker

variable {Coro Info : Type*} [DecidableEq Coro] [DecidableEq Info]
variable {s s' : State Coro Info} {action : Action Coro Info}

/-- Only other contexts change `ready_count`. -/
theorem readyCount_of_step (stepEq : step s action = some s')
    (notDeinit : action ≠ .deinit) : s'.readyCount = s.readyCount := by
  cases transition_of_step stepEq with
  | deinit _ => exact absurd rfl notDeinit
  | @enter willWait _ _ _ _ => cases willWait <;> rfl
  | schedule _ _ | handle _ _ => simp
  | _ => rfl

/-- A worker in company goes on. -/
theorem goesOn_of_step (stepEq : step s action = some s')
    (notCanStop : action ≠ .canStop) (company : 1 < s.readyCount)
    (goesOn : s.willStop = false) (running : s.pc ≠ .stopped) :
    s'.willStop = false ∧ s'.pc ≠ .stopped := by
  have suspended : ∀ num, (Pc.schedule num : Pc Coro) ≠ .stopped :=
    fun _ => by simp
  cases transition_of_step stepEq with
  | control control =>
      refine ⟨goesOn, ?_⟩
      cases control with
      | stop _ willStop => simp [goesOn] at willStop
      | _ => simp
  | isNotOver _ => simp [goesOn, company]
  | canStop => exact absurd rfl notCanStop
  | @enter willWait _ _ _ _ => cases willWait <;> simp [State.enter, goesOn]
  | schedule _ _ | handle _ _ | submitted _ _ | interrupt _ =>
      simp [goesOn]
  | yield _ | await _ _ | awaitKept _ _ _ _ | sendSelf _ | block _ =>
      exact ⟨goesOn, suspended _⟩
  | spawn _ _ | detach _ _ | create _ _ | send _ _ | complete _ _ _
  | receive _ | deinit _ => exact ⟨goesOn, running⟩

omit [DecidableEq Info] in
/-- Coroutines that are spawned before the loop are in the ready queue. -/
theorem forwardTask_new {coros : List Coro} {coro : Coro}
    (fresh : coro ∉ coros) (readyCount : Nat) :
    (State.new Info coros readyCount).forwardTask (some coro) =
      State.new Info (coros ++ [coro]) readyCount := by
  have notReady : (State.new Info coros readyCount).status coro = .idle :=
    if_neg fresh
  have status : Function.update (State.new Info coros readyCount).status coro
      (.ready none) = (State.new Info (coros ++ [coro]) readyCount).status := by
    funext other
    by_cases isCoro : other = coro
    · simp [State.new, isCoro]
    · simp [State.new, isCoro]
  simp only [State.forwardTask, State.setStatus, notReady, Status.forwarded,
    Status.pending, status]
  simp [State.new]

end Worker

namespace IoContext

open TransitionSystem

variable {Ctx Coro Info : Type*}
variable [DecidableEq Ctx] [DecidableEq Coro] [DecidableEq Info]

/-- A context that has passed finds all contexts ready. -/
def Gathered (s : State Ctx Coro Info) : Prop :=
  (∃ ctx, (s.phase ctx).Passed) →
    ∀ ctx, (s.phase ctx).Alive → (s.phase ctx).Ready

/-- The ways from phase to phase between the constructor and the loop. -/
inductive Moves : Phase → Phase → Prop
  | start : Moves .constructed .init
  | register : Moves .init (.waitFor false)
  | registerLast : Moves .init .notifyAll
  | waitAgain {notified : Bool} : Moves (.waitFor notified) (.waitFor false)
  | notified {notified : Bool} : Moves (.waitFor notified) (.waitFor true)
  | pass {notified : Bool} : Moves (.waitFor notified) .notifyAll

/-- What another thread sees of the worker of a context. -/
def seen (ctx : Ctx) (s : State Ctx Coro Info) :
    Action Ctx Coro Info → Option (Worker.Action Coro Info)
  | .work other action => if other = ctx then some action else none
  | .deinit other =>
      if other ≠ ctx ∧ s.phase ctx = .run then some .deinit else none
  | _ => none

/-- The actions of a worker so far, in a run of the worker alone. -/
inductive Follows (ctx : Ctx) (s : State Ctx Coro Info) :
    List (Worker.Action Coro Info) → Prop
  | waits {coros : List Coro} : s.phase ctx ≠ .run →
      s.phase ctx ≠ .finished → coros.Nodup →
      s.worker ctx = .new Info coros 0 → Follows ctx s []
  | runs (run : (Worker.system Coro Info).Run) : s.phase ctx = .run →
      run.state run.length = s.view ctx →
      Follows ctx s (run.log (fun _ action => some action) 0 run.length)
  | finished {trace : List (Worker.Action Coro Info)} :
      s.phase ctx = .finished → Follows ctx s trace

theorem Moves.ready {source target : Phase} (moves : Moves source target)
    (ready : source.Alive → source.Ready) (alive : target.Alive) :
    target.Ready := by
  cases moves <;> trivial

theorem Moves.not_loops {source target : Phase}
    (moves : Moves source target) : target ≠ .run ∧ target ≠ .finished := by
  cases moves <;> simp

theorem Moves.alive {source target : Phase} (moves : Moves source target) :
    source.Alive := by
  cases moves <;> trivial

theorem Moves.stays_passed {source target : Phase}
    (moves : Moves source target) (passed : source.Passed) :
    target.Passed := by
  cases moves <;> trivial

theorem Moves.stays_ready {source target : Phase}
    (moves : Moves source target) (ready : source.Ready) : target.Ready := by
  cases moves <;> trivial

theorem Moves.passes {source target : Phase} (moves : Moves source target)
    (before : ¬ source.Passed) (passed : target.Passed) :
    target = .notifyAll := by
  cases moves <;> trivial

section Steps

variable {s t : State Ctx Coro Info} {action : Action Ctx Coro Info}

omit [DecidableEq Coro] [DecidableEq Info] in
theorem moves_update {ctx other : Ctx} {source target : Phase}
    (moves : Moves source target) (phase : s.phase other = source) :
    Function.update s.phase other target ctx = s.phase ctx ∨
      Moves (s.phase ctx) (Function.update s.phase other target ctx) := by
  by_cases isOther : ctx = other
  · right
    rwa [isOther, Function.update_self, phase]
  · exact .inl (Function.update_of_ne isOther _ _)

omit [DecidableEq Coro] [DecidableEq Info] in
theorem moves_test {ctx other : Ctx} {source : Phase} (timedOut : Bool)
    (waits : Moves source (.waitFor false)) (passes : Moves source .notifyAll)
    (phase : s.phase other = source) :
    (s.test other timedOut).phase ctx = s.phase ctx ∨
      Moves (s.phase ctx) ((s.test other timedOut).phase ctx) := by
  rcases s.test_cases other timedOut with
    ⟨_, testEq⟩ | ⟨_, testEq | testEq⟩
  · rw [testEq]
    exact moves_update passes phase
  · rw [testEq]
    exact .inl rfl
  · rw [testEq]
    exact moves_update waits phase

/-- A step moves each context by one phase at most. -/
theorem moves_of_step (transition : Transition s action t) (ctx : Ctx) :
    t.phase ctx = s.phase ctx ∨ Moves (s.phase ctx) (t.phase ctx) ∨
      (action = .construct ctx ∧ s.phase ctx = .unborn ∧
        t.phase ctx = .constructed) ∨
      (action = .notifyAll ctx ∧ s.phase ctx = .notifyAll ∧
        t.phase ctx = .run) ∨
      (action = .deinit ctx ∧ s.phase ctx = .run ∧
        t.phase ctx = .finished) := by
  cases transition with
  | @construct other phase =>
      by_cases isOther : ctx = other
      · rw [isOther]
        exact .inr (.inr (.inl ⟨rfl, phase, Function.update_self _ _ _⟩))
      · exact .inl (Function.update_of_ne isOther _ _)
  | coSpawn _ _ _ | work _ _ _ => exact .inl rfl
  | start phase => exact (moves_update .start phase).imp_right .inl
  | @register other phase =>
      exact (moves_test (s := { s with readyCount := s.readyCount + 1 }) false
        .register .registerLast phase).imp_right .inl
  | wakeUp phase | timeout phase =>
      exact (moves_test _ .waitAgain .pass phase).imp_right .inl
  | @notifyAll other phase =>
      by_cases isOther : ctx = other
      · rw [isOther]
        exact .inr (.inr (.inr (.inl
          ⟨rfl, phase, by simp [State.notifyAll]⟩)))
      · simp only [State.notifyAll, Function.update_of_ne isOther]
        cases s.phase ctx with
        | waitFor notified => exact .inr (.inl .notified)
        | _ => exact .inl rfl
  | @deinit other phase _ =>
      by_cases isOther : ctx = other
      · rw [isOther]
        exact .inr (.inr (.inr (.inr
          ⟨rfl, phase, Function.update_self _ _ _⟩)))
      · exact .inl (Function.update_of_ne isOther _ _)

/-- A context that passes finds the counters equal, and so all are ready. -/
theorem Gathered.step (gathered : Gathered s) (counted : Counted t)
    (early : Early s action) (transition : Transition s action t) :
    Gathered t := by
  rintro ⟨ctx, passed⟩
  by_cases before : ∃ ctx, (s.phase ctx).Passed
  · intro other alive
    have ready := gathered before other
    rcases moves_of_step transition other with
      same | moves | ⟨rfl, _⟩ | ⟨_, _, runs⟩ | ⟨_, _, finished⟩
    · rw [same] at alive ⊢
      exact ready alive
    · exact moves.ready ready alive
    · obtain ⟨some, isPassed⟩ := before
      exact absurd isPassed (early some)
    · rw [runs]
      trivial
    · rw [finished] at alive
      exact alive.elim
  · have notPassed : ¬ (s.phase ctx).Passed := fun isPassed =>
      before ⟨ctx, isPassed⟩
    have passes : t.phase ctx = .notifyAll := by
      rcases moves_of_step transition ctx with
        same | moves | ⟨_, _, constructs⟩ | ⟨_, notifies, _⟩ | ⟨_, runs, _⟩
      · rw [same] at passed
        exact absurd passed notPassed
      · exact moves.passes notPassed passed
      · rw [constructs] at passed
        exact passed.elim
      · rw [notifies] at notPassed
        exact absurd trivial notPassed
      · rw [runs] at notPassed
        exact absurd trivial notPassed
    apply counted.equal_iff.mp
    apply equal_of_passes transition _ passes
    intro phase
    rw [phase] at notPassed
    exact notPassed trivial

omit [DecidableEq Coro] [DecidableEq Info] in
theorem worker_test (s : State Ctx Coro Info) (ctx : Ctx) (timedOut : Bool) :
    (s.test ctx timedOut).worker = s.worker := by
  rcases s.test_cases ctx timedOut with ⟨_, testEq⟩ | ⟨_, testEq | testEq⟩ <;>
    exact testEq ▸ rfl

omit [DecidableEq Coro] [DecidableEq Info] in
theorem phase_test {ctx other : Ctx} (ne : ctx ≠ other) (timedOut : Bool) :
    (s.test other timedOut).phase ctx = s.phase ctx := by
  rcases s.test_cases other timedOut with
    ⟨_, testEq⟩ | ⟨_, testEq | testEq⟩
  · rw [testEq]
    exact Function.update_of_ne ne _ _
  · rw [testEq]
  · rw [testEq]
    exact Function.update_of_ne ne _ _

omit [DecidableEq Ctx] in
/-- A run of a worker makes one more step. -/
theorem Follows.extend {ctx : Ctx} (run : (Worker.system Coro Info).Run)
    {next : Worker.Action Coro Info} {last : Worker.State Coro Info}
    (stepEq : Worker.step (run.state run.length) next = some last)
    (phase : t.phase ctx = .run) (lastEq : last = t.view ctx) :
    Follows ctx t
      (run.log (fun _ action => some action) 0 run.length ++ [next]) := by
  have logEq : (run.extend next last stepEq).log
      (fun _ action => some action) 0 (run.extend next last stepEq).length =
        run.log (fun _ action => some action) 0 run.length ++ [next] :=
    Run.extend_log _
  rw [← logEq]
  apply Follows.runs _ phase
  rw [← lastEq]
  exact Run.extend_state

/-- Before its loop, a context only gets coroutines to run. -/
theorem Follows.step_waits {ctx : Ctx} {coros : List Coro}
    (notRun : s.phase ctx ≠ .run) (notFinished : s.phase ctx ≠ .finished)
    (nodup : coros.Nodup) (worker : s.worker ctx = .new Info coros 0)
    (counted : Counted s) (transition : Transition s action t) :
    Follows ctx t (seen ctx s action).toList := by
  have later : action ≠ .notifyAll ctx →
      t.worker ctx = .new Info coros 0 → Follows ctx t [] := by
    intro notNotify same
    rcases moves_of_step transition ctx with
      phase | moves | ⟨_, _, constructs⟩ | ⟨notifies, _⟩ | ⟨_, runs, _⟩
    · rw [← phase] at notRun notFinished
      exact .waits notRun notFinished nodup same
    · exact .waits moves.not_loops.1 moves.not_loops.2 nodup same
    · exact .waits (by simp [constructs]) (by simp [constructs]) nodup same
    · exact absurd notifies notNotify
    · exact absurd runs notRun
  cases transition with
  | @coSpawn other coro phase _ idle =>
      have workerEq : (s.setWorker other
          ((s.worker other).forwardTask (some coro))).worker =
            Function.update s.worker other
              ((s.worker other).forwardTask (some coro)) := rfl
      by_cases isCtx : ctx = other
      · subst isCtx
        have fresh : coro ∉ coros := by
          intro mem
          rw [worker] at idle
          simp [Worker.State.new, mem] at idle
        have extended : (coros ++ [coro]).Nodup :=
          List.nodup_append_comm.mp (List.nodup_cons.mpr ⟨fresh, nodup⟩)
        refine .waits notRun notFinished extended ?_
        rw [workerEq, Function.update_self, worker,
          Worker.forwardTask_new fresh]
      · apply later (by simp)
        rw [workerEq, Function.update_of_ne isCtx, worker]
  | @notifyAll other phase =>
      by_cases isCtx : ctx = other
      · subst isCtx
        obtain ⟨ready, readyEq⟩ := counted.ready
        have isReady : (s.phase ctx).Ready := by
          rw [phase]
          trivial
        have positive := ready.size_pos isReady
        let run : (Worker.system Coro Info).Run :=
          { length := 0
            state := fun _ => .new Info coros s.readyCount.toNat
            action := fun _ => .work
            starts := ⟨coros, _, nodup, by omega, rfl⟩
            steps := fun _ timeLt => absurd timeLt (Nat.not_lt_zero _) }
        refine .runs run (by simp [State.notifyAll]) ?_
        change _ = { s.worker ctx with readyCount := s.readyCount.toNat }
        rw [worker]
        rfl
      · exact later (by simpa using Ne.symm isCtx) worker
  | @work other _ _ phase _ _ =>
      have ne : other ≠ ctx := by
        rintro rfl
        exact notRun phase
      rw [seen, if_neg ne]
      exact later (by simp) ((Function.update_of_ne ne.symm _ _).trans worker)
  | @deinit other phase _ =>
      rw [seen, if_neg fun both => notRun both.2]
      exact later (by simp) worker
  | construct _ | start _ => exact later (by simp) worker
  | register _ =>
      exact later (by simp) (by rw [State.register, worker_test, worker])
  | wakeUp _ | timeout _ =>
      exact later (by simp) (by rw [worker_test, worker])

/-- In its loop, a context makes the steps of a worker. -/
theorem Follows.step_runs {ctx : Ctx} (run : (Worker.system Coro Info).Run)
    (phase : s.phase ctx = .run) (same : run.state run.length = s.view ctx)
    (counted : Counted s) (gathered : Gathered s) (early : Early s action)
    (transition : Transition s action t) :
    Follows ctx t (run.log (fun _ action => some action) 0 run.length ++
      (seen ctx s action).toList) := by
  have passed : ∃ ctx, (s.phase ctx).Passed := ⟨ctx, by rw [phase]; trivial⟩
  have still : t.phase ctx = .run → t.view ctx = s.view ctx →
      Follows ctx t (run.log (fun _ action => some action) 0 run.length ++
        []) := by
    intro runs viewEq
    rw [List.append_nil]
    exact .runs run runs (same.trans viewEq.symm)
  cases transition with
  | construct _ => exact absurd (by rw [phase]; trivial) (early ctx)
  | coSpawn _ nobody _ =>
      obtain ⟨ready, readyEq⟩ := counted.ready
      have isReady : (s.phase ctx).Ready := by
        rw [phase]
        trivial
      have positive := ready.size_pos isReady
      rw [readyEq, nobody] at positive
      contradiction
  | @start other isConstructed =>
      have ready := gathered passed other (by rw [isConstructed]; trivial)
      rw [isConstructed] at ready
      exact ready.elim
  | @register other isInit =>
      have ready := gathered passed other (by rw [isInit]; trivial)
      rw [isInit] at ready
      exact ready.elim
  | @wakeUp other _ waits | @timeout other _ waits =>
      have ne : ctx ≠ other := by
        rintro rfl
        simp [phase] at waits
      apply still
      · rw [phase_test ne, phase]
      · rw [State.view, worker_test, (test_counts s _ _).2]
        rfl
  | @notifyAll other notifies =>
      have ne : ctx ≠ other := by
        rintro rfl
        simp [phase] at notifies
      apply still _ rfl
      simp [State.notifyAll, Function.update_of_ne ne, phase, Phase.notified]
  | @work other next worker runs notDeinit stepEq =>
      have readyCount := Worker.readyCount_of_step stepEq notDeinit
      by_cases isCtx : other = ctx
      · subst isCtx
        have stepRun : Worker.step (run.state run.length) next =
            some worker := by
          rw [same, stepEq]
        rw [seen, if_pos rfl]
        refine Follows.extend (t := s.setWorker other worker) run stepRun
          phase ?_
        have viewEq : (s.setWorker other worker).view other =
            { worker with readyCount := s.readyCount.toNat } := by
          simp [State.view, State.setWorker]
        rw [viewEq, show s.readyCount.toNat = worker.readyCount from
          readyCount.symm]
      · rw [seen, if_neg isCtx]
        apply still phase
        simp [State.view, State.setWorker, Function.update_of_ne
          (Ne.symm isCtx)]
  | @deinit other runs stopped =>
      by_cases isCtx : other = ctx
      · subst isCtx
        exact .finished (Function.update_self _ _ _)
      · rw [seen, if_pos ⟨isCtx, phase⟩]
        obtain ⟨ready, readyEq⟩ := counted.ready
        have company : 1 < s.readyCount.toNat := by
          rw [← readyEq]
          exact ready.one_lt_size isCtx
            (by rw [runs]; trivial) (by rw [phase]; trivial)
        have stepRun : Worker.step (run.state run.length) .deinit =
            some { s.view ctx with
              readyCount := s.readyCount.toNat - 1 } := by
          rw [same]
          exact if_pos company
        refine Follows.extend (t := s.deinit other) run stepRun ?_ ?_
        · exact (Function.update_of_ne (Ne.symm isCtx) _ _).trans phase
        · have one : (1 : UInt8) ≤ s.readyCount := by
            rw [UInt8.le_iff_toNat_le, UInt8.toNat_one]
            omega
          simp only [State.view, State.deinit,
            UInt8.toNat_sub_of_le s.readyCount 1 one, UInt8.toNat_one]
          rfl

theorem Follows.step {ctx : Ctx} {trace : List (Worker.Action Coro Info)}
    (follows : Follows ctx s trace) (counted : Counted s)
    (gathered : Gathered s) (early : Early s action)
    (transition : Transition s action t) :
    Follows ctx t (trace ++ (seen ctx s action).toList) := by
  cases follows with
  | waits notRun notFinished nodup worker =>
      rw [List.nil_append]
      exact .step_waits notRun notFinished nodup worker counted transition
  | runs run phase same =>
      exact .step_runs run phase same counted gathered early transition
  | finished phase =>
      apply Follows.finished
      rcases moves_of_step transition ctx with
        same | moves | ⟨_, unborn, _⟩ | ⟨_, notifies, _⟩ | ⟨_, runs, _⟩
      · exact same.trans phase
      · rw [phase] at moves
        cases moves
      · simp [phase] at unborn
      · simp [phase] at notifies
      · simp [phase] at runs

/-- No context stops or has decided to. -/
def Stays (s : State Ctx Coro Info) : Prop :=
  ∀ ctx, s.phase ctx ≠ .finished ∧ (s.worker ctx).willStop = false ∧
    (s.worker ctx).pc ≠ .stopped

/-- Contexts go on before one of them passes, and while they are two. -/
theorem Stays.step (stays : Stays s) (quiet : Quiet s action)
    (company : (∀ ctx, ¬ (s.phase ctx).Passed) ∨ 1 < s.readyCount.toNat)
    (transition : Transition s action t) : Stays t := by
  have notFinished : ∀ ctx, action ≠ .deinit ctx →
      t.phase ctx ≠ .finished := by
    intro ctx notDeinit
    rcases moves_of_step transition ctx with
      same | moves | ⟨_, _, constructs⟩ | ⟨_, _, runs⟩ | ⟨deinits, _⟩
    · rw [same]
      exact (stays ctx).1
    · exact moves.not_loops.2
    · simp [constructs]
    · simp [runs]
    · exact absurd deinits notDeinit
  have others : t.worker = s.worker →
      (∀ ctx, action ≠ .deinit ctx) → Stays t := by
    intro same notDeinit ctx
    rw [same]
    exact ⟨notFinished ctx (notDeinit ctx), (stays ctx).2⟩
  cases transition with
  | construct _ | start _ | notifyAll _ => exact others rfl (by simp)
  | register _ => exact others (worker_test _ _ _) (by simp)
  | wakeUp _ | timeout _ => exact others (worker_test _ _ _) (by simp)
  | @coSpawn other coro _ _ _ =>
      intro ctx
      refine ⟨notFinished ctx (by simp), ?_⟩
      by_cases isOther : ctx = other
      · simp only [State.setWorker, isOther, Function.update_self]
        exact (stays other).2
      · simpa [State.setWorker, isOther] using (stays ctx).2
  | @work other next worker runs _ stepEq =>
      intro ctx
      refine ⟨notFinished ctx (by simp), ?_⟩
      by_cases isOther : ctx = other
      · have isMore : 1 < s.readyCount.toNat := company.resolve_left
          fun nobody => nobody other (by rw [runs]; trivial)
        have notCanStop : next ≠ .canStop := by
          rintro rfl
          exact Bool.noConfusion quiet
        have goesOn := Worker.goesOn_of_step stepEq notCanStop isMore
          (stays other).2.1 (stays other).2.2
        simpa [State.setWorker, isOther] using goesOn
      · simpa [State.setWorker, isOther] using (stays ctx).2
  | deinit _ stopped => exact absurd stopped (stays _).2.2

/-- At most one context exists, and it has passed. -/
def Solitary (s : State Ctx Coro Info) : Prop :=
  (∃ ctx, (s.phase ctx).Passed) ∧
    ∀ first second, (s.phase first).Alive → (s.phase second).Alive →
      first = second

theorem Solitary.step (solitary : Solitary s) (early : Early s action)
    (transition : Transition s action t) : Solitary t := by
  obtain ⟨⟨ctx, passed⟩, alone⟩ := solitary
  have notConstruct : ∀ other, action ≠ .construct other := by
    rintro other rfl
    exact early ctx passed
  have wasAlive : ∀ other, (t.phase other).Alive → (s.phase other).Alive := by
    intro other alive
    rcases moves_of_step transition other with
      same | moves | ⟨constructs, _⟩ | ⟨_, notifies, _⟩ | ⟨_, runs, _⟩
    · rwa [← same]
    · exact moves.alive
    · exact absurd constructs (notConstruct other)
    · rw [notifies]
      trivial
    · rw [runs]
      trivial
  refine ⟨⟨ctx, ?_⟩, fun first second firstAlive secondAlive =>
    alone first second (wasAlive first firstAlive)
      (wasAlive second secondAlive)⟩
  rcases moves_of_step transition ctx with
    same | moves | ⟨constructs, _⟩ | ⟨_, _, runs⟩ | ⟨_, _, finished⟩
  · rwa [same]
  · exact moves.stays_passed passed
  · exact absurd constructs (notConstruct ctx)
  · rw [runs]
    trivial
  · rw [finished]
    trivial

/-- Contexts that are ready stay ready while none stops. -/
theorem ready_of_step (transition : Transition s action t) (stays : Stays t)
    {ctx : Ctx} (ready : (s.phase ctx).Ready) : (t.phase ctx).Ready := by
  rcases moves_of_step transition ctx with
    same | moves | ⟨_, unborn, _⟩ | ⟨_, _, runs⟩ | ⟨_, _, finished⟩
  · rwa [same]
  · exact moves.stays_ready ready
  · rw [unborn] at ready
    exact ready.elim
  · rw [runs]
    trivial
  · exact absurd finished (stays ctx).1

/-- No context stops, as none has passed or two are ready. -/
structure Steady (s : State Ctx Coro Info) : Prop where
  stays : Stays s
  company : (∀ ctx, ¬ (s.phase ctx).Passed) ∨ 1 < s.readyCount.toNat

omit [DecidableEq Ctx] [DecidableEq Coro] [DecidableEq Info] in
theorem Stays.steady_or_solitary (stays : Stays s) (counted : Counted s)
    (gathered : Gathered s) : Steady s ∨ Solitary s := by
  by_cases passed : ∃ ctx, (s.phase ctx).Passed
  · by_cases two : ∃ first second, (s.phase first).Alive ∧
        (s.phase second).Alive ∧ first ≠ second
    · left
      obtain ⟨first, second, firstAlive, secondAlive, differ⟩ := two
      obtain ⟨ready, readyEq⟩ := counted.ready
      refine ⟨stays, .inr ?_⟩
      rw [← readyEq]
      exact ready.one_lt_size differ (gathered passed first firstAlive)
        (gathered passed second secondAlive)
    · right
      refine ⟨passed, fun first second firstAlive secondAlive => ?_⟩
      by_contra differ
      exact two ⟨first, second, firstAlive, secondAlive, differ⟩
  · exact .inl ⟨stays, .inl fun ctx isPassed => passed ⟨ctx, isPassed⟩⟩

end Steps

/-- Each context in its loop is a worker. -/
structure ActsAsWorkers (run : (system Ctx Coro Info).Run) : Prop where
  worker : ∀ time ≤ run.length, ∀ ctx, (run.state time).phase ctx = .run →
    ∃ workerRun : (Worker.system Coro Info).Run,
      workerRun.state workerRun.length = (run.state time).view ctx ∧
        workerRun.log (fun _ action => some action) 0 workerRun.length =
          run.log (seen ctx) 0 time

section Runs

variable {run : (system Ctx Coro Info).Run}

theorem gathered_of_run (fits : run.Guarded Fits)
    (early : run.Guarded Early) {time : Nat} (timeLe : time ≤ run.length) :
    Gathered (run.state time) := by
  induction time with
  | zero =>
      rw [show run.state 0 = State.new Ctx Coro Info from run.starts]
      rintro ⟨ctx, passed⟩
      exact passed.elim
  | succ time ih =>
      exact (ih (by omega)).step (counted_of_run fits timeLe)
        (early time timeLe) (transition_of_step (run.steps time timeLe)).2

theorem follows_of_run (fits : run.Guarded Fits)
    (early : run.Guarded Early) (ctx : Ctx) {time : Nat}
    (timeLe : time ≤ run.length) :
    Follows ctx (run.state time) (run.log (seen ctx) 0 time) := by
  induction time with
  | zero =>
      rw [run.log_self]
      have isNew : run.state 0 = State.new Ctx Coro Info := run.starts
      have nobody : ([] : List Coro).Nodup := List.nodup_nil
      refine .waits ?_ ?_ nobody ?_ <;> simp [isNew, State.new]
  | succ time ih =>
      rw [run.log_next]
      exact (ih (by omega)).step (counted_of_run fits (by omega))
        (gathered_of_run fits early (by omega)) (early time timeLe)
        (transition_of_step (run.steps time timeLe)).2

/-- Each context of a program performs a run of the worker. -/
theorem run_acts_as_workers (run : (system Ctx Coro Info).Run)
    (fits : run.Guarded Fits) (early : run.Guarded Early) :
    ActsAsWorkers run := by
  constructor
  intro time timeLe ctx phase
  have follows := follows_of_run fits early ctx timeLe
  generalize run.log (seen ctx) 0 time = trace at follows
  cases follows with
  | waits notRun _ _ _ => exact absurd phase notRun
  | runs workerRun _ same => exact ⟨workerRun, same, rfl⟩
  | finished finished => simp [phase] at finished

/-- A context that has passed is alone, or no context stops. -/
theorem steady_or_solitary_of_run (fits : run.Guarded Fits)
    (early : run.Guarded Early) (quiet : run.Guarded Quiet) {time : Nat}
    (timeLe : time ≤ run.length) :
    Steady (run.state time) ∨ Solitary (run.state time) := by
  have counted := counted_of_run fits timeLe
  have gathered := gathered_of_run fits early timeLe
  induction time with
  | zero =>
      have isNew : run.state 0 = State.new Ctx Coro Info := run.starts
      apply Stays.steady_or_solitary _ counted gathered
      intro ctx
      simp [isNew, State.new, Worker.State.new]
  | succ time ih =>
      have transition := (transition_of_step (run.steps time timeLe)).2
      rcases ih (by omega) (counted_of_run fits (by omega))
          (gathered_of_run fits early (by omega)) with steady | solitary
      · exact (steady.stays.step (quiet time timeLe) steady.company
          transition).steady_or_solitary counted gathered
      · exact .inr (solitary.step (early time timeLe) transition)

/-- Two contexts whose coroutines do not call `can_stop` never stop. -/
theorem run_never_stops (run : (system Ctx Coro Info).Run)
    (fits : run.Guarded Fits) (early : run.Guarded Early)
    (quiet : run.Guarded Quiet) {first second : Ctx} (differ : first ≠ second)
    {time : Nat} (firstReady : ((run.state time).phase first).Ready)
    (secondReady : ((run.state time).phase second).Ready) {later : Nat}
    (isLater : time ≤ later) (laterLe : later ≤ run.length) (ctx : Ctx) :
    (run.state later).phase ctx ≠ .finished ∧
      ((run.state later).worker ctx).willStop = false := by
  have steady : ∀ {time : Nat}, time ≤ run.length →
      ((run.state time).phase first).Ready →
      ((run.state time).phase second).Ready → Steady (run.state time) := by
    intro time isRun firstReady secondReady
    refine (steady_or_solitary_of_run fits early quiet isRun).resolve_right ?_
    rintro ⟨_, alone⟩
    exact differ (alone first second firstReady.alive secondReady.alive)
  have bothReady : ((run.state later).phase first).Ready ∧
      ((run.state later).phase second).Ready := by
    induction later, isLater using Nat.le_induction with
    | base => exact ⟨firstReady, secondReady⟩
    | succ later _ ih =>
        have before := ih (by omega)
        have transition := (transition_of_step (run.steps later laterLe)).2
        have now := steady (by omega) before.1 before.2
        have stays := now.stays.step (quiet later laterLe) now.company
          transition
        exact ⟨ready_of_step transition stays before.1,
          ready_of_step transition stays before.2⟩
  have stays := (steady laterLe bothReady.1 bothReady.2).stays ctx
  exact ⟨stays.1, stays.2.1⟩

/-- Two contexts, one of which runs a coroutine that finishes. -/
def workingRun : (system (Fin 2) Unit Unit).Run :=
  Run.ofActions (State.new (Fin 2) Unit Unit) new_initial
    ([.construct 0, .construct 1, .coSpawn 0 (), .start 0, .start 1,
      .register 0, .register 1, .notifyAll 1, .wakeUp 0, .notifyAll 0] ++
        ([.work, .work, .block, .work, .work, .work, .work, .work] :
          List (Worker.Action Unit Unit)).map (.work 0))
    (by decide)

theorem run_acts_as_workers_working :
    (workingRun.state 18).phase 0 = .run ∧
      ((workingRun.state 18).worker 0).pc = .waitUring ∧
      ActsAsWorkers workingRun :=
  ⟨by decide, by decide, run_acts_as_workers workingRun
    (by unfold TransitionSystem.Run.Guarded; decide)
    (by unfold TransitionSystem.Run.Guarded; decide)⟩

theorem run_never_stops_working :
    ((workingRun.state 7).phase 0).Ready ∧
      ((workingRun.state 7).phase 1).Ready ∧
      (workingRun.state 18).phase 0 ≠ .finished ∧
      ((workingRun.state 18).worker 0).willStop = false :=
  ⟨by decide, by decide, run_never_stops workingRun
    (by unfold TransitionSystem.Run.Guarded; decide)
    (by unfold TransitionSystem.Run.Guarded; decide)
    (by unfold TransitionSystem.Run.Guarded; decide)
    (show (0 : Fin 2) ≠ 1 by decide) (by decide) (by decide)
    (show 7 ≤ 18 by decide) (Nat.le_refl 18) 0⟩

end Runs

end IoContext

end CoContext
