import CoContext.WorkerRing
import CoContext.WorkerSafety

/-!
# What the handling of completions is safe for, over the rings

A handle that is forwarded to a full ready queue replaces one that was not
resumed yet, so that one coroutine never goes on and another one goes on twice.
Where no handle is, the rings hold what the lists of a worker hold, and what
holds of a worker over lists holds over the rings.
-/

namespace CoContext.WorkerRing

open TransitionSystem

variable {Coro Info : Type*} [DecidableEq Coro] [DecidableEq Info]

section Handling

/-- No completion resumes the wrong coroutine or stores into a record that is
gone. -/
theorem run_handles_soundly (run : (system Coro Info).Run)
    (fits : Fits (run.state 0)) (room : run.Guarded HasRoom)
    (created : run.Guarded fun _ action => action.isCreate = false)
    (sound : run.Guarded fun s action => s.view.soundIo action = true) :
    ∀ time ≤ run.length, ∀ badPath handledNum cqe rest,
      (run.state time).view.pc = .pollCompletion badPath handledNum →
      (run.state time).view.rings.cq = cqe :: rest →
        (run.state time).view.HandlesSoundly cqe.userData :=
  Worker.handlesSoundly_of_run (lists run fits room) created sound

theorem initial_single :
    (system (Fin 2) (Fin 2)).initial (State.new (Fin 2) [0] 1) :=
  ⟨[0], 1, List.nodup_singleton 0, Nat.one_pos, rfl⟩

theorem fits_single : Fits (State.new (Fin 2) [(0 : Fin 2)] 1) :=
  ⟨[0], 1, List.nodup_singleton 0, Nat.one_pos, rfl, by decide⟩

/-- A coroutine awaits a chain of two requests; both succeed and their
completions are handled. -/
def handledRun : (system (Fin 2) (Fin 2)).Run :=
  Run.ofActions (State.new (Fin 2) [0] 1) initial_single
    [.work, .work, .await (.link (.awaiters 0 1)), .work, .work, .enter 2,
      .complete 0 (.succeeded 1), .complete 0 (.succeeded 2), .work, .work,
      .work, .work]
    (by decide)

theorem run_handles_soundly_chain :
    (handledRun.state 10).view.pc = .pollCompletion false 0 ∧
      (handledRun.state 10).view.rings.cq.length = 2 ∧
      ∀ time ≤ 12, ∀ badPath handledNum cqe rest,
        (handledRun.state time).view.pc = .pollCompletion badPath handledNum →
        (handledRun.state time).view.rings.cq = cqe :: rest →
          (handledRun.state time).view.HandlesSoundly cqe.userData :=
  ⟨by decide, by decide, run_handles_soundly handledRun fits_single
    (by unfold TransitionSystem.Run.Guarded; decide)
    (by unfold TransitionSystem.Run.Guarded; decide)
    (by unfold TransitionSystem.Run.Guarded; decide)⟩

/-- A coroutine detaches one I/O, which fails. -/
def detachRun : (system (Fin 2) (Fin 2)).Run :=
  Run.ofActions (State.new (Fin 2) [0] 1) initial_single
    [.work, .work, .detach (.io 0), .block, .work, .work, .enter 1,
      .complete 0 (.failed (-9)), .work, .work]
    (by decide)

/-- The completion of a detached I/O that failed names a record that is
gone. -/
theorem run_handles_soundly_fails :
    ¬ ∀ run : (system (Fin 2) (Fin 2)).Run,
      (run.Guarded fun _ action => action.isCreate = false) →
      ∀ time ≤ run.length, ∀ badPath handledNum cqe rest,
        (run.state time).view.pc = .pollCompletion badPath handledNum →
        (run.state time).view.rings.cq = cqe :: rest →
          (run.state time).view.HandlesSoundly cqe.userData := by
  intro handles
  have created : detachRun.Guarded fun _ action => action.isCreate = false := by
    unfold TransitionSystem.Run.Guarded
    decide
  have sound := handles detachRun created 10 (by decide) false 0
    ⟨.taskInfo 0, -9, false⟩ [] (by decide) (by decide)
  obtain ⟨record, _, _, isRecord, _⟩ := sound
  have gone : (detachRun.state 10).view.info 0 = none := by decide
  rw [gone] at isRecord
  simp at isRecord

end Handling

section Continuations

/-- If each I/O is awaited before its completion is handled, each `co_await`
goes on once. -/
theorem run_continues_once (run : (system Coro Info).Run)
    (fits : Fits (run.state 0)) (room : run.Guarded HasRoom)
    (sound : run.Guarded fun s action => s.view.soundIo action = true)
    (awaited : run.Guarded fun s action =>
      s.view.awaitedFirst action = true) :
    Worker.ContinuesOnce State.view run :=
  have continues :=
    Worker.continuesOnce_of_run (lists run fits room) sound awaited
  { noNull := continues.noNull
    once := continues.once
    coming := continues.coming
    queued := continues.queued
    result := continues.result }

/-- A coroutine creates an I/O, lets others run and goes on by `actions`. -/
def keptRun (actions : List (Worker.Action (Fin 2) (Fin 2)))
    (enabled : ((system (Fin 2) (Fin 2)).exec (State.new (Fin 2) [0] 1)
      ([.work, .work, .create 0, .yield, .work, .work, .enter 1] ++
        actions)).isSome) : (system (Fin 2) (Fin 2)).Run :=
  Run.ofActions (State.new (Fin 2) [0] 1) initial_single _ enabled

/-- It awaits the I/O before the kernel completes it. -/
def awaitedRun : (system (Fin 2) (Fin 2)).Run :=
  keptRun
    ([.work, .work, .work, .work, .awaitKept 0, .complete 0 (.succeeded 5)] ++
      List.replicate 8 .work)
    (by decide)

/-- The kernel completes the I/O while the coroutine stands in the ready
queue. -/
def earlyRun : (system (Fin 2) (Fin 2)).Run :=
  keptRun [.complete 0 (.succeeded 5), .work, .work] (by decide)

theorem run_continues_once_awaited :
    (awaitedRun.state 21).view.value 0 = some 5 ∧
      Worker.ContinuesOnce State.view awaitedRun :=
  ⟨by decide, run_continues_once awaitedRun fits_single
    (by unfold TransitionSystem.Run.Guarded; decide)
    (by unfold TransitionSystem.Run.Guarded; decide)
    (by unfold TransitionSystem.Run.Guarded; decide)⟩

/-- The early completion forwards a null handle. -/
theorem run_continues_once_fails :
    ¬ ∀ run : (system (Fin 2) (Fin 2)).Run,
      (run.Guarded fun s action => s.view.soundIo action = true) →
        Worker.ContinuesOnce State.view run := by
  intro continues
  have sound : earlyRun.Guarded fun s action =>
      s.view.soundIo action = true := by
    unfold TransitionSystem.Run.Guarded
    decide
  have noNull := (continues earlyRun sound).noNull 10 (by decide)
  have isNull : none ∈ (earlyRun.state 10).view.reapSwap := by decide
  exact noNull isNull

end Continuations

end CoContext.WorkerRing
