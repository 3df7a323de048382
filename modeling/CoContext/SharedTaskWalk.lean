import CoContext.SharedTaskSafety

/-!
# The completion walk of a shared task on several contexts

The record of a waiter lives in the frame of the awaiting coroutine and exists
only until that coroutine resumes.  `final_awaiter::await_suspend` hands each
waiter over to the context that it awaits on and reads the link to the next
one afterwards.

Every context has one thread.  A coroutine that is spawned on another context
may be resumed there at once in builds that use an eventfd; with `MSG_RING` the
handle travels in a request of the calling context, which its thread submits
when the task has given it back.
-/

namespace CoContext.SharedTaskWalk

open SharedTask

/-- How a worker spawns a coroutine on another one. -/
inductive Build
  | eventfd
  | msgRing
  deriving DecidableEq

structure State (Coro Ctx Value Error : Type*) where
  task : SharedTask.State Coro Ctx Value Error
  /-- The context on which each coroutine awaits the task. -/
  home : Coro → Option Ctx
  /-- The context on whose thread the task was resumed last. -/
  taskCtx : Option Ctx
  /-- The handles in requests of that context that are not submitted. -/
  unsubmitted : List Coro
  /-- `m_next` of a record that does not exist was read. -/
  lost : Bool

def State.new (Coro Ctx Value Error : Type*) :
    State Coro Ctx Value Error where
  task := .new Coro Ctx Value Error
  home _ := none
  taskCtx := none
  unsubmitted := []
  lost := false

inductive Action (Coro Ctx Value Error : Type*)
  /-- The thread of a context does a step of the task or of an awaiter. -/
  | perform (ctx : Ctx) (action : SharedTask.Action Coro Ctx Value Error)
  | submit (ctx : Ctx)

instance {Coro Ctx Value Error : Type*} [Inhabited Ctx] :
    Inhabited (Action Coro Ctx Value Error) :=
  ⟨.submit default⟩

variable {Coro Ctx Value Error : Type*}

/-- The task occupies the thread that resumed it. -/
def Occupies : Body Coro → Bool
  | .running | .finalSuspend | .coSpawn _ | .readNext _ => true
  | .initialSuspend | .suspended | .done => false

/-- The coroutine is suspended in its `co_await`, or about to be. -/
def HasRecord : Pc Coro Ctx Value Error → Bool
  | .load | .start | .resume | .inResume | .reload | .push _
  | .suspended => true
  | .idle | .awaitReady _ | .awaitResume | .resumed _ => false

namespace State

/-- The task runs on the thread of this context. -/
def Busy (s : State Coro Ctx Value Error) (ctx : Ctx) : Prop :=
  s.taskCtx = some ctx ∧ Occupies s.task.body = true

instance [DecidableEq Ctx] (s : State Coro Ctx Value Error) (ctx : Ctx) :
    Decidable (s.Busy ctx) :=
  inferInstanceAs (Decidable (_ ∧ _))

variable [DecidableEq Coro] [DecidableEq Ctx]
variable (s : State Coro Ctx Value Error) (build : Build) (ctx : Ctx)

/-- The step is one of the thread of `ctx`. -/
def may : SharedTask.Action Coro Ctx Value Error → Bool
  | .await _ on => decide (on = ctx ∧ ¬ s.Busy ctx)
  | .run coro _ => decide (s.home coro = some ctx ∧ ¬ s.Busy ctx)
  | .wake coro =>
      decide ((some ctx, coro) ∈ s.task.scheduled ∧
        coro ∉ s.unsubmitted ∧ ¬ s.Busy ctx)
  | .resume => decide (¬ s.Busy ctx)
  | .suspend | .returnValue _ | .unhandledException _ =>
      decide (s.taskCtx = some ctx)
  | .finalAwait => decide (s.taskCtx = some ctx) && !s.lost

def homeAfter : SharedTask.Action Coro Ctx Value Error → Coro → Option Ctx
  | .await coro _ => Function.update s.home coro (some ctx)
  | _ => s.home

def taskCtxAfter : SharedTask.Action Coro Ctx Value Error → Option Ctx
  | .resume => some ctx
  | .run coro _ =>
      match s.task.pc coro with
      | .resume => some ctx
      | _ => s.taskCtx
  | _ => s.taskCtx

/-- `co_spawn_auto` of another context prepares a request with `MSG_RING`. -/
def unsubmittedAfter : SharedTask.Action Coro Ctx Value Error → List Coro
  | .finalAwait =>
      match build, s.task.body with
      | .msgRing, .coSpawn waiter =>
          if s.task.resumeCtx waiter = s.taskCtx then s.unsubmitted
          else s.unsubmitted ++ [waiter]
      | _, _ => s.unsubmitted
  | _ => s.unsubmitted

/-- The waiter whose `m_next` the step reads. -/
def reads : SharedTask.Action Coro Ctx Value Error → Option Coro
  | .finalAwait =>
      match s.task.body with
      | .readNext waiter => some waiter
      | _ => none
  | _ => none

/-- The step reads `m_next` of a record that does not exist. -/
def dangles (action : SharedTask.Action Coro Ctx Value Error) : Bool :=
  (s.reads action).any fun waiter => !HasRecord (s.task.pc waiter)

def perform (action : SharedTask.Action Coro Ctx Value Error) :
    Option (State Coro Ctx Value Error) :=
  if s.dangles action then some { s with lost := true }
  else (SharedTask.step s.task action).map fun task =>
    { s with
      task := task
      home := s.homeAfter ctx action
      taskCtx := s.taskCtxAfter ctx action
      unsubmitted := s.unsubmittedAfter build action }

end State

section System

variable [DecidableEq Coro] [DecidableEq Ctx]

def step (build : Build) (s : State Coro Ctx Value Error) :
    Action Coro Ctx Value Error → Option (State Coro Ctx Value Error)
  | .perform ctx action =>
      if s.may ctx action then s.perform build ctx action else none
  | .submit ctx =>
      if s.taskCtx = some ctx ∧ ¬ s.Busy ctx then
        some { s with unsubmitted := [] }
      else none

/-- One shared task and the coroutines that await it, on the threads of their
contexts. -/
def system (Coro Ctx Value Error : Type*) [DecidableEq Coro]
    [DecidableEq Ctx] (build : Build) :
    TransitionSystem (State Coro Ctx Value Error)
      (Action Coro Ctx Value Error) where
  initial s := s = State.new Coro Ctx Value Error
  step := step build

end System

/-- In a build with an eventfd, another context resumes a waiter that the walk
has just handed over, before the walk has read its `m_next`. -/
def overtakes [DecidableEq Coro] [DecidableEq Ctx] (build : Build)
    (s : State Coro Ctx Value Error) : Action Coro Ctx Value Error → Bool
  | .perform ctx (.wake coro) =>
      match build, s.task.body with
      | .eventfd, .readNext waiter =>
          decide (waiter = coro ∧ s.taskCtx ≠ some ctx)
      | _, _ => false
  | _ => false

section Law

variable [DecidableEq Coro] [DecidableEq Ctx]

/-- What is promised of a run. -/
structure Walks (build : Build)
    (run : (system Coro Ctx Value Error build).Run) : Prop where
  never_lost : ∀ time ≤ run.length, (run.state time).lost = false
  scheduled_le_once : ∀ time ≤ run.length, ∀ coro,
    ((run.state time).task.scheduled.map Prod.snd).count coro ≤ 1
  /-- Every waiter on the list that the exchange takes is scheduled once, on
  its `resume_ctx`. -/
  scheduled_once : ∀ exchanged last, exchanged < last → last ≤ run.length →
    ∀ ctx, run.action exchanged = .perform ctx .finalAwait →
    (run.state exchanged).task.body = .finalSuspend → ∀ coro,
    LinkedFrom (run.state exchanged).task.next
      (run.state exchanged).task.waiters.head coro →
    (run.state last).task.body = .done →
      ((run.state last).task.scheduled.map Prod.snd).count coro = 1 ∧
        ((run.state exchanged).task.resumeCtx coro, coro) ∈
          (run.state last).task.scheduled
  /-- The walk can go on until it has reached the end of the list. -/
  goes_on : ∀ time ≤ run.length, (run.state time).task.body.Exchanged →
    (run.state time).task.body ≠ .done → ∃ ctx successor,
      step build (run.state time) (.perform ctx .finalAwait) = some successor

end Law

section Frames

variable [DecidableEq Coro] {s s' : SharedTask.State Coro Ctx Value Error}

/-- A step of `try_await` changes the position of its own coroutine. -/
theorem runAwait_frame {coro : Coro} {spurious : Bool}
    (stepEq : s.runAwait coro spurious = some s') :
    s'.scheduled = s.scheduled ∧
      (∀ other, other ≠ coro → s'.pc other = s.pc other) ∧
      s.pc coro ≠ .suspended ∧
      (s'.body = s.body ∨ s.pc coro = .resume ∧ s'.body = .running) ∧
      (s.waiters = .ready → s'.resumeCtx = s.resumeCtx) := by
  have others : ∀ pc other, other ≠ coro →
      (s.setPc coro pc).pc other = s.pc other := fun _ _ isOther =>
    Function.update_of_ne isOther ..
  unfold State.runAwait at stepEq
  cases pc : s.pc coro <;>
    simp only [pc, Option.some.injEq, reduceCtorEq] at stepEq <;>
    subst stepEq
  case awaitReady ctx =>
    unfold State.awaitReady
    split
    · exact ⟨rfl, others _, by simp, .inl rfl, fun _ => rfl⟩
    · next notReady =>
        exact ⟨rfl, others _, by simp, .inl rfl, fun isReady =>
          absurd isReady notReady⟩
  case start =>
    unfold State.start
    split
    · exact ⟨rfl, others _, by simp, .inl rfl, fun _ => rfl⟩
    · exact ⟨rfl, others _, by simp, .inl rfl, fun _ => rfl⟩
  case push oldWaiters =>
    unfold State.push
    split
    · exact ⟨rfl, others _, by simp, .inl rfl, fun _ => rfl⟩
    · split
      · exact ⟨rfl, others _, by simp, .inl rfl, fun _ => rfl⟩
      · exact ⟨rfl, others _, by simp, .inl rfl, fun _ => rfl⟩
  case resume =>
    exact ⟨rfl, others _, by simp, .inr ⟨rfl, rfl⟩, fun _ => rfl⟩
  case load => exact ⟨rfl, others _, by simp, .inl rfl, fun _ => rfl⟩
  case reload => exact ⟨rfl, others _, by simp, .inl rfl, fun _ => rfl⟩
  case awaitResume => exact ⟨rfl, others _, by simp, .inl rfl, fun _ => rfl⟩

theorem returnResume_fields :
    s.returnResume.scheduled = s.scheduled ∧
      s.returnResume.resumeCtx = s.resumeCtx ∧
      s.returnResume.body = s.body ∧ s.returnResume.waiters = s.waiters := by
  unfold State.returnResume
  split
  · exact ⟨rfl, rfl, rfl, rfl⟩
  · exact ⟨rfl, rfl, rfl, rfl⟩

theorem visit_fields (pointer : Option Coro) :
    (s.visit pointer).scheduled = s.scheduled ∧
      (s.visit pointer).resumeCtx = s.resumeCtx ∧
      (s.visit pointer).body =
        (match pointer with
          | none => .done
          | some waiter => .coSpawn waiter) := by
  cases pointer with
  | none =>
      obtain ⟨scheduledEq, ctxEq, bodyEq, _⟩ := returnResume_fields
        (s := { s with body := .done })
      exact ⟨scheduledEq, ctxEq, bodyEq⟩
  | some waiter => exact ⟨rfl, rfl, rfl⟩

/-- What a step does to the walk and to the awaiters at most. -/
inductive StepCase (s : SharedTask.State Coro Ctx Value Error)
    (action : SharedTask.Action Coro Ctx Value Error)
    (s' : SharedTask.State Coro Ctx Value Error) : Prop
  | handOver (waiter : Coro) : action = .finalAwait →
      s.body = .coSpawn waiter → s' = { s with
        body := .readNext waiter
        scheduled := s.scheduled ++ [(s.resumeCtx waiter, waiter)] } →
      StepCase s action s'
  /-- Any other step of the task. -/
  | task : s.body ≠ .initialSuspend → s'.scheduled = s.scheduled →
      s'.resumeCtx = s.resumeCtx → (∀ waiter, s'.body ≠ .readNext waiter) →
      StepCase s action s'
  /-- A step of an awaiter. -/
  | awaiter (coro : Coro) : action ≠ .finalAwait →
      s'.scheduled = s.scheduled →
      (s.waiters = .ready → s'.resumeCtx = s.resumeCtx) →
      (∀ other, other ≠ coro → s'.pc other = s.pc other) →
      (s.pc coro = .suspended → action = .wake coro) →
      (s'.body = s.body ∨ (∃ spurious, action = .run coro spurious) ∧
        s.pc coro = .resume ∧ s'.body = .running) → StepCase s action s'

theorem step_cases {action : SharedTask.Action Coro Ctx Value Error}
    (stepEq : SharedTask.step s action = some s') : StepCase s action s' := by
  cases action with
  | await coro ctx =>
      simp only [SharedTask.step] at stepEq
      split at stepEq <;>
        simp only [Option.some.injEq, reduceCtorEq] at stepEq <;>
        subst stepEq
      all_goals
        next position =>
          exact .awaiter coro (by simp) rfl (fun _ => rfl)
            (fun _ isOther => Function.update_of_ne isOther ..)
            (by simp [position]) (.inl rfl)
  | run coro spurious =>
      obtain ⟨scheduledEq, others, notSuspended, bodyEq, ctxEq⟩ :=
        runAwait_frame stepEq
      exact .awaiter coro (by simp) scheduledEq ctxEq others
        (fun suspended => absurd suspended notSuspended)
        (bodyEq.imp_right fun started => ⟨⟨spurious, rfl⟩, started⟩)
  | wake coro =>
      simp only [SharedTask.step] at stepEq
      split at stepEq <;> [split at stepEq; skip] <;>
        simp only [Option.some.injEq, reduceCtorEq] at stepEq
      subst stepEq
      exact .awaiter coro (by simp) rfl (fun _ => rfl)
        (fun _ isOther => Function.update_of_ne isOther ..) (fun _ => rfl)
        (.inl rfl)
  | suspend =>
      simp only [SharedTask.step] at stepEq
      split at stepEq <;>
        simp only [Option.some.injEq, reduceCtorEq] at stepEq
      subst stepEq
      next position =>
        obtain ⟨scheduledEq, ctxEq, bodyEq, _⟩ :=
          returnResume_fields (s := { s with body := .suspended })
        exact .task (by simp [position]) scheduledEq ctxEq (by simp [bodyEq])
  | resume | returnValue _ | unhandledException _ =>
      simp only [SharedTask.step] at stepEq
      split at stepEq <;>
        simp only [Option.some.injEq, reduceCtorEq] at stepEq
      subst stepEq
      next position => exact .task (by simp [position]) rfl rfl (by simp)
  | finalAwait =>
      simp only [SharedTask.step, State.finalAwait] at stepEq
      split at stepEq <;>
        simp only [Option.some.injEq, reduceCtorEq] at stepEq <;>
        subst stepEq
      · next position =>
          obtain ⟨scheduledEq, ctxEq, bodyEq⟩ :=
            visit_fields (s := { s with waiters := .ready }) s.waiters.head
          refine .task (by simp [position]) scheduledEq ctxEq ?_
          rw [bodyEq]
          cases s.waiters.head <;> simp
      · next waiter position => exact .handOver waiter rfl position rfl
      · next waiter position =>
          obtain ⟨scheduledEq, ctxEq, bodyEq⟩ :=
            visit_fields (s := s) (s.next waiter)
          refine .task (by simp [position]) scheduledEq ctxEq ?_
          rw [bodyEq]
          cases s.next waiter <;> simp

/-- The contexts of the waiters are fixed once the exchange was done. -/
theorem resumeCtx_step {action : SharedTask.Action Coro Ctx Value Error}
    (stepEq : SharedTask.step s action = some s')
    (isReady : s.waiters = .ready) : s'.resumeCtx = s.resumeCtx := by
  cases step_cases stepEq with
  | handOver _ _ _ successorEq => rw [successorEq]
  | task _ _ ctxEq _ => exact ctxEq
  | awaiter _ _ _ ctxEq _ _ _ => exact ctxEq isReady

/-- Only the walk schedules, and on the context in the record. -/
theorem scheduled_step {action : SharedTask.Action Coro Ctx Value Error}
    (stepEq : SharedTask.step s action = some s') :
    s'.scheduled = s.scheduled ∨
      (∃ waiter, s.body = .coSpawn waiter ∧ s'.scheduled =
        s.scheduled ++ [(s.resumeCtx waiter, waiter)]) ∧
        s'.resumeCtx = s.resumeCtx := by
  cases step_cases stepEq with
  | handOver waiter _ isWaiter successorEq =>
      rw [successorEq]
      exact .inr ⟨⟨waiter, isWaiter, rfl⟩, rfl⟩
  | task _ scheduledEq _ _ => exact .inl scheduledEq
  | awaiter _ _ scheduledEq _ _ _ _ => exact .inl scheduledEq

/-- The walk arrives between the hand-over of a waiter and the read of its
`m_next` with the hand-over, and stays until the read. -/
theorem readNext_step {action : SharedTask.Action Coro Ctx Value Error}
    {waiter : Coro} (stepEq : SharedTask.step s action = some s')
    (reading : s'.body = .readNext waiter) :
    (s.body = .coSpawn waiter ∧ action = .finalAwait ∧ s'.pc = s.pc ∧
        s'.resumeCtx = s.resumeCtx) ∨
      (s.body = .readNext waiter ∧ action ≠ .finalAwait ∧
        (s.pc waiter = .suspended → action ≠ .wake waiter →
          s'.pc waiter = .suspended)) := by
  cases step_cases stepEq with
  | handOver other isFinal isWaiter successorEq =>
      subst successorEq
      obtain rfl : other = waiter := by simpa using reading
      exact .inl ⟨isWaiter, isFinal, rfl, rfl⟩
  | task _ _ _ notReading => exact absurd reading (notReading waiter)
  | awaiter coro notFinal _ _ others wakes bodyEq =>
      rcases bodyEq with same | ⟨_, _, running⟩
      · refine .inr ⟨same.symm.trans reading, notFinal, ?_⟩
        intro suspended notWoken
        have isOther : waiter ≠ coro := by
          rintro rfl
          exact notWoken (wakes suspended)
        rw [others waiter isOther, suspended]
      · rw [running] at reading
        cases reading

/-- The task leaves its initial suspension inside `coroutine.resume()`. -/
theorem initialSuspend_step
    {action : SharedTask.Action Coro Ctx Value Error}
    (stepEq : SharedTask.step s action = some s')
    (initial : s.body = .initialSuspend)
    (started : s'.body ≠ .initialSuspend) :
    ∃ coro spurious, action = .run coro spurious ∧ s.pc coro = .resume := by
  cases step_cases stepEq with
  | handOver _ _ isWaiter _ =>
      rw [initial] at isWaiter
      cases isWaiter
  | task notInitial _ _ _ => exact absurd initial notInitial
  | awaiter coro _ _ _ _ _ bodyEq =>
      rcases bodyEq with same | ⟨⟨spurious, isRun⟩, atResume, _⟩
      · exact absurd (same.trans initial) started
      · exact ⟨coro, spurious, isRun, atResume⟩

end Frames

section Invariant

variable [DecidableEq Coro] [DecidableEq Ctx] {build : Build}
variable {s s' : State Coro Ctx Value Error}

/-- The inductive invariant of runs in which no waiter overtakes the walk. -/
structure Inv (build : Build) (s : State Coro Ctx Value Error) : Prop where
  consistent : Consistent s.task
  onCtx : ∀ entry ∈ s.task.scheduled,
    entry.1 = s.task.resumeCtx entry.2
  started : s.task.body ≠ .initialSuspend → s.taskCtx ≠ none
  suspended : ∀ waiter, s.task.body = .readNext waiter →
    s.task.pc waiter = .suspended
  unsubmitted : ∀ waiter, s.task.body = .readNext waiter →
    build = .msgRing → s.task.resumeCtx waiter ≠ s.taskCtx →
      waiter ∈ s.unsubmitted
  lost : s.lost = false

omit [DecidableEq Coro] [DecidableEq Ctx] in
theorem inv_new : Inv build (State.new Coro Ctx Value Error) where
  consistent := consistent_new
  onCtx _ isMember := absurd isMember List.not_mem_nil
  started notInitial := absurd rfl notInitial
  suspended _ reading := by cases reading
  unsubmitted _ reading := by cases reading
  lost := rfl

omit [DecidableEq Coro] [DecidableEq Ctx] in
/-- Where the walk has still to read `m_next`, the record exists. -/
theorem Inv.not_dangles (inv : Inv build s)
    (action : SharedTask.Action Coro Ctx Value Error) :
    s.dangles action = false := by
  cases action with
  | finalAwait =>
      cases body : s.task.body with
      | readNext waiter =>
          have suspended := inv.suspended waiter body
          simp [State.dangles, State.reads, body, suspended, HasRecord]
      | initialSuspend | running | suspended | finalSuspend | coSpawn _
      | done => simp [State.dangles, State.reads, body]
  | await _ _ | run _ _ | wake _ | suspend | resume | returnValue _
  | unhandledException _ => rfl

/-- The waiter between its hand-over and the read of its `m_next` is resumed
only by a step that overtakes the walk. -/
theorem Inv.overtakes_of_wake (inv : Inv build s) {ctx : Ctx} {waiter : Coro}
    (may : s.may ctx (.wake waiter) = true)
    (reading : s.task.body = .readNext waiter) :
    overtakes build s (.perform ctx (.wake waiter)) = true := by
  simp only [State.may, decide_eq_true_eq] at may
  obtain ⟨isScheduled, isSubmitted, notBusy⟩ := may
  have ctxEq := inv.onCtx _ isScheduled
  have otherCtx : s.taskCtx ≠ some ctx := by
    intro isCtx
    exact notBusy ⟨isCtx, by simp [reading, Occupies]⟩
  cases build with
  | eventfd => simp [overtakes, reading, otherCtx]
  | msgRing =>
      have waits := inv.unsubmitted waiter reading rfl
      rw [← ctxEq] at waits
      exact absurd (waits (Ne.symm otherCtx)) isSubmitted

theorem Inv.perform (inv : Inv build s) {ctx : Ctx}
    {action : SharedTask.Action Coro Ctx Value Error}
    (stepEq : step build s (.perform ctx action) = some s')
    (keeps : overtakes build s (.perform ctx action) = false) : Inv build s' := by
  simp only [step, Option.ite_none_right_eq_some] at stepEq
  obtain ⟨may, performEq⟩ := stepEq
  rw [State.perform, inv.not_dangles, if_neg Bool.false_ne_true,
    Option.map_eq_some_iff] at performEq
  obtain ⟨task, taskEq, rfl⟩ := performEq
  constructor
  case consistent => exact inv.consistent.step taskEq
  case lost => exact inv.lost
  case onCtx =>
    intro entry isMember
    rcases scheduled_step taskEq with same | ⟨⟨waiter, isWaiter, appended⟩, ctxEq⟩
    · change entry ∈ task.scheduled at isMember
      rw [same] at isMember
      have scheduled : s.task.Scheduled entry.2 :=
        List.mem_map_of_mem isMember
      have isReady := inv.consistent.scheduled_ready _ scheduled
      rw [resumeCtx_step taskEq isReady]
      exact inv.onCtx entry isMember
    · change entry ∈ task.scheduled at isMember
      rw [appended, List.mem_append, List.mem_singleton] at isMember
      rw [ctxEq]
      rcases isMember with isOld | rfl
      · exact inv.onCtx entry isOld
      · rfl
  case started =>
    intro hasStarted
    by_cases initial : s.task.body = .initialSuspend
    · obtain ⟨coro, spurious, rfl, atResume⟩ :=
        initialSuspend_step taskEq initial hasStarted
      simp [State.taskCtxAfter, atResume]
    · have before := inv.started initial
      cases action with
      | run coro spurious =>
          simp only [State.taskCtxAfter]
          split
          · simp
          · exact before
      | resume => simp [State.taskCtxAfter]
      | await _ _ | wake _ | suspend | returnValue _ | unhandledException _
      | finalAwait => exact before
  case suspended =>
    intro waiter reading
    rcases readNext_step taskEq reading with
      ⟨spawning, _, pcEq, _⟩ | ⟨wasReading, _, stays⟩
    · obtain ⟨line, represents⟩ := inv.consistent.line
      obtain ⟨rest, rfl, _⟩ := (represents.visiting waiter spawning).exists_cons
      have isFirst := (represents.mem_iff waiter).mp List.mem_cons_self
      rw [pcEq]
      exact isFirst.1
    · apply stays (inv.suspended waiter wasReading)
      rintro rfl
      rw [inv.overtakes_of_wake may wasReading] at keeps
      cases keeps
  case unsubmitted =>
    intro waiter reading isMsgRing notHere
    rcases readNext_step taskEq reading with
      ⟨spawning, rfl, _, ctxEq⟩ | ⟨wasReading, notFinal, _⟩
    · have isRemote : s.task.resumeCtx waiter ≠ s.taskCtx := by
        rw [← ctxEq]
        exact notHere
      simp [State.unsubmittedAfter, isMsgRing, spawning, isRemote]
    · have isReady : s.task.waiters = .ready := by
        rw [inv.consistent.ready_iff, wasReading]
        trivial
      have ctxEq := resumeCtx_step taskEq isReady
      have sameTaskCtx : s.taskCtxAfter ctx action = s.taskCtx := by
        cases action with
        | run coro spurious =>
            have sound := inv.consistent.sound coro
            simp only [State.taskCtxAfter]
            split
            · next atResume =>
                rw [atResume] at sound
                rw [sound.2] at wasReading
                cases wasReading
            · rfl
        | resume => simp [SharedTask.step, wasReading] at taskEq
        | await _ _ | wake _ | suspend | returnValue _
        | unhandledException _ | finalAwait => rfl
      have sameUnsubmitted : s.unsubmittedAfter build action =
          s.unsubmitted := by
        cases action with
        | finalAwait => exact absurd rfl notFinal
        | await _ _ | run _ _ | wake _ | suspend | resume | returnValue _
        | unhandledException _ => rfl
      change waiter ∈ s.unsubmittedAfter build action
      change task.resumeCtx waiter ≠ s.taskCtxAfter ctx action at notHere
      rw [sameTaskCtx, ctxEq] at notHere
      rw [sameUnsubmitted]
      exact inv.unsubmitted waiter wasReading isMsgRing notHere

theorem Inv.step (inv : Inv build s)
    {action : Action Coro Ctx Value Error}
    (stepEq : SharedTaskWalk.step build s action = some s')
    (keeps : overtakes build s action = false) : Inv build s' := by
  cases action with
  | perform ctx action => exact inv.perform stepEq keeps
  | submit ctx =>
      simp only [SharedTaskWalk.step, Option.ite_none_right_eq_some,
        Option.some.injEq] at stepEq
      obtain ⟨⟨isCtx, notBusy⟩, rfl⟩ := stepEq
      refine { inv with unsubmitted := ?_ }
      intro waiter reading
      have reads : s.task.body = .readNext waiter := reading
      exact absurd ⟨isCtx, by simp [reads, Occupies]⟩ notBusy

theorem Inv.goes_on (inv : Inv build s) (exchanged : s.task.body.Exchanged)
    (notDone : s.task.body ≠ .done) : ∃ ctx successor,
      SharedTaskWalk.step build s (.perform ctx .finalAwait) =
        some successor := by
  have hasStarted : s.task.body ≠ .initialSuspend := by
    intro initial
    rw [initial] at exchanged
    exact exchanged
  obtain ⟨ctx, isCtx⟩ := Option.ne_none_iff_exists'.mp (inv.started hasStarted)
  have may : s.may ctx (.finalAwait) = true := by
    simp [State.may, isCtx, inv.lost]
  obtain ⟨task, taskEq⟩ : ∃ task, SharedTask.step s.task .finalAwait =
      some task := by
    cases body : s.task.body with
    | coSpawn _ | readNext _ =>
        simp only [SharedTask.step, SharedTask.State.finalAwait, body]
        exact ⟨_, rfl⟩
    | initialSuspend | running | suspended | finalSuspend =>
        rw [body] at exchanged
        exact exchanged.elim
    | done => exact absurd body notDone
  have performEq : SharedTaskWalk.step build s (.perform ctx .finalAwait) =
      some { s with
        task := task
        home := s.homeAfter ctx .finalAwait
        taskCtx := s.taskCtxAfter ctx .finalAwait
        unsubmitted := s.unsubmittedAfter build .finalAwait } := by
    rw [SharedTaskWalk.step, if_pos may, State.perform, inv.not_dangles,
      if_neg Bool.false_ne_true, taskEq]
    rfl
  exact ⟨ctx, _, performEq⟩

/-- What no step undoes, once the exchange was done. -/
theorem Inv.taken (inv : Inv build s)
    {action : Action Coro Ctx Value Error}
    (stepEq : SharedTaskWalk.step build s action = some s') :
    Advances s.task s'.task ∧ (s.task.waiters = .ready →
      s'.task.resumeCtx = s.task.resumeCtx) := by
  cases action with
  | perform ctx action =>
      simp only [SharedTaskWalk.step, Option.ite_none_right_eq_some] at stepEq
      obtain ⟨_, performEq⟩ := stepEq
      rw [State.perform, inv.not_dangles, if_neg Bool.false_ne_true,
        Option.map_eq_some_iff] at performEq
      obtain ⟨task, taskEq, rfl⟩ := performEq
      exact ⟨inv.consistent.advances taskEq, resumeCtx_step taskEq⟩
  | submit ctx =>
      simp only [SharedTaskWalk.step, Option.ite_none_right_eq_some,
        Option.some.injEq] at stepEq
      obtain ⟨_, rfl⟩ := stepEq
      exact ⟨⟨id, fun _ => id, fun _ _ => id⟩, fun _ => rfl⟩

end Invariant

section Runs

variable [DecidableEq Coro] [DecidableEq Ctx] {build : Build}
variable {run : (system Coro Ctx Value Error build).Run}

theorem inv_of_guarded
    (guarded : run.Guarded fun s action => overtakes build s action = false)
    {time : Nat} (timeLe : time ≤ run.length) : Inv build (run.state time) := by
  induction time with
  | zero =>
      have starts : run.state 0 = State.new Coro Ctx Value Error := run.starts
      rw [starts]
      exact inv_new
  | succ time ih =>
      exact (ih (Nat.le_of_succ_le timeLe)).step (run.steps time timeLe)
        (guarded time timeLe)

/-- A waiter on the list that the exchange takes waits for the walk from then
on, or was scheduled, on the context in its record. -/
theorem waits_of_guarded
    (guarded : run.Guarded fun s action => overtakes build s action = false)
    {exchanged last : Nat} (exchangedLt : exchanged < last)
    (lastLe : last ≤ run.length) {ctx : Ctx}
    (actionEq : run.action exchanged = .perform ctx .finalAwait)
    (atExchange : (run.state exchanged).task.body = .finalSuspend)
    {coro : Coro} (taken : LinkedFrom (run.state exchanged).task.next
      (run.state exchanged).task.waiters.head coro) :
    (run.state last).task.waiters = .ready ∧
      (run.state last).task.Waits coro ∧
      (run.state last).task.resumeCtx =
        (run.state exchanged).task.resumeCtx := by
  have inv : ∀ {time}, time ≤ run.length → Inv build (run.state time) :=
    inv_of_guarded guarded
  induction last, exchangedLt using Nat.le_induction with
  | base =>
      have before := inv (Nat.le_of_succ_le lastLe)
      have stepEq := run.steps exchanged lastLe
      obtain ⟨advances, _⟩ := before.taken stepEq
      rw [actionEq] at stepEq
      simp only [system, SharedTaskWalk.step,
        Option.ite_none_right_eq_some] at stepEq
      obtain ⟨_, performEq⟩ := stepEq
      rw [State.perform, before.not_dangles, if_neg Bool.false_ne_true,
        Option.map_eq_some_iff] at performEq
      obtain ⟨task, taskEq, stateEq⟩ := performEq
      have taskIs : (run.state (exchanged + 1)).task = task :=
        (congrArg State.task stateEq).symm
      simp only [SharedTask.step, SharedTask.State.finalAwait, atExchange,
        Option.some.injEq] at taskEq
      have isReady : task.waiters = .ready := by
        rw [← taskEq]
        unfold SharedTask.State.visit
        split
        · exact returnResume_fields.2.2.2
        · rfl
      have sameCtx : task.resumeCtx =
          (run.state exchanged).task.resumeCtx := by
        rw [← taskEq]
        exact (visit_fields _).2.1
      obtain ⟨line, represents⟩ := before.consistent.line
      have suspended : (run.state exchanged).task.pc coro = .suspended := by
        cases waiters : (run.state exchanged).task.waiters with
        | started head =>
            have isMember := (represents.stack head waiters).linkedFrom_iff.mp
              (by simpa [waiters] using taken)
            exact ((represents.mem_iff coro).mp isMember).1
        | notStarted | ready =>
            rw [waiters] at taken
            cases taken
      rw [taskIs]
      exact ⟨isReady, taskIs ▸ advances.waits coro (.inl suspended), sameCtx⟩
  | succ last _ ih =>
      obtain ⟨isReady, waits, sameCtx⟩ := ih (Nat.le_of_succ_le lastLe)
      obtain ⟨advances, keepsCtx⟩ :=
        (inv (Nat.le_of_succ_le lastLe)).taken (run.steps last lastLe)
      exact ⟨advances.ready isReady, advances.waits coro waits,
        (keepsCtx isReady).trans sameCtx⟩

/-- The walk survives every run in which no waiter overtakes it. -/
theorem run_walks (run : (system Coro Ctx Value Error build).Run)
    (guarded : run.Guarded fun s action => overtakes build s action = false) :
    Walks build run := by
  have inv : ∀ {time}, time ≤ run.length → Inv build (run.state time) :=
    inv_of_guarded guarded
  have nodup : ∀ time ≤ run.length,
      ((run.state time).task.scheduled.map Prod.snd).Nodup :=
    fun time timeLe => (inv timeLe).consistent.scheduled_nodup
  constructor
  · exact fun time timeLe => (inv timeLe).lost
  · exact fun time timeLe coro =>
      List.nodup_iff_count_le_one.mp (nodup time timeLe) coro
  · intro exchanged last exchangedLt lastLe ctx actionEq atExchange coro taken
      isDone
    obtain ⟨_, waits, sameCtx⟩ := waits_of_guarded guarded exchangedLt lastLe
      actionEq atExchange taken
    have scheduled : (run.state last).task.Scheduled coro :=
      waits.elim ((inv lastLe).consistent.scheduled_of_done isDone) id
    refine ⟨List.count_eq_one_of_mem (nodup last lastLe) scheduled, ?_⟩
    obtain ⟨entry, isMember, rfl⟩ := List.mem_map.mp scheduled
    have onCtx := (inv lastLe).onCtx entry isMember
    rw [← sameCtx, ← onCtx]
    exact isMember
  · exact fun time timeLe => (inv timeLe).goes_on

end Runs

section Overtaken

theorem new_initial : (system Unit Bool Unit Unit .eventfd).initial
    (State.new Unit Bool Unit Unit) :=
  rfl

/-- A coroutine on one context awaits the task, which completes on the other
one. -/
def awaitActions : List (Action Unit Bool Unit Unit) :=
  [.perform true (.await () true), .perform true (.run () false),
    .perform true (.run () false), .perform true (.run () false),
    .perform true (.run () false), .perform true .suspend,
    .perform true (.run () false), .perform true (.run () false),
    .perform false .resume, .perform false (.returnValue ()),
    .perform false .finalAwait, .perform false .finalAwait]

/-- The walk reads `m_next` before the coroutine is resumed. -/
def awaitedRun : (system Unit Bool Unit Unit .eventfd).Run :=
  .ofActions (State.new Unit Bool Unit Unit) new_initial
    (awaitActions ++ [.perform false .finalAwait, .perform true (.wake ())])
    (by decide)

theorem run_walks_awaited : Walks .eventfd awaitedRun :=
  run_walks awaitedRun (by unfold TransitionSystem.Run.Guarded; decide)

/-- The coroutine is resumed before the walk reads its `m_next`. -/
def overtakenRun : (system Unit Bool Unit Unit .eventfd).Run :=
  .ofActions (State.new Unit Bool Unit Unit) new_initial
    (awaitActions ++ [.perform true (.wake ()), .perform false .finalAwait])
    (by decide)

theorem run_walks_fails :
    ¬ ∀ run : (system Unit Bool Unit Unit .eventfd).Run,
      Walks .eventfd run := by
  intro law
  have found : (overtakenRun.state 14).lost = true := by decide
  have notLost := (law overtakenRun).never_lost 14 (by decide)
  rw [found] at notLost
  cases notLost

end Overtaken

end CoContext.SharedTaskWalk
