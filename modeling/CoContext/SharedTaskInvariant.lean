import CoContext.SharedTask

/-!
# The invariant of the shared task

The suspended coroutines that were not yet scheduled form one list.  Before
the exchange it is the stack of `waiters_`, after it what the loop of
`final_awaiter::await_suspend` has still to visit.  `waiters_` only moves from
`not_started_value` over the stacks to `value_ready_value`, and the position
of the task and of each coroutine follows it.
-/

namespace CoContext.SharedTask

variable {Coro Ctx Value Error : Type*}

/-- How often the task was resumed from its initial suspension. -/
def Body.starts : Body Coro → Nat
  | .initialSuspend => 0
  | .running | .suspended | .finalSuspend => 1
  | .coSpawn _ | .readNext _ | .done => 1

/-- The task has exchanged `waiters_`. -/
def Body.Exchanged : Body Coro → Prop
  | .coSpawn _ | .readNext _ | .done => True
  | .initialSuspend | .running | .suspended | .finalSuspend => False

/-- The task has stored its result. -/
def Body.Completed : Body Coro → Prop
  | .finalSuspend | .coSpawn _ | .readNext _ | .done => True
  | .initialSuspend | .running | .suspended => False

/-- The coroutine is inside `try_await`. -/
def Pc.Trying : Pc Coro Ctx Value Error → Prop
  | .load | .start | .resume | .inResume | .reload | .push _ => True
  | .idle | .awaitReady _ | .suspended | .awaitResume | .resumed _ => False

/-- What a position says about `waiters_` and the result. -/
def Pc.Sound (s : State Coro Ctx Value Error) :
    Pc Coro Ctx Value Error → Prop
  | .resume => s.waiters ≠ .notStarted ∧ s.body = .initialSuspend
  | .inResume => s.waiters ≠ .notStarted ∧ s.body ≠ .initialSuspend
  | .reload => s.waiters ≠ .notStarted
  | .push oldWaiters =>
      s.waiters ≠ .notStarted ∧ oldWaiters ≠ .notStarted ∧
        (oldWaiters = .ready → s.waiters = .ready)
  | .awaitResume => s.waiters = .ready
  | .resumed result => s.waiters = .ready ∧ result = s.result
  | .idle | .awaitReady _ | .load | .start | .suspended => True

/-- `line` is what the loop over the waiters visits from now on. -/
structure Represents (s : State Coro Ctx Value Error) (line : List Coro) :
    Prop where
  nodup : line.Nodup
  mem_iff : ∀ coro,
    coro ∈ line ↔ s.pc coro = .suspended ∧ ¬ s.Scheduled coro
  empty : s.waiters = .notStarted → line = []
  stack : ∀ head, s.waiters = .started head → Chain s.next head line
  visiting : ∀ waiter, s.body = .coSpawn waiter →
    Chain s.next (some waiter) line
  visited : ∀ waiter, s.body = .readNext waiter →
    s.Scheduled waiter ∧ Chain s.next (s.next waiter) line
  drained : s.body = .done → line = []

structure Consistent (s : State Coro Ctx Value Error) : Prop where
  line : ∃ line, Represents s line
  notStarted : s.waiters = .notStarted → s.body = .initialSuspend
  started : s.waiters ≠ .notStarted → s.body = .initialSuspend →
    ∃ coro, s.pc coro = .resume
  starter_unique : ∀ coro other, s.pc coro = .resume →
    s.pc other = .resume → coro = other
  starts : s.starts = s.body.starts
  ready_iff : s.waiters = .ready ↔ s.body.Exchanged
  result_iff : s.result.isSome ↔ s.body.Completed
  resumer_iff : ∀ coro, s.resumer = some coro ↔ s.pc coro = .inResume
  scheduled_ready : ∀ coro, s.Scheduled coro → s.waiters = .ready
  scheduled_nodup : (s.scheduled.map Prod.snd).Nodup
  trying : ∀ coro, (s.pc coro).Trying → ¬ s.Scheduled coro
  sound : ∀ coro, (s.pc coro).Sound s

/-- The word only moves on, and the result is fixed once it is ready. -/
theorem Pc.Sound.mono {s s' : State Coro Ctx Value Error}
    {pc : Pc Coro Ctx Value Error} (sound : pc.Sound s)
    (started : s.waiters ≠ .notStarted → s'.waiters ≠ .notStarted)
    (ready : s.waiters = .ready → s'.waiters = .ready ∧ s'.result = s.result)
    (initial : pc = .resume → s'.body = .initialSuspend)
    (left : s.body ≠ .initialSuspend → s'.body ≠ .initialSuspend) :
    pc.Sound s' := by
  cases pc with
  | idle | awaitReady _ | load | start | suspended => trivial
  | resume => exact ⟨started sound.1, initial rfl⟩
  | inResume => exact ⟨started sound.1, left sound.2⟩
  | reload => exact started sound
  | push oldWaiters =>
      exact ⟨started sound.1, sound.2.1,
        fun oldReady => (ready (sound.2.2 oldReady)).1⟩
  | awaitResume => exact (ready sound).1
  | resumed result =>
      obtain ⟨isReady, resultEq⟩ := sound
      exact ⟨(ready isReady).1, resultEq.trans (ready isReady).2.symm⟩

theorem consistent_new :
    Consistent (State.new Coro Ctx Value Error) where
  line := ⟨[], by constructor <;> simp [State.new]⟩
  notStarted _ := rfl
  started notInitial := absurd rfl notInitial
  starter_unique := by simp [State.new]
  starts := rfl
  ready_iff := by simp [State.new, Body.Exchanged]
  result_iff := by simp [State.new, State.result, Body.Completed]
  resumer_iff := by simp [State.new]
  scheduled_ready := by simp [State.new, State.Scheduled]
  scheduled_nodup := List.nodup_nil
  trying := by simp [State.new, Pc.Trying]
  sound := by simp [State.new, Pc.Sound]

section Body

/-- The task moves before its exchange; it may store its result then. -/
theorem Consistent.moveBody {s : State Coro Ctx Value Error}
    (consistent : Consistent s) {body : Body Coro}
    {valueStorage : Option Value} {exception : Option Error}
    (hasStarted : s.body ≠ .initialSuspend ∧ body ≠ .initialSuspend)
    (notExchanged : ¬ s.body.Exchanged ∧ ¬ body.Exchanged)
    (result : ({ s with body, valueStorage, exception } :
      State Coro Ctx Value Error).result.isSome ↔ body.Completed) :
    Consistent { s with body, valueStorage, exception } := by
  have starts := consistent.starts
  have notReady : s.waiters ≠ .ready := by
    rw [Ne, consistent.ready_iff]
    exact notExchanged.1
  have startsOnce : ∀ body : Body Coro, body ≠ .initialSuspend →
      body.starts = 1 := by
    intro body notInitial
    cases body <;> first | rfl | exact absurd rfl notInitial
  refine { consistent with
    line := ?_, notStarted := ?_, started := ?_, starts := ?_, ready_iff := ?_,
    result_iff := result, sound := ?_ }
  · obtain ⟨line, represents⟩ := consistent.line
    refine ⟨line, { represents with
      visiting := ?_, visited := ?_, drained := ?_ }⟩
    · rintro waiter rfl
      exact absurd trivial notExchanged.2
    · rintro waiter rfl
      exact absurd trivial notExchanged.2
    · rintro rfl
      exact absurd trivial notExchanged.2
  · exact fun unstarted =>
      absurd (consistent.notStarted unstarted) hasStarted.1
  · exact fun _ isInitial => absurd isInitial hasStarted.2
  · rw [startsOnce body hasStarted.2, ← startsOnce s.body hasStarted.1]
    exact starts
  · simp [notReady, notExchanged.2]
  · intro other
    have otherSound := consistent.sound other
    refine otherSound.mono id (fun isReady => absurd isReady notReady) ?_
      (fun _ => hasStarted.2)
    intro otherResumes
    have pcEq : s.pc other = .resume := otherResumes
    rw [pcEq] at otherSound
    exact absurd otherSound.2 hasStarted.1

/-- The completed task goes to the next position of its loop over the
waiters that were not yet scheduled. -/
theorem Consistent.goTo {s : State Coro Ctx Value Error}
    (consistent : Consistent s) (completed : s.body.Completed)
    {body : Body Coro} (exchanged : body.Exchanged) {line : List Coro}
    (represents : Represents { s with waiters := .ready, body } line) :
    Consistent { s with waiters := .ready, body } := by
  have notInitial : s.body ≠ .initialSuspend := by
    intro isInitial
    rw [isInitial] at completed
    exact completed
  have stillNotInitial : body ≠ .initialSuspend := by
    rintro rfl
    exact exchanged
  have startsOnce : s.body.starts = body.starts := by
    revert completed exchanged
    cases s.body <;> cases body <;> simp [Body.Completed, Body.Exchanged,
      Body.starts]
  have stillCompleted : body.Completed := by
    revert exchanged
    cases body <;> simp [Body.Completed, Body.Exchanged]
  refine { consistent with
    line := ⟨line, represents⟩
    notStarted := by simp
    started := fun _ isInitial => absurd isInitial stillNotInitial
    starts := consistent.starts.trans startsOnce
    ready_iff := by simp [exchanged]
    result_iff := ?_
    scheduled_ready := fun _ _ => rfl
    sound := ?_ }
  · exact consistent.result_iff.trans (by simp [completed, stillCompleted])
  · intro other
    have otherSound := consistent.sound other
    refine otherSound.mono (by simp) (fun _ => ⟨rfl, rfl⟩) ?_
      (fun _ => stillNotInitial)
    intro otherResumes
    have pcEq : s.pc other = .resume := otherResumes
    rw [pcEq] at otherSound
    exact absurd otherSound.2 notInitial

/-- Nothing depends on the context that will resume a waiter. -/
theorem Consistent.writeCtx {s : State Coro Ctx Value Error}
    (consistent : Consistent s) (resumeCtx : Coro → Option Ctx) :
    Consistent { s with resumeCtx } := by
  refine { consistent with line := ?_, sound := ?_ }
  · obtain ⟨line, represents⟩ := consistent.line
    exact ⟨line, { represents with }⟩
  · intro other
    have otherSound := consistent.sound other
    refine otherSound.mono id (fun isReady => ⟨isReady, rfl⟩) ?_ id
    intro otherResumes
    have pcEq : s.pc other = .resume := otherResumes
    rw [pcEq] at otherSound
    exact otherSound.2

end Body

section Steps

variable [DecidableEq Coro]

/-- A position other than the old and the new one of `coro` is held by the
same coroutines. -/
theorem setPc_pc_iff {s : State Coro Ctx Value Error} {coro other : Coro}
    {pc position : Pc Coro Ctx Value Error} (notOld : s.pc coro ≠ position)
    (notNew : pc ≠ position) :
    (s.setPc coro pc).pc other = position ↔ s.pc other = position := by
  by_cases isCoro : other = coro
  · subst isCoro
    simp [notNew, notOld]
  · simp [Function.update_of_ne isCoro]

/-- A coroutine that neither becomes suspended nor starts or runs the task
moves without changing what the other coroutines see. -/
theorem Consistent.setPc {s : State Coro Ctx Value Error}
    (consistent : Consistent s) {coro : Coro} {pc : Pc Coro Ctx Value Error}
    (woken : s.pc coro = .suspended → s.Scheduled coro)
    (notSuspended : pc ≠ .suspended)
    (notStarter : s.pc coro ≠ .resume ∧ pc ≠ .resume)
    (notResumer : s.pc coro ≠ .inResume ∧ pc ≠ .inResume)
    (trying : pc.Trying → ¬ s.Scheduled coro)
    (sound : pc.Sound s) : Consistent (s.setPc coro pc) := by
  constructor
  case line =>
    obtain ⟨line, represents⟩ := consistent.line
    refine ⟨line, { represents with mem_iff := ?_ }⟩
    intro other
    by_cases isCoro : other = coro
    · subst isCoro
      simp only [represents.mem_iff, State.setPc_pc, Function.update_self]
      exact ⟨fun waits => absurd (woken waits.1) waits.2,
        fun isNew => absurd isNew.1 notSuspended⟩
    · simp only [represents.mem_iff, State.setPc_pc,
        Function.update_of_ne isCoro]
      rfl
  case started =>
    intro isStarted isInitial
    obtain ⟨starter, atResume⟩ := consistent.started isStarted isInitial
    exact ⟨starter, (setPc_pc_iff notStarter.1 notStarter.2).mpr atResume⟩
  case starter_unique =>
    intro first second
    rw [setPc_pc_iff notStarter.1 notStarter.2,
      setPc_pc_iff notStarter.1 notStarter.2]
    exact consistent.starter_unique first second
  case resumer_iff =>
    intro other
    rw [setPc_pc_iff notResumer.1 notResumer.2]
    exact consistent.resumer_iff other
  case trying =>
    exact Function.forall_update_iff s.pc
      (p := fun other position => position.Trying → ¬ s.Scheduled other)
      |>.mpr ⟨trying, fun other _ => consistent.trying other⟩
  case sound =>
    have keeps : ∀ position : Pc Coro Ctx Value Error,
        position.Sound s → position.Sound (s.setPc coro pc) := by
      intro position positionSound
      cases position <;> exact positionSound
    intro other
    apply keeps
    exact Function.forall_update_iff s.pc
      (p := fun _ position => position.Sound s)
      |>.mpr ⟨sound, fun other _ => consistent.sound other⟩ other
  case notStarted => exact consistent.notStarted
  case starts => exact consistent.starts
  case ready_iff => exact consistent.ready_iff
  case result_iff => exact consistent.result_iff
  case scheduled_ready => exact consistent.scheduled_ready
  case scheduled_nodup => exact consistent.scheduled_nodup

/-- A coroutine inside `try_await` is on no list, so it may write its
`m_next`. -/
theorem Consistent.link {s : State Coro Ctx Value Error}
    (consistent : Consistent s) {coro : Coro}
    (trying : (s.pc coro).Trying) (pointer : Option Coro) :
    Consistent (s.link coro pointer) := by
  have notScheduled := consistent.trying coro trying
  refine { consistent with line := ?_, sound := ?_ }
  · obtain ⟨line, represents⟩ := consistent.line
    have outside : coro ∉ line := by
      intro inside
      rw [((represents.mem_iff coro).mp inside).1] at trying
      exact trying
    refine ⟨line, { represents with
      stack := ?_, visiting := ?_, visited := ?_ }⟩
    · intro head isStack
      exact (represents.stack head isStack).write_of_notMem outside pointer
    · intro waiter isVisiting
      exact (represents.visiting waiter isVisiting).write_of_notMem outside
        pointer
    · intro waiter isVisited
      obtain ⟨scheduled, chain⟩ := represents.visited waiter isVisited
      have notCoro : waiter ≠ coro := by
        rintro rfl
        exact notScheduled scheduled
      refine ⟨scheduled, ?_⟩
      rw [State.link_next, Function.update_of_ne notCoro]
      exact chain.write_of_notMem outside pointer
  · intro other
    exact (consistent.sound other).mono id (fun isReady => ⟨isReady, rfl⟩)
      (fun atResume => by
        have sound := consistent.sound other
        have pcEq : s.pc other = .resume := atResume
        rw [pcEq] at sound
        exact sound.2) id

/-- The coroutine whose strong exchange succeeds starts the task. -/
theorem Consistent.start {s : State Coro Ctx Value Error}
    (consistent : Consistent s) {coro : Coro} (atStart : s.pc coro = .start)
    (unstarted : s.waiters = .notStarted) :
    Consistent { s.setPc coro .resume with waiters := .started none } := by
  have isInitial := consistent.notStarted unstarted
  have nobodyScheduled : ∀ other, ¬ s.Scheduled other := by
    intro other scheduled
    have isReady := consistent.scheduled_ready other scheduled
    simp [unstarted] at isReady
  have nobodyResumes : ∀ other, s.pc other ≠ .resume := by
    intro other atResume
    have sound := consistent.sound other
    rw [atResume] at sound
    exact sound.1 unstarted
  constructor
  case line =>
    obtain ⟨line, represents⟩ := consistent.line
    have lineNil := represents.empty unstarted
    refine ⟨line, { represents with mem_iff := ?_, empty := ?_, stack := ?_ }⟩
    · intro other
      rw [represents.mem_iff,
        setPc_pc_iff (s := s) (by simp [atStart]) (by simp)]
      rfl
    · exact fun _ => lineNil
    · intro head isStack
      obtain rfl : none = head := by simpa using isStack
      rw [lineNil]
      rfl
  case notStarted => simp
  case started => exact fun _ _ => ⟨coro, by simp⟩
  case starter_unique =>
    have isCoro : ∀ other, Function.update s.pc coro .resume other = .resume →
        other = coro := by
      intro other atResume
      by_contra notCoro
      rw [Function.update_of_ne notCoro] at atResume
      exact nobodyResumes other atResume
    intro first second atFirst atSecond
    rw [isCoro first atFirst, isCoro second atSecond]
  case starts => exact consistent.starts
  case ready_iff => simp [isInitial, Body.Exchanged]
  case result_iff => exact consistent.result_iff
  case resumer_iff =>
    intro other
    rw [setPc_pc_iff (s := s) (by simp [atStart]) (by simp)]
    exact consistent.resumer_iff other
  case scheduled_ready =>
    exact fun other scheduled => absurd scheduled (nobodyScheduled other)
  case scheduled_nodup => exact consistent.scheduled_nodup
  case trying => exact fun other _ => nobodyScheduled other
  case sound =>
    intro other
    by_cases isCoro : other = coro
    · subst isCoro
      simp [Pc.Sound, isInitial]
    · simp only [State.setPc_pc, Function.update_of_ne isCoro]
      exact (consistent.sound other).mono (by simp) (by simp [unstarted])
        (fun _ => isInitial) id

/-- The starter resumes the task from its initial suspension. -/
theorem Consistent.resumeTask {s : State Coro Ctx Value Error}
    (consistent : Consistent s) {coro : Coro}
    (atResume : s.pc coro = .resume) : Consistent (s.resumeTask coro) := by
  have sound := consistent.sound coro
  rw [atResume] at sound
  obtain ⟨isStarted, isInitial⟩ := sound
  have starts := consistent.starts
  have notReady : s.waiters ≠ .ready := by
    rw [Ne, consistent.ready_iff, isInitial]
    exact id
  have unresumed : ∀ other, s.pc other ≠ .inResume := by
    intro other inResume
    have otherSound := consistent.sound other
    rw [inResume] at otherSound
    exact otherSound.2 isInitial
  have nobodyScheduled : ∀ other, ¬ s.Scheduled other := fun other scheduled =>
    notReady (consistent.scheduled_ready other scheduled)
  have othersStarted : ∀ other, s.pc other = .resume → other = coro :=
    fun other otherResumes =>
      consistent.starter_unique other coro otherResumes atResume
  constructor
  case line =>
    obtain ⟨line, represents⟩ := consistent.line
    refine ⟨line, { represents with
      mem_iff := ?_, visiting := ?_, visited := ?_, drained := ?_ }⟩
    · intro other
      rw [represents.mem_iff, State.resumeTask]
      simp only
      rw [setPc_pc_iff (s := s) (by simp [atResume]) (by simp)]
      rfl
    · simp [State.resumeTask]
    · simp [State.resumeTask]
    · simp [State.resumeTask]
  case notStarted => exact fun unstarted => absurd unstarted isStarted
  case started => simp [State.resumeTask]
  case starter_unique =>
    have nobody : ∀ other,
        Function.update s.pc coro .inResume other ≠ .resume := by
      intro other otherResumes
      by_cases isCoro : other = coro
      · simp [isCoro] at otherResumes
      · rw [Function.update_of_ne isCoro] at otherResumes
        exact isCoro (othersStarted other otherResumes)
    exact fun first _ atFirst => absurd atFirst (nobody first)
  case starts => simp [State.resumeTask, starts, isInitial, Body.starts]
  case ready_iff => simp [State.resumeTask, notReady, Body.Exchanged]
  case result_iff =>
    have noResult := consistent.result_iff
    rw [isInitial] at noResult
    exact noResult
  case resumer_iff =>
    intro other
    by_cases isCoro : other = coro
    · simp [State.resumeTask, isCoro]
    · simp [State.resumeTask, Function.update_of_ne isCoro, unresumed other,
        Ne.symm isCoro]
  case scheduled_ready => exact consistent.scheduled_ready
  case scheduled_nodup => exact consistent.scheduled_nodup
  case trying => exact fun other _ => nobodyScheduled other
  case sound =>
    intro other
    by_cases isCoro : other = coro
    · simp [State.resumeTask, isCoro, Pc.Sound, isStarted]
    · simp only [State.resumeTask, State.setPc_pc,
        Function.update_of_ne isCoro]
      exact (consistent.sound other).mono id (fun isReady => ⟨isReady, rfl⟩)
        (fun otherResumes => absurd (othersStarted other otherResumes) isCoro)
        (by simp)

/-- The weak exchange pushes the waiter onto the stack that it read. -/
theorem Consistent.pushWaiter {s : State Coro Ctx Value Error}
    (consistent : Consistent s) {coro : Coro} {head : Option Coro}
    (atPush : s.pc coro = .push (.started head))
    (unchanged : s.waiters = .started head) :
    Consistent { (s.link coro head).setPc coro .suspended with
      waiters := .started (some coro) } := by
  have notExchanged : ¬ s.body.Exchanged := by
    rw [← consistent.ready_iff, unchanged]
    simp
  have nobodyScheduled : ∀ other, ¬ s.Scheduled other := by
    intro other scheduled
    have isReady := consistent.scheduled_ready other scheduled
    simp [unchanged] at isReady
  constructor
  case line =>
    obtain ⟨line, represents⟩ := consistent.line
    have outside : coro ∉ line := by
      rw [represents.mem_iff, atPush]
      simp
    refine ⟨coro :: line, List.nodup_cons.mpr ⟨outside, represents.nodup⟩,
      ?_, by simp, ?_, ?_, ?_, ?_⟩
    · intro other
      by_cases isCoro : other = coro
      · subst isCoro
        simp only [List.mem_cons, true_or, State.setPc_pc,
          Function.update_self, true_and, true_iff]
        exact nobodyScheduled other
      · simp only [List.mem_cons, isCoro, false_or, represents.mem_iff,
          State.setPc_pc, Function.update_of_ne isCoro]
        rfl
    · intro newHead isStack
      obtain rfl : some coro = newHead := by simpa using isStack
      exact (represents.stack head unchanged).push outside
    · intro waiter isVisiting
      exact absurd (isVisiting ▸ trivial) notExchanged
    · intro waiter isVisited
      exact absurd (isVisited ▸ trivial) notExchanged
    · intro isDone
      exact absurd (isDone ▸ trivial) notExchanged
  case notStarted => simp
  case started =>
    intro _ isInitial
    obtain ⟨starter, atResume⟩ :=
      consistent.started (by simp [unchanged]) isInitial
    exact ⟨starter,
      (setPc_pc_iff (s := s) (by simp [atPush]) (by simp)).mpr atResume⟩
  case starter_unique =>
    intro first second
    rw [setPc_pc_iff (by simp [atPush]) (by simp),
      setPc_pc_iff (by simp [atPush]) (by simp)]
    exact consistent.starter_unique first second
  case starts => exact consistent.starts
  case ready_iff => simp [notExchanged]
  case result_iff => exact consistent.result_iff
  case resumer_iff =>
    intro other
    rw [setPc_pc_iff (by simp [atPush]) (by simp)]
    exact consistent.resumer_iff other
  case scheduled_ready =>
    exact fun other scheduled => absurd scheduled (nobodyScheduled other)
  case scheduled_nodup => exact consistent.scheduled_nodup
  case trying => exact fun other _ => nobodyScheduled other
  case sound =>
    intro other
    by_cases isCoro : other = coro
    · subst isCoro
      simp [Pc.Sound]
    · have otherSound := consistent.sound other
      simp only [State.setPc_pc, Function.update_of_ne isCoro, State.link_pc]
      refine otherSound.mono (by simp) (by simp [unchanged]) ?_ id
      intro otherResumes
      rw [otherResumes] at otherSound
      exact otherSound.2

theorem Consistent.push {s : State Coro Ctx Value Error}
    (consistent : Consistent s) {coro : Coro} {oldWaiters : Waiters Coro}
    {spurious : Bool} (atPush : s.pc coro = .push oldWaiters)
    (sound : (Pc.push oldWaiters).Sound s) :
    Consistent (s.push coro oldWaiters spurious) := by
  obtain ⟨isStarted, oldStarted, oldReady⟩ := sound
  have tries : (s.pc coro).Trying := by
    rw [atPush]
    trivial
  unfold State.push
  split
  next isReady =>
    exact consistent.setPc (by simp [atPush]) (by simp) (by simp [atPush])
      (by simp [atPush]) False.elim (oldReady isReady)
  next notReady =>
    split
    next unchanged =>
      cases oldWaiters with
      | notStarted => exact absurd rfl oldStarted
      | ready => exact absurd rfl notReady
      | started head => exact consistent.pushWaiter atPush unchanged.1
    next =>
      exact (consistent.link tries oldWaiters.head).setPc (by simp [atPush])
        (by simp) (by simp [atPush]) (by simp [atPush])
        (fun _ => consistent.trying coro tries) ⟨isStarted, isStarted, id⟩

/-- The starter goes on when the task suspends. -/
theorem Consistent.returnResume {s : State Coro Ctx Value Error}
    (consistent : Consistent s) : Consistent s.returnResume := by
  unfold State.returnResume
  cases resumer : s.resumer with
  | none => exact consistent
  | some coro =>
      have inResume := (consistent.resumer_iff coro).mp resumer
      have coroSound := consistent.sound coro
      rw [inResume] at coroSound
      have notScheduled := consistent.trying coro (by simp [inResume, Pc.Trying])
      constructor
      case line =>
        obtain ⟨line, represents⟩ := consistent.line
        refine ⟨line, { represents with mem_iff := ?_ }⟩
        intro other
        rw [represents.mem_iff,
          setPc_pc_iff (s := s) (by simp [inResume]) (by simp)]
        rfl
      case started =>
        intro isStarted isInitial
        exact absurd isInitial coroSound.2
      case starter_unique =>
        intro first second
        rw [setPc_pc_iff (by simp [inResume]) (by simp),
          setPc_pc_iff (by simp [inResume]) (by simp)]
        exact consistent.starter_unique first second
      case resumer_iff =>
        intro other
        by_cases isCoro : other = coro
        · simp [isCoro]
        · simp only [State.setPc_pc, Function.update_of_ne isCoro,
            ← consistent.resumer_iff other, resumer, Option.some.injEq,
            Ne.symm isCoro, reduceCtorEq]
      case trying =>
        intro other
        by_cases isCoro : other = coro
        · subst isCoro
          exact fun _ => notScheduled
        · simp only [State.setPc_pc, Function.update_of_ne isCoro]
          exact consistent.trying other
      case sound =>
        intro other
        by_cases isCoro : other = coro
        · subst isCoro
          simp [Pc.Sound, coroSound.1]
        · simp only [State.setPc_pc, Function.update_of_ne isCoro]
          have otherSound := consistent.sound other
          refine otherSound.mono id (fun isReady => ⟨isReady, rfl⟩) ?_ id
          intro otherResumes
          rw [otherResumes] at otherSound
          exact otherSound.2
      case notStarted => exact consistent.notStarted
      case starts => exact consistent.starts
      case ready_iff => exact consistent.ready_iff
      case result_iff => exact consistent.result_iff
      case scheduled_ready => exact consistent.scheduled_ready
      case scheduled_nodup => exact consistent.scheduled_nodup

theorem Consistent.visit {s : State Coro Ctx Value Error}
    (consistent : Consistent s) (completed : s.body.Completed)
    {line : List Coro} {pointer : Option Coro} (nodup : line.Nodup)
    (mem_iff : ∀ coro,
      coro ∈ line ↔ s.pc coro = .suspended ∧ ¬ s.Scheduled coro)
    (chain : Chain s.next pointer line) :
    Consistent ({ s with waiters := .ready }.visit pointer) := by
  unfold State.visit
  cases pointer with
  | none =>
      have represents :
          Represents { s with waiters := .ready, body := .done } line :=
        ⟨nodup, mem_iff, by simp, by simp, by simp, by simp,
          fun _ => Chain.null_iff.mp chain⟩
      have exchanged : (Body.done : Body Coro).Exchanged := trivial
      exact (consistent.goTo completed exchanged represents).returnResume
  | some waiter =>
      have represents :
          Represents { s with waiters := .ready, body := .coSpawn waiter }
            line := by
        refine ⟨nodup, mem_iff, by simp, by simp, ?_, by simp, by simp⟩
        intro visiting isVisiting
        obtain rfl : waiter = visiting := by simpa using isVisiting
        exact chain
      have exchanged : (Body.coSpawn waiter).Exchanged := trivial
      exact consistent.goTo completed exchanged represents

theorem Consistent.coSpawn {s : State Coro Ctx Value Error}
    (consistent : Consistent s) {waiter : Coro}
    (atSpawn : s.body = .coSpawn waiter) :
    Consistent { s with
      body := .readNext waiter
      scheduled := s.scheduled ++ [(s.resumeCtx waiter, waiter)] } := by
  obtain ⟨line, represents⟩ := consistent.line
  obtain ⟨rest, lineEq, restChain⟩ :=
    (represents.visiting waiter atSpawn).exists_cons
  obtain ⟨notRest, restNodup⟩ := List.nodup_cons.mp (lineEq ▸ represents.nodup)
  obtain ⟨atWaiter, notScheduled⟩ :=
    (represents.mem_iff waiter).mp (by simp [lineEq])
  have isReady : s.waiters = .ready := by
    rw [consistent.ready_iff, atSpawn]
    trivial
  have scheduled_iff : ∀ other,
      ({ s with
        body := .readNext waiter
        scheduled := s.scheduled ++ [(s.resumeCtx waiter, waiter)] } :
        State Coro Ctx Value Error).Scheduled other ↔
      s.Scheduled other ∨ other = waiter := by
    simp [State.Scheduled]
  have next : Represents { s with
      body := .readNext waiter
      scheduled := s.scheduled ++ [(s.resumeCtx waiter, waiter)] } rest := by
    refine ⟨restNodup, ?_, by simp [isReady], by simp [isReady], by simp, ?_,
      by simp⟩
    · intro other
      have inLine := represents.mem_iff other
      rw [lineEq, List.mem_cons] at inLine
      rw [scheduled_iff, not_or]
      by_cases isWaiter : other = waiter
      · subst isWaiter
        simp [notRest]
      · simp only [isWaiter, false_or] at inLine
        simp [inLine, isWaiter]
    · intro visited isVisited
      obtain rfl : waiter = visited := by simpa using isVisited
      exact ⟨(scheduled_iff waiter).mpr (.inr rfl), restChain⟩
  refine { consistent with
    line := ⟨rest, next⟩
    notStarted := by simp [isReady]
    started := by simp
    starts := consistent.starts.trans (by rw [atSpawn]; rfl)
    ready_iff := by simp [isReady, Body.Exchanged]
    result_iff := consistent.result_iff.trans
      (by simp [atSpawn, Body.Completed])
    scheduled_ready := fun _ _ => isReady
    scheduled_nodup := ?_
    trying := ?_
    sound := ?_ }
  · rw [List.map_append, List.map_singleton, List.nodup_append]
    refine ⟨consistent.scheduled_nodup, List.nodup_singleton _, ?_⟩
    rintro other scheduled last isLast rfl
    obtain rfl : other = waiter := by simpa using isLast
    exact notScheduled scheduled
  · intro other trying
    have tries : (s.pc other).Trying := trying
    rw [scheduled_iff, not_or]
    refine ⟨consistent.trying other tries, ?_⟩
    rintro rfl
    rw [atWaiter] at tries
    exact tries
  · intro other
    have otherSound := consistent.sound other
    refine otherSound.mono id (fun isReady => ⟨isReady, rfl⟩) ?_ (by simp)
    intro otherResumes
    have pcEq : s.pc other = .resume := otherResumes
    rw [pcEq] at otherSound
    simp [Pc.Sound, atSpawn] at otherSound

theorem Consistent.finalAwait {s successor : State Coro Ctx Value Error}
    (consistent : Consistent s) (stepEq : s.finalAwait = some successor) :
    Consistent successor := by
  obtain ⟨line, represents⟩ := consistent.line
  unfold State.finalAwait at stepEq
  cases body : s.body with
  | finalSuspend =>
      simp only [body, Option.some.injEq] at stepEq
      subst stepEq
      have chain : Chain s.next s.waiters.head line := by
        cases waiters : s.waiters with
        | notStarted =>
            have isInitial := consistent.notStarted waiters
            simp [body] at isInitial
        | started head => exact represents.stack head waiters
        | ready =>
            have exchanged := consistent.ready_iff.mp waiters
            simp [body, Body.Exchanged] at exchanged
      exact consistent.visit (by rw [body]; trivial) represents.nodup
        represents.mem_iff chain
  | coSpawn waiter =>
      simp only [body, Option.some.injEq] at stepEq
      subst stepEq
      exact consistent.coSpawn body
  | readNext waiter =>
      simp only [body, Option.some.injEq] at stepEq
      subst stepEq
      have isReady : s.waiters = .ready := by
        rw [consistent.ready_iff, body]
        trivial
      have visited := consistent.visit (by rw [body]; trivial)
        represents.nodup represents.mem_iff
        (represents.visited waiter body).2
      rwa [← isReady] at visited
  | initialSuspend | running | suspended | done => simp [body] at stepEq

theorem Consistent.runAwait {s successor : State Coro Ctx Value Error}
    (consistent : Consistent s) {coro : Coro} {spurious : Bool}
    (stepEq : s.runAwait coro spurious = some successor) :
    Consistent successor := by
  have sound := consistent.sound coro
  have trying := consistent.trying coro
  unfold State.runAwait at stepEq
  cases pc : s.pc coro with
  | awaitReady ctx =>
      simp only [pc, Option.some.injEq] at stepEq
      subst stepEq
      unfold State.awaitReady
      split
      next isReady =>
        exact consistent.setPc (by simp [pc]) (by simp) (by simp [pc])
          (by simp [pc]) False.elim isReady
      next notReady =>
        apply Consistent.writeCtx
        exact consistent.setPc (by simp [pc]) (by simp) (by simp [pc])
          (by simp [pc])
          (fun _ scheduled =>
            notReady (consistent.scheduled_ready coro scheduled))
          trivial
  | load =>
      simp only [pc, Option.some.injEq] at stepEq
      subst stepEq
      have outside := trying (by simp [pc, Pc.Trying])
      split
      next unstarted =>
        exact consistent.setPc (by simp [pc]) (by simp) (by simp [pc])
          (by simp [pc]) (fun _ => outside) trivial
      next isStarted =>
        exact consistent.setPc (by simp [pc]) (by simp) (by simp [pc])
          (by simp [pc]) (fun _ => outside) ⟨isStarted, isStarted, id⟩
  | start =>
      simp only [pc, Option.some.injEq] at stepEq
      subst stepEq
      unfold State.start
      split
      next unstarted => exact consistent.start pc unstarted
      next isStarted =>
        exact consistent.setPc (by simp [pc]) (by simp) (by simp [pc])
          (by simp [pc]) (fun _ => trying (by simp [pc, Pc.Trying]))
          ⟨isStarted, isStarted, id⟩
  | resume =>
      simp only [pc, Option.some.injEq] at stepEq
      subst stepEq
      exact consistent.resumeTask pc
  | reload =>
      simp only [pc, Option.some.injEq] at stepEq
      subst stepEq
      rw [pc] at sound
      exact consistent.setPc (by simp [pc]) (by simp) (by simp [pc])
        (by simp [pc]) (fun _ => trying (by simp [pc, Pc.Trying]))
        ⟨sound, sound, id⟩
  | push oldWaiters =>
      simp only [pc, Option.some.injEq] at stepEq
      subst stepEq
      rw [pc] at sound
      exact consistent.push pc sound
  | awaitResume =>
      simp only [pc, Option.some.injEq] at stepEq
      subst stepEq
      rw [pc] at sound
      exact consistent.setPc (by simp [pc]) (by simp) (by simp [pc])
        (by simp [pc]) False.elim ⟨sound, rfl⟩
  | idle | inResume | suspended | resumed _ => simp [pc] at stepEq

theorem Consistent.step {s successor : State Coro Ctx Value Error}
    {action : Action Coro Ctx Value Error} (consistent : Consistent s)
    (stepEq : SharedTask.step s action = some successor) :
    Consistent successor := by
  cases action with
  | await coro ctx =>
      cases pc : s.pc coro <;>
        simp only [SharedTask.step, pc, Option.some.injEq, reduceCtorEq]
          at stepEq
      case idle =>
        subst stepEq
        exact consistent.setPc (by simp [pc]) (by simp) (by simp [pc])
          (by simp [pc]) False.elim trivial
      case resumed result =>
        subst stepEq
        exact consistent.setPc (by simp [pc]) (by simp) (by simp [pc])
          (by simp [pc]) False.elim trivial
  | run coro spurious => exact consistent.runAwait stepEq
  | wake coro =>
      cases pc : s.pc coro <;>
        simp only [SharedTask.step, pc, reduceCtorEq] at stepEq
      case suspended =>
        split at stepEq
        next scheduled =>
          obtain rfl := Option.some.inj stepEq
          exact consistent.setPc (fun _ => scheduled) (by simp) (by simp [pc])
            (by simp [pc]) False.elim
            (consistent.scheduled_ready coro scheduled)
        next => simp at stepEq
  | suspend =>
      cases body : s.body <;>
        simp only [SharedTask.step, body, Option.some.injEq, reduceCtorEq]
          at stepEq
      case running =>
        subst stepEq
        apply Consistent.returnResume
        apply consistent.moveBody (by simp [body]) (by simp [body, Body.Exchanged])
        exact consistent.result_iff.trans (by simp [body, Body.Completed])
  | resume =>
      cases body : s.body <;>
        simp only [SharedTask.step, body, Option.some.injEq, reduceCtorEq]
          at stepEq
      case suspended =>
        subst stepEq
        apply consistent.moveBody (by simp [body]) (by simp [body, Body.Exchanged])
        exact consistent.result_iff.trans (by simp [body, Body.Completed])
  | returnValue value =>
      cases body : s.body <;>
        simp only [SharedTask.step, body, Option.some.injEq, reduceCtorEq]
          at stepEq
      case running =>
        subst stepEq
        apply consistent.moveBody (by simp [body]) (by simp [body, Body.Exchanged])
        cases s.exception <;> simp [State.result, Body.Completed]
  | unhandledException error =>
      cases body : s.body <;>
        simp only [SharedTask.step, body, Option.some.injEq, reduceCtorEq]
          at stepEq
      case running =>
        subst stepEq
        apply consistent.moveBody (by simp [body]) (by simp [body, Body.Exchanged])
        simp [State.result, Body.Completed]
  | finalAwait => exact consistent.finalAwait stepEq

theorem consistent_of_reachable {s : State Coro Ctx Value Error}
    (reachable : (system Coro Ctx Value Error).Reachable s) :
    Consistent s := by
  apply reachable.invariant
  · rintro state rfl
    exact consistent_new
  · intro state action successor consistent stepEq
    exact consistent.step stepEq

end Steps

end CoContext.SharedTask
