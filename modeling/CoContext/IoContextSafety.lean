import CoContext.IoContext
import CoContext.Population
import Mathlib.Data.UInt

/-!
# The contexts start together

The counters of `io_context_meta` count the contexts that exist and those that
are ready.  A context that passes finds that they are the same contexts, and
whoever makes the counters equal passes and will notify the others, so that
nobody sleeps while the counters are equal.
-/

namespace CoContext.IoContext

open TransitionSystem

variable {Ctx Coro Info : Type*}
variable [DecidableEq Ctx] [DecidableEq Coro] [DecidableEq Info]

/-- The steps of a program with contexts. -/
inductive Transition (s : State Ctx Coro Info) :
    Action Ctx Coro Info → State Ctx Coro Info → Prop
  | construct {ctx : Ctx} : s.phase ctx = .unborn →
      Transition s (.construct ctx) (s.construct ctx)
  | coSpawn {ctx : Ctx} {coro : Coro} :
      s.phase ctx = .constructed ∨ s.phase ctx = .init → s.readyCount = 0 →
      (s.worker ctx).status coro = .idle → Transition s (.coSpawn ctx coro)
        (s.setWorker ctx ((s.worker ctx).forwardTask (some coro)))
  | start {ctx : Ctx} : s.phase ctx = .constructed →
      Transition s (.start ctx) (s.setPhase ctx .init)
  | register {ctx : Ctx} : s.phase ctx = .init →
      Transition s (.register ctx) (s.register ctx)
  | wakeUp {ctx : Ctx} {notified : Bool} : s.phase ctx = .waitFor notified →
      Transition s (.wakeUp ctx) (s.test ctx false)
  | timeout {ctx : Ctx} {notified : Bool} : s.phase ctx = .waitFor notified →
      Transition s (.timeout ctx) (s.test ctx true)
  | notifyAll {ctx : Ctx} : s.phase ctx = .notifyAll →
      Transition s (.notifyAll ctx) (s.notifyAll ctx)
  | work {ctx : Ctx} {action : Worker.Action Coro Info}
      {worker : Worker.State Coro Info} : s.phase ctx = .run →
      action ≠ .deinit → Worker.step (s.view ctx) action = some worker →
      Transition s (.work ctx action) (s.setWorker ctx worker)
  | deinit {ctx : Ctx} : s.phase ctx = .run →
      (s.worker ctx).pc = .stopped → Transition s (.deinit ctx) (s.deinit ctx)

theorem transition_of_step {s t : State Ctx Coro Info}
    {action : Action Ctx Coro Info} (stepEq : step s action = some t) :
    s.terminated = false ∧ Transition s action t := by
  unfold step at stepEq
  split at stepEq
  next => contradiction
  next goesOn =>
    refine ⟨by simpa using goesOn, ?_⟩
    cases action with
    | construct ctx | start ctx | register ctx | notifyAll ctx =>
        simp only [Option.ite_none_right_eq_some, Option.some.injEq] at stepEq
        obtain ⟨phase, rfl⟩ := stepEq
        constructor
        exact phase
    | coSpawn ctx coro =>
        simp only [Option.ite_none_right_eq_some, Option.some.injEq] at stepEq
        obtain ⟨⟨phase, nobody, idle⟩, rfl⟩ := stepEq
        exact .coSpawn phase nobody idle
    | wakeUp ctx | timeout ctx =>
        simp only at stepEq
        split at stepEq
        next notified phase =>
          obtain rfl := Option.some.inj stepEq
          constructor
          exact phase
        next => contradiction
    | work ctx action =>
        simp only [Option.ite_none_right_eq_some] at stepEq
        obtain ⟨phase, stepEq⟩ := stepEq
        have notDeinit : action ≠ .deinit := by
          rintro rfl
          simp [State.work] at stepEq
        have workEq : (Worker.step (s.view ctx) action).map
            (s.setWorker ctx) = some t := by
          cases action <;> first | contradiction | exact stepEq
        obtain ⟨worker, workerEq, rfl⟩ := Option.map_eq_some_iff.mp workEq
        exact .work phase notDeinit workerEq
    | deinit ctx =>
        simp only [Option.ite_none_right_eq_some, Option.some.injEq] at stepEq
        obtain ⟨⟨phase, stopped⟩, rfl⟩ := stepEq
        exact .deinit phase stopped

omit [DecidableEq Coro] [DecidableEq Info] in
/-- A context that tests the counters passes, ends the program or waits. -/
theorem State.test_cases (s : State Ctx Coro Info) (ctx : Ctx)
    (timedOut : Bool) :
    (s.createCount = s.readyCount ∧
      s.test ctx timedOut = s.setPhase ctx .notifyAll) ∨
    (s.createCount ≠ s.readyCount ∧
      (s.test ctx timedOut = { s with terminated := true } ∨
        s.test ctx timedOut = s.setPhase ctx (.waitFor false))) := by
  unfold State.test
  split
  next same => exact .inl ⟨same, rfl⟩
  next differ =>
    right
    refine ⟨differ, ?_⟩
    cases timedOut
    · exact .inr rfl
    · exact .inl rfl

/-- The word counts the contexts in some of the phases. -/
def Counts (counted : Phase → Prop) (phase : Ctx → Phase) (count : UInt8) :
    Prop :=
  ∃ population : Population counted phase, population.size = count.toNat

namespace Counts

variable {counted : Phase → Prop} {phase : Ctx → Phase} {count : UInt8}

omit [DecidableEq Ctx] in
theorem keep {later : Ctx → Phase} (counts : Counts counted phase count)
    (same : ∀ ctx, counted (later ctx) ↔ counted (phase ctx)) :
    Counts counted later count := by
  obtain ⟨population, sizeEq⟩ := counts
  exact ⟨population.keep same, sizeEq⟩

theorem stays {ctx : Ctx} {target : Phase}
    (counts : Counts counted phase count)
    (same : counted target ↔ counted (phase ctx)) :
    Counts counted (Function.update phase ctx target) count := by
  apply counts.keep
  intro other
  by_cases isCtx : other = ctx
  · rw [isCtx, Function.update_self, same]
  · rw [Function.update_of_ne isCtx]

theorem joins {ctx : Ctx} {target : Phase}
    (counts : Counts counted phase count) (outside : ¬ counted (phase ctx))
    (inside : counted target) (room : count ≠ 255) :
    Counts counted (Function.update phase ctx target) (count + 1) := by
  obtain ⟨population, sizeEq⟩ := counts
  refine ⟨population.move ctx target, ?_⟩
  have moved := population.size_move ctx target
  rw [if_neg outside, if_pos inside] at moved
  have small : count.toNat ≠ 255 := fun full => room (UInt8.toNat.inj full)
  have bound := count.toNat_lt
  rw [UInt8.toNat_add, UInt8.toNat_one, Nat.mod_eq_of_lt (by omega)]
  omega

theorem leaves {ctx : Ctx} {target : Phase}
    (counts : Counts counted phase count) (inside : counted (phase ctx))
    (outside : ¬ counted target) :
    Counts counted (Function.update phase ctx target) (count - 1) := by
  obtain ⟨population, sizeEq⟩ := counts
  refine ⟨population.move ctx target, ?_⟩
  have moved := population.size_move ctx target
  rw [if_pos inside, if_neg outside] at moved
  have positive := population.size_pos inside
  have one : (1 : UInt8) ≤ count := by
    rw [UInt8.le_iff_toNat_le, UInt8.toNat_one]
    omega
  rw [UInt8.toNat_sub_of_le count 1 one, UInt8.toNat_one]
  omega

end Counts

/-- `create_count` and `ready_count` count what they should. -/
structure Counted (s : State Ctx Coro Info) : Prop where
  created : Counts Phase.Alive s.phase s.createCount
  ready : Counts Phase.Ready s.phase s.readyCount

theorem Phase.Ready.alive {phase : Phase} (ready : phase.Ready) :
    phase.Alive := by
  cases phase <;> trivial

@[simp]
theorem Phase.notified_alive (phase : Phase) :
    phase.notified.Alive ↔ phase.Alive := by
  cases phase <;> rfl

@[simp]
theorem Phase.notified_ready (phase : Phase) :
    phase.notified.Ready ↔ phase.Ready := by
  cases phase <;> rfl

theorem Phase.notified_ne (phase : Phase) :
    phase.notified ≠ .waitFor false := by
  cases phase <;> simp [notified]

namespace Counted

variable {s : State Ctx Coro Info}

omit [DecidableEq Ctx] [DecidableEq Coro] [DecidableEq Info]

/-- The counters are equal if and only if all contexts are ready. -/
theorem equal_iff (counted : Counted s) :
    s.createCount = s.readyCount ↔
      ∀ ctx, (s.phase ctx).Alive → (s.phase ctx).Ready := by
  obtain ⟨created, createdEq⟩ := counted.created
  obtain ⟨ready, readyEq⟩ := counted.ready
  rw [← ready.size_eq_iff created fun _ => Phase.Ready.alive, createdEq,
    readyEq, UInt8.toNat_inj]
  exact eq_comm

/-- A context that is not ready leaves room for one more. -/
theorem ready_ne (counted : Counted s) {ctx : Ctx}
    (alive : (s.phase ctx).Alive) (notReady : ¬ (s.phase ctx).Ready) :
    s.readyCount ≠ 255 := by
  obtain ⟨created, createdEq⟩ := counted.created
  obtain ⟨ready, readyEq⟩ := counted.ready
  have fewer := ready.size_lt_of_outside created
    (fun _ => Phase.Ready.alive) alive notReady
  intro full
  have bound := s.createCount.toNat_lt
  have isFull : s.readyCount.toNat = 255 := by rw [full]; rfl
  omega

end Counted

section Steps

variable {s t : State Ctx Coro Info} {action : Action Ctx Coro Info}

omit [DecidableEq Ctx] [DecidableEq Info] in
theorem counted_new : Counted (State.new Ctx Coro Info) where
  created := ⟨.nobody fun _ => id, rfl⟩
  ready := ⟨.nobody fun _ => id, rfl⟩

omit [DecidableEq Coro] [DecidableEq Info] in
theorem Counted.test (counted : Counted s) {ctx : Ctx}
    (ready : (s.phase ctx).Ready) (timedOut : Bool) :
    Counted (s.test ctx timedOut) := by
  have moves : ∀ target : Phase, target.Ready →
      Counted (s.setPhase ctx target) := fun target isReady =>
    { created := counted.created.stays
        (iff_of_true isReady.alive ready.alive)
      ready := counted.ready.stays (iff_of_true isReady ready) }
  rcases s.test_cases ctx timedOut with ⟨_, testEq⟩ | ⟨_, testEq | testEq⟩
  · rw [testEq]
    exact moves .notifyAll trivial
  · rw [testEq]
    exact ⟨counted.created, counted.ready⟩
  · rw [testEq]
    exact moves (.waitFor false) trivial

omit [DecidableEq Coro] [DecidableEq Info] in
theorem State.register_eq (s : State Ctx Coro Info) (ctx : Ctx) :
    s.register ctx =
      { s.setPhase ctx (.waitFor false) with
        readyCount := s.readyCount + 1 }.test ctx false := by
  unfold State.register State.test State.setPhase
  by_cases same : s.createCount = s.readyCount + 1
  · simp [same]
  · simp [same]

omit [DecidableEq Coro] [DecidableEq Info] in
/-- Before it tests the counters, a context that registers is counted. -/
theorem Counted.joined (counted : Counted s) {ctx : Ctx}
    (phase : s.phase ctx = .init) :
    Counted { s.setPhase ctx (.waitFor false) with
      readyCount := s.readyCount + 1 } := by
  have notReady : ¬ (s.phase ctx).Ready := by
    rw [phase]
    exact id
  have room : s.readyCount ≠ 255 :=
    counted.ready_ne (by rw [phase]; trivial) notReady
  exact
    { created := counted.created.stays (by rw [phase]; rfl)
      ready := counted.ready.joins notReady trivial room }

theorem Counted.step (counted : Counted s) (fits : Fits s action)
    (transition : Transition s action t) : Counted t := by
  cases transition with
  | construct phase =>
      exact
        { created := counted.created.joins (by rw [phase]; exact id) trivial
            fits
          ready := counted.ready.stays (by rw [phase]; rfl) }
  | coSpawn _ _ _ => exact ⟨counted.created, counted.ready⟩
  | start phase =>
      exact
        { created := counted.created.stays (by rw [phase]; rfl)
          ready := counted.ready.stays (by rw [phase]; rfl) }
  | @register ctx phase =>
      rw [State.register_eq]
      apply (counted.joined phase).test
      simp [State.setPhase, Phase.Ready]
  | wakeUp phase => exact counted.test (by rw [phase]; trivial) _
  | timeout phase => exact counted.test (by rw [phase]; trivial) _
  | notifyAll phase =>
      exact
        { created := (counted.created.keep fun other =>
            (s.phase other).notified_alive).stays (by rw [phase]; rfl)
          ready := (counted.ready.keep fun other =>
            (s.phase other).notified_ready).stays (by rw [phase]; rfl) }
  | work _ _ _ => exact ⟨counted.created, counted.ready⟩
  | deinit phase _ =>
      exact
        { created := counted.created.leaves (by rw [phase]; trivial) id
          ready := counted.ready.leaves (by rw [phase]; trivial) id }

/-- Nobody who was not notified sleeps while the counters are equal, unless
somebody will notify him. -/
def Wakes (s : State Ctx Coro Info) : Prop :=
  s.createCount = s.readyCount →
    ∀ ctx, s.phase ctx = .waitFor false → ∃ other, s.phase other = .notifyAll

omit [DecidableEq Coro] [DecidableEq Info] in
theorem wakes_test (s : State Ctx Coro Info) (ctx : Ctx) (timedOut : Bool) :
    Wakes (s.test ctx timedOut) := by
  rcases s.test_cases ctx timedOut with ⟨_, testEq⟩ | ⟨differ, testEq | testEq⟩
  · rw [testEq]
    exact fun _ _ _ => ⟨ctx, Function.update_self _ _ _⟩
  · rw [testEq]
    exact fun same => absurd same differ
  · rw [testEq]
    exact fun same => absurd same differ

omit [DecidableEq Coro] [DecidableEq Info] in
/-- Another phase that is neither of the two changes nothing. -/
theorem Wakes.setPhase (wakes : Wakes s) {ctx : Ctx} {target : Phase}
    (same : t.createCount = t.readyCount → s.createCount = s.readyCount)
    (phaseEq : t.phase = Function.update s.phase ctx target)
    (busy : s.phase ctx ≠ .notifyAll) (awake : target ≠ .waitFor false) :
    Wakes t := by
  intro equal other sleeps
  rw [phaseEq] at sleeps ⊢
  have ne : other ≠ ctx := by
    rintro rfl
    exact awake (by rwa [Function.update_self] at sleeps)
  rw [Function.update_of_ne ne] at sleeps
  obtain ⟨notifier, notifies⟩ := wakes (same equal) other sleeps
  refine ⟨notifier, ?_⟩
  rw [Function.update_of_ne, notifies]
  rintro rfl
  exact busy notifies

theorem Wakes.step (wakes : Wakes s) (counted : Counted s)
    (fits : Fits s action) (transition : Transition s action t) :
    Wakes t := by
  have after := counted.step fits transition
  cases transition with
  | @construct ctx phase =>
      intro same
      have ready := after.equal_iff.mp same ctx
      simp [State.construct, State.setPhase, Phase.Ready, Phase.Alive] at ready
  | coSpawn _ _ _ => exact wakes
  | start phase =>
      exact wakes.setPhase id rfl (by simp [phase]) (by simp)
  | register _ => exact wakes_test _ _ _
  | wakeUp _ | timeout _ => exact wakes_test _ _ _
  | @notifyAll ctx phase =>
      intro _ other sleeps
      by_cases isCtx : other = ctx
      · simp [State.notifyAll, isCtx] at sleeps
      · simp only [State.notifyAll, Function.update_of_ne isCtx] at sleeps
        exact absurd sleeps (s.phase other).notified_ne
  | work _ _ _ => exact wakes
  | deinit phase _ =>
      refine wakes.setPhase ?_ rfl (by simp [phase]) (by simp)
      exact fun same => (UInt8.sub_left_inj 1).mp same

/-- The contexts that exist have different numbers, unless one has finished. -/
def Named (s : State Ctx Coro Info) : Prop :=
  (∀ ctx, s.phase ctx ≠ .finished) →
    (∀ ctx, (s.phase ctx).Alive → s.id ctx < s.createCount) ∧
    ∀ first second, (s.phase first).Alive → (s.phase second).Alive →
      s.id first = s.id second → first = second

omit [DecidableEq Ctx] [DecidableEq Coro] [DecidableEq Info] in
theorem Named.keep (named : Named s) (idEq : t.id = s.id)
    (createCount : t.createCount = s.createCount)
    (alive : ∀ ctx, (t.phase ctx).Alive ↔ (s.phase ctx).Alive)
    (finished : ∀ ctx, s.phase ctx = .finished → t.phase ctx = .finished) :
    Named t := by
  intro noneFinished
  have before := named fun ctx isFinished =>
    noneFinished ctx (finished ctx isFinished)
  simpa only [alive, idEq, createCount] using before

omit [DecidableEq Coro] [DecidableEq Info] in
theorem Named.setPhase (named : Named s) {ctx : Ctx} {target : Phase}
    (idEq : t.id = s.id) (createCount : t.createCount = s.createCount)
    (phaseEq : t.phase = Function.update s.phase ctx target)
    (before : (s.phase ctx).Alive) (alive : target.Alive) : Named t := by
  apply named.keep idEq createCount
  · intro other
    rw [phaseEq]
    by_cases isCtx : other = ctx
    · rw [isCtx, Function.update_self]
      exact iff_of_true alive before
    · rw [Function.update_of_ne isCtx]
  · intro other isFinished
    rw [phaseEq, Function.update_of_ne]
    · exact isFinished
    · rintro rfl
      rw [isFinished] at before
      exact before.elim

omit [DecidableEq Coro] [DecidableEq Info] in
theorem Named.test (named : Named s) {ctx : Ctx}
    (alive : (s.phase ctx).Alive) (timedOut : Bool) :
    Named (s.test ctx timedOut) := by
  rcases s.test_cases ctx timedOut with ⟨_, testEq⟩ | ⟨_, testEq | testEq⟩
  · rw [testEq]
    exact named.setPhase rfl rfl rfl alive trivial
  · rw [testEq]
    exact named
  · rw [testEq]
    exact named.setPhase rfl rfl rfl alive trivial

omit [DecidableEq Coro] [DecidableEq Info] in
theorem Named.construct (named : Named s) {ctx : Ctx}
    (phase : s.phase ctx = .unborn) (room : s.createCount ≠ 255) :
    Named (s.construct ctx) := by
  intro noneFinished
  have phaseOf : ∀ other, other ≠ ctx →
      (s.construct ctx).phase other = s.phase other := fun other ne =>
    Function.update_of_ne ne _ _
  have idOf : ∀ other, other ≠ ctx →
      (s.construct ctx).id other = s.id other := fun other ne =>
    Function.update_of_ne ne _ _
  have idSelf : (s.construct ctx).id ctx = s.createCount :=
    Function.update_self _ _ _
  obtain ⟨less, unique⟩ := named fun other isFinished => by
    apply noneFinished other
    rw [phaseOf other, isFinished]
    rintro rfl
    rw [phase] at isFinished
    contradiction
  have bound := s.createCount.toNat_lt
  have notFull : s.createCount.toNat ≠ 255 := fun full =>
    room (UInt8.toNat.inj full)
  have more : (s.construct ctx).createCount.toNat =
      s.createCount.toNat + 1 := by
    simp only [State.construct, UInt8.toNat_add, UInt8.toNat_one]
    omega
  constructor
  · intro other alive
    rw [UInt8.lt_iff_toNat_lt, more]
    by_cases isCtx : other = ctx
    · rw [isCtx, idSelf]
      omega
    · rw [phaseOf other isCtx] at alive
      have lessId := UInt8.lt_iff_toNat_lt.mp (less other alive)
      rw [idOf other isCtx]
      omega
  · intro first second firstAlive secondAlive idEq
    by_cases isFirst : first = ctx <;> by_cases isSecond : second = ctx
    · rw [isFirst, isSecond]
    · rw [phaseOf second isSecond] at secondAlive
      rw [isFirst, idSelf, idOf second isSecond] at idEq
      exact absurd (less second secondAlive) (by simp [idEq])
    · rw [phaseOf first isFirst] at firstAlive
      rw [isSecond, idSelf, idOf first isFirst] at idEq
      exact absurd (less first firstAlive) (by simp [idEq])
    · rw [phaseOf first isFirst] at firstAlive
      rw [phaseOf second isSecond] at secondAlive
      rw [idOf first isFirst, idOf second isSecond] at idEq
      exact unique first second firstAlive secondAlive idEq

theorem Named.step (named : Named s) (fits : Fits s action)
    (transition : Transition s action t) : Named t := by
  cases transition with
  | construct phase => exact named.construct phase fits
  | coSpawn _ _ _ | work _ _ _ => exact named
  | start phase =>
      exact named.setPhase rfl rfl rfl (by rw [phase]; trivial) trivial
  | @register ctx phase =>
      rw [State.register_eq]
      have joined : Named { s.setPhase ctx (.waitFor false) with
          readyCount := s.readyCount + 1 } :=
        named.setPhase rfl rfl rfl (by rw [phase]; trivial) trivial
      apply joined.test
      simp [State.setPhase, Phase.Alive]
  | wakeUp phase | timeout phase =>
      exact named.test (by rw [phase]; trivial) _
  | @notifyAll ctx phase =>
      have notified : Named { s with
          phase := fun other => (s.phase other).notified } := by
        refine named.keep rfl rfl
          (fun other => (s.phase other).notified_alive) ?_
        intro other isFinished
        simp [isFinished, Phase.notified]
      exact notified.setPhase rfl rfl rfl
        (by simp [phase, Phase.notified, Phase.Alive]) trivial
  | @deinit ctx _ _ =>
      intro noneFinished
      exact absurd (Function.update_self _ _ _) (noneFinished ctx)

omit [DecidableEq Coro] [DecidableEq Info] in
theorem equal_of_test {ctx other : Ctx} {timedOut : Bool}
    (before : s.phase other ≠ .notifyAll)
    (passes : (s.test ctx timedOut).phase other = .notifyAll) :
    s.createCount = s.readyCount := by
  rcases s.test_cases ctx timedOut with ⟨same, _⟩ | ⟨_, testEq | testEq⟩
  · exact same
  · rw [testEq] at passes
    exact absurd passes before
  · rw [testEq] at passes
    have waits : Function.update s.phase ctx (.waitFor false) other =
        .notifyAll := passes
    by_cases isCtx : other = ctx
    · simp [isCtx] at waits
    · rw [Function.update_of_ne isCtx] at waits
      exact absurd waits before

omit [DecidableEq Coro] [DecidableEq Info] in
theorem test_counts (s : State Ctx Coro Info) (ctx : Ctx) (timedOut : Bool) :
    (s.test ctx timedOut).createCount = s.createCount ∧
      (s.test ctx timedOut).readyCount = s.readyCount := by
  rcases s.test_cases ctx timedOut with ⟨_, testEq⟩ | ⟨_, testEq | testEq⟩ <;>
    exact testEq ▸ ⟨rfl, rfl⟩

/-- Only a context that finds the counters equal passes. -/
theorem equal_of_passes (transition : Transition s action t) {ctx : Ctx}
    (before : s.phase ctx ≠ .notifyAll) (passes : t.phase ctx = .notifyAll) :
    t.createCount = t.readyCount := by
  have moves : ∀ {other : Ctx} {target : Phase}, target ≠ .notifyAll →
      Function.update s.phase other target ctx ≠ .notifyAll := by
    intro other target isOther
    by_cases isCtx : ctx = other
    · rwa [isCtx, Function.update_self]
    · rwa [Function.update_of_ne isCtx]
  cases transition with
  | construct _ | start _ | deinit _ _ =>
      exact absurd passes (moves (by simp))
  | coSpawn _ _ _ | work _ _ _ => exact absurd passes before
  | @register other phase =>
      obtain ⟨createCount, readyCount⟩ :=
        test_counts { s with readyCount := s.readyCount + 1 } other false
      rw [State.register, createCount, readyCount]
      exact equal_of_test (s := { s with readyCount := s.readyCount + 1 })
        before passes
  | wakeUp _ | timeout _ =>
      rw [(test_counts s _ _).1, (test_counts s _ _).2]
      exact equal_of_test before passes
  | @notifyAll other phase =>
      exfalso
      by_cases isCtx : ctx = other
      · simp [State.notifyAll, isCtx] at passes
      · simp only [State.notifyAll, Function.update_of_ne isCtx] at passes
        cases here : s.phase ctx <;> simp_all [Phase.notified]

/-- The program is ended only while a context is not ready. -/
theorem differ_of_terminated (transition : Transition s action t)
    (goesOn : s.terminated = false) (ends : t.terminated = true) :
    s.createCount ≠ s.readyCount := by
  have wasEnded : ∀ {other : State Ctx Coro Info},
      other.terminated = s.terminated → other.terminated ≠ true := by
    intro other same ended
    rw [same, goesOn] at ended
    contradiction
  cases transition with
  | construct _ | coSpawn _ _ _ | start _ | notifyAll _ | work _ _ _
  | deinit _ _ => exact absurd ends (wasEnded rfl)
  | register _ =>
      unfold State.register State.test at ends
      split at ends <;> exact absurd ends (wasEnded rfl)
  | wakeUp _ =>
      unfold State.test at ends
      split at ends <;> exact absurd ends (wasEnded rfl)
  | timeout _ =>
      unfold State.test at ends
      split at ends
      next => exact absurd ends (wasEnded rfl)
      next differ => exact differ

end Steps

/-- How the contexts of a program start. -/
structure StartsTogether (run : (system Ctx Coro Info).Run) : Prop where
  counts : ∀ time ≤ run.length, Counted (run.state time)
  named : ∀ time ≤ run.length, Named (run.state time)
  allReady : ∀ time < run.length, ∀ ctx,
    (run.state time).phase ctx ≠ .notifyAll →
    (run.state (time + 1)).phase ctx = .notifyAll →
    ∀ other, ((run.state (time + 1)).phase other).Alive →
      ((run.state (time + 1)).phase other).Ready
  noneSleeps : ∀ time ≤ run.length,
    (∀ ctx, ((run.state time).phase ctx).Alive →
      ((run.state time).phase ctx).Ready) →
    ∀ ctx, (run.state time).phase ctx = .waitFor false →
      ∃ other, (run.state time).phase other = .notifyAll
  passes : ∀ time ≤ run.length,
    (∀ ctx, ((run.state time).phase ctx).Alive →
      ((run.state time).phase ctx).Ready) →
    ∀ ctx notified, (run.state time).phase ctx = .waitFor notified →
      ∀ timedOut, ((run.state time).test ctx timedOut).phase ctx = .notifyAll
  terminates : ∀ time < run.length,
    (run.state (time + 1)).terminated = true →
    ∃ ctx, ((run.state time).phase ctx).Alive ∧
      ¬ ((run.state time).phase ctx).Ready

section Runs

variable {run : (system Ctx Coro Info).Run}

theorem counted_of_run (fits : run.Guarded Fits) {time : Nat}
    (timeLe : time ≤ run.length) : Counted (run.state time) := by
  induction time with
  | zero =>
      rw [show run.state 0 = State.new Ctx Coro Info from run.starts]
      exact counted_new
  | succ time ih =>
      exact (ih (by omega)).step (fits time timeLe)
        (transition_of_step (run.steps time timeLe)).2

theorem terminated_of_step {time : Nat} (timeLt : time < run.length) :
    (run.state time).terminated = false :=
  (transition_of_step (run.steps time timeLt)).1

/-- The contexts of a program start together. -/
theorem run_starts_together (run : (system Ctx Coro Info).Run)
    (fits : run.Guarded Fits) : StartsTogether run := by
  have counted : ∀ time ≤ run.length, Counted (run.state time) :=
    fun _ timeLe => counted_of_run fits timeLe
  have transition := fun time timeLt =>
    (transition_of_step (run.steps time timeLt)).2
  have named : ∀ time ≤ run.length, Named (run.state time) := by
    intro time timeLe
    induction time with
    | zero =>
        rw [show run.state 0 = State.new Ctx Coro Info from run.starts]
        exact fun _ => ⟨fun _ => False.elim, fun _ _ => False.elim⟩
    | succ time ih =>
        exact (ih (by omega)).step (fits time timeLe) (transition time timeLe)
  have wakes : ∀ time ≤ run.length, Wakes (run.state time) := by
    intro time timeLe
    induction time with
    | zero =>
        rw [show run.state 0 = State.new Ctx Coro Info from run.starts]
        exact fun _ _ sleeps => by simp [State.new] at sleeps
    | succ time ih =>
        exact (ih (by omega)).step (counted time (by omega))
          (fits time timeLe) (transition time timeLe)
  refine ⟨counted, named, ?_, ?_, ?_, ?_⟩
  · intro time timeLt ctx before passes
    have same := equal_of_passes (transition time timeLt) before passes
    exact (counted (time + 1) timeLt).equal_iff.mp same
  · intro time timeLe allReady
    exact wakes time timeLe ((counted time timeLe).equal_iff.mpr allReady)
  · intro time timeLe allReady ctx notified _ timedOut
    have same := (counted time timeLe).equal_iff.mpr allReady
    rw [State.test, if_pos same]
    exact Function.update_self _ _ _
  · intro time timeLt ends
    have differ := differ_of_terminated (transition time timeLt)
      (terminated_of_step timeLt) ends
    by_contra someReady
    apply differ
    apply (counted time (Nat.le_of_lt timeLt)).equal_iff.mpr
    intro ctx alive
    by_contra notReady
    exact someReady ⟨ctx, alive, notReady⟩

theorem new_initial :
    (system (Fin 2) Unit Unit).initial (State.new (Fin 2) Unit Unit) :=
  rfl

/-- Two contexts, of which the second one is ready last. -/
def twoRun : (system (Fin 2) Unit Unit).Run :=
  Run.ofActions (State.new (Fin 2) Unit Unit) new_initial
    [.construct 0, .construct 1, .coSpawn 0 (), .start 0, .start 1,
      .register 0, .wakeUp 0, .register 1, .notifyAll 1, .wakeUp 0,
      .notifyAll 0]
    (by decide)

theorem run_starts_together_two :
    (twoRun.state 5).createCount = 2 ∧ (twoRun.state 11).readyCount = 2 ∧
      (twoRun.state 7).phase 0 = .waitFor false ∧
      (twoRun.state 11).phase 0 = .run ∧ StartsTogether twoRun :=
  ⟨by decide, by decide, by decide, by decide,
    run_starts_together twoRun (by
      unfold TransitionSystem.Run.Guarded
      decide)⟩

end Runs

end CoContext.IoContext
