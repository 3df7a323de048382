import CoContext.ReadyQueue

/-!
# Spawning on another worker through an eventfd

A thread pushes the handle to `co_spawn_queue` under `co_spawn_mtx` and then
writes to the eventfd of the worker.  The worker keeps one read of the eventfd
prepared or in flight; when it completes, the worker swaps the queue out under
the mutex, forwards what it took, and prepares the next read.

`poll_submission` offers the kernel all entries that are prepared while
`requests_to_submit` is not zero, and then resets it.  The kernel may stop
behind an entry that it rejects.

A thread may push before or after the swap, and write before or after the next
read is prepared.  Every section under the mutex and every access to the
eventfd is one step.  The worker handles other completions and resumes
coroutines between these, but nothing else while it handles a co_spawn event.
-/

namespace CoContext.EventFd

/-- The position of the worker. -/
inductive Pc
  /-- `run` has not called `listen_on_co_spawn` yet. -/
  | start
  /-- In the loop of `run`. -/
  | loop
  /-- At the beginning of `handle_co_spawn_events`. -/
  | swap
  /-- At the test whether `reap_swap` has room. -/
  | check
  /-- So many handles are still to be forwarded. -/
  | forward (num : Nat)
  | listen
  | terminated
  | assertFailed
  deriving DecidableEq

/-- What a prepared entry is. -/
inductive Entry
  | read
  | other
  deriving DecidableEq

structure State (Thread Coro : Type*) where
  coSpawnQueue : List Coro
  coSpawnLocalQueue : List Coro
  /-- The thread has pushed and not written yet. -/
  writing : Thread → Bool
  /-- The counter of the eventfd. -/
  counter : Nat
  /-- The entries that are prepared and not taken by the kernel. -/
  sq : List Entry
  requestsToSubmit : Nat
  /-- The reads of the eventfd that the kernel has taken, and their completions
  that are not handled. -/
  inFlight : Nat
  completed : Nat
  pc : Pc
  ready : ReadyQueue.State Coro

def State.new (Thread Coro : Type*) : State Thread Coro where
  coSpawnQueue := []
  coSpawnLocalQueue := []
  writing _ := false
  counter := 0
  sq := []
  requestsToSubmit := 0
  inFlight := 0
  completed := 0
  pc := .start
  ready := .new Coro

inductive Action (Thread Coro : Type*)
  | push (thread : Thread) (handle : Coro)
  | write (thread : Thread)
  /-- A coroutine prepares an entry. -/
  | prepare
  /-- `poll_submission`, in which the kernel consumes so many entries. -/
  | submit (consumed : Nat)
  /-- The kernel completes the read, which may fail. -/
  | complete (succeeds : Bool)
  /-- The loop comes to the completion of the read. -/
  | handle
  /-- The next step of `listen_on_co_spawn` or `handle_co_spawn_events`. -/
  | run
  /-- The loop does something else with the ready queue. -/
  | ready (action : ReadyQueue.Action Coro)
  deriving DecidableEq

instance {Thread Coro : Type*} : Inhabited (Action Thread Coro) :=
  ⟨.run⟩

variable {Thread Coro : Type*}

namespace State

variable (capacity : RingCapacity) (s : State Thread Coro)

/-- `get_free_sqe`, and the preparation of the entry. -/
def prepare (entry : Entry) : State Thread Coro :=
  { s with
    sq := s.sq ++ [entry]
    requestsToSubmit := s.requestsToSubmit + 1 }

/-- `listen_on_co_spawn` -/
def listen : State Thread Coro :=
  { s.prepare .read with pc := .loop }

/-- `poll_submission` -/
def pollSubmission (consumed : Nat) : State Thread Coro :=
  { s with
    sq := s.sq.drop consumed
    inFlight := s.inFlight + (s.sq.take consumed).count .read
    requestsToSubmit := 0 }

/-- The reads of the eventfd that are prepared. -/
def prepared : Nat :=
  s.sq.count .read

/-- The assertion and the swap of `handle_co_spawn_events`. -/
def swap : State Thread Coro :=
  if s.coSpawnLocalQueue = [] then
    { s with
      coSpawnLocalQueue := s.coSpawnQueue
      coSpawnQueue := s.coSpawnLocalQueue
      pc := .check }
  else { s with pc := .assertFailed }

def check : State Thread Coro :=
  if (s.ready.reapCur.availableNumber capacity).toNat <
      s.coSpawnLocalQueue.length then
    { s with pc := .terminated }
  else { s with pc := .forward s.coSpawnLocalQueue.length }

def forward (num : Nat) : Option (State Thread Coro) :=
  match num, s.coSpawnLocalQueue with
  | 0, _ => some { s with pc := .listen }
  | num + 1, handle :: rest =>
      some { s with
        ready := s.ready.forwardTask capacity handle
        coSpawnLocalQueue := rest
        pc := .forward num }
  | _ + 1, [] => none

def run : Option (State Thread Coro) :=
  match s.pc with
  | .start | .listen => some s.listen
  | .swap => some s.swap
  | .check => some (s.check capacity)
  | .forward num => s.forward capacity num
  | .loop | .terminated | .assertFailed => none

end State

section System

variable [DecidableEq Thread]

def step (capacity : RingCapacity) (s : State Thread Coro) :
    Action Thread Coro → Option (State Thread Coro)
  | .push thread handle =>
      if s.writing thread then none
      else some { s with
        coSpawnQueue := s.coSpawnQueue ++ [handle]
        writing := Function.update s.writing thread true }
  | .write thread =>
      if s.writing thread then
        some { s with
          counter := s.counter + 1
          writing := Function.update s.writing thread false }
      else none
  | .prepare => if s.pc = .loop then some (s.prepare .other) else none
  | .submit consumed =>
      if s.pc = .loop ∧ s.requestsToSubmit ≠ 0 ∧ 0 < consumed ∧
          consumed ≤ s.sq.length then
        some (s.pollSubmission consumed)
      else none
  | .complete succeeds =>
      if 0 < s.inFlight ∧ (succeeds = true → 0 < s.counter) then
        some { s with
          counter := if succeeds then 0 else s.counter
          inFlight := s.inFlight - 1
          completed := s.completed + 1 }
      else none
  | .handle =>
      if s.pc = .loop ∧ 0 < s.completed then
        some { s with completed := s.completed - 1, pc := .swap }
      else none
  | .run => s.run capacity
  | .ready action =>
      if s.pc = .loop then
        (ReadyQueue.step capacity s.ready action).map fun ready =>
          { s with ready := ready }
      else none

/-- A worker of a program with two contexts or more, and any threads that
spawn on it. -/
def system (Thread Coro : Type*) [DecidableEq Thread]
    (capacity : RingCapacity) :
    TransitionSystem (State Thread Coro) (Action Thread Coro) where
  initial s := s = State.new Thread Coro
  step := step capacity

end System

/-- The handle that a thread pushes. -/
def pushed (_ : State Thread Coro) : Action Thread Coro → Option Coro
  | .push _ handle => some handle
  | _ => none

/-- The handle that the worker forwards from its local queue. -/
def forwarded (s : State Thread Coro) : Action Thread Coro → Option Coro
  | .run =>
      match s.pc, s.coSpawnLocalQueue with
      | .forward (_ + 1), handle :: _ => some handle
      | _, _ => none
  | _ => none

/-- The worker handles the completion of a read. -/
def Pc.handling : Pc → Nat
  | .swap | .check | .forward _ | .listen => 1
  | .start | .loop | .terminated | .assertFailed => 0

/-- The worker is going to prepare a read. -/
def Pc.listens : Pc → Bool
  | .start | .check | .forward _ | .listen => true
  | .loop | .swap | .terminated | .assertFailed => false

/-- The steps of the kernel and of the worker that the handles wait for. -/
def Action.advances : Action Thread Coro → Bool
  | .submit _ | .complete true | .handle | .run => true
  | .push _ _ | .write _ | .prepare | .complete false | .ready _ => false

/-- The kernel consumes all the entries that it is offered. -/
def ConsumesAll (s : State Thread Coro) : Action Thread Coro → Prop
  | .submit consumed => consumed = s.sq.length
  | _ => True

/-- Nothing is left to do for the handles that were pushed. -/
def Quiescent [DecidableEq Thread] (capacity : RingCapacity)
    (s : State Thread Coro) : Prop :=
  (∀ thread, step capacity s (.write thread) = none) ∧
    ∀ action : Action Thread Coro, action.advances = true →
      step capacity s action = none

/-- A bound on the steps that the handles wait for. -/
def weight (s : State Thread Coro) : Nat :=
  (match s.pc with
    | .swap => 5 + s.coSpawnQueue.length
    | .check => 4 + s.coSpawnLocalQueue.length
    | .forward num => 3 + num
    | .listen | .start => 2
    | .loop | .terminated | .assertFailed => 0) +
  s.sq.length + s.completed * (6 + s.coSpawnQueue.length) +
  if s.counter = 0 then 0 else 7 + s.coSpawnQueue.length

/-- What is promised of a run. -/
structure Forwards [DecidableEq Thread] {capacity : RingCapacity}
    (run : (system Thread Coro capacity).Run) : Prop where
  /-- The handles are forwarded in the order of the pushes. -/
  exactly_once : ∀ time ≤ run.length, run.log pushed 0 time =
    run.log forwarded 0 time ++ ((run.state time).coSpawnLocalQueue ++
      (run.state time).coSpawnQueue)
  one_read : ∀ time ≤ run.length, (run.state time).pc = .start ∨
    (run.state time).pc = .terminated ∨
    (run.state time).prepared + (run.state time).inFlight +
      (run.state time).completed + (run.state time).pc.handling = 1
  /-- A completion is there, or the read that is in flight, or that will be
  submitted, is bound to complete. -/
  woken : ∀ time ≤ run.length, (run.state time).pc ≠ .terminated →
    (run.state time).coSpawnQueue ≠ [] →
    (∀ thread, (run.state time).writing thread = false) →
    0 < (run.state time).completed ∨ (run.state time).pc = .swap ∨
      0 < (run.state time).counter ∧
        (0 < (run.state time).inFlight ∨
          0 < (run.state time).prepared ∧
            (run.state time).requestsToSubmit ≠ 0 ∨
          (run.state time).pc.listens = true)
  asserted : ∀ time ≤ run.length, (run.state time).pc ≠ .assertFailed
  /-- The worker terminates only for want of room in `reap_swap`. -/
  terminated : ∀ time < run.length, (run.state time).pc ≠ .terminated →
    (run.state (time + 1)).pc = .terminated →
      (run.state time).pc = .check ∧
        ((run.state time).ready.reapCur.availableNumber capacity).toNat <
          (run.state time).coSpawnLocalQueue.length
  /-- The handles do not wait for ever. -/
  spent : ∀ time < run.length, (run.action time).advances = true →
    weight (run.state (time + 1)) < weight (run.state time)
  forwarded_all : ∀ time ≤ run.length,
    Quiescent capacity (run.state time) →
    (run.state time).pc = .terminated ∨
      run.log pushed 0 time = run.log forwarded 0 time

section Invariant

variable {capacity : RingCapacity} {s s' : State Thread Coro}

/-- The reads of the eventfd that the worker has not come to. -/
def State.reads (s : State Thread Coro) : Nat :=
  s.prepared + s.inFlight + s.completed

/-- What the position of the worker says about its reads and its local
queue. -/
def Pc.Sound (s : State Thread Coro) : Pc → Prop
  | .start | .swap | .listen => s.reads = 0 ∧ s.coSpawnLocalQueue = []
  | .loop => s.reads = 1 ∧ s.coSpawnLocalQueue = []
  | .check | .terminated => s.reads = 0
  | .forward num => s.reads = 0 ∧ s.coSpawnLocalQueue.length = num
  | .assertFailed => False

/-- Whoever pushed to a queue that is not empty has written, or will. -/
def Woken (s : State Thread Coro) : Prop :=
  s.coSpawnQueue = [] ∨ (∃ thread, s.writing thread = true) ∨
    0 < s.counter ∨ 0 < s.completed ∨ s.pc = .swap

/-- The inductive invariant. -/
structure Inv (s : State Thread Coro) : Prop where
  sound : s.pc.Sound s
  woken : Woken s
  submits : s.requestsToSubmit = s.sq.length

theorem inv_new : Inv (State.new Thread Coro) where
  sound := ⟨rfl, rfl⟩
  woken := .inl rfl
  submits := rfl

@[simp]
theorem prepared_listen : (s.listen : State Thread Coro).prepared =
    s.prepared + 1 := by
  simp [State.listen, State.prepare, State.prepared]

theorem prepared_le_length : s.prepared ≤ s.sq.length :=
  List.count_le_length

/-- The reads that the kernel consumes are in flight. -/
theorem reads_pollSubmission (consumed : Nat) :
    (s.pollSubmission consumed : State Thread Coro).reads = s.reads := by
  have split : (s.sq.take consumed).count .read +
      (s.sq.drop consumed).count .read = s.sq.count .read := by
    rw [← List.count_append, List.take_append_drop]
  simp only [State.reads, State.prepared, State.pollSubmission]
  omega

/-- A step of `listen_on_co_spawn` or `handle_co_spawn_events`. -/
theorem Inv.run (inv : Inv s) (stepEq : s.run capacity = some s') :
    Inv s' ∧ weight s' < weight s ∧
      s.coSpawnLocalQueue ++ s.coSpawnQueue =
        (forwarded s (.run : Action Thread Coro)).toList ++
          (s'.coSpawnLocalQueue ++ s'.coSpawnQueue) := by
  obtain ⟨sound, woken, submits⟩ := inv
  unfold State.run at stepEq
  cases pc : s.pc with
  | start | listen =>
      rw [pc] at sound
      simp only [pc, Option.some.injEq] at stepEq
      subst stepEq
      refine ⟨⟨⟨?_, sound.2⟩, ?_, ?_⟩, ?_, ?_⟩
      · have noReads := sound.1
        simp only [State.reads, prepared_listen] at noReads ⊢
        simp only [State.listen, State.prepare]
        omega
      · simpa [Woken, pc, State.listen, State.prepare] using woken
      · simp [State.listen, State.prepare, submits]
      · have counterEq : (s.listen : State Thread Coro).counter = s.counter :=
          rfl
        simp only [weight, counterEq, pc]
        simp only [State.listen, State.prepare, List.length_append,
          List.length_singleton]
        omega
      · simp [forwarded, pc, State.listen, State.prepare]
  | swap =>
      rw [pc] at sound
      obtain ⟨noReads, isEmpty⟩ := sound
      simp only [pc, Option.some.injEq, State.swap, if_pos isEmpty] at stepEq
      subst stepEq
      refine ⟨⟨noReads, .inl isEmpty, submits⟩, ?_, ?_⟩
      · have noCompleted : s.completed = 0 := by
          simp only [State.reads] at noReads
          omega
        simp only [weight, pc, noCompleted, isEmpty, List.length_nil]
        split <;> omega
      · simp [forwarded, pc, isEmpty]
  | check =>
      rw [pc] at sound
      simp only [pc, Option.some.injEq, State.check] at stepEq
      split at stepEq <;> subst stepEq
      · refine ⟨⟨sound, ?_, submits⟩, ?_, ?_⟩
        · simpa [Woken, pc] using woken
        · simp only [weight, pc]
          omega
        · simp [forwarded, pc]
      · refine ⟨⟨⟨sound, rfl⟩, ?_, submits⟩, ?_, ?_⟩
        · simpa [Woken, pc] using woken
        · simp only [weight, pc]
          omega
        · simp [forwarded, pc]
  | forward num =>
      rw [pc] at sound
      obtain ⟨noReads, lengthEq⟩ := sound
      simp only [pc] at stepEq
      cases num with
      | zero =>
          have isEmpty := List.eq_nil_of_length_eq_zero lengthEq
          simp only [State.forward, Option.some.injEq] at stepEq
          subst stepEq
          refine ⟨⟨⟨noReads, isEmpty⟩, ?_, submits⟩, ?_, ?_⟩
          · simpa [Woken, pc] using woken
          · simp only [weight, pc]
            omega
          · simp [forwarded, pc]
      | succ num =>
          cases localQueue : s.coSpawnLocalQueue with
          | nil => simp [localQueue] at lengthEq
          | cons handle rest =>
              simp only [State.forward, localQueue, Option.some.injEq] at stepEq
              subst stepEq
              rw [localQueue, List.length_cons] at lengthEq
              refine ⟨⟨⟨noReads, Nat.succ.inj lengthEq⟩, ?_, submits⟩, ?_, ?_⟩
              · simpa [Woken, pc] using woken
              · simp only [weight, pc]
                omega
              · simp [forwarded, pc, localQueue]
  | loop | terminated | assertFailed => simp [pc] at stepEq

theorem Pc.Sound.congr {pc : Pc} (sound : pc.Sound s)
    (readsEq : s'.reads = s.reads)
    (localEq : s'.coSpawnLocalQueue = s.coSpawnLocalQueue) : pc.Sound s' := by
  cases pc with
  | start | swap | listen | loop | forward _ =>
      exact ⟨readsEq.trans sound.1, by rw [localEq]; exact sound.2⟩
  | check | terminated => exact readsEq.trans sound
  | assertFailed => exact sound

variable [DecidableEq Thread]

/-- One step keeps the invariant, moves handles from the threads over the two
queues in their order, and spends some of the weight if it advances. -/
theorem Inv.step (inv : Inv s) {action : Action Thread Coro}
    (consumes : ConsumesAll s action)
    (stepEq : EventFd.step capacity s action = some s') :
    Inv s' ∧ (action.advances = true → weight s' < weight s) ∧
      (s.coSpawnLocalQueue ++ s.coSpawnQueue) ++ (pushed s action).toList =
        (forwarded s action).toList ++
          (s'.coSpawnLocalQueue ++ s'.coSpawnQueue) := by
  cases action with
  | push thread handle =>
      simp only [EventFd.step] at stepEq
      split at stepEq
      · cases stepEq
      · obtain rfl := Option.some.inj stepEq
        refine ⟨⟨inv.sound.congr rfl rfl, ?_, inv.submits⟩,
          by simp [Action.advances], ?_⟩
        · exact .inr (.inl ⟨thread, Function.update_self ..⟩)
        · simp [pushed, forwarded]
  | write thread =>
      simp only [EventFd.step] at stepEq
      split at stepEq
      · obtain rfl := Option.some.inj stepEq
        refine ⟨⟨inv.sound.congr rfl rfl, ?_, inv.submits⟩,
          by simp [Action.advances], ?_⟩
        · exact .inr (.inr (.inl (Nat.succ_pos _)))
        · simp [pushed, forwarded]
      · cases stepEq
  | prepare =>
      simp only [EventFd.step, Option.ite_none_right_eq_some,
        Option.some.injEq] at stepEq
      obtain ⟨_, rfl⟩ := stepEq
      refine ⟨⟨?_, inv.woken, ?_⟩, by simp [Action.advances], ?_⟩
      · refine inv.sound.congr ?_ rfl
        simp [State.reads, State.prepared, State.prepare]
      · simp [State.prepare, inv.submits]
      · simp [pushed, forwarded, State.prepare]
  | submit consumed =>
      simp only [EventFd.step, Option.ite_none_right_eq_some,
        Option.some.injEq] at stepEq
      obtain ⟨⟨_, _, positive, consumedLe⟩, rfl⟩ := stepEq
      obtain rfl : consumed = s.sq.length := consumes
      refine ⟨⟨?_, inv.woken, ?_⟩, ?_, ?_⟩
      · exact inv.sound.congr (reads_pollSubmission _) rfl
      · simp [State.pollSubmission]
      · intro _
        have counterEq : (s.pollSubmission s.sq.length).counter = s.counter :=
          rfl
        simp only [weight, counterEq]
        simp only [State.pollSubmission, List.length_drop]
        omega
      · simp [pushed, forwarded, State.pollSubmission]
  | complete succeeds =>
      simp only [EventFd.step, Option.ite_none_right_eq_some,
        Option.some.injEq] at stepEq
      obtain ⟨⟨isInFlight, hasCounter⟩, rfl⟩ := stepEq
      refine ⟨⟨?_, ?_, inv.submits⟩, ?_, ?_⟩
      · refine inv.sound.congr ?_ rfl
        simp only [State.reads, State.prepared]
        omega
      · exact .inr (.inr (.inr (.inl (Nat.succ_pos _))))
      · intro isAdvance
        cases succeeds with
        | false => cases isAdvance
        | true =>
            have isPositive : s.counter ≠ 0 := by
              have positive := hasCounter rfl
              omega
            simp only [weight, if_neg isPositive, if_true, Nat.succ_mul]
            omega
      · simp [pushed, forwarded]
  | handle =>
      simp only [EventFd.step, Option.ite_none_right_eq_some,
        Option.some.injEq] at stepEq
      obtain ⟨⟨pc, isCompleted⟩, rfl⟩ := stepEq
      have sound := inv.sound
      rw [pc] at sound
      obtain ⟨oneRead, isEmpty⟩ := sound
      simp only [State.reads, State.prepared] at oneRead
      refine ⟨⟨⟨?_, isEmpty⟩, ?_, inv.submits⟩, ?_, ?_⟩
      · simp only [State.reads, State.prepared]
        omega
      · exact .inr (.inr (.inr (.inr rfl)))
      · intro _
        have isOne : s.completed = 1 := by omega
        simp only [weight, pc, isOne]
        omega
      · simp [pushed, forwarded]
  | run =>
      obtain ⟨inv', lighter, moved⟩ := inv.run stepEq
      refine ⟨inv', fun _ => lighter, ?_⟩
      rw [← moved]
      simp [pushed]
  | ready action =>
      simp only [EventFd.step, Option.ite_none_right_eq_some,
        Option.map_eq_some_iff] at stepEq
      obtain ⟨_, ready, _, rfl⟩ := stepEq
      refine ⟨⟨inv.sound.congr rfl rfl, inv.woken, inv.submits⟩,
        by simp [Action.advances], ?_⟩
      simp [pushed, forwarded]

theorem check_of_terminated {action : Action Thread Coro}
    (stepEq : EventFd.step capacity s action = some s')
    (running : s.pc ≠ .terminated) (isOver : s'.pc = .terminated) :
    s.pc = .check ∧ (s.ready.reapCur.availableNumber capacity).toNat <
      s.coSpawnLocalQueue.length := by
  cases action with
  | run =>
      change s.run capacity = some s' at stepEq
      unfold State.run at stepEq
      cases pc : s.pc with
      | check =>
          simp only [pc, State.check, Option.some.injEq] at stepEq
          split at stepEq <;> subst stepEq
          · next noRoom => exact ⟨rfl, noRoom⟩
          · cases isOver
      | start | listen =>
          simp only [pc, Option.some.injEq] at stepEq
          subst stepEq
          cases isOver
      | swap =>
          simp only [pc, State.swap, Option.some.injEq] at stepEq
          split at stepEq <;> subst stepEq <;> cases isOver
      | forward num =>
          simp only [pc] at stepEq
          unfold State.forward at stepEq
          split at stepEq <;>
            simp only [Option.some.injEq, reduceCtorEq] at stepEq <;>
            subst stepEq <;> cases isOver
      | loop | terminated | assertFailed => simp [pc] at stepEq
  | push _ _ =>
      simp only [EventFd.step] at stepEq
      split at stepEq <;>
        simp only [Option.some.injEq, reduceCtorEq] at stepEq
      subst stepEq
      exact absurd isOver running
  | write _ | prepare | submit _ | complete _ =>
      simp only [EventFd.step, Option.ite_none_right_eq_some,
        Option.some.injEq] at stepEq
      obtain ⟨_, rfl⟩ := stepEq
      exact absurd isOver running
  | handle =>
      simp only [EventFd.step, Option.ite_none_right_eq_some,
        Option.some.injEq] at stepEq
      obtain ⟨_, rfl⟩ := stepEq
      cases isOver
  | ready _ =>
      simp only [EventFd.step, Option.ite_none_right_eq_some,
        Option.map_eq_some_iff] at stepEq
      obtain ⟨_, ready, _, rfl⟩ := stepEq
      exact absurd isOver running

/-- Where nothing is left to do, the queues are empty. -/
theorem Inv.of_quiescent (inv : Inv s) (quiescent : Quiescent capacity s) :
    s.pc = .terminated ∨
      s.coSpawnLocalQueue ++ s.coSpawnQueue = [] := by
  obtain ⟨noWrite, noStep⟩ := quiescent
  obtain ⟨sound, woken, submits⟩ := inv
  have noRun : s.run capacity = none := noStep .run rfl
  have noHandle : ¬ (s.pc = .loop ∧ 0 < s.completed) := by
    intro enabled
    have stuck := noStep .handle rfl
    simp [EventFd.step, enabled] at stuck
  have noSubmit : ¬ (s.pc = .loop ∧ 0 < s.prepared) := by
    rintro ⟨isLoop, isPrepared⟩
    have isSome := Nat.lt_of_lt_of_le isPrepared prepared_le_length
    have nonzero : s.requestsToSubmit ≠ 0 := by omega
    have stuck := noStep (.submit s.sq.length) rfl
    simp [EventFd.step, isLoop, nonzero, isSome] at stuck
  have noComplete : ¬ (0 < s.inFlight ∧ 0 < s.counter) := by
    intro enabled
    have stuck := noStep (.complete true) rfl
    simp [EventFd.step, enabled] at stuck
  have noWriter : ∀ thread, s.writing thread = false := by
    intro thread
    have stuck := noWrite thread
    simpa [EventFd.step] using stuck
  cases pc : s.pc with
  | terminated => exact .inl rfl
  | loop =>
      rw [pc] at sound
      obtain ⟨oneRead, isEmpty⟩ := sound
      simp only [State.reads] at oneRead
      right
      rw [isEmpty, List.nil_append]
      rcases woken with isNil | ⟨thread, isWriting⟩ | hasCounter |
        isCompleted | atSwap
      · exact isNil
      · rw [noWriter thread] at isWriting
        cases isWriting
      · have notPrepared : ¬ 0 < s.prepared := fun isPrepared =>
          noSubmit ⟨pc, isPrepared⟩
        have notCompleted : ¬ 0 < s.completed := fun isCompleted =>
          noHandle ⟨pc, isCompleted⟩
        exact absurd ⟨by omega, hasCounter⟩ noComplete
      · exact absurd ⟨pc, isCompleted⟩ noHandle
      · rw [pc] at atSwap
        cases atSwap
  | start | listen | swap | check => simp [State.run, pc] at noRun
  | forward num =>
      rw [pc] at sound
      simp only [State.run, pc] at noRun
      cases num with
      | zero => simp [State.forward] at noRun
      | succ num =>
          cases localQueue : s.coSpawnLocalQueue with
          | nil =>
              have lengthEq := sound.2
              simp [localQueue] at lengthEq
          | cons handle rest => simp [State.forward, localQueue] at noRun
  | assertFailed =>
      rw [pc] at sound
      exact sound.elim

end Invariant

section Runs

variable [DecidableEq Thread] {capacity : RingCapacity}

theorem inv_of_run {run : (system Thread Coro capacity).Run}
    (consumes : run.Guarded ConsumesAll) {time : Nat}
    (timeLe : time ≤ run.length) : Inv (run.state time) := by
  induction time with
  | zero =>
      have starts : run.state 0 = State.new Thread Coro := run.starts
      rw [starts]
      exact inv_new
  | succ time ih =>
      exact ((ih (Nat.le_of_succ_le timeLe)).step (consumes time timeLe)
        (run.steps time timeLe)).1

/-- What was pushed and not forwarded is in the two queues. -/
theorem pushed_eq {run : (system Thread Coro capacity).Run}
    (consumes : run.Guarded ConsumesAll) {time : Nat}
    (timeLe : time ≤ run.length) : run.log pushed 0 time =
      run.log forwarded 0 time ++ ((run.state time).coSpawnLocalQueue ++
        (run.state time).coSpawnQueue) := by
  induction time with
  | zero =>
      have starts : run.state 0 = State.new Thread Coro := run.starts
      simp [starts, State.new]
  | succ time ih =>
      have inv := inv_of_run consumes (Nat.le_of_succ_le timeLe)
      obtain ⟨_, _, moved⟩ :=
        inv.step (consumes time timeLe) (run.steps time timeLe)
      rw [run.log_append (Nat.zero_le time) (Nat.le_succ time),
        run.log_append (Nat.zero_le time) (Nat.le_succ time), run.log_single,
        run.log_single, ih (Nat.le_of_succ_le timeLe), List.append_assoc,
        moved, List.append_assoc]

/-- In every run in which the kernel consumes what it is offered, each handle
is forwarded exactly once, in the order of the pushes, or the worker
terminates. -/
theorem run_forwards_each_once (run : (system Thread Coro capacity).Run)
    (consumes : run.Guarded ConsumesAll) : Forwards run := by
  constructor
  · exact fun time timeLe => pushed_eq consumes timeLe
  · intro time timeLe
    have sound := (inv_of_run consumes timeLe).sound
    cases pc : (run.state time).pc with
    | start => exact .inl rfl
    | terminated => exact .inr (.inl rfl)
    | loop | swap | check | forward _ | listen =>
        rw [pc] at sound
        simp only [Pc.Sound, State.reads] at sound
        simp only [Pc.handling]
        omega
    | assertFailed =>
        rw [pc] at sound
        exact sound.elim
  · intro time timeLe running notEmpty noWriter
    obtain ⟨sound, woken, submits⟩ := inv_of_run consumes timeLe
    rcases woken with isNil | ⟨thread, isWriting⟩ | hasCounter |
      isCompleted | atSwap
    · exact absurd isNil notEmpty
    · rw [noWriter thread] at isWriting
      cases isWriting
    · cases pc : (run.state time).pc with
      | start | check | forward _ | listen =>
          exact .inr (.inr ⟨hasCounter, .inr (.inr rfl)⟩)
      | swap => exact .inr (.inl rfl)
      | loop =>
          rw [pc] at sound
          simp only [Pc.Sound, State.reads] at sound
          have countLe := prepared_le_length (s := run.state time)
          by_cases isCompleted : 0 < (run.state time).completed
          · exact .inl isCompleted
          · exact .inr (.inr ⟨hasCounter, by omega⟩)
      | terminated => exact absurd pc running
      | assertFailed =>
          rw [pc] at sound
          exact sound.elim
    · exact .inl isCompleted
    · exact .inr (.inl atSwap)
  · intro time timeLe hasFailed
    have sound := (inv_of_run consumes timeLe).sound
    rw [hasFailed] at sound
    exact sound
  · intro time timeLt running isOver
    exact check_of_terminated (run.steps time timeLt) running isOver
  · intro time timeLt advances
    exact ((inv_of_run consumes (Nat.le_of_lt timeLt)).step
      (consumes time timeLt) (run.steps time timeLt)).2.1 advances
  · intro time timeLe quiescent
    apply ((inv_of_run consumes timeLe).of_quiescent quiescent).imp_right
    intro isEmpty
    rw [pushed_eq consumes timeLe, isEmpty, List.append_nil]

end Runs

instance (s : State Thread Coro) : DecidablePred (ConsumesAll s)
  | .submit _ => inferInstanceAs (Decidable (_ = _))
  | .push _ _ | .write _ | .prepare | .complete _ | .handle | .run
  | .ready _ => isTrue trivial

theorem initial_new (capacity : RingCapacity) :
    (system Unit Unit capacity).initial (State.new Unit Unit) :=
  rfl

/-- One handle is pushed and forwarded. -/
def armedRun : (system Unit Unit swapCapacity).Run :=
  .ofActions (State.new Unit Unit) (initial_new _)
    [.run, .submit 1, .push () (), .write (), .complete true, .handle, .run,
      .run, .run, .run, .run]
    (by decide)

theorem run_forwards_each_once_armed : Forwards armedRun := by
  apply run_forwards_each_once
  unfold TransitionSystem.Run.Guarded
  decide

/-- Two coroutines prepare entries that the kernel rejects.  It stops behind
the first of them, and in the next round behind the second, so that the read
that was prepared after it is left in the ring when a handle is pushed. -/
def unarmedRun : (system Unit Unit swapCapacity).Run :=
  .ofActions (State.new Unit Unit) (initial_new _)
    [.run, .prepare, .prepare, .submit 2, .push () (), .write (),
      .complete true, .handle, .run, .run, .run, .run, .run, .submit 1,
      .push () (), .write ()]
    (by decide)

/-- Nothing happens while the read is neither submitted nor going to be. -/
theorem quiescent_of_unsubmitted [DecidableEq Thread]
    {capacity : RingCapacity} {s : State Thread Coro} (pc : s.pc = .loop)
    (notWriting : ∀ thread, s.writing thread = false)
    (noCount : s.requestsToSubmit = 0) (noFlight : s.inFlight = 0)
    (noCompleted : s.completed = 0) : Quiescent capacity s := by
  refine ⟨fun thread => by simp [step, notWriting], ?_⟩
  intro action advances
  cases action with
  | submit consumed => simp [step, noCount]
  | complete succeeds => simp [step, noFlight]
  | handle => simp [step, noCompleted]
  | run => simp [step, State.run, pc]
  | push | write | prepare | ready => simp [Action.advances] at advances

theorem run_forwards_each_once_fails :
    ¬ ∀ run : (system Unit Unit swapCapacity).Run,
      Forwards run := by
  intro forwards
  have notWriting : (unarmedRun.state 16).writing () = false := by decide
  have quiescent : Quiescent swapCapacity (unarmedRun.state 16) :=
    quiescent_of_unsubmitted (by decide) (fun _ => notWriting) (by decide)
      (by decide) (by decide)
  have ends := (forwards unarmedRun).forwarded_all 16 (by decide) quiescent
  have fails : (unarmedRun.state 16).pc ≠ .terminated ∧
      unarmedRun.log pushed 0 16 ≠ unarmedRun.log forwarded 0 16 := by decide
  exact ends.elim fails.1 fails.2

end CoContext.EventFd
