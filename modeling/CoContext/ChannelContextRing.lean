import CoContext.ChannelContextSafety
import CoContext.ReadyQueue

/-!
# A buffered channel on one context, with its ring of ready coroutines

The ready queue of the worker is `reap_swap`.  It holds handles and nothing
else: a coroutine that is resumed goes on where it was suspended, whoever
resumes it.  A handle that is forwarded to a full ring replaces the oldest one.

While each handle is forwarded to a free slot, the context runs as one whose
ready queue is a list of coroutines with their positions.
-/

namespace CoContext.ChannelContextRing

open Channel CoContext.Sequential
open ChannelContext (Frame Condition waitsFor establishes Consistent)

variable {Coro T Buffer : Type*}

structure State (Coro T Buffer : Type*) where
  /-- Everything but the ready queue.  The list in its place stays empty. -/
  context : ChannelContext.State Coro T Buffer
  ready : ReapSwap Coro
  /-- Where a coroutine goes on that does not run. -/
  position : Coro → Pc T

/-- A context apart from its ready queue. -/
def withoutReady (context : ChannelContext.State Coro T Buffer) :
    ChannelContext.State Coro T Buffer :=
  { context with ready := [] }

/-- Where a coroutine goes on that suspends at this position. -/
def suspendedAt : Pc T → Pc T
  | .lock operation => .check operation
  | pc => pc

namespace State

def new (Coro : Type*) (storage : Storage T Buffer) : State Coro T Buffer where
  context := .new Coro storage
  ready := .new Coro
  position _ := .idle

/-- The context with the coroutines that it finds in the ring. -/
def view (s : State Coro T Buffer) : ChannelContext.State Coro T Buffer :=
  { s.context with
    ready := (s.ready.pending swapCapacity).filterMap fun handle =>
      handle.map fun coro => ⟨coro, s.position coro⟩ }

/-- What a step that leads to `next` does to `reap_swap`. -/
def moveReady (s : State Coro T Buffer) (action : ChannelContext.Action Coro T)
    (next : ChannelContext.State Coro T Buffer) : ReapSwap Coro :=
  match action with
  | .schedule => s.ready.pop
  | _ =>
      ((next.ready.drop s.view.ready.length).map fun frame =>
        some frame.coro).foldl (ReapSwap.forwardTask swapCapacity) s.ready

/-- A coroutine that stops running is suspended. -/
def movePosition (s : State Coro T Buffer)
    (next : ChannelContext.State Coro T Buffer) [DecidableEq Coro] :
    Coro → Pc T :=
  match s.context.running, next.running with
  | some frame, none =>
      Function.update s.position frame.coro (suspendedAt frame.pc)
  | _, _ => s.position

variable [DecidableEq Coro] (storage : Storage T Buffer)

def move (s : State Coro T Buffer) (action : ChannelContext.Action Coro T) :
    Option (State Coro T Buffer) :=
  (ChannelContext.step storage s.view action).map fun next =>
    { context := withoutReady next
      ready := s.moveReady action next
      position := s.movePosition next }

end State

/-- A coroutine that waits for `m_mtx` or on a condition variable does not
become ready for another reason. -/
def step [DecidableEq Coro] (storage : Storage T Buffer)
    (s : State Coro T Buffer) :
    ChannelContext.Action Coro T → Option (State Coro T Buffer)
  | .arrive coro =>
      match s.position coro with
      | .idle => s.move storage (.arrive coro)
      | _ => none
  | action => s.move storage action

/-- Arbitrarily many coroutines of one context use the channel. -/
def system (Coro : Type*) [DecidableEq Coro] (storage : Storage T Buffer) :
    TransitionSystem (State Coro T Buffer) (ChannelContext.Action Coro T) where
  initial s := s = State.new Coro storage
  step := step storage

/-- `forward_task` is called. -/
def forwards (storage : Storage T Buffer)
    (context : ChannelContext.State Coro T Buffer) :
    ChannelContext.Action Coro T → Bool
  | .arrive _ => true
  | .run =>
      match context.running with
      | some ⟨_, .testPred operation⟩ =>
          storage.blocked context.buffer operation &&
            !context.mutex.line.isEmpty
      | some ⟨_, .unlock _ _⟩ => !context.mutex.line.isEmpty
      | some ⟨_, .notify operation _⟩ =>
          !(context.cv (establishes operation)).queue.isEmpty &&
            context.mutex.awaiting.isNone
      | _ => false
  | .schedule | .call _ | .leave => false

/-- A handle is forwarded only when a slot of `reap_swap` is free. -/
def HasRoom (storage : Storage T Buffer) (s : State Coro T Buffer)
    (action : ChannelContext.Action Coro T) : Prop :=
  forwards storage s.view action = true →
    s.ready.reapCur.size < swapCapacity.value

instance (storage : Storage T Buffer) (s : State Coro T Buffer)
    (action : ChannelContext.Action Coro T) :
    Decidable (HasRoom storage s action) :=
  inferInstanceAs (Decidable (_ → _))

/-- The coroutines that are suspended at the channel or ready. -/
def suspended (context : ChannelContext.State Coro T Buffer) :
    List (Frame Coro T) :=
  context.ready ++ context.mutex.line ++ (context.cv .notEmpty).queue ++
    (context.cv .notFull).queue

theorem frames_eq (context : ChannelContext.State Coro T Buffer) :
    context.frames = context.running.toList ++ suspended context := by
  simp [ChannelContext.State.frames, ChannelContext.State.present, suspended]

/-- What a step does to the running coroutine and to the suspended ones. -/
inductive Movement (context next : ChannelContext.State Coro T Buffer) :
    ChannelContext.Action Coro T → Prop
  | arrive {coro : Coro} : coro ∉ context.frames.map Frame.coro →
      next.running = context.running →
      (suspended next).Perm (⟨coro, .idle⟩ :: suspended context) →
      Movement context next (.arrive coro)
  | schedule {frame : Frame Coro T} : context.running = none →
      next.running = some frame →
      (suspended context).Perm (frame :: suspended next) →
      Movement context next .schedule
  | goesOn {action : ChannelContext.Action Coro T} {coro : Coro}
      {pc pc' : Pc T} : context.running = some ⟨coro, pc⟩ →
      next.running = some ⟨coro, pc'⟩ →
      (suspended next).Perm (suspended context) →
      Movement context next action
  | suspends {action : ChannelContext.Action Coro T} {coro : Coro}
      {pc : Pc T} : context.running = some ⟨coro, pc⟩ →
      next.running = none →
      (suspended next).Perm (⟨coro, suspendedAt pc⟩ :: suspended context) →
      Movement context next action
  | leaves {coro : Coro} : context.running = some ⟨coro, .idle⟩ →
      next.running = none → suspended next = suspended context →
      Movement context next .leave

section Steps

variable {storage : Storage T Buffer}
variable {context next : ChannelContext.State Coro T Buffer}
variable {items : List T} {coro : Coro}

/-- `unlock` hands `m_mtx` to the first in line, which becomes ready. -/
theorem unlock_moves (context : ChannelContext.State Coro T Buffer)
    (isLocked : context.mutex.awaiting.isSome) (coro : Coro) :
    ∃ spawned, (context.unlock coro).ready = context.ready ++ spawned ∧
      spawned.length ≤ (!context.mutex.line.isEmpty).toNat ∧
      (context.unlock coro).running = context.running ∧
      suspended (context.unlock coro) = suspended context := by
  obtain ⟨spawned, left, unlocked, lineEq, _, _⟩ := Mutex.unlock_locked isLocked
  cases spawned with
  | none =>
      have unlockEq : context.unlock coro = { context with mutex := left } := by
        rw [ChannelContext.State.unlock, unlocked]
      rw [unlockEq]
      refine ⟨[], by simp, by simp, rfl, ?_⟩
      simp [suspended, lineEq]
  | some head =>
      have unlockEq : context.unlock coro =
          { context with mutex := left }.coSpawn head := by
        rw [ChannelContext.State.unlock, unlocked]
      rw [unlockEq]
      refine ⟨[head], rfl, ?_, rfl, ?_⟩
      · simp [lineEq]
      · simp [suspended, lineEq, ChannelContext.State.coSpawn]

theorem locked_of_owns (consistent : Consistent storage context items 0)
    {pc : Pc T} (isRunning : context.running = some ⟨coro, pc⟩)
    (owns : ChannelContext.owns pc = true) :
    context.mutex.awaiting.isSome := by
  have ownersEq := consistent.mutex.owners_eq
  rw [isRunning, List.countP_append, Option.toList_some,
    ChannelContext.countP_owns, owns] at ownersEq
  cases isLocked : context.mutex.awaiting.isSome with
  | true => rfl
  | false => simp [isLocked] at ownersEq

/-- The running coroutine takes `m_mtx` or joins its line. -/
theorem lock_moves {operation : Operation T}
    (isRunning : context.running = some ⟨coro, .lock operation⟩) :
    (context.lock coro operation).ready = context.ready ∧
      Movement context (context.lock coro operation) .run := by
  cases isLocked : context.mutex.awaiting.isSome with
  | false =>
      obtain ⟨taken, registerEq, _, lineEq⟩ :=
        Mutex.registerAwaiting_free (by simpa using isLocked)
          (⟨coro, .check operation⟩ : Frame Coro T)
      rw [ChannelContext.State.lock, registerEq]
      refine ⟨rfl, .goesOn isRunning rfl ?_⟩
      simp [suspended, ChannelContext.State.resume, lineEq]
  | true =>
      obtain ⟨joined, registerEq, _, lineEq⟩ :=
        Mutex.registerAwaiting_locked isLocked
          (⟨coro, .check operation⟩ : Frame Coro T)
      rw [ChannelContext.State.lock, registerEq]
      refine ⟨rfl, .suspends isRunning rfl ?_⟩
      classical
      refine List.perm_iff_count.mpr fun frame => ?_
      simp only [suspended, lineEq, suspendedAt, List.count_append,
        List.count_cons, List.count_nil]
      omega

/-- The running coroutine waits on the condition variable of its
operation. -/
theorem wait_moves {operation : Operation T}
    (isRunning : context.running = some ⟨coro, .testPred operation⟩)
    (isLocked : context.mutex.awaiting.isSome) :
    ∃ spawned, (context.wait coro operation).ready =
        context.ready ++ spawned ∧
      spawned.length ≤ (!context.mutex.line.isEmpty).toNat ∧
      Movement context (context.wait coro operation) .run := by
  obtain ⟨spawned, readyEq, lengthLe, runningEq, suspendedEq⟩ :=
    unlock_moves { context with
      cv := fun other =>
        if other = waitsFor operation then
          (context.cv (waitsFor operation)).push ⟨coro, .testPred operation⟩
        else context.cv other
      running := none } isLocked coro
  refine ⟨spawned, readyEq, lengthLe, .suspends isRunning runningEq ?_⟩
  refine (List.Perm.of_eq suspendedEq).trans ?_
  classical
  refine List.perm_iff_count.mpr fun frame => ?_
  cases operation <;>
    simp only [suspended, suspendedAt, waitsFor, reduceCtorEq, if_true,
      if_false, ConditionVariable.queue_push, List.count_append,
      List.count_cons, List.count_nil] <;>
    omega

theorem notifyOne_cv (context : ChannelContext.State Coro T Buffer)
    (operation : Operation T) :
    (context.notifyOne operation).cv = fun other =>
      if other = establishes operation then
        (context.cv (establishes operation)).notifyOne.2
      else context.cv other := by
  simp only [ChannelContext.State.notifyOne]
  split
  · rfl
  · split <;> rfl

/-- The coroutine that is notified owns `m_mtx` and becomes ready, or it joins
the line. -/
theorem notifyOne_moves (context : ChannelContext.State Coro T Buffer)
    (operation : Operation T) :
    ∃ spawned joined,
      (context.notifyOne operation).ready = context.ready ++ spawned ∧
      (context.notifyOne operation).mutex.line =
        context.mutex.line ++ joined ∧
      spawned ++ joined =
        (context.cv (establishes operation)).notifyOne.1.toList ∧
      (spawned ≠ [] → context.mutex.awaiting = none) ∧
      (context.notifyOne operation).running = context.running := by
  simp only [ChannelContext.State.notifyOne]
  cases notified : (context.cv (establishes operation)).notifyOne.1 with
  | none => exact ⟨[], [], by simp⟩
  | some head =>
      cases isLocked : context.mutex.awaiting.isSome with
      | false =>
          have isFree : context.mutex.awaiting = none := by simpa using isLocked
          obtain ⟨taken, registerEq, _, lineEq⟩ :=
            Mutex.registerAwaiting_free isFree head
          simp only [registerEq]
          refine ⟨[head], [], rfl, ?_, rfl, fun _ => isFree, rfl⟩
          rw [List.append_nil]
          exact lineEq
      | true =>
          obtain ⟨joined, registerEq, _, lineEq⟩ :=
            Mutex.registerAwaiting_locked isLocked head
          simp only [registerEq]
          exact ⟨[], [head], (List.append_nil _).symm, lineEq, rfl, by simp,
            trivial⟩

/-- A notification only moves coroutines. -/
theorem suspended_notifyOne (operation : Operation T) :
    (suspended (context.notifyOne operation)).Perm (suspended context) := by
  have queueEq := (context.cv (establishes operation)).queue_notifyOne
  have cvEq := notifyOne_cv context operation
  obtain ⟨spawned, joined, readyEq, lineEq, movedEq, _, _⟩ :=
    notifyOne_moves context operation
  rw [← movedEq] at queueEq
  classical
  refine List.perm_iff_count.mpr fun frame => ?_
  have countEq := congrArg (List.count frame) queueEq
  simp only [suspended, readyEq, lineEq, cvEq, List.count_append]
    at countEq ⊢
  cases operation <;>
    simp only [establishes, reduceCtorEq, if_true, if_false] at countEq ⊢ <;>
    omega

/-- The running coroutine notifies the condition variable that its operation
establishes. -/
theorem notify_moves {operation : Operation T} {carried : Option T}
    (isRunning : context.running = some ⟨coro, .notify operation carried⟩) :
    ∃ spawned, ((context.resume ⟨coro, .idle⟩).notifyOne operation).ready =
        context.ready ++ spawned ∧
      spawned.length ≤ (forwards storage context .run).toNat ∧
      Movement context
        ((context.resume ⟨coro, .idle⟩).notifyOne operation) .run := by
  obtain ⟨spawned, joined, readyEq, _, movedEq, isFree, runningEq⟩ :=
    notifyOne_moves (context.resume ⟨coro, .idle⟩) operation
  refine ⟨spawned, readyEq, ?_,
    .goesOn isRunning runningEq (suspended_notifyOne operation)⟩
  cases spawned with
  | nil => exact Nat.zero_le _
  | cons head rest =>
      have free : context.mutex.awaiting = none := isFree (by simp)
      have queueEq := (context.cv (establishes operation)).queue_notifyOne
      change _ = (context.cv (establishes operation)).notifyOne.1.toList
        at movedEq
      have lengthLe : (head :: rest ++ joined).length ≤ 1 := by
        rw [movedEq]
        cases (context.cv (establishes operation)).notifyOne.1 <;> simp
      rw [List.length_append, List.length_cons] at lengthLe
      rw [← movedEq] at queueEq
      simp only [forwards, isRunning, queueEq, free, List.cons_append,
        List.isEmpty_cons, List.length_cons, Option.isNone_none,
        Bool.not_false, Bool.and_self, Bool.toNat_true]
      omega

/-- What a step of the running coroutine forwards, and how it moves. -/
theorem run_moves (consistent : Consistent storage context items 0)
    {pc : Pc T} (isRunning : context.running = some ⟨coro, pc⟩)
    (stepEq : context.run storage coro pc = some next) :
    ∃ spawned, next.ready = context.ready ++ spawned ∧
      spawned.length ≤ (forwards storage context .run).toNat ∧
      Movement context next .run := by
  have goesOn : ∀ buffer pc', ∃ spawned,
      ({ context with buffer := buffer }.resume ⟨coro, pc'⟩).ready =
          context.ready ++ spawned ∧
        spawned.length ≤ (forwards storage context .run).toNat ∧
        Movement context
          ({ context with buffer := buffer }.resume ⟨coro, pc'⟩) .run :=
    fun _ _ => ⟨[], (List.append_nil _).symm, Nat.zero_le _,
      .goesOn isRunning rfl (List.Perm.refl _)⟩
  cases pc with
  | idle | sleeping _ | undefined => simp [ChannelContext.State.run] at stepEq
  | lock operation =>
      rw [ChannelContext.State.run, Option.some.injEq] at stepEq
      obtain ⟨readyEq, movement⟩ := lock_moves isRunning
      rw [stepEq] at readyEq movement
      exact ⟨[], by rw [readyEq, List.append_nil], Nat.zero_le _, movement⟩
  | check operation =>
      rw [ChannelContext.State.run] at stepEq
      split at stepEq <;> rw [Option.some.injEq] at stepEq <;>
        exact stepEq ▸ goesOn context.buffer _
  | testPred operation =>
      rw [ChannelContext.State.run] at stepEq
      split at stepEq
      next isBlocked =>
        rw [Option.some.injEq] at stepEq
        obtain ⟨spawned, readyEq, lengthLe, movement⟩ := wait_moves isRunning
          (locked_of_owns consistent isRunning rfl)
        rw [stepEq] at readyEq movement
        refine ⟨spawned, readyEq, ?_, movement⟩
        simpa [forwards, isRunning, isBlocked] using lengthLe
      next =>
        rw [Option.some.injEq] at stepEq
        exact stepEq ▸ goesOn context.buffer _
  | update operation =>
      rw [ChannelContext.State.run] at stepEq
      split at stepEq
      next carried rest _ =>
        rw [Option.some.injEq] at stepEq
        exact stepEq ▸ goesOn rest _
      next =>
        rw [Option.some.injEq] at stepEq
        exact stepEq ▸ goesOn context.buffer _
  | unlock operation carried =>
      rw [ChannelContext.State.run, Option.some.injEq] at stepEq
      have isLocked := locked_of_owns consistent isRunning rfl
      obtain ⟨spawned, readyEq, lengthLe, runningEq, suspendedEq⟩ :=
        unlock_moves (context.resume ⟨coro, .notify operation carried⟩)
          isLocked coro
      rw [stepEq] at readyEq runningEq suspendedEq
      refine ⟨spawned, readyEq, ?_, .goesOn isRunning runningEq
        (.of_eq suspendedEq)⟩
      simpa [forwards, isRunning, ChannelContext.State.resume] using lengthLe
  | notify operation carried =>
      rw [ChannelContext.State.run, Option.some.injEq] at stepEq
      subst stepEq
      exact notify_moves isRunning

variable [DecidableEq Coro] {action : ChannelContext.Action Coro T}

theorem step_moves (consistent : Consistent storage context items 0)
    (stepEq : ChannelContext.step storage context action = some next) :
    ((action = .schedule ∧ ∃ frame, context.ready = frame :: next.ready) ∨
      (action ≠ .schedule ∧ ∃ spawned, next.ready = context.ready ++ spawned ∧
        spawned.length ≤ (forwards storage context action).toNat)) ∧
      Movement context next action := by
  cases action with
  | arrive coro =>
      simp only [ChannelContext.step, Option.ite_none_left_eq_some,
        Option.some.injEq] at stepEq
      obtain ⟨isElsewhere, rfl⟩ := stepEq
      refine ⟨.inr ⟨by simp, [_], rfl, by simp [forwards]⟩,
        .arrive isElsewhere rfl ?_⟩
      classical
      refine List.perm_iff_count.mpr fun frame => ?_
      simp only [suspended, ChannelContext.State.coSpawn, List.count_append,
        List.count_cons, List.count_nil]
      omega
  | schedule =>
      simp only [ChannelContext.step] at stepEq
      split at stepEq
      next frame rest notRunning isReady =>
        obtain rfl := Option.some.inj stepEq
        refine ⟨.inl ⟨rfl, frame, isReady⟩, .schedule notRunning rfl ?_⟩
        simp [suspended, isReady, ChannelContext.State.resume]
      next => simp at stepEq
  | call operation =>
      simp only [ChannelContext.step] at stepEq
      split at stepEq
      next coro isRunning =>
        obtain rfl := Option.some.inj stepEq
        exact ⟨.inr ⟨by simp, [], (List.append_nil _).symm, Nat.zero_le _⟩,
          .goesOn isRunning rfl (List.Perm.refl _)⟩
      next => simp at stepEq
  | run =>
      simp only [ChannelContext.step] at stepEq
      split at stepEq
      next frame isRunning =>
        obtain ⟨spawned, readyEq, lengthLe, movement⟩ :=
          run_moves consistent isRunning stepEq
        exact ⟨.inr ⟨by simp, spawned, readyEq, lengthLe⟩, movement⟩
      next => simp at stepEq
  | leave =>
      simp only [ChannelContext.step] at stepEq
      split at stepEq
      next coro isRunning =>
        obtain rfl := Option.some.inj stepEq
        exact ⟨.inr ⟨by simp, [], (List.append_nil _).symm, Nat.zero_le _⟩,
          .leaves isRunning rfl rfl⟩
      next => simp at stepEq

end Steps

variable [DecidableEq Coro]

/-- The ring and the positions hold the ready queue of a context over
lists. -/
structure Holds (storage : Storage T Buffer) (s : State Coro T Buffer)
    (lists : ChannelContext.State Coro T Buffer) : Prop where
  context : s.context = withoutReady lists
  ready : s.ready.Holds swapCapacity
    (lists.ready.map fun frame => some frame.coro)
  position : ∀ frame ∈ suspended lists, s.position frame.coro = frame.pc
  nodup : (lists.frames.map Frame.coro).Nodup
  reachable : (ChannelContext.system Coro storage).Reachable lists

section Refinement

variable {storage : Storage T Buffer} {s s' : State Coro T Buffer}
variable {lists next : ChannelContext.State Coro T Buffer}
variable {action : ChannelContext.Action Coro T}

theorem holds_new : Holds storage (State.new Coro storage) (.new Coro storage)
    where
  context := rfl
  ready := ReapSwap.holds_new
  position frame isSuspended := by
    simp [suspended, ChannelContext.State.new, Sequential.Mutex.new,
      Sequential.Mutex.line, ConditionVariable.new,
      ConditionVariable.queue] at isSuspended
  nodup := by
    simp [ChannelContext.State.frames, ChannelContext.State.present,
      ChannelContext.State.new, Sequential.Mutex.new, Sequential.Mutex.line,
      ConditionVariable.new, ConditionVariable.queue]
  reachable := .start rfl

/-- What the context finds in the ring is the context over lists. -/
theorem Holds.view (holds : Holds storage s lists) : s.view = lists := by
  have readyEq : ((s.ready.pending swapCapacity).filterMap fun handle =>
      handle.map fun coro => (⟨coro, s.position coro⟩ : Frame Coro T)) =
        lists.ready := by
    rw [holds.ready.pending, List.filterMap_map]
    refine (List.filterMap_congr fun frame isReady => ?_).trans
      List.filterMap_some
    have position := holds.position frame (by simp [suspended, isReady])
    simp [position]
  rw [State.view, readyEq, holds.context]
  rfl

theorem Holds.consistent (holds : Holds storage s lists) :
    ∃ items, Consistent storage lists items 0 :=
  ChannelContext.consistent_of_reachable holds.reachable

/-- The running coroutine is not suspended. -/
theorem Holds.not_suspended (holds : Holds storage s lists)
    {running frame : Frame Coro T} (isRunning : lists.running = some running)
    (isSuspended : frame ∈ suspended lists) : frame.coro ≠ running.coro := by
  have nodup := holds.nodup
  rw [frames_eq, isRunning, Option.toList_some, List.singleton_append,
    List.map_cons, List.nodup_cons] at nodup
  intro same
  exact nodup.1 (List.mem_map.mpr ⟨frame, isSuspended, same⟩)

/-- No coroutine is in two places. -/
theorem Holds.nodup_move (holds : Holds storage s lists)
    (movement : Movement lists next action) :
    (next.frames.map Frame.coro).Nodup := by
  have nodup := holds.nodup
  have along : ∀ frames : List (Frame Coro T), next.frames.Perm frames →
      (frames.map Frame.coro).Nodup → (next.frames.map Frame.coro).Nodup :=
    fun _ perm distinct => (perm.map Frame.coro).nodup_iff.mpr distinct
  rw [frames_eq] at nodup
  cases movement with
  | @arrive coro isElsewhere runningEq perm =>
      rw [frames_eq] at isElsewhere
      apply along (⟨coro, .idle⟩ ::
        (lists.running.toList ++ suspended lists))
      · rw [frames_eq, runningEq]
        exact (perm.append_left _).trans List.perm_middle
      · rw [List.map_cons]
        exact List.nodup_cons.mpr ⟨isElsewhere, nodup⟩
  | schedule notRunning runningEq perm =>
      rw [notRunning, Option.toList_none, List.nil_append] at nodup
      refine along _ ?_ nodup
      rw [frames_eq, runningEq]
      exact perm.symm
  | @goesOn _ coro pc pc' isRunning runningEq perm =>
      rw [isRunning] at nodup
      apply along (⟨coro, pc'⟩ :: suspended lists)
      · rw [frames_eq, runningEq]
        exact perm.cons _
      · exact nodup
  | @suspends _ coro pc isRunning runningEq perm =>
      rw [isRunning] at nodup
      apply along (⟨coro, suspendedAt pc⟩ :: suspended lists)
      · rw [frames_eq, runningEq]
        exact perm
      · exact nodup
  | leaves isRunning runningEq suspendedEq =>
      rw [frames_eq, runningEq, suspendedEq]
      rw [isRunning] at nodup
      exact (List.nodup_cons.mp nodup).2

theorem Holds.moveReady (holds : Holds storage s lists)
    (room : HasRoom storage s action)
    (stepEq : ChannelContext.step storage lists action = some next) :
    (s.moveReady action next).Holds swapCapacity
      (next.ready.map fun frame => some frame.coro) := by
  have ready := holds.ready
  obtain ⟨items, consistent⟩ := holds.consistent
  rcases (step_moves consistent stepEq).1 with
    ⟨rfl, frame, readyEq⟩ | ⟨notSchedule, spawned, readyEq, lengthLe⟩
  · rw [readyEq, List.map_cons] at ready
    exact ready.pop
  · have moveEq : s.moveReady action next =
        (spawned.map fun frame => some frame.coro).foldl
          (ReapSwap.forwardTask swapCapacity) s.ready := by
      unfold State.moveReady
      split
      next => exact absurd rfl notSchedule
      next => rw [holds.view, readyEq, List.drop_left]
    rw [moveEq, readyEq, List.map_append]
    apply ready.forwardAll
    rw [HasRoom, holds.view, ready.room_iff, List.length_map] at room
    have fits := CursorRing.length_le ready
    rw [List.length_map] at fits
    rw [List.length_map, List.length_map]
    cases isForward : forwards storage lists action with
    | true =>
        have isRoom := room isForward
        rw [isForward, Bool.toNat_true] at lengthLe
        omega
    | false =>
        rw [isForward, Bool.toNat_false] at lengthLe
        omega

theorem Holds.movePosition (holds : Holds storage s lists)
    (arrives : ∀ coro, action = .arrive coro → s.position coro = .idle)
    (movement : Movement lists next action) :
    ∀ frame ∈ suspended next, s.movePosition next frame.coro = frame.pc := by
  intro frame isSuspended
  have runningEq : s.context.running = lists.running := by
    rw [holds.context]
    rfl
  have others : ∀ running position, lists.running = some running →
      frame ∈ suspended lists →
        Function.update s.position running.coro position frame.coro =
          frame.pc := by
    intro running position isRunning wasSuspended
    rw [Function.update_of_ne (holds.not_suspended isRunning wasSuspended)]
    exact holds.position frame wasSuspended
  cases movement with
  | @arrive coro _ stillRunning perm =>
      have same : s.movePosition next = s.position := by
        rw [State.movePosition, runningEq, stillRunning]
        cases lists.running <;> rfl
      rw [same]
      rcases List.mem_cons.mp (perm.mem_iff.mp isSuspended) with
        rfl | wasSuspended
      · exact arrives coro rfl
      · exact holds.position frame wasSuspended
  | schedule notRunning _ perm =>
      rw [State.movePosition, runningEq, notRunning]
      exact holds.position frame
        (perm.mem_iff.mpr (List.mem_cons_of_mem _ isSuspended))
  | goesOn isRunning goesOn perm =>
      rw [State.movePosition, runningEq, isRunning, goesOn]
      exact holds.position frame (perm.mem_iff.mp isSuspended)
  | @suspends _ coro pc isRunning stops perm =>
      rw [State.movePosition, runningEq, isRunning, stops]
      rcases List.mem_cons.mp (perm.mem_iff.mp isSuspended) with
        rfl | wasSuspended
      · exact Function.update_self _ _ _
      · exact others _ _ isRunning wasSuspended
  | leaves isRunning stops suspendedEq =>
      rw [State.movePosition, runningEq, isRunning, stops]
      exact others _ _ isRunning (suspendedEq ▸ isSuspended)

/-- With a free slot for what it forwards, a step over the ring is a step over
the list. -/
theorem Holds.step (holds : Holds storage s lists)
    (room : HasRoom storage s action)
    (stepEq : ChannelContextRing.step storage s action = some s') :
    ∃ next, ChannelContext.step storage lists action = some next ∧
      Holds storage s' next := by
  have moves : s.move storage action = some s' ∧
      ∀ coro, action = .arrive coro → s.position coro = .idle := by
    unfold ChannelContextRing.step at stepEq
    split at stepEq
    next coro =>
      split at stepEq
      next isIdle =>
        refine ⟨stepEq, ?_⟩
        rintro other ⟨rfl⟩
        exact isIdle
      next => simp at stepEq
    next notArrive =>
      exact ⟨stepEq, fun coro isArrive => absurd isArrive (notArrive coro)⟩
  obtain ⟨moveEq, arrives⟩ := moves
  rw [State.move, holds.view, Option.map_eq_some_iff] at moveEq
  obtain ⟨next, nextEq, rfl⟩ := moveEq
  obtain ⟨items, consistent⟩ := holds.consistent
  have movement := (step_moves consistent nextEq).2
  exact ⟨next, nextEq, rfl, holds.moveReady room nextEq,
    holds.movePosition arrives movement, holds.nodup_move movement,
    .next holds.reachable trivial nextEq⟩

end Refinement

theorem holds_of_reachable {storage : Storage T Buffer}
    {s : State Coro T Buffer}
    (reached : (system Coro storage).ReachableBy (HasRoom storage) s) :
    ∃ lists, Holds storage s lists := by
  induction reached with
  | start isInitial =>
      rw [show _ = State.new Coro storage from isInitial]
      exact ⟨_, holds_new⟩
  | next _ room stepEq ih =>
      obtain ⟨lists, holds⟩ := ih
      obtain ⟨next, _, holds'⟩ := holds.step room stepEq
      exact ⟨next, holds'⟩

/-- No coroutine is running or ready to run. -/
def State.Quiescent (s : State Coro T Buffer) : Prop :=
  s.context.running = none ∧ s.ready.reapCur.isEmpty = true

end CoContext.ChannelContextRing
