import CoContext.ChannelContext
import CoContext.ChannelSafety

/-!
# A channel on one context strands no waiter

A notification is issued for every update, but the coroutine that it wakes may
find that another one was faster, and sleeps again.  While a coroutine waits on
a condition variable, every element or free slot it could use is covered by a
coroutine that is about to use it or to notify: it tests its predicate or
updates the storage, or it will when it owns `m_mtx`, or it has updated the
storage and has not notified yet.
-/

namespace CoContext.ChannelContext

open Channel CoContext.Sequential

variable {Coro T Buffer : Type*} {storage : Storage T Buffer}

/-- The position is inside the critical section. -/
def owns : Pc T → Bool
  | .check _ | .testPred _ | .update _ | .unlock _ _ => true
  | .idle | .lock _ | .sleeping _ | .notify _ _ | .undefined => false

/-- At this position a coroutine is about to use what a condition stands for,
or to notify. -/
def covers (condition : Condition) : Pc T → Bool
  | .testPred operation | .update operation => waitsFor operation = condition
  | .unlock operation _ | .notify operation _ =>
      establishes operation = condition
  | .idle | .lock _ | .check _ | .sleeping _ | .undefined => false

def Frame.owns (frame : Frame Coro T) : Bool :=
  ChannelContext.owns frame.pc

def Frame.covers (condition : Condition) (frame : Frame Coro T) : Bool :=
  ChannelContext.covers condition frame.pc

/-- The position at which a coroutine that waited for `m_mtx` goes on. -/
def Frame.Granted (frame : Frame Coro T) : Prop :=
  ∃ operation, frame.pc = .check operation ∨ frame.pc = .testPred operation

/-- The frame waits on a condition variable. -/
def Frame.WaitsOn (condition : Condition) (frame : Frame Coro T) : Prop :=
  ∃ operation, frame.pc = .testPred operation ∧
    waitsFor operation = condition

/-- The elements or free slots that a condition stands for. -/
def available (capacity held : Nat) : Condition → Nat
  | .notEmpty => held
  | .notFull => capacity - held

/-- What holds of `m_mtx` with the number of its owners. -/
structure MutexSound (mutex : Mutex (Frame Coro T)) (owners : Nat) :
    Prop where
  owners_eq : owners = mutex.awaiting.isSome.toNat
  free : mutex.awaiting = none → mutex.line = []
  line : ∀ frame ∈ mutex.line, frame.Granted

/-- What holds in every state, with the elements that are held.  The running
coroutine is in debt while it has left the critical section and has not
unlocked `m_mtx` yet. -/
structure Consistent (storage : Storage T Buffer) (s : State Coro T Buffer)
    (items : List T) (debt : Nat) : Prop where
  holds : storage.Holds s.buffer items
  mutex : MutexSound s.mutex
    ((s.running.toList ++ s.ready).countP Frame.owns + debt)
  ready : ∀ frame ∈ s.ready, frame.pc = .idle ∨ frame.Granted
  queue : ∀ condition, ∀ frame ∈ (s.cv condition).queue,
    frame.WaitsOn condition
  unblocked : ∀ coro operation, s.running = some ⟨coro, .update operation⟩ →
    storage.blocked s.buffer operation = false
  covered : ∀ condition, (s.cv condition).queue ≠ [] →
    available storage.capacity items.length condition ≤
      s.present.countP (Frame.covers condition)

theorem consistent_new :
    Consistent storage (State.new Coro storage) [] 0 where
  holds := storage.new_holds
  mutex := ⟨rfl, fun _ => rfl, by simp [State.new, Mutex.new, Mutex.line]⟩
  ready _ isReady := by simp [State.new] at isReady
  queue _ _ waits := by
    simp [State.new, ConditionVariable.new, ConditionVariable.queue] at waits
  unblocked _ _ isRunning := by simp [State.new] at isRunning
  covered _ waiting := by
    simp [State.new, ConditionVariable.new, ConditionVariable.queue] at waiting

theorem Frame.Granted.owns {frame : Frame Coro T} (granted : frame.Granted) :
    ChannelContext.owns frame.pc = true := by
  obtain ⟨operation, position | position⟩ := granted <;> rw [position] <;> rfl

theorem Frame.WaitsOn.granted {condition : Condition} {frame : Frame Coro T}
    (waits : frame.WaitsOn condition) : frame.Granted := by
  obtain ⟨operation, position, -⟩ := waits
  exact ⟨operation, Or.inr position⟩

theorem countP_owns (frame : Frame Coro T) :
    [frame].countP Frame.owns = (owns frame.pc).toNat := by
  rw [List.countP_singleton, Frame.owns]
  cases owns frame.pc <;> rfl

theorem countP_covers (condition : Condition) (frame : Frame Coro T) :
    [frame].countP (Frame.covers condition) =
      (covers condition frame.pc).toNat := by
  rw [List.countP_singleton, Frame.covers]
  cases covers condition frame.pc <;> rfl

/-- A waiting coroutine covers the condition on which it waits and no
other. -/
theorem Frame.WaitsOn.covers {condition other : Condition}
    {frame : Frame Coro T} (waits : frame.WaitsOn condition) :
    ChannelContext.covers other frame.pc = (condition = other : Bool) := by
  obtain ⟨operation, position, rfl⟩ := waits
  rw [position]
  rfl

theorem blocked_iff {buffer : Buffer} {items : List T}
    (holds : storage.Holds buffer items) (operation : Operation T) :
    storage.blocked buffer operation = true ↔
      available storage.capacity items.length (waitsFor operation) = 0 := by
  have lengthLe := storage.length_le holds
  cases operation with
  | release item =>
      rw [Storage.blocked, storage.full_iff holds]
      simp only [available, waitsFor]
      omega
  | acquire | drop =>
      rw [Storage.blocked, storage.empty_iff holds]
      simp only [available, waitsFor, List.length_eq_zero_iff]

/-- An update uses what its operation waits for and adds what it
establishes. -/
theorem available_update {buffer rest : Buffer} {items kept : List T}
    {operation : Operation T} (holds : storage.Holds buffer items)
    (unblocked : storage.blocked buffer operation = false)
    (restHolds : storage.Holds rest kept)
    (exchanged : (storage.takenBy buffer operation).isSome =
      (Storage.putBy operation).isNone)
    (moved : items ++ (Storage.putBy operation).toList =
      (storage.takenBy buffer operation).toList ++ kept)
    (condition : Condition) :
    available storage.capacity kept.length condition +
        (waitsFor operation = condition : Bool).toNat =
      available storage.capacity items.length condition +
        (establishes operation = condition : Bool).toNat := by
  have lengthLe := storage.length_le holds
  have keptLe := storage.length_le restHolds
  have lengthEq := congrArg List.length moved
  rw [List.length_append, List.length_append, Option.length_toList,
    Option.length_toList] at lengthEq
  rw [exchanged] at lengthEq
  cases operation with
  | release item =>
      have room := Storage.room_of_not_full holds unblocked
      cases condition <;>
        simp [available, waitsFor, establishes, Storage.putBy] at * <;> omega
  | acquire | drop =>
      cases condition <;>
        simp [available, waitsFor, establishes, Storage.putBy] at * <;> omega

namespace MutexSound

variable {mutex : Mutex (Frame Coro T)} {owners : Nat}

/-- A coroutine becomes the owner or joins the line. -/
theorem register (sound : MutexSound mutex owners) {frame : Frame Coro T}
    (granted : frame.Granted) :
    ∃ suspends registered,
      mutex.registerAwaiting frame = (suspends, registered) ∧
      MutexSound registered (owners + (!suspends).toNat) ∧
      registered.line = mutex.line ++ (if suspends then [frame] else []) := by
  have ownersEq := sound.owners_eq
  cases isLocked : mutex.awaiting.isSome with
  | false =>
      have isFree : mutex.awaiting = none := by simpa using isLocked
      obtain ⟨taken, registered, takenLocked, lineEq⟩ :=
        Mutex.registerAwaiting_free isFree frame
      refine ⟨false, taken, registered, ⟨?_, ?_, ?_⟩, by simp [lineEq]⟩
      · rw [ownersEq, isLocked, takenLocked]
        rfl
      · intro isFree
        rw [isFree] at takenLocked
        contradiction
      · rw [lineEq]
        exact sound.line
  | true =>
      obtain ⟨joined, registered, joinedLocked, lineEq⟩ :=
        Mutex.registerAwaiting_locked isLocked frame
      refine ⟨true, joined, registered, ⟨?_, ?_, ?_⟩, lineEq⟩
      · rw [ownersEq, isLocked, joinedLocked]
        rfl
      · intro isFree
        rw [isFree] at joinedLocked
        contradiction
      · intro other inLine
        rw [lineEq] at inLine
        rcases List.mem_append.mp inLine with wasInLine | isNew
        · exact sound.line other wasInLine
        · rw [List.mem_singleton.mp isNew]
          exact granted

/-- An owner leaves, and the first in line becomes the owner. -/
theorem unlock (sound : MutexSound mutex (owners + 1)) :
    ∃ spawned left, mutex.unlock = some (spawned, left) ∧
      MutexSound left (owners + spawned.isSome.toNat) ∧
      mutex.line = spawned.toList ++ left.line := by
  have ownersEq := sound.owners_eq
  cases isLocked : mutex.awaiting.isSome with
  | false =>
      rw [isLocked] at ownersEq
      contradiction
  | true =>
      rw [isLocked] at ownersEq
      obtain ⟨spawned, left, unlocked, lineEq, lockedEq, nobody⟩ :=
        Mutex.unlock_locked isLocked
      have noOwner : owners = 0 := by simpa using ownersEq
      refine ⟨spawned, left, unlocked, ⟨?_, ?_, ?_⟩, lineEq⟩
      · rw [lockedEq, noOwner, Nat.zero_add]
      · intro isFree
        rw [isFree] at lockedEq
        exact nobody (by simpa using lockedEq.symm)
      · intro frame inLine
        exact sound.line frame (by rw [lineEq]; exact List.mem_append_right _ inLine)

end MutexSound

namespace Consistent

variable {s s' : State Coro T Buffer} {items kept : List T} {debt : Nat}
variable {coro : Coro}

/-- The running coroutine goes on without a suspension. -/
theorem resume (consistent : Consistent storage s items 0) {buffer : Buffer}
    {pc next : Pc T} (isRunning : s.running = some ⟨coro, pc⟩)
    (holds : storage.Holds buffer kept)
    (owes : (owns next).toNat + debt = (owns pc).toNat)
    (unblocked : ∀ operation, next = .update operation →
      storage.blocked buffer operation = false)
    (covers : ∀ condition,
      available storage.capacity kept.length condition +
          (covers condition pc).toNat ≤
        available storage.capacity items.length condition +
          (covers condition next).toNat) :
    Consistent storage ({ s with buffer := buffer }.resume ⟨coro, next⟩)
      kept debt where
  holds := holds
  mutex := by
    have sound := consistent.mutex
    simp only [isRunning, Option.toList_some, List.countP_append, countP_owns,
      ← owes] at sound
    simp only [State.resume, Option.toList_some, List.countP_append,
      countP_owns]
    convert sound using 1
    omega
  ready := consistent.ready
  queue := consistent.queue
  unblocked other operation isUpdate := by
    simp only [State.resume, Option.some.injEq, Frame.mk.injEq] at isUpdate
    exact unblocked operation isUpdate.2
  covered condition waiting := by
    have covered := consistent.covered condition waiting
    have change := covers condition
    simp only [State.present, isRunning, Option.toList_some,
      List.countP_append, countP_covers] at covered
    simp only [State.resume, State.present, Option.toList_some,
      List.countP_append, countP_covers]
    omega

/-- `unlock` pays the debt. -/
theorem unlock (consistent : Consistent storage s items 1) (coro : Coro) :
    Consistent storage (s.unlock coro) items 0 := by
  obtain ⟨spawned, left, unlocked, sound, lineEq⟩ := consistent.mutex.unlock
  have line := consistent.mutex.line
  have covered := consistent.covered
  simp only [State.present] at covered
  rw [lineEq] at line covered
  cases spawned with
  | none =>
      have unlockEq : s.unlock coro = { s with mutex := left } := by
        rw [State.unlock, unlocked]
      rw [unlockEq]
      exact ⟨consistent.holds, sound, consistent.ready, consistent.queue,
        consistent.unblocked, covered⟩
  | some head =>
      have unlockEq : s.unlock coro = { s with mutex := left }.coSpawn head := by
        rw [State.unlock, unlocked]
      have headGranted : head.Granted := line head (by simp)
      rw [unlockEq]
      refine ⟨consistent.holds, ?_, ?_, consistent.queue,
        consistent.unblocked, ?_⟩
      · change MutexSound left
          ((s.running.toList ++ (s.ready ++ [head])).countP Frame.owns + 0)
        rw [← List.append_assoc, List.countP_append, countP_owns,
          headGranted.owns]
        exact sound
      · intro frame isReady
        rcases List.mem_append.mp isReady with wasReady | isHead
        · exact consistent.ready frame wasReady
        · rw [List.mem_singleton.mp isHead]
          exact Or.inr headGranted
      · simpa [State.present, State.coSpawn] using covered

/-- The running coroutine takes `m_mtx` or joins its line. -/
theorem lock (consistent : Consistent storage s items 0)
    {operation : Operation T}
    (isRunning : s.running = some ⟨coro, .lock operation⟩) :
    Consistent storage (s.lock coro operation) items 0 := by
  obtain ⟨suspends, registered, registerEq, sound, lineEq⟩ :=
    consistent.mutex.register
      (⟨operation, Or.inl rfl⟩ :
        (⟨coro, .check operation⟩ : Frame Coro T).Granted)
  have covered := consistent.covered
  simp only [isRunning, Option.toList_some, List.countP_append, countP_owns]
    at sound
  simp only [State.present, isRunning, Option.toList_some, List.countP_append,
    countP_covers] at covered
  rw [State.lock, registerEq]
  cases suspends with
  | false =>
      refine ⟨consistent.holds, ?_, consistent.ready, consistent.queue,
        by simp [State.resume], ?_⟩
      · simp only [State.resume, Option.toList_some, List.countP_append,
          countP_owns]
        convert sound using 1
        simp [owns]
        omega
      · simpa [State.present, State.resume, lineEq, Frame.covers, covers]
          using covered
  | true =>
      refine ⟨consistent.holds, ?_, consistent.ready, consistent.queue,
        by simp, ?_⟩
      · simpa [owns] using sound
      · simpa [State.present, lineEq, Frame.covers, covers] using covered

/-- The running coroutine waits on the condition variable of its
operation. -/
theorem wait (consistent : Consistent storage s items 0)
    {operation : Operation T}
    (isRunning : s.running = some ⟨coro, .testPred operation⟩)
    (isBlocked : storage.blocked s.buffer operation = true) :
    Consistent storage (s.wait coro operation) items 0 := by
  have sound := consistent.mutex
  have covered := consistent.covered
  simp only [isRunning, Option.toList_some, List.countP_append, countP_owns]
    at sound
  simp only [State.present, isRunning, Option.toList_some, List.countP_append,
    countP_covers] at covered
  have nothing := (blocked_iff consistent.holds operation).mp isBlocked
  apply Consistent.unlock
  refine ⟨consistent.holds, ?_, consistent.ready, ?_, by simp, ?_⟩
  · rw [Nat.add_comm]
    exact sound
  · intro condition frame waits
    by_cases isIts : condition = waitsFor operation
    · simp only [if_pos isIts, ConditionVariable.queue_push] at waits
      rcases List.mem_append.mp waits with waited | isNew
      · rw [isIts]
        exact consistent.queue _ frame waited
      · rw [List.mem_singleton.mp isNew]
        exact ⟨operation, rfl, isIts.symm⟩
    · simp only [if_neg isIts] at waits
      exact consistent.queue condition frame waits
  · intro condition waiting
    by_cases isIts : condition = waitsFor operation
    · rw [isIts, nothing]
      exact Nat.zero_le _
    · simp only [if_neg isIts] at waiting
      have bound := covered condition waiting
      have isOther : waitsFor operation ≠ condition := Ne.symm isIts
      simpa [State.present, covers, isOther] using bound

/-- The coroutines that wait on a condition variable waited before a
notification of some other one or of this one. -/
theorem queue_notified {condition other : Condition} {frame : Frame Coro T}
    (waits : frame ∈ (if other = condition then (s.cv condition).notifyOne.2
      else s.cv other).queue) : frame ∈ (s.cv other).queue := by
  by_cases isIts : other = condition
  · rw [if_pos isIts] at waits
    rw [isIts, ConditionVariable.queue_notifyOne]
    exact List.mem_append_right _ waits
  · rw [if_neg isIts] at waits
    exact waits

/-- The running coroutine notifies the condition variable that its operation
establishes. -/
theorem notifyOne (consistent : Consistent storage s items 0)
    {operation : Operation T} {carried : Option T}
    (isRunning : s.running = some ⟨coro, .notify operation carried⟩) :
    Consistent storage ((s.resume ⟨coro, .idle⟩).notifyOne operation)
      items 0 := by
  have sound : MutexSound s.mutex (s.ready.countP Frame.owns) := by
    have sound := consistent.mutex
    rw [isRunning, List.countP_append, Option.toList_some, countP_owns] at sound
    simpa [owns] using sound
  have covered : ∀ condition, (s.cv condition).queue ≠ [] →
      available storage.capacity items.length condition ≤
        (establishes operation = condition : Bool).toNat +
          s.ready.countP (Frame.covers condition) +
          s.mutex.line.countP (Frame.covers condition) := by
    intro condition waiting
    have covered := consistent.covered condition waiting
    rw [State.present, isRunning, List.countP_append, List.countP_append,
      Option.toList_some, countP_covers] at covered
    exact covered
  have queueEq := (s.cv (establishes operation)).queue_notifyOne
  have stillWaits : ∀ condition, (if condition = establishes operation
      then (s.cv (establishes operation)).notifyOne.2
      else s.cv condition).queue ≠ [] → (s.cv condition).queue ≠ [] := by
    intro condition waiting
    obtain ⟨frame, waits⟩ := List.exists_mem_of_ne_nil _ waiting
    exact List.ne_nil_of_mem (queue_notified waits)
  cases notified : (s.cv (establishes operation)).notifyOne.1 with
  | none =>
      have nobody := ConditionVariable.queue_eq_nil_of_notifyOne notified
      simp only [State.notifyOne, State.resume, notified]
      refine ⟨consistent.holds, ?_, consistent.ready, ?_, by simp, ?_⟩
      · rw [List.countP_append, Option.toList_some, countP_owns]
        simpa [owns] using sound
      · intro condition frame waits
        exact consistent.queue condition frame (queue_notified waits)
      · intro condition waiting
        have bound := covered condition (stillWaits condition waiting)
        have isOther : establishes operation ≠ condition := by
          rintro rfl
          exact stillWaits _ waiting nobody
        rw [decide_eq_false isOther] at bound
        rw [State.present, List.countP_append, List.countP_append,
          Option.toList_some, countP_covers]
        exact bound
  | some head =>
      rw [notified] at queueEq
      have waits : head.WaitsOn (establishes operation) :=
        consistent.queue _ head (by rw [queueEq]; simp)
      obtain ⟨suspends, registered, registerEq, sound, lineEq⟩ :=
        sound.register waits.granted
      simp only [State.notifyOne, State.resume, notified, registerEq]
      cases suspends with
      | false =>
          refine ⟨consistent.holds, ?_, ?_, ?_, by simp [State.coSpawn], ?_⟩
          · change MutexSound registered
              (([_] ++ (s.ready ++ [head])).countP Frame.owns + 0)
            rw [List.countP_append, List.countP_append, countP_owns,
              countP_owns, waits.granted.owns, owns, Bool.toNat_false,
              Nat.zero_add]
            exact sound
          · intro frame isReady
            rcases List.mem_append.mp isReady with wasReady | isHead
            · exact consistent.ready frame wasReady
            · rw [List.mem_singleton.mp isHead]
              exact Or.inr waits.granted
          · intro condition frame waits
            exact consistent.queue condition frame (queue_notified waits)
          · intro condition waiting
            have bound := covered condition (stillWaits condition waiting)
            change _ ≤ ([_] ++ (s.ready ++ [head]) ++ registered.line).countP _
            rw [lineEq, List.countP_append, List.countP_append,
              List.countP_append, countP_covers, countP_covers, waits.covers]
            simp [covers]
            omega
      | true =>
          refine ⟨consistent.holds, ?_, consistent.ready, ?_, by simp, ?_⟩
          · change MutexSound registered
              (([_] ++ s.ready).countP Frame.owns + 0)
            rw [List.countP_append, countP_owns, owns, Bool.toNat_false,
              Nat.zero_add]
            exact sound
          · intro condition frame waits
            exact consistent.queue condition frame (queue_notified waits)
          · intro condition waiting
            have bound := covered condition (stillWaits condition waiting)
            change _ ≤ ([_] ++ s.ready ++ registered.line).countP _
            rw [lineEq, if_pos rfl, List.countP_append, List.countP_append,
              List.countP_append, countP_covers, countP_covers, waits.covers]
            simp [covers]
            omega

/-- A coroutine that was suspended elsewhere becomes ready. -/
theorem arrive (consistent : Consistent storage s items 0) (coro : Coro) :
    Consistent storage (s.coSpawn ⟨coro, .idle⟩) items 0 := by
  refine ⟨consistent.holds, ?_, ?_, consistent.queue, consistent.unblocked, ?_⟩
  · change MutexSound s.mutex
      ((s.running.toList ++ (s.ready ++ [_])).countP Frame.owns + 0)
    rw [← List.append_assoc, List.countP_append, countP_owns]
    exact consistent.mutex
  · intro frame isReady
    rcases List.mem_append.mp isReady with wasReady | isNew
    · exact consistent.ready frame wasReady
    · rw [List.mem_singleton.mp isNew]
      exact Or.inl rfl
  · intro condition waiting
    have bound := consistent.covered condition waiting
    rw [State.present, List.countP_append] at bound
    change _ ≤ (s.running.toList ++ (s.ready ++ [_]) ++ s.mutex.line).countP _
    rw [← List.append_assoc, List.countP_append, List.countP_append,
      countP_covers]
    exact bound

/-- The first ready coroutine runs. -/
theorem schedule (consistent : Consistent storage s items 0)
    {frame : Frame Coro T} {rest : List (Frame Coro T)}
    (notRunning : s.running = none) (isReady : s.ready = frame :: rest) :
    Consistent storage ({ s with ready := rest }.resume frame) items 0 := by
  have sound := consistent.mutex
  have covered := consistent.covered
  rw [notRunning, isReady] at sound
  simp only [State.present, notRunning, isReady] at covered
  have readyFrames := consistent.ready
  rw [isReady] at readyFrames
  refine ⟨consistent.holds, sound, ?_, consistent.queue, ?_, covered⟩
  · intro other otherReady
    exact readyFrames other (List.mem_cons_of_mem _ otherReady)
  · intro coro operation isUpdate
    simp only [State.resume, Option.some.injEq] at isUpdate
    rcases readyFrames frame List.mem_cons_self with isIdle | granted
    · simp [isUpdate] at isIdle
    · obtain ⟨other, position | position⟩ := granted <;>
        simp [isUpdate] at position

/-- The running coroutine suspends elsewhere or returns. -/
theorem leave (consistent : Consistent storage s items 0)
    (isRunning : s.running = some ⟨coro, .idle⟩) :
    Consistent storage { s with running := none } items 0 := by
  have sound := consistent.mutex
  have covered := consistent.covered
  simp only [isRunning, Option.toList_some, List.countP_append, countP_owns]
    at sound
  simp only [State.present, isRunning, Option.toList_some, List.countP_append,
    countP_covers] at covered
  refine ⟨consistent.holds, ?_, consistent.ready, consistent.queue, by simp, ?_⟩
  · simpa [owns] using sound
  · simpa [State.present, covers] using covered

/-- The running coroutine updates the storage. -/
theorem update (consistent : Consistent storage s items 0)
    {operation : Operation T}
    (isRunning : s.running = some ⟨coro, .update operation⟩)
    (stepEq : s.run storage coro (.update operation) = some s') :
    ∃ kept, Consistent storage s' kept 0 := by
  have unblocked := consistent.unblocked coro operation isRunning
  obtain ⟨carried, rest, kept, applied, restHolds, -, exchanged, moved⟩ :=
    storage.apply_holds consistent.holds unblocked
  simp only [State.run, applied, Option.some.injEq] at stepEq
  subst stepEq
  refine ⟨kept, consistent.resume isRunning restHolds rfl (by simp) ?_⟩
  intro condition
  exact (available_update consistent.holds unblocked restHolds exchanged
    moved condition).le

/-- What the next step of the running coroutine does. -/
theorem run (consistent : Consistent storage s items 0) {pc : Pc T}
    (isRunning : s.running = some ⟨coro, pc⟩)
    (stepEq : s.run storage coro pc = some s') :
    ∃ kept, Consistent storage s' kept 0 := by
  cases pc with
  | idle | sleeping operation | undefined => simp [State.run] at stepEq
  | lock operation =>
      rw [State.run, Option.some.injEq] at stepEq
      subst stepEq
      exact ⟨items, consistent.lock isRunning⟩
  | check operation =>
      rw [State.run] at stepEq
      split at stepEq <;> rw [Option.some.injEq] at stepEq <;> subst stepEq
      · exact ⟨items, consistent.resume isRunning consistent.holds
          rfl (by simp) (by simp [covers])⟩
      · next unblocked =>
          exact ⟨items, consistent.resume isRunning consistent.holds
            rfl (by simpa using unblocked) (by simp [covers])⟩
  | testPred operation =>
      rw [State.run] at stepEq
      split at stepEq <;> rw [Option.some.injEq] at stepEq <;> subst stepEq
      · next isBlocked => exact ⟨items, consistent.wait isRunning isBlocked⟩
      · next unblocked =>
          exact ⟨items, consistent.resume isRunning consistent.holds
            rfl (by simpa using unblocked) (by simp [covers])⟩
  | update operation => exact consistent.update isRunning stepEq
  | unlock operation carried =>
      rw [State.run, Option.some.injEq] at stepEq
      subst stepEq
      have owing : Consistent storage
          (s.resume ⟨coro, .notify operation carried⟩) items 1 :=
        consistent.resume isRunning consistent.holds
          rfl (by simp) (by simp [covers])
      exact ⟨items, owing.unlock coro⟩
  | notify operation carried =>
      rw [State.run, Option.some.injEq] at stepEq
      subst stepEq
      exact ⟨items, consistent.notifyOne isRunning⟩

variable [DecidableEq Coro]

theorem step (consistent : Consistent storage s items 0)
    {action : Action Coro T} (stepEq : step storage s action = some s') :
    ∃ kept, Consistent storage s' kept 0 := by
  cases action with
  | arrive coro =>
      simp only [ChannelContext.step] at stepEq
      split at stepEq
      · contradiction
      · rw [Option.some.injEq] at stepEq
        subst stepEq
        exact ⟨items, consistent.arrive coro⟩
  | schedule =>
      simp only [ChannelContext.step] at stepEq
      split at stepEq
      · next notRunning isReady =>
          rw [Option.some.injEq] at stepEq
          subst stepEq
          exact ⟨items, consistent.schedule notRunning isReady⟩
      · contradiction
  | call operation =>
      simp only [ChannelContext.step] at stepEq
      split at stepEq
      · next isRunning =>
          rw [Option.some.injEq] at stepEq
          subst stepEq
          exact ⟨items, consistent.resume isRunning consistent.holds
            rfl (by simp) (by simp [covers])⟩
      · contradiction
  | run =>
      simp only [ChannelContext.step] at stepEq
      split at stepEq
      · next frame isRunning => exact consistent.run isRunning stepEq
      · contradiction
  | leave =>
      simp only [ChannelContext.step] at stepEq
      split at stepEq
      · next isRunning =>
          rw [Option.some.injEq] at stepEq
          subst stepEq
          exact ⟨items, consistent.leave isRunning⟩
      · contradiction

end Consistent

variable [DecidableEq Coro]

theorem consistent_of_reachable {s : State Coro T Buffer}
    (reached : (system Coro storage).Reachable s) :
    ∃ items, Consistent storage s items 0 := by
  induction reached with
  | start isInitial =>
      rw [show _ = State.new Coro storage from isInitial]
      exact ⟨[], consistent_new⟩
  | next _ _ stepEq ih =>
      obtain ⟨items, consistent⟩ := ih
      exact consistent.step stepEq

/-- No coroutine is running or ready to run. -/
def State.Quiescent (s : State Coro T Buffer) : Prop :=
  s.running = none ∧ s.ready = []

/-- No coroutine waits for what is there. -/
structure Unstranded (storage : Storage T Buffer) (s : State Coro T Buffer) :
    Prop where
  receivers : storage.empty s.buffer = false → (s.cv .notEmpty).queue = []
  senders : storage.full s.buffer = false → (s.cv .notFull).queue = []
  unlocked : s.mutex.awaiting = none

/-- A context where nothing is left to run strands no waiter. -/
theorem unstranded_of_reachable {s : State Coro T Buffer}
    (reached : (system Coro storage).Reachable s) (quiescent : s.Quiescent) :
    Unstranded storage s := by
  obtain ⟨items, consistent⟩ := consistent_of_reachable reached
  obtain ⟨notRunning, noneReady⟩ := quiescent
  have sound := consistent.mutex
  rw [notRunning, noneReady] at sound
  have unlocked : s.mutex.awaiting = none := by
    have ownersEq := sound.owners_eq
    cases isLocked : s.mutex.awaiting with
    | none => rfl
    | some stack =>
        simp [isLocked] at ownersEq
  have nobodyPresent : s.present = [] := by
    rw [State.present, notRunning, noneReady, sound.free unlocked]
    rfl
  -- Nobody is left to cover anything.
  have nothing : ∀ condition, (s.cv condition).queue ≠ [] →
      available storage.capacity items.length condition = 0 := by
    intro condition waiting
    have bound := consistent.covered condition waiting
    rw [nobodyPresent, List.countP_nil, Nat.le_zero] at bound
    exact bound
  refine ⟨?_, ?_, unlocked⟩
  · intro notEmpty
    by_contra waiting
    have isEmpty := List.length_eq_zero_iff.mp (nothing .notEmpty waiting)
    rw [(storage.empty_iff consistent.holds).mpr isEmpty] at notEmpty
    contradiction
  · intro notFull
    by_contra waiting
    have room := Storage.room_of_not_full consistent.holds notFull
    have noRoom := nothing .notFull waiting
    simp only [available] at noRoom
    omega

end CoContext.ChannelContext
