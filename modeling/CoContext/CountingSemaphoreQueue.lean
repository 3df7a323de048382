import CoContext.RecordHeap
import CoContext.SignedCounter
import Mathlib.Algebra.Order.Group.Unbundled.Int
import Mathlib.Data.List.Perm.Basic

/-!
# A counting semaphore within one context

The calls of one `counting_semaphore` when none of them overlap, down to the
links of the awaiters, and the first in, first out semaphore that they
implement.  An awaiter is a record in the frame of the suspended coroutine,
which names it; it exists until that coroutine is resumed.
-/

namespace CoContext.CountingSemaphoreQueue

variable {Coro : Type*}

structure State (Coro : Type*) where
  awaiting : Option Coro
  toResume : Option Coro
  counter : Int64
  /-- The members `next` of the awaiters that exist. -/
  records : RecordHeap Coro

namespace State

def new (Coro : Type*) (desired : Int64) : State Coro where
  awaiting := none
  toResume := none
  counter := desired
  records _ := none

/-- No other call comes between the load and the compare-exchange. -/
def tryAcquire (s : State Coro) : Bool × State Coro :=
  if 0 < s.counter then
    (true, { s with counter := s.counter - 1 })
  else
    (false, s)

/-- The end of `try_release`. -/
def popResumeHead (s : State Coro) (resumeHead : Coro) :
    Option (Option Coro × State Coro) := do
  let next ← s.records resumeHead
  some (some resumeHead, { s with toResume := next })

/-- `awaken_awaiter->co_spawn()`, with the coroutine that it spawns. -/
def coSpawn (s : State Coro) (awakenAwaiter : Option Coro) : Option Coro := do
  let awaiter ← awakenAwaiter
  (s.records awaiter).map fun _ => awaiter

section Write

variable [DecidableEq Coro]

/-- `acquire_awaiter::await_suspend`. -/
def awaitSuspend (s : State Coro) (coro : Coro) : Option (State Coro) := do
  let linked ← s.records.write coro s.awaiting
  some { s with awaiting := some coro, records := linked }

/-- `co_await acquire()`; `await_ready` decides whether the awaiter stays. -/
def acquire (s : State Coro) (coro : Coro) : Option (State Coro) :=
  let constructed :=
    { s with
      counter := s.counter - 1
      records := s.records.create coro none }
  if 0 < s.counter then
    some { constructed with records := constructed.records.destroy coro }
  else
    constructed.awaitSuspend coro

def tryRelease (s : State Coro) : Option (Option Coro × State Coro) :=
  match s.toResume with
  | some resumeHead => s.popResumeHead resumeHead
  | none =>
      match s.awaiting with
      | none => some (none, s)
      | some node => do
          let reversed ← s.records.reverseOnto node none
          { s with awaiting := none, records := reversed.1 }.popResumeHead
            reversed.2

/-- `release()`, with the coroutines that it spawns. -/
def release (s : State Coro) : Option (List Coro × State Coro) :=
  let updated := { s with counter := s.counter + 1 }
  if 0 ≤ s.counter then
    some ([], updated)
  else do
    let released ← updated.tryRelease
    let spawned ← released.2.coSpawn released.1
    some ([spawned], released.2)

/-- The loop of `release(update)`, which runs at least once.  Its variable
counts up to zero. -/
def releaseLoop (s : State Coro) (update : Int) :
    Option (List Coro × State Coro) := do
  let released ← s.tryRelease
  let spawned ← released.2.coSpawn released.1
  if update + 1 < 0 then
    let rest ← released.2.releaseLoop (update + 1)
    some (spawned :: rest.1, rest.2)
  else
    some ([spawned], released.2)
termination_by (-update).toNat
decreasing_by omega

/-- `release(update)`. -/
def releaseMany (s : State Coro) (update : Int64) :
    Option (List Coro × State Coro) :=
  let updated := { s with counter := s.counter + update }
  if 0 ≤ s.counter then
    some ([], updated)
  else
    updated.releaseLoop (max s.counter (-update)).toInt

/-- Consecutive calls of `release()`. -/
def releaseEach (s : State Coro) : Nat → Option (List Coro × State Coro)
  | 0 => some ([], s)
  | count + 1 => do
      let first ← s.release
      let rest ← first.2.releaseEach count
      some (first.1 ++ rest.1, rest.2)

end Write

end State

/-- A first in, first out semaphore: nobody waits while there are permits. -/
structure FifoSemaphore (Coro : Type*) where
  permits : Nat
  waiting : List Coro
  free : permits ≠ 0 → waiting = []

namespace FifoSemaphore

def new (Coro : Type*) (desired : Nat) : FifoSemaphore Coro where
  permits := desired
  waiting := []
  free _ := rfl

/-- The permits, or below zero the debt of the waiting coroutines. -/
def counter (a : FifoSemaphore Coro) : Int :=
  a.permits - a.waiting.length

def acquire (a : FifoSemaphore Coro) (coro : Coro) : FifoSemaphore Coro :=
  if hasPermit : 0 < a.permits then
    { a with
      permits := a.permits - 1
      free := fun _ => a.free (by omega) }
  else
    { a with
      waiting := a.waiting ++ [coro]
      free := fun _ => by omega }

/-- A permit is taken if there is one. -/
def tryAcquire (a : FifoSemaphore Coro) : FifoSemaphore Coro where
  permits := a.permits - 1
  waiting := a.waiting
  free _ := a.free (by omega)

/-- The coroutine that waits longest stops to wait. -/
def serve (a : FifoSemaphore Coro) : FifoSemaphore Coro where
  permits := a.permits
  waiting := a.waiting.tail
  free hasPermit := by rw [a.free hasPermit, List.tail_nil]

/-- A permit goes to the coroutine that waits longest, or is kept. -/
def release (a : FifoSemaphore Coro) : FifoSemaphore Coro :=
  if nobody : a.waiting = [] then
    { a with
      permits := a.permits + 1
      free := fun _ => nobody }
  else
    a.serve

variable {a : FifoSemaphore Coro}

theorem counter_pos_iff : 0 < a.counter ↔ 0 < a.permits := by
  by_cases hasPermit : a.permits = 0
  · simp [counter, hasPermit]
  · simp [counter, a.free hasPermit]

theorem counter_neg_iff : a.counter < 0 ↔ a.waiting ≠ [] := by
  by_cases hasPermit : a.permits = 0
  · simp [counter, hasPermit, List.length_pos_iff]
  · simp [counter, a.free hasPermit]

/-- The counter is the number of the waiting coroutines, negated. -/
theorem counter_of_waiting (somebody : a.waiting ≠ []) :
    a.counter = -a.waiting.length := by
  have noPermit : a.permits = 0 := by
    by_contra hasPermit
    exact somebody (a.free hasPermit)
  simp [counter, noPermit]

theorem release_waiting (a : FifoSemaphore Coro) :
    a.release.waiting = a.waiting.tail := by
  by_cases nobody : a.waiting = []
  · simp [release, nobody]
  · simp [release, nobody, serve]

theorem counter_acquire (a : FifoSemaphore Coro) (coro : Coro) :
    (a.acquire coro).counter = a.counter - 1 := by
  unfold acquire
  split <;> simp only [counter, List.length_append, List.length_singleton] <;>
    omega

theorem counter_tryAcquire (hasPermit : 0 < a.permits) :
    a.tryAcquire.counter = a.counter - 1 := by
  simp only [counter, tryAcquire]
  omega

theorem counter_release (a : FifoSemaphore Coro) :
    a.release.counter = a.counter + 1 := by
  unfold release
  split
  · simp only [counter]
    omega
  · next somebody =>
      have positive := List.length_pos_iff.mpr somebody
      simp only [counter, serve, List.length_tail]
      omega

end FifoSemaphore

/-- The links of the awaiters of a semaphore. -/
structure LinksWaiting (s : State Coro) (waiting : List Coro) : Prop where
  lists : ∃ awaiting toResume : List Coro,
    s.records.Linked s.awaiting awaiting ∧
      s.records.Linked s.toResume toResume ∧
      waiting = toResume ++ awaiting.reverse
  nodup : waiting.Nodup

/-- The state implements the first in, first out semaphore. -/
structure Represents (s : State Coro) (a : FifoSemaphore Coro) : Prop where
  counter_eq : s.counter.toInt = a.counter
  links : LinksWaiting s a.waiting

namespace LinksWaiting

variable {s : State Coro} {waiting : List Coro} {coro : Coro}

theorem withCounter (links : LinksWaiting s waiting) (counter : Int64) :
    LinksWaiting { s with counter := counter } waiting :=
  ⟨links.lists, links.nodup⟩

theorem isSome (links : LinksWaiting s waiting) (isWaiting : coro ∈ waiting) :
    (s.records coro).isSome := by
  obtain ⟨awaiting, toResume, awaitingLinked, resumeLinked, rfl⟩ := links.lists
  rcases List.mem_append.mp isWaiting with resuming | pushed
  · exact resumeLinked.isSome resuming
  · exact awaitingLinked.isSome (List.mem_reverse.mp pushed)

/-- A coroutine whose record is not linked is none of those that wait. -/
theorem destroy [DecidableEq Coro] (links : LinksWaiting s waiting)
    (notWaiting : coro ∉ waiting) :
    LinksWaiting { s with records := s.records.destroy coro } waiting := by
  obtain ⟨awaiting, toResume, awaitingLinked, resumeLinked, rfl⟩ := links.lists
  rw [List.mem_append, List.mem_reverse, not_or] at notWaiting
  exact ⟨⟨awaiting, toResume, awaitingLinked.destroy_of_notMem notWaiting.2,
    resumeLinked.destroy_of_notMem notWaiting.1, rfl⟩, links.nodup⟩

/-- The end of `try_release` spawns the head of the list. -/
theorem popResumeHead {head : Coro} {rest awaiting : List Coro}
    (awaitingLinked : s.records.Linked s.awaiting awaiting)
    (resumeLinked : s.records.Linked (some head) (head :: rest))
    (nodup : (head :: rest ++ awaiting.reverse).Nodup) :
    ∃ s', s.popResumeHead head = some (some head, s') ∧
      LinksWaiting s' (rest ++ awaiting.reverse) ∧ s'.records = s.records ∧
      s'.counter = s.counter := by
  obtain ⟨-, next, fieldEq, restLinked⟩ := resumeLinked
  refine ⟨{ s with toResume := next }, by simp [State.popResumeHead, fieldEq],
    ⟨⟨awaiting, rest, awaitingLinked, restLinked, rfl⟩, ?_⟩, rfl, rfl⟩
  exact (List.nodup_cons.mp nodup).2

variable [DecidableEq Coro]

/-- `try_release` returns the coroutine that waits longest. -/
theorem tryRelease {head : Coro} {rest : List Coro}
    (links : LinksWaiting s (head :: rest)) :
    ∃ s', s.tryRelease = some (some head, s') ∧ LinksWaiting s' rest ∧
      RecordHeap.Relinks (head :: rest) s.records s'.records ∧
      s'.counter = s.counter := by
  obtain ⟨awaiting, toResume, awaitingLinked, resumeLinked, splitEq⟩ :=
    links.lists
  have nodup := links.nodup
  cases toResume with
  | cons first others =>
      rw [List.cons_append, List.cons.injEq] at splitEq
      obtain ⟨rfl, rfl⟩ := splitEq
      have headEq : s.toResume = some head := resumeLinked.1
      rw [headEq] at resumeLinked
      obtain ⟨s', popEq, links', recordsEq, counterEq⟩ :=
        popResumeHead awaitingLinked resumeLinked nodup
      refine ⟨s', ?_, links', ?_, counterEq⟩
      · rw [State.tryRelease, headEq]
        exact popEq
      · rw [recordsEq]
        exact .refl _ _
  | nil =>
      have headNull : s.toResume = none := resumeLinked
      rw [List.nil_append] at splitEq
      cases awaiting with
      | nil => exact nomatch splitEq
      | cons node older =>
          have stackNodup : (node :: older ++ []).Nodup := by
            rw [splitEq, List.nodup_reverse] at nodup
            rwa [List.append_nil]
          have nodeEq : s.awaiting = some node := awaitingLinked.1
          rw [nodeEq] at awaitingLinked
          obtain ⟨reversed, last, loopEq, lastLinked, relinks⟩ :=
            RecordHeap.reverseOnto_eq awaitingLinked
              (RecordHeap.linked_nil.mpr rfl) stackNodup
          rw [List.append_nil, ← splitEq] at lastLinked
          obtain rfl : last = head := Option.some.inj lastLinked.1
          have nothingLeft : ({ s with awaiting := none, records := reversed } :
              State Coro).records.Linked none [] := rfl
          obtain ⟨s', popEq, links', recordsEq, counterEq⟩ :=
            popResumeHead nothingLeft lastLinked (by simpa using nodup)
          rw [List.reverse_nil, List.append_nil] at links'
          refine ⟨s', ?_, links', ?_, counterEq⟩
          · simp only [State.tryRelease, headNull, nodeEq, loopEq,
              Option.bind_eq_bind, Option.bind_some]
            rw [headNull] at popEq
            exact popEq
          · rw [recordsEq, splitEq]
            exact ⟨fun coro notWaiting => relinks.outside coro (by
              rwa [List.mem_reverse] at notWaiting), relinks.isSome⟩

/-- A suspended coroutine waits behind all others. -/
theorem awaitSuspend (links : LinksWaiting s waiting)
    (absent : s.records coro = none) :
    ∃ s', { s with records := s.records.create coro none }.awaitSuspend coro =
        some s' ∧ LinksWaiting s' (waiting ++ [coro]) ∧
      s'.records = s.records.create coro s.awaiting ∧
      s'.counter = s.counter := by
  obtain ⟨awaiting, toResume, awaitingLinked, resumeLinked, rfl⟩ := links.lists
  have notWaiting : coro ∉ toResume ++ awaiting.reverse := by
    intro isWaiting
    have isSome := links.isSome isWaiting
    rw [absent] at isSome
    exact nomatch isSome
  refine ⟨{ s with
      awaiting := some coro
      records := s.records.create coro s.awaiting }, ?_,
    ⟨⟨coro :: awaiting, toResume, ?_, ?_, ?_⟩, ?_⟩, rfl, rfl⟩
  · rw [State.awaitSuspend, RecordHeap.write_create]
    rfl
  · exact awaitingLinked.create_cons (awaitingLinked.notMem absent)
  · exact resumeLinked.create_of_notMem (resumeLinked.notMem absent) _
  · simp
  · refine List.nodup_append.mpr ⟨links.nodup, by simp, ?_⟩
    intro other isWaiting last isLast same
    rw [List.mem_singleton] at isLast
    rw [same, isLast] at isWaiting
    exact notWaiting isWaiting

end LinksWaiting

namespace Represents

variable {s : State Coro} {a : FifoSemaphore Coro} {coro : Coro}

theorem new {desired : Int64} (nonneg : 0 ≤ desired) :
    Represents (State.new Coro desired) (.new Coro desired.toInt.toNat) where
  counter_eq := by
    have notNegative := SignedCounter.nonneg_iff.mp nonneg
    simp only [State.new, FifoSemaphore.new, FifoSemaphore.counter,
      List.length_nil]
    omega
  links := ⟨⟨[], [], rfl, rfl, rfl⟩, List.nodup_nil⟩

theorem pos_iff (represents : Represents s a) :
    0 < s.counter ↔ 0 < a.permits := by
  rw [SignedCounter.pos_iff, represents.counter_eq, a.counter_pos_iff]

theorem nonneg_iff (represents : Represents s a) :
    0 ≤ s.counter ↔ a.waiting = [] := by
  rw [SignedCounter.nonneg_iff, represents.counter_eq, ← not_lt,
    a.counter_neg_iff, not_not]

/-- `try_acquire` succeeds if and only if there is a permit. -/
theorem tryAcquire (represents : Represents s a) :
    s.tryAcquire.1 = decide (0 < a.permits) ∧
      Represents s.tryAcquire.2 a.tryAcquire ∧
      s.tryAcquire.2.records = s.records := by
  have positive := represents.pos_iff
  by_cases hasPermit : 0 < a.permits
  · simp only [State.tryAcquire, if_pos (positive.mpr hasPermit)]
    refine ⟨by simp [hasPermit], ⟨?_, represents.links.withCounter _⟩, trivial⟩
    have above := SignedCounter.ne_minValue_of_pos (positive.mpr hasPermit)
    rw [FifoSemaphore.counter_tryAcquire hasPermit, ← represents.counter_eq,
      SignedCounter.toInt_sub_one above]
  · have noPermit : a.permits = 0 := by omega
    simp only [State.tryAcquire, if_neg (mt positive.mp hasPermit)]
    refine ⟨by simp [hasPermit], ⟨?_, represents.links⟩, trivial⟩
    rw [represents.counter_eq]
    simp [FifoSemaphore.counter, FifoSemaphore.tryAcquire, noPermit]

variable [DecidableEq Coro]

/-- `acquire` takes a permit, or waits behind all others. -/
theorem acquire (represents : Represents s a)
    (absent : s.records coro = none) (above : s.counter ≠ .minValue) :
    ∃ s', s.acquire coro = some s' ∧ Represents s' (a.acquire coro) ∧
      s'.records = if 0 < a.permits then s.records
        else s.records.create coro s.awaiting := by
  have positive := represents.pos_iff
  have counterEq : (s.counter - 1).toInt = (a.acquire coro).counter := by
    rw [a.counter_acquire, SignedCounter.toInt_sub_one above,
      represents.counter_eq]
  by_cases hasPermit : 0 < a.permits
  · have recordsEq := RecordHeap.destroy_create absent none
    refine ⟨{ s with counter := s.counter - 1 }, ?_, ⟨counterEq, ?_⟩, ?_⟩
    · rw [State.acquire, if_pos (positive.mpr hasPermit)]
      simp [recordsEq]
    · rw [FifoSemaphore.acquire, dif_pos hasPermit]
      exact represents.links.withCounter _
    · rw [if_pos hasPermit]
  · obtain ⟨s', suspendEq, links', recordsEq, counterEq'⟩ :=
      (represents.links.withCounter (s.counter - 1)).awaitSuspend absent
    refine ⟨s', ?_, ⟨?_, ?_⟩, ?_⟩
    · rw [State.acquire, if_neg (mt positive.mp hasPermit)]
      exact suspendEq
    · rw [counterEq', counterEq]
    · rw [FifoSemaphore.acquire, dif_neg hasPermit]
      exact links'
    · rw [if_neg hasPermit]
      exact recordsEq

/-- `release` spawns the coroutine that waits longest, if there is one. -/
theorem release (represents : Represents s a)
    (below : s.counter ≠ .maxValue) :
    ∃ s', s.release = some (a.waiting.head?.toList, s') ∧
      Represents s' a.release ∧
      RecordHeap.Relinks a.waiting s.records s'.records := by
  have counterEq : (s.counter + 1).toInt = a.release.counter := by
    rw [a.counter_release, SignedCounter.toInt_add_one below,
      represents.counter_eq]
  cases waiting : a.waiting with
  | nil =>
      have nonneg : 0 ≤ s.counter := represents.nonneg_iff.mpr waiting
      refine ⟨{ s with counter := s.counter + 1 }, ?_, ⟨counterEq, ?_⟩,
        .refl _ _⟩
      · rw [State.release, if_pos nonneg]
        rfl
      · have links := represents.links.withCounter (s.counter + 1)
        rw [FifoSemaphore.release, dif_pos waiting]
        exact links
  | cons head rest =>
      have somebody : a.waiting ≠ [] := by simp [waiting]
      have debt : ¬ 0 ≤ s.counter := mt represents.nonneg_iff.mp somebody
      have links := represents.links.withCounter (s.counter + 1)
      rw [waiting] at links
      obtain ⟨s', releaseEq, links', relinks, counterEq'⟩ := links.tryRelease
      obtain ⟨next, fieldEq⟩ := Option.isSome_iff_exists.mp
        (relinks.isSome head (links.isSome List.mem_cons_self))
      refine ⟨s', ?_, ⟨?_, ?_⟩, relinks⟩
      · rw [State.release, if_neg debt]
        simp [releaseEq, State.coSpawn, fieldEq]
      · rw [counterEq', counterEq]
      · rw [FifoSemaphore.release, dif_neg somebody]
        simpa [FifoSemaphore.serve, waiting] using links'

/-- Consecutive calls of `release()` spawn as many coroutines in their
order. -/
theorem releaseEach (represents : Represents s a) (count : Nat)
    (fits : s.counter.toInt + count < 2 ^ 63) :
    ∃ s', s.releaseEach count = some (a.waiting.take count, s') ∧
      Represents s' (FifoSemaphore.release^[count] a) ∧
      (FifoSemaphore.release^[count] a).waiting = a.waiting.drop count ∧
      RecordHeap.Relinks a.waiting s.records s'.records := by
  induction count generalizing s a with
  | zero => exact ⟨s, rfl, represents, rfl, .refl _ _⟩
  | succ count ih =>
      have below := SignedCounter.ne_maxValue_of_lt
        (by omega : s.counter.toInt < 2 ^ 63 - 1)
      obtain ⟨middle, releaseEq, middleRepresents, relinks⟩ :=
        represents.release below
      have middleCounter : middle.counter.toInt = s.counter.toInt + 1 := by
        rw [middleRepresents.counter_eq, a.counter_release,
          represents.counter_eq]
      obtain ⟨s', restEq, represents', waitingEq, restRelinks⟩ :=
        ih middleRepresents (by omega)
      rw [a.release_waiting] at restEq waitingEq restRelinks
      refine ⟨s', ?_, ?_, ?_, relinks.trans restRelinks (List.tail_sublist _).subset⟩
      · rw [State.releaseEach, releaseEq]
        cases waiting : a.waiting with
        | nil => simp [restEq, waiting]
        | cons head rest => simp [restEq, waiting]
      · rwa [Function.iterate_succ_apply]
      · rw [Function.iterate_succ_apply, waitingEq, List.drop_tail]

end Represents

section Bulk

variable [DecidableEq Coro]

namespace State

def withCounter (s : State Coro) (counter : Int64) : State Coro :=
  { s with counter := counter }

/-- Several iterations of the loop of `release(update)`. -/
def drain (s : State Coro) : Nat → Option (List Coro × State Coro)
  | 0 => some ([], s)
  | count + 1 => do
      let released ← s.tryRelease
      let spawned ← released.2.coSpawn released.1
      let rest ← released.2.drain count
      some (spawned :: rest.1, rest.2)

variable (s : State Coro)

/-- `try_release` neither reads nor writes the counter. -/
theorem tryRelease_withCounter (counter : Int64) :
    (s.withCounter counter).tryRelease =
      s.tryRelease.map fun released =>
        (released.1, released.2.withCounter counter) := by
  have popEq (t : State Coro) (head : Coro) :
      (t.withCounter counter).popResumeHead head =
        (t.popResumeHead head).map fun released =>
          (released.1, released.2.withCounter counter) := by
    simp only [popResumeHead, withCounter]
    cases t.records head <;> rfl
  rw [tryRelease, tryRelease]
  simp only [withCounter]
  split
  · exact popEq s _
  · split
    · rfl
    · next node _ =>
        cases s.records.reverseOnto node none with
        | none => rfl
        | some reversed =>
            exact popEq
              { s with awaiting := none, records := reversed.1 } reversed.2

theorem drain_withCounter (counter : Int64) (count : Nat) :
    (s.withCounter counter).drain count =
      (s.drain count).map fun drained =>
        (drained.1, drained.2.withCounter counter) := by
  induction count generalizing s with
  | zero => rfl
  | succ count ih =>
      simp only [drain, tryRelease_withCounter]
      cases s.tryRelease with
      | none => rfl
      | some released =>
          have spawnEq : (released.2.withCounter counter).coSpawn released.1 =
              released.2.coSpawn released.1 := rfl
          simp only [Option.map_some, Option.bind_eq_bind, Option.bind_some,
            spawnEq, ih]
          cases released.2.coSpawn released.1 with
          | none => rfl
          | some spawned => cases released.2.drain count <;> rfl

/-- The loop runs once if `update` is zero. -/
theorem releaseLoop_zero : s.releaseLoop 0 = s.drain 1 := by
  rw [releaseLoop]
  rfl

/-- The loop runs until `update` is zero. -/
theorem releaseLoop_neg (count : Nat) :
    s.releaseLoop (-(count + 1)) = s.drain (count + 1) := by
  induction count generalizing s with
  | zero =>
      rw [releaseLoop]
      rfl
  | succ count ih =>
      have continues : -((count : Int) + 1) < 0 := by omega
      have updateEq : -((count + 1 : Nat) + 1 : Int) + 1 = -(count + 1) := by
        omega
      rw [releaseLoop, drain]
      simp only [updateEq, if_pos continues, ih]

theorem releaseEach_of_nonneg (nonneg : 0 ≤ s.counter) (count : Nat)
    (fits : s.counter.toInt + count ≤ 2 ^ 63) :
    s.releaseEach count =
      some ([], s.withCounter (s.counter + Int64.ofNat count)) := by
  induction count generalizing s with
  | zero => simp [releaseEach, withCounter]
  | succ count ih =>
      have restEq : (s.withCounter (s.counter + 1)).releaseEach count =
          some ([], s.withCounter
            (s.counter + 1 + Int64.ofNat count)) := by
        -- The last call may wrap the counter around.
        cases count with
        | zero => simp [releaseEach, withCounter]
        | succ count =>
            have below := SignedCounter.ne_maxValue_of_lt
              (by omega : s.counter.toInt < 2 ^ 63 - 1)
            have counterEq := SignedCounter.toInt_add_one below
            have notNegative := SignedCounter.nonneg_iff.mp nonneg
            refine ih (s.withCounter (s.counter + 1)) ?_ ?_
            · rw [SignedCounter.nonneg_iff, withCounter, counterEq]
              omega
            · rw [withCounter, counterEq]
              omega
      rw [SignedCounter.add_ofNat_succ, withCounter] at restEq
      simp [releaseEach, release, nonneg, restEq, withCounter]

/-- As long as the counter is negative, each `release()` runs the body of the
loop once. -/
theorem releaseEach_of_debt {count : Nat}
    (debt : s.counter.toInt + count ≤ 0) :
    s.releaseEach count =
      (s.withCounter (s.counter + Int64.ofNat count)).drain count := by
  induction count generalizing s with
  | zero => simp [releaseEach, drain, withCounter]
  | succ count ih =>
      have negative : ¬ 0 ≤ s.counter := by
        rw [SignedCounter.nonneg_iff]
        omega
      have below := SignedCounter.ne_maxValue_of_lt
        (by omega : s.counter.toInt < 2 ^ 63 - 1)
      have releaseEq : s.release = (do
          let released ← (s.withCounter (s.counter + 1)).tryRelease
          let spawned ← released.2.coSpawn released.1
          some ([spawned], released.2)) := by
        rw [release, if_neg negative]
        rfl
      rw [releaseEach, releaseEq, drain, tryRelease_withCounter,
        tryRelease_withCounter]
      cases s.tryRelease with
      | none => rfl
      | some released =>
          have restEq := ih (released.2.withCounter (s.counter + 1)) (by
            rw [withCounter, SignedCounter.toInt_add_one below]
            omega)
          have sumEq := SignedCounter.add_ofNat_succ s.counter count
          have spawnEq (counter : Int64) :
              (released.2.withCounter counter).coSpawn released.1 =
                released.2.coSpawn released.1 := rfl
          simp only [withCounter, sumEq] at restEq
          simp only [Option.map_some, Option.bind_eq_bind, Option.bind_some,
            spawnEq]
          cases released.2.coSpawn released.1 with
          | none => rfl
          | some spawned => simp [withCounter, restEq]

theorem releaseEach_add (first second : Nat) :
    s.releaseEach (first + second) =
      (s.releaseEach first).bind fun before =>
        (before.2.releaseEach second).map fun after =>
          (before.1 ++ after.1, after.2) := by
  induction first generalizing s with
  | zero =>
      rw [Nat.zero_add]
      cases resultEq : s.releaseEach second <;> simp [releaseEach, resultEq]
  | succ first ih =>
      rw [Nat.add_right_comm, releaseEach, releaseEach]
      cases s.release with
      | none => rfl
      | some released =>
          simp only [Option.bind_eq_bind, Option.bind_some, ih]
          cases released.2.releaseEach first with
          | none => rfl
          | some before =>
              cases resultEq : before.2.releaseEach second <;> simp [resultEq]

/-- `release(update)` is the same as `update` calls of `release()`, unless it
runs its loop for nothing or goes past the greatest value of the counter. -/
theorem releaseMany_eq_releaseEach {update : Int64} (notNegative : 0 ≤ update)
    (proper : update ≠ 0 ∨ 0 ≤ s.counter)
    (fits : s.counter.toInt + update.toInt ≤ 2 ^ 63) :
    s.releaseMany update = s.releaseEach update.toInt.toNat := by
  have updateNonneg := SignedCounter.nonneg_iff.mp notNegative
  have updateEq := SignedCounter.ofNat_toNat notNegative
  have lower := s.counter.le_toInt
  have upper := update.toInt_lt
  by_cases nonneg : 0 ≤ s.counter
  · rw [releaseMany, if_pos nonneg,
      s.releaseEach_of_nonneg nonneg _ (by omega), updateEq]
    rfl
  · have nonzero : update.toInt ≠ 0 := by
      rw [← Int64.toInt_zero]
      exact mt Int64.toInt_inj.mp (proper.resolve_right nonneg)
    rw [SignedCounter.nonneg_iff] at nonneg
    obtain ⟨count, countEq⟩ : ∃ count, count = update.toInt.toNat := ⟨_, rfl⟩
    rw [← countEq] at updateEq ⊢
    -- The loop runs as often as `release()` finds the counter negative.
    obtain ⟨debt, debtEq⟩ : ∃ debt : Nat, s.counter.toInt = -(debt + 1) :=
      ⟨(-s.counter.toInt - 1).toNat, by omega⟩
    obtain ⟨served, servedEq⟩ : ∃ served : Nat,
        served + 1 = min (debt + 1) count := ⟨min (debt + 1) count - 1, by omega⟩
    have loopEq : (max s.counter (-update)).toInt = -(served + 1) := by
      rw [SignedCounter.toInt_max, SignedCounter.toInt_neg notNegative]
      omega
    have manyEq : s.releaseMany update =
        (s.withCounter (s.counter + update)).drain (served + 1) := by
      rw [releaseMany, if_neg (mt SignedCounter.nonneg_iff.mp nonneg), loopEq]
      exact releaseLoop_neg ..
    have splitEq : count = served + 1 + (count - (served + 1)) := by omega
    rw [manyEq, splitEq, releaseEach_add, s.releaseEach_of_debt (by omega),
      drain_withCounter, drain_withCounter]
    cases s.drain (served + 1) with
    | none => rfl
    | some drained =>
        have counterEq : s.counter + Int64.ofNat (served + 1) +
            Int64.ofNat (count - (served + 1)) = s.counter + update := by
          rw [Int64.add_assoc, ← Int64.ofNat_add, ← splitEq, updateEq]
        have restEq : (drained.2.withCounter
            (s.counter + Int64.ofNat (served + 1))).releaseEach
              (count - (served + 1)) =
            some ([], drained.2.withCounter (s.counter + update)) := by
          rcases Nat.eq_zero_or_pos (count - (served + 1)) with noMore | more
          · rw [noMore] at counterEq ⊢
            rw [← counterEq]
            simp [releaseEach]
          · have servedInt : (Int64.ofNat (served + 1)).toInt =
                (served + 1 : Nat) := Int64.toInt_ofNat_of_lt (by omega)
            have sumEq : (s.counter + Int64.ofNat (served + 1)).toInt =
                s.counter.toInt + (served + 1 : Nat) := by
              rw [SignedCounter.toInt_add] <;> rw [servedInt] <;> omega
            rw [releaseEach_of_nonneg, withCounter, withCounter, withCounter,
              counterEq]
            · rw [SignedCounter.nonneg_iff, withCounter, sumEq]
              omega
            · rw [withCounter, sumEq]
              omega
        simp only [Option.map_some, Option.bind_some, restEq, List.append_nil]

/-- A call of `release()` finds a debt and nobody who waits. -/
theorem release_null (negative : ¬ 0 ≤ s.counter)
    (links : LinksWaiting s []) : s.release = none := by
  obtain ⟨awaiting, toResume, awaitingLinked, resumeLinked, splitEq⟩ :=
    links.lists
  obtain ⟨rfl, isEmpty⟩ := List.append_eq_nil_iff.mp splitEq.symm
  obtain rfl := List.reverse_eq_nil_iff.mp isEmpty
  have noneAwaiting : s.awaiting = none := awaitingLinked
  have noneToResume : s.toResume = none := resumeLinked
  simp [release, negative, tryRelease, noneAwaiting, noneToResume, coSpawn]

/-- Behind the greatest value of the counter is a debt that nobody has. -/
theorem releaseEach_of_overflow (nonneg : 0 ≤ s.counter)
    (links : LinksWaiting s []) {count : Nat}
    (overflows : 2 ^ 63 < s.counter.toInt + count) :
    s.releaseEach count = none := by
  have upper := s.counter.toInt_lt
  induction count generalizing s with
  | zero => omega
  | succ count ih =>
      have releaseEq : s.release =
          some ([], s.withCounter (s.counter + 1)) := by
        rw [release, if_pos nonneg]
        rfl
      rw [releaseEach, releaseEq]
      by_cases isMax : s.counter = .maxValue
      · rw [isMax, Int64.toInt_maxValue] at overflows
        obtain ⟨more, rfl⟩ : ∃ more, count = more + 1 :=
          ⟨count - 1, by omega⟩
        have wraps : ¬ 0 ≤ (s.withCounter (s.counter + 1)).counter := by
          rw [withCounter, isMax]
          exact (by decide : ¬ (0 : Int64) ≤ .maxValue + 1)
        have nullEq := release_null _ wraps (links.withCounter _)
        simp [releaseEach, nullEq]
      · have counterEq := SignedCounter.toInt_add_one isMax
        have notNegative := SignedCounter.nonneg_iff.mp nonneg
        have restEq := ih (s.withCounter (s.counter + 1))
          (SignedCounter.nonneg_iff.mpr (by rw [withCounter, counterEq]; omega))
          (links.withCounter _) (by rw [withCounter, counterEq]; omega)
          (Int64.toInt_lt _)
        simp [restEq]

end State

end Bulk

end CoContext.CountingSemaphoreQueue
