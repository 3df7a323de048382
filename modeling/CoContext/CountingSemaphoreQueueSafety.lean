import CoContext.CountingSemaphoreQueue
import CoContext.TransitionSystem

/-!
# A counting semaphore is a first in, first out semaphore

Over every sequence of calls within one context that does not take the counter
out of its range, the counter and the lists implement a first in, first out
semaphore.  A `release()` at the greatest value of the counter leaves a debt
that nobody has.  `release(update)` agrees with `update` calls of `release()`,
except beyond that value and except that `release(0)` spawns a coroutine if one
waits: its loop always runs once.
-/

namespace CoContext.CountingSemaphoreQueue

/-- The coroutines of a context around the semaphore. -/
structure Machine (Coro : Type*) where
  sem : State Coro
  /-- The spawned coroutines that were not resumed since. -/
  ready : List Coro
  undefined : Bool

inductive Action (Coro : Type*)
  | acquire (coro : Coro)
  | tryAcquire
  | release
  | releaseMany (update : Int64)
  | resume (coro : Coro)
  deriving DecidableEq

instance {Coro : Type*} : Inhabited (Action Coro) := ⟨.release⟩

variable {Coro : Type*}

def Machine.new (Coro : Type*) (desired : Int64) : Machine Coro where
  sem := .new Coro desired
  ready := []
  undefined := false

/-- The semaphore after an action. -/
def FifoSemaphore.after (a : FifoSemaphore Coro) :
    Action Coro → FifoSemaphore Coro
  | .acquire coro => a.acquire coro
  | .tryAcquire => a.tryAcquire
  | .release => a.release
  | .releaseMany update => FifoSemaphore.release^[update.toInt.toNat] a
  | .resume _ => a

/-- The counter stays in its range, and no `release(0)` is called while
somebody waits. -/
def Proper (s : Machine Coro) : Action Coro → Prop
  | .acquire _ => s.sem.counter ≠ .minValue
  | .release => s.sem.counter ≠ .maxValue
  | .releaseMany update =>
      0 ≤ update ∧ (update ≠ 0 ∨ 0 ≤ s.sem.counter) ∧
        s.sem.counter.toInt + update.toInt < 2 ^ 63
  | .tryAcquire | .resume _ => True

/-- The counter stays in its range, and only one permit is released at a
time. -/
def Single (s : Machine Coro) : Action Coro → Prop
  | .acquire _ => s.sem.counter ≠ .minValue
  | .release => s.sem.counter ≠ .maxValue
  | .releaseMany _ => False
  | .tryAcquire | .resume _ => True

def isRelease (_ : Machine Coro) : Action Coro → Bool
  | .release => true
  | .acquire _ | .tryAcquire | .releaseMany _ | .resume _ => false

def isAcquire (_ : Machine Coro) : Action Coro → Bool
  | .acquire _ => true
  | .tryAcquire | .release | .releaseMany _ | .resume _ => false

def isSuccess (s : Machine Coro) : Action Coro → Bool
  | .tryAcquire => s.sem.tryAcquire.1
  | .acquire _ | .release | .releaseMany _ | .resume _ => false

/-- The invariant that ties the machine to the semaphore that it
implements. -/
structure Sound (s : Machine Coro) (a : FifoSemaphore Coro) : Prop where
  represents : Represents s.sem a
  tracks : s.sem.records.Tracks a.waiting s.ready
  defined : s.undefined = false

theorem Sound.new {desired : Int64} (nonneg : 0 ≤ desired) :
    Sound (Machine.new Coro desired) (.new Coro desired.toInt.toNat) where
  represents := .new nonneg
  tracks := .empty
  defined := rfl

theorem Single.proper {s : Machine Coro} {action : Action Coro}
    (single : Single s action) : Proper s action := by
  cases action with
  | releaseMany update => exact single.elim
  | acquire | release => exact single
  | tryAcquire | resume => trivial

/-- What a single action adds to the counter. -/
theorem Sound.counter_after {s : Machine Coro} {a : FifoSemaphore Coro}
    {action : Action Coro} (sound : Sound s a) (single : Single s action) :
    (a.after action).counter = a.counter + (isRelease s action).toNat -
      (isAcquire s action).toNat - (isSuccess s action).toNat := by
  cases action with
  | acquire coro =>
      simp [FifoSemaphore.after, a.counter_acquire, isRelease, isAcquire,
        isSuccess]
  | tryAcquire =>
      have succeeds := sound.represents.tryAcquire.1
      by_cases hasPermit : 0 < a.permits
      · simp [FifoSemaphore.after, FifoSemaphore.counter_tryAcquire hasPermit,
          isRelease, isAcquire, isSuccess, succeeds, hasPermit]
      · have noPermit : a.permits = 0 := by omega
        simp [FifoSemaphore.after, FifoSemaphore.tryAcquire,
          FifoSemaphore.counter, isRelease, isAcquire, isSuccess, succeeds,
          noPermit]
  | release =>
      simp [FifoSemaphore.after, a.counter_release, isRelease, isAcquire,
        isSuccess]
  | releaseMany update => exact single.elim
  | resume coro =>
      simp [FifoSemaphore.after, isRelease, isAcquire, isSuccess]

variable [DecidableEq Coro]

/-- A call, with the coroutines that it spawns; a resumed coroutine destroys
its awaiter. -/
def State.call (s : State Coro) :
    Action Coro → Option (List Coro × State Coro)
  | .acquire coro => (s.acquire coro).map fun acquired => ([], acquired)
  | .tryAcquire => some ([], s.tryAcquire.2)
  | .release => s.release
  | .releaseMany update => s.releaseMany update
  | .resume coro => some ([], { s with records := s.records.destroy coro })

namespace Machine

/-- A suspended coroutine acquires nothing, and only a spawned one is
resumed. -/
def Enabled (s : Machine Coro) : Action Coro → Prop
  | .acquire coro => s.sem.records coro = none
  | .tryAcquire | .release | .releaseMany _ => True
  | .resume coro => coro ∈ s.ready

instance (s : Machine Coro) (action : Action Coro) :
    Decidable (s.Enabled action) := by
  cases action <;> unfold Enabled <;> infer_instance

/-- The spawned coroutines that an action does not resume. -/
def pending (s : Machine Coro) : Action Coro → List Coro
  | .resume coro => s.ready.erase coro
  | .acquire _ | .tryAcquire | .release | .releaseMany _ => s.ready

end Machine

def step (s : Machine Coro) (action : Action Coro) : Option (Machine Coro) :=
  if s.Enabled action then
    match s.sem.call action with
    | none => some { s with undefined := true }
    | some (spawned, sem) =>
        some { s with sem := sem, ready := s.pending action ++ spawned }
  else
    none

/-- Arbitrarily many coroutines of one context use a semaphore with `desired`
initial permits. -/
def system (Coro : Type*) [DecidableEq Coro] (desired : Int64) :
    TransitionSystem (Machine Coro) (Action Coro) where
  initial s := s = Machine.new Coro desired
  step := step

variable {desired : Int64}

/-- The first in, first out semaphore at a time of a run. -/
def semaphoreAt (run : (system Coro desired).Run) : Nat → FifoSemaphore Coro
  | 0 => .new Coro desired.toInt.toNat
  | time + 1 => (semaphoreAt run time).after (run.action time)

namespace Sound

variable {s s' : Machine Coro} {a : FifoSemaphore Coro} {action : Action Coro}

theorem acquire (sound : Sound s a) {coro : Coro}
    (absent : s.sem.records coro = none)
    (proper : Proper s (.acquire coro)) :
    ∃ sem, s.sem.call (.acquire coro) = some ([], sem) ∧
      Sound ⟨sem, s.ready, s.undefined⟩ (a.acquire coro) := by
  obtain ⟨sem, acquireEq, represents', recordsEq⟩ :=
    sound.represents.acquire absent proper
  refine ⟨sem, by simp [State.call, acquireEq], represents', ?_, sound.defined⟩
  dsimp only
  rw [recordsEq, FifoSemaphore.acquire]
  split
  · exact sound.tracks
  · exact sound.tracks.join absent s.sem.awaiting

theorem release (sound : Sound s a) (proper : Proper s .release) :
    ∃ sem, s.sem.call .release = some (a.waiting.head?.toList, sem) ∧
      Sound ⟨sem, s.ready ++ a.waiting.head?.toList, s.undefined⟩
        a.release := by
  obtain ⟨sem, releaseEq, represents', relinks⟩ := sound.represents.release proper
  refine ⟨sem, releaseEq, represents', ?_, sound.defined⟩
  apply sound.tracks.serve _ relinks
  rw [a.release_waiting]
  apply List.Perm.of_eq
  cases a.waiting <;> rfl

theorem releaseMany (sound : Sound s a) {update : Int64}
    (proper : Proper s (.releaseMany update)) :
    ∃ sem, s.sem.call (.releaseMany update) =
        some (a.waiting.take update.toInt.toNat, sem) ∧
      Sound ⟨sem, s.ready ++ a.waiting.take update.toInt.toNat, s.undefined⟩
        (FifoSemaphore.release^[update.toInt.toNat] a) := by
  obtain ⟨notNegative, proper, fits⟩ := proper
  have updateNonneg := SignedCounter.nonneg_iff.mp notNegative
  obtain ⟨sem, eachEq, represents', waitingEq, relinks⟩ :=
    sound.represents.releaseEach update.toInt.toNat (by omega)
  refine ⟨sem, ?_, represents', ?_, sound.defined⟩
  · rw [State.call,
      State.releaseMany_eq_releaseEach _ notNegative proper (by omega), eachEq]
  · dsimp only
    rw [waitingEq]
    exact sound.tracks.serve (.of_eq (List.take_append_drop ..)) relinks

theorem resume (sound : Sound s a) {coro : Coro} (isReady : coro ∈ s.ready) :
    Sound ⟨{ s.sem with records := s.sem.records.destroy coro },
      s.ready.erase coro, s.undefined⟩ a where
  represents :=
    ⟨sound.represents.counter_eq,
      sound.represents.links.destroy (sound.tracks.notMem_queue isReady)⟩
  tracks := sound.tracks.resume isReady
  defined := sound.defined

/-- Each proper action keeps the invariant. -/
theorem step (sound : Sound s a) (proper : Proper s action)
    (stepEq : CountingSemaphoreQueue.step s action = some s') :
    Sound s' (a.after action) := by
  simp only [CountingSemaphoreQueue.step, Option.ite_none_right_eq_some]
    at stepEq
  obtain ⟨isEnabled, stepEq⟩ := stepEq
  cases action with
  | acquire coro =>
      obtain ⟨sem, calls, sound'⟩ := sound.acquire isEnabled proper
      simp only [calls, Machine.pending, List.append_nil, Option.some.injEq]
        at stepEq
      subst stepEq
      exact sound'
  | tryAcquire =>
      obtain ⟨-, represents', recordsEq⟩ := sound.represents.tryAcquire
      simp only [State.call, Machine.pending, List.append_nil,
        Option.some.injEq] at stepEq
      subst stepEq
      refine ⟨represents', ?_, sound.defined⟩
      dsimp only
      rw [recordsEq]
      exact sound.tracks
  | release =>
      obtain ⟨sem, calls, sound'⟩ := sound.release proper
      simp only [calls, Option.some.injEq] at stepEq
      subst stepEq
      exact sound'
  | releaseMany update =>
      obtain ⟨sem, calls, sound'⟩ := sound.releaseMany proper
      simp only [calls, Option.some.injEq] at stepEq
      subst stepEq
      exact sound'
  | resume coro =>
      simp only [State.call, Machine.pending, List.append_nil,
        Option.some.injEq] at stepEq
      subst stepEq
      exact sound.resume isEnabled

/-- The invariant along a proper run. -/
theorem run {run : (system Coro desired).Run} (nonneg : 0 ≤ desired)
    (guarded : run.Guarded Proper)
    {time : Nat} (timeLe : time ≤ run.length) :
    Sound (run.state time) (semaphoreAt run time) := by
  induction time with
  | zero =>
      have isNew : run.state 0 = Machine.new Coro desired := run.starts
      rw [isNew]
      exact new nonneg
  | succ time ih =>
      exact (ih (by omega)).step (guarded time (by omega))
        (run.steps time (by omega))

end Sound

/-- How many of the first actions of a run are such an event. -/
def tally (run : (system Coro desired).Run)
    (event : Machine Coro → Action Coro → Bool) (time : Nat) : Nat :=
  (List.range time).countP fun step =>
    event (run.state step) (run.action step)

/-- The semaphore behaves in a run like the first in, first out semaphore. -/
structure RefinesSemaphore (run : (system Coro desired).Run) : Prop where
  defined : ∀ time ≤ run.length, (run.state time).undefined = false
  /-- The waiting coroutines are those of `to_resume` followed by the reverse
  of `awaiting`. -/
  lists : ∀ time ≤ run.length, ∃ awaiting toResume : List Coro,
    (run.state time).sem.records.Linked (run.state time).sem.awaiting
        awaiting ∧
      (run.state time).sem.records.Linked (run.state time).sem.toResume
        toResume ∧
      (semaphoreAt run time).waiting = toResume ++ awaiting.reverse
  /-- They are the suspended coroutines that were not spawned. -/
  suspended : ∀ time ≤ run.length, (semaphoreAt run time).waiting.Nodup ∧
    ∀ coro, coro ∈ (semaphoreAt run time).waiting ↔
      ((run.state time).sem.records coro).isSome ∧
        coro ∉ (run.state time).ready
  counter_eq : ∀ time ≤ run.length, (run.state time).sem.counter.toInt =
    desired.toInt + tally run isRelease time - tally run isAcquire time -
      tally run isSuccess time
  counter_nonneg : ∀ time ≤ run.length,
    (semaphoreAt run time).waiting = [] → 0 ≤ (run.state time).sem.counter
  counter_debt : ∀ time ≤ run.length,
    (semaphoreAt run time).waiting ≠ [] →
      (run.state time).sem.counter.toInt =
        -(semaphoreAt run time).waiting.length
  tryAcquire : ∀ time < run.length, run.action time = .tryAcquire →
    ((run.state time).sem.tryAcquire.1 = true ↔
      0 < (run.state time).sem.counter)
  release : ∀ time < run.length, run.action time = .release →
    ∃ sem, (run.state time).sem.release =
      some ((semaphoreAt run time).waiting.head?.toList, sem)

theorem tally_succ (run : (system Coro desired).Run)
    (event : Machine Coro → Action Coro → Bool) (time : Nat) :
    tally run event (time + 1) = tally run event time +
      (event (run.state time) (run.action time)).toNat := by
  rw [tally, List.range_succ, List.countP_append, tally]
  cases occurs : event (run.state time) (run.action time) <;> simp [occurs]

theorem semaphoreAt_counter {run : (system Coro desired).Run}
    (nonneg : 0 ≤ desired) (guarded : run.Guarded Single) {time : Nat}
    (timeLe : time ≤ run.length) :
    (semaphoreAt run time).counter =
      desired.toInt + tally run isRelease time - tally run isAcquire time -
        tally run isSuccess time := by
  have proper : run.Guarded Proper := fun step stepLt =>
    (guarded step stepLt).proper
  induction time with
  | zero =>
      have represents : Represents (State.new Coro desired) _ := .new nonneg
      simpa [semaphoreAt, tally, State.new] using represents.counter_eq.symm
  | succ time ih =>
      have before := ih (by omega)
      have sound := Sound.run nonneg proper (by omega : time ≤ run.length)
      have added := sound.counter_after (guarded time (by omega))
      rw [semaphoreAt, added, before, tally_succ, tally_succ, tally_succ]
      omega

/-- Within one context a counting semaphore is a first in, first out semaphore
as long as its counter stays in its range. -/
theorem run_refines_semaphore (nonneg : 0 ≤ desired)
    (run : (system Coro desired).Run) (guarded : run.Guarded Single) :
    RefinesSemaphore run := by
  have proper : run.Guarded Proper := fun step stepLt =>
    (guarded step stepLt).proper
  exact {
    defined := fun time timeLe => (Sound.run nonneg proper timeLe).defined
    lists := fun time timeLe =>
      (Sound.run nonneg proper timeLe).represents.links.lists
    suspended := fun time timeLe => by
      have tracks := (Sound.run nonneg proper timeLe).tracks
      exact ⟨tracks.queue_nodup, fun coro => tracks.mem_queue_iff⟩
    counter_eq := fun time timeLe => by
      rw [(Sound.run nonneg proper timeLe).represents.counter_eq,
        semaphoreAt_counter nonneg guarded timeLe]
    counter_nonneg := fun time timeLe nobody =>
      (Sound.run nonneg proper timeLe).represents.nonneg_iff.mpr nobody
    counter_debt := fun time timeLe somebody => by
      rw [(Sound.run nonneg proper timeLe).represents.counter_eq,
        FifoSemaphore.counter_of_waiting somebody]
    tryAcquire := fun time timeLt _ => by
      have sound := Sound.run nonneg proper (Nat.le_of_lt timeLt)
      rw [sound.represents.tryAcquire.1, sound.represents.pos_iff,
        decide_eq_true_iff]
    release := fun time timeLt isRelease => by
      have sound := Sound.run nonneg proper (Nat.le_of_lt timeLt)
      have below := proper time timeLt
      rw [isRelease] at below
      obtain ⟨sem, releaseEq, -⟩ := sound.represents.release below
      exact ⟨sem, releaseEq⟩ }

/-- A permit is taken, and then coroutine 0 waits. -/
def waitingRun : (system Nat 1).Run :=
  .ofActions (Machine.new Nat 1) rfl [.tryAcquire, .acquire 0] (by decide)

instance (s : Machine Coro) : DecidablePred (Single s)
  | .acquire _ | .release => inferInstanceAs (Decidable (_ ≠ _))
  | .releaseMany _ => isFalse id
  | .tryAcquire | .resume _ => isTrue trivial

theorem run_refines_semaphore_waiting : RefinesSemaphore waitingRun := by
  apply run_refines_semaphore (by decide)
  unfold TransitionSystem.Run.Guarded
  decide

/-- A permit is released that the counter has no value for. -/
def wrappingRun : (system Nat .maxValue).Run :=
  .ofActions (Machine.new Nat .maxValue) rfl [.release] (by decide)

theorem run_refines_semaphore_fails :
    ¬ ∀ desired : Int64, 0 ≤ desired → ∀ run : (system Nat desired).Run,
      (∀ time < run.length, ∀ update, run.action time ≠ .releaseMany update) →
        RefinesSemaphore run := by
  intro refines
  have single : ∀ time < wrappingRun.length, ∀ update,
      wrappingRun.action time ≠ .releaseMany update := by
    intro time timeLt update isMany
    obtain rfl : time = 0 := Nat.lt_one_iff.mp timeLt
    have isRelease : wrappingRun.action 0 = .release := rfl
    simp [isRelease] at isMany
  have refined := refines .maxValue (by decide) wrappingRun single
  have negative : ¬ 0 ≤ (wrappingRun.state 1).sem.counter := by decide
  exact negative (refined.counter_nonneg 1 (by decide) rfl)

/-- `release(update)` does what `update` calls of `release()` do: it leaves the
same counter and the same waiting coroutines and spawns the others, and it
spawns nobody who does not wait. -/
structure Agrees (s : State Coro) (waiting : List Coro) (update : Int64) :
    Prop where
  same : ∃ spawned many each, s.releaseMany update = some (spawned, many) ∧
    s.releaseEach update.toInt.toNat = some (spawned, each) ∧
    many.counter = each.counter ∧
    LinksWaiting many (waiting.drop update.toInt.toNat) ∧
    LinksWaiting each (waiting.drop update.toInt.toNat) ∧
    spawned = waiting.take update.toInt.toNat ∧
    spawned.length = min update.toInt.toNat waiting.length

/-- `release(0)` spawns a coroutine that waits. -/
theorem Represents.releaseMany_zero {s : State Coro} {a : FifoSemaphore Coro}
    (represents : Represents s a) {head : Coro} {rest : List Coro}
    (waiting : a.waiting = head :: rest) :
    ∃ s', s.releaseMany 0 = some ([head], s') := by
  have debt : ¬ 0 ≤ s.counter := by
    rw [represents.nonneg_iff, waiting]
    simp
  have links := represents.links.withCounter (s.counter + 0)
  rw [waiting] at links
  obtain ⟨s', releaseEq, -, relinks, -⟩ := links.tryRelease
  obtain ⟨next, fieldEq⟩ := Option.isSome_iff_exists.mp
    (relinks.isSome head (links.isSome List.mem_cons_self))
  have updateEq : (max s.counter (-0)).toInt = 0 := by
    have negative := mt SignedCounter.nonneg_iff.mpr debt
    rw [SignedCounter.toInt_max, SignedCounter.toInt_neg (Int64.le_refl 0),
      Int64.toInt_zero]
    omega
  refine ⟨s', ?_⟩
  simp only [State.releaseMany, if_neg debt]
  rw [updateEq, State.releaseLoop_zero]
  simp only [State.drain, releaseEq, State.coSpawn, fieldEq,
    Option.bind_eq_bind, Option.bind_some, Option.map_some]

/-- What `releaseEach` does, also where its last call takes the counter out of
its range. -/
theorem Represents.releaseEach_links {s : State Coro} {a : FifoSemaphore Coro}
    (represents : Represents s a) {count : Nat} (countLt : count < 2 ^ 63)
    (fits : s.counter.toInt + count ≤ 2 ^ 63) :
    ∃ s', s.releaseEach count = some (a.waiting.take count, s') ∧
      LinksWaiting s' (a.waiting.drop count) := by
  by_cases nobody : a.waiting = []
  · have nonneg := represents.nonneg_iff.mpr nobody
    have links := represents.links.withCounter
      (s.counter + Int64.ofNat count)
    rw [nobody] at links ⊢
    rw [s.releaseEach_of_nonneg nonneg count fits, List.take_nil,
      List.drop_nil]
    exact ⟨_, rfl, links⟩
  · have negative :=
      mt SignedCounter.nonneg_iff.mpr (mt represents.nonneg_iff.mp nobody)
    obtain ⟨s', eachEq, represents', waitingEq, -⟩ :=
      represents.releaseEach count (by omega)
    exact ⟨s', eachEq, waitingEq ▸ represents'.links⟩

theorem Represents.agrees_iff {s : State Coro} {a : FifoSemaphore Coro}
    (represents : Represents s a) {update : Int64}
    (notNegative : 0 ≤ update) :
    Agrees s a.waiting update ↔
      (update ≠ 0 ∨ a.waiting = []) ∧
        s.counter.toInt + update.toInt ≤ 2 ^ 63 := by
  have updateNonneg := SignedCounter.nonneg_iff.mp notNegative
  have updateLt := update.toInt_lt
  constructor
  · intro agrees
    obtain ⟨spawned, many, each, manyEq, eachEq, -, -, -, spawnedEq, -⟩ :=
      agrees.same
    constructor
    · by_contra improper
      obtain ⟨rfl, somebody⟩ := not_or.mp improper |>.imp not_not.mp id
      obtain ⟨head, rest, waiting⟩ := List.exists_cons_of_ne_nil somebody
      obtain ⟨s', zeroEq⟩ := represents.releaseMany_zero waiting
      rw [zeroEq, spawnedEq] at manyEq
      simp at manyEq
    · by_contra overflows
      have nonneg : 0 ≤ s.counter := SignedCounter.nonneg_iff.mpr (by omega)
      have links := represents.links
      rw [represents.nonneg_iff.mp nonneg] at links
      rw [s.releaseEach_of_overflow nonneg links (by omega)] at eachEq
      contradiction
  · rintro ⟨proper, fits⟩
    obtain ⟨each, eachEq, links⟩ :=
      represents.releaseEach_links
        (by omega : update.toInt.toNat < 2 ^ 63) (by omega)
    have manyEq := s.releaseMany_eq_releaseEach notNegative
      (proper.imp_right represents.nonneg_iff.mpr) fits
    exact ⟨_, each, each, manyEq.trans eachEq, eachEq, rfl, links, links, rfl,
      by rw [List.length_take]⟩

end CoContext.CountingSemaphoreQueue
