import CoContext.FifoHistory
import CoContext.IntrusiveList
import CoContext.TransitionSystem
import Mathlib.Tactic.Simps.Basic

/-!
# The coroutine mutex

The atomic word `awaiting` of a `mutex` is `not_locked`, `locked_no_awaiting`
or the address of the newest `lock_awaiter` on a stack of waiters; `to_resume`
is a second list, in arrival order, that belongs to whoever holds the lock.
A `lock_awaiter` lives in the frame of the coroutine that waits with it, so
the coroutine names it.

Every access to `awaiting` or `to_resume` and every iteration of the reversal
loop is one step.  `register_awaiting` is run by the locking coroutine itself
or, for a coroutine asleep in `condition_variable::wait`, by a notifier.
-/

namespace CoContext.Mutex

/-- The values of the atomic word `awaiting`. -/
inductive Word (Coro : Type*)
  | notLocked
  | lockedNoAwaiting
  | awaiter (top : Coro)
  deriving DecidableEq

/-- The word read as a `lock_awaiter *`; `locked_no_awaiting` is null. -/
def Word.pointer {Coro : Type*} : Word Coro → Option Coro
  | .awaiter top => some top
  | .notLocked | .lockedNoAwaiting => none

/-- The position of an agent inside `register_awaiting`.  The flag records
that a notifier runs the call, which spawns the awaiter when the call returns
`false`; a coroutine that runs its own call just continues. -/
inductive RegisterPc (Coro : Type*)
  | idle
  | load (awaiter : Coro) (byNotifier : Bool)
  | compareExchange (awaiter : Coro) (byNotifier : Bool)
      (oldState : Word Coro)
  deriving DecidableEq

/-- The awaiter on whose behalf an agent runs `register_awaiting`. -/
def RegisterPc.target {Coro : Type*} : RegisterPc Coro → Option Coro
  | .idle => none
  | .load awaiter _ | .compareExchange awaiter _ _ => some awaiter

/-- A notifier runs the `register_awaiting` call. -/
def RegisterPc.byNotifier {Coro : Type*} : RegisterPc Coro → Bool
  | .idle => false
  | .load _ byNotifier | .compareExchange _ byNotifier _ => byNotifier

/-- The position of a coroutine in its critical section and in `unlock`. -/
inductive HolderPc (Coro : Type*)
  | outside
  | holding
  | unlockEntry
  | readToResume
  | releaseUncontended
  | exchangeAwaiting
  | reverse (node : Coro) (resumeHead : Option Coro)
  | popResumeHead (resumeHead : Option Coro)
  | spawnResumeHead (resumeHead : Coro)
  | assertFailed
  deriving DecidableEq

/-- The state of the `lock_awaiter` of a coroutine.  It is `suspended` once
`register_awaiting` returned `true` or a notifier spawned the coroutine. -/
inductive AwaiterStatus
  | idle
  | registering
  | suspended
  deriving DecidableEq

structure State (Coro : Type*) where
  awaiting : Word Coro
  toResume : Option Coro
  next : Coro → Option Coro
  registerPc : Coro → RegisterPc Coro
  holderPc : Coro → HolderPc Coro
  status : Coro → AwaiterStatus
  /-- How often the handle of a coroutine is queued for resumption. -/
  ready : Coro → Nat

/-- A freshly constructed mutex that no coroutine uses yet. -/
def State.new (Coro : Type*) : State Coro where
  awaiting := .notLocked
  toResume := none
  next _ := none
  registerPc _ := .idle
  holderPc _ := .outside
  status _ := .idle
  ready _ := 0

inductive Action (Coro : Type*)
  | lock (coro : Coro)
  | registerFor (notifier waiter : Coro)
  | tryLock (coro : Coro)
  | unlock (coro : Coro)
  | runRegister (agent : Coro) (spuriousFailure : Bool)
  | runUnlock (coro : Coro)
  | resume (coro : Coro)
  deriving DecidableEq

instance [Inhabited Coro] : Inhabited (Action Coro) := ⟨.resume default⟩

variable {Coro : Type*} [DecidableEq Coro]

namespace State

@[simps -fullyApplied]
def setHolder (s : State Coro) (coro : Coro) (pc : HolderPc Coro) :
    State Coro :=
  { s with holderPc := Function.update s.holderPc coro pc }

/-- `worker.co_spawn_auto(handle)`: the handle joins a ready queue. -/
@[simps -fullyApplied]
def coSpawn (s : State Coro) (coro : Coro) : State Coro :=
  { s with ready := Function.update s.ready coro (s.ready coro + 1) }

/-- Enter `register_awaiting` for the awaiter of `awaiter`. -/
def startRegister (s : State Coro) (agent awaiter : Coro)
    (byNotifier : Bool) : State Coro :=
  { s with
    registerPc := Function.update s.registerPc agent (.load awaiter byNotifier)
    status := Function.update s.status awaiter .registering }

/-- A failed `compare_exchange_weak` reloads `old_state`; the loop repeats. -/
def retryRegister (s : State Coro) (agent awaiter : Coro)
    (byNotifier : Bool) : State Coro :=
  { s with
    registerPc := Function.update s.registerPc agent
      (.compareExchange awaiter byNotifier s.awaiting) }

/-- `this->next = old_state`. -/
def linkAwaiter (s : State Coro) (awaiter : Coro) (oldState : Word Coro) :
    State Coro :=
  { s with next := Function.update s.next awaiter oldState.pointer }

/-- The exchange from `not_locked` succeeds and `register_awaiting` returns
`false`: the caller continues as owner, a notifier spawns the new owner. -/
def takeLock (s : State Coro) (agent awaiter : Coro) (byNotifier : Bool) :
    State Coro :=
  let locked := { s with
    awaiting := .lockedNoAwaiting
    registerPc := Function.update s.registerPc agent .idle }
  if byNotifier then
    { locked.coSpawn awaiter with
      status := Function.update s.status awaiter .suspended }
  else
    { locked.setHolder awaiter .holding with
      status := Function.update s.status awaiter .idle }

/-- The awaiter becomes the top of the stack and `register_awaiting` returns
`true`. -/
def pushAwaiter (s : State Coro) (agent awaiter : Coro) : State Coro :=
  { s with
    awaiting := .awaiter awaiter
    registerPc := Function.update s.registerPc agent .idle
    status := Function.update s.status awaiter .suspended }

/-- The next atomic step of the `register_awaiting` call run by `agent`. -/
def runRegister (s : State Coro) (agent : Coro) (spuriousFailure : Bool) :
    Option (State Coro) :=
  match s.registerPc agent with
  | .idle => none
  | .load awaiter byNotifier => some (s.retryRegister agent awaiter byNotifier)
  | .compareExchange awaiter byNotifier oldState =>
      if oldState = .notLocked then
        if s.awaiting = oldState ∧ spuriousFailure = false then
          some (s.takeLock agent awaiter byNotifier)
        else
          some (s.retryRegister agent awaiter byNotifier)
      else
        if s.awaiting = oldState ∧ spuriousFailure = false then
          some ((s.linkAwaiter awaiter oldState).pushAwaiter agent awaiter)
        else
          some ((s.linkAwaiter awaiter oldState).retryRegister
            agent awaiter byNotifier)

/-- `try_lock`: one `compare_exchange_strong`. -/
def tryLock (s : State Coro) (coro : Coro) : State Coro :=
  if s.awaiting = .notLocked then
    { s.setHolder coro .holding with awaiting := .lockedNoAwaiting }
  else
    s

/-- The next atomic step of the `unlock` call run by `coro`. -/
def runUnlock (s : State Coro) (coro : Coro) : Option (State Coro) :=
  match s.holderPc coro with
  | .outside | .holding | .assertFailed => none
  | .unlockEntry =>
      if s.awaiting = .notLocked then
        some (s.setHolder coro .assertFailed)
      else
        some (s.setHolder coro .readToResume)
  | .readToResume =>
      match s.toResume with
      | none => some (s.setHolder coro .releaseUncontended)
      | some head => some (s.setHolder coro (.popResumeHead (some head)))
  | .releaseUncontended =>
      if s.awaiting = .lockedNoAwaiting then
        some { s.setHolder coro .outside with awaiting := .notLocked }
      else
        some (s.setHolder coro .exchangeAwaiting)
  | .exchangeAwaiting =>
      match s.awaiting with
      | .awaiter top =>
          some { s.setHolder coro (.reverse top none) with
            awaiting := .lockedNoAwaiting }
      | .notLocked | .lockedNoAwaiting =>
          some { s.setHolder coro .assertFailed with
            awaiting := .lockedNoAwaiting }
  | .reverse node resumeHead =>
      let reversed :=
        { s with next := Function.update s.next node resumeHead }
      match s.next node with
      | some tmp => some (reversed.setHolder coro (.reverse tmp (some node)))
      | none => some (reversed.setHolder coro (.popResumeHead (some node)))
  | .popResumeHead resumeHead =>
      match resumeHead with
      | none => some (s.setHolder coro .assertFailed)
      | some head =>
          some { s.setHolder coro (.spawnResumeHead head) with
            toResume := s.next head }
  | .spawnResumeHead head => some ((s.setHolder coro .outside).coSpawn head)

/-- A worker resumes the handle of a coroutine, which now owns the lock. -/
def resume (s : State Coro) (coro : Coro) : State Coro :=
  { s.setHolder coro .holding with
    status := Function.update s.status coro .idle
    ready := Function.update s.ready coro (s.ready coro - 1) }

end State

def step (s : State Coro) : Action Coro → Option (State Coro)
  | .lock coro =>
      if s.registerPc coro = .idle ∧ s.status coro = .idle then
        some (s.startRegister coro coro false)
      else
        none
  | .registerFor notifier waiter =>
      if s.registerPc notifier = .idle ∧ s.status waiter = .idle then
        some (s.startRegister notifier waiter true)
      else
        none
  | .tryLock coro => some (s.tryLock coro)
  | .unlock coro =>
      if s.holderPc coro = .holding then
        some (s.setHolder coro .unlockEntry)
      else
        none
  | .runRegister agent spuriousFailure => s.runRegister agent spuriousFailure
  | .runUnlock coro => s.runUnlock coro
  | .resume coro => if 0 < s.ready coro then some (s.resume coro) else none

/-- The mutex used by arbitrarily many coroutines in any interleaving. -/
def system (Coro : Type*) [DecidableEq Coro] :
    TransitionSystem (State Coro) (Action Coro) where
  initial s := s = State.new Coro
  step := step

section Steps

variable {s s' : State Coro}

/-- A step of `register_awaiting` goes on with the same awaiter, or the call
returns and the awaiter is suspended or goes on as the owner. -/
theorem runRegister_update {agent : Coro} {spuriousFailure : Bool}
    (stepEq : s.runRegister agent spuriousFailure = some s') :
    ∃ awaiter, (s.registerPc agent).target = some awaiter ∧
      ((∃ pc, s'.registerPc = Function.update s.registerPc agent pc ∧
          pc.target = some awaiter ∧
          pc.byNotifier = (s.registerPc agent).byNotifier ∧
          s'.status = s.status ∧ s'.holderPc = s.holderPc) ∨
        (s'.registerPc = Function.update s.registerPc agent .idle ∧
          ((s'.status = Function.update s.status awaiter .suspended ∧
              s'.holderPc = s.holderPc) ∨
            ((s.registerPc agent).byNotifier = false ∧
              s'.status = Function.update s.status awaiter .idle ∧
              s'.holderPc =
                Function.update s.holderPc awaiter .holding)))) := by
  cases position : s.registerPc agent with
  | idle => simp [State.runRegister, position] at stepEq
  | load awaiter byNotifier =>
      simp only [State.runRegister, position, Option.some.injEq] at stepEq
      subst stepEq
      exact ⟨awaiter, rfl, Or.inl ⟨_, rfl, rfl, rfl, rfl, rfl⟩⟩
  | compareExchange awaiter byNotifier oldState =>
      simp only [State.runRegister, position] at stepEq
      refine ⟨awaiter, rfl, ?_⟩
      by_cases wasFree : oldState = .notLocked
      · rw [if_pos wasFree] at stepEq
        split at stepEq <;> rw [Option.some.injEq] at stepEq <;> subst stepEq
        · right
          cases byNotifier with
          | true => exact ⟨rfl, Or.inl ⟨rfl, rfl⟩⟩
          | false => exact ⟨rfl, Or.inr ⟨rfl, rfl, rfl⟩⟩
        · exact Or.inl ⟨_, rfl, rfl, rfl, rfl, rfl⟩
      · rw [if_neg wasFree] at stepEq
        split at stepEq <;> rw [Option.some.injEq] at stepEq <;> subst stepEq
        · exact Or.inr ⟨rfl, Or.inl ⟨rfl, rfl⟩⟩
        · exact Or.inl ⟨_, rfl, rfl, rfl, rfl, rfl⟩

/-- A step of `unlock` moves its own coroutine only. -/
theorem runUnlock_update {coro : Coro} (stepEq : s.runUnlock coro = some s') :
    s.holderPc coro ≠ .holding ∧ s'.status = s.status ∧
      s'.registerPc = s.registerPc ∧
      ∃ pc, s'.holderPc = Function.update s.holderPc coro pc := by
  cases position : s.holderPc coro with
  | outside | holding | assertFailed =>
      simp [State.runUnlock, position] at stepEq
  | unlockEntry | releaseUncontended =>
      simp only [State.runUnlock, position] at stepEq
      split at stepEq <;> rw [Option.some.injEq] at stepEq <;> subst stepEq <;>
        exact ⟨by simp, rfl, rfl, _, rfl⟩
  | readToResume | exchangeAwaiting | reverse | popResumeHead =>
      simp only [State.runUnlock, position] at stepEq
      split at stepEq <;> rw [Option.some.injEq] at stepEq <;> subst stepEq <;>
        exact ⟨by simp, rfl, rfl, _, rfl⟩
  | spawnResumeHead head =>
      simp only [State.runUnlock, position, Option.some.injEq] at stepEq
      subst stepEq
      exact ⟨by simp, rfl, rfl, _, rfl⟩

end Steps

/-- The effect of a step on the order of the waiters: a push onto `awaiting`,
a hand-over by `unlock`, or an acquisition that did not wait. -/
def observe (s : State Coro) : Action Coro → Option (FifoEvent Coro)
  | .tryLock coro =>
      if s.awaiting = .notLocked then some (.bypassed coro) else none
  | .runRegister agent spuriousFailure =>
      match s.registerPc agent with
      | .compareExchange awaiter _ oldState =>
          if s.awaiting = oldState ∧ spuriousFailure = false then
            if oldState = .notLocked then
              some (.bypassed awaiter)
            else
              some (.enqueued awaiter)
          else
            none
      | _ => none
  | .runUnlock coro =>
      match s.holderPc coro with
      | .spawnResumeHead head => some (.served head)
      | _ => none
  | _ => none

/-- A coroutine owns the lock: it is in its critical section or still inside
`unlock`, or its handle was spawned as the new owner. -/
def State.Owns (s : State Coro) (coro : Coro) : Prop :=
  s.holderPc coro ≠ .outside ∨ 0 < s.ready coro

/-- The places where a suspended coroutine can be found. -/
inductive Location
  | awaitingStack
  | unlockPrivate
  | toResumeList
  | handedLock

/-- The nodes that a running `unlock` holds privately: the list taken from
`awaiting` before it is stored in `to_resume`, and the popped head. -/
def State.PrivateNode (s : State Coro) (coro : Coro) :
    HolderPc Coro → Prop
  | .reverse node resumeHead =>
      LinkedFrom s.next (some node) coro ∨ LinkedFrom s.next resumeHead coro
  | .popResumeHead resumeHead =>
      s.toResume = none ∧ LinkedFrom s.next resumeHead coro
  | .spawnResumeHead head => coro = head
  | _ => False

def State.LocatedAt (s : State Coro) (coro : Coro) : Location → Prop
  | .awaitingStack => LinkedFrom s.next s.awaiting.pointer coro
  | .unlockPrivate => ∃ holder, s.PrivateNode coro (s.holderPc holder)
  | .toResumeList => LinkedFrom s.next s.toResume coro
  | .handedLock => s.ready coro = 1

end CoContext.Mutex
