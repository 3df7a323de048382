import CoContext.ChannelStorage
import CoContext.TransitionSystem
import Mathlib.Logic.Function.Basic

/-!
# The buffered channel

`release`, `acquire` and `drop` run with `m_mtx` held from `lock` to `unlock`
except while they sleep in `cv.wait`, which unlocks `m_mtx` and returns with
it locked again.  Here `m_mtx` is only its owner, and a sleeping coroutine may
be woken whenever `m_mtx` is free: every order of critical sections that
mutual exclusion allows is a run, whatever the condition variables do.

The code between two suspension points with `m_mtx` held is not interleaved
with other accesses to the storage, so the update of the storage is one step.
-/

namespace CoContext.Channel

inductive Operation (T : Type*)
  | release (item : T)
  | acquire
  | drop
  deriving DecidableEq

/-- The position of a coroutine; `carried` is the element that `acquire` took
and will return. -/
inductive Pc (T : Type*)
  | idle
  | lock (operation : Operation T)
  | check (operation : Operation T)
  | testPred (operation : Operation T)
  | sleeping (operation : Operation T)
  | update (operation : Operation T)
  | unlock (operation : Operation T) (carried : Option T)
  | notify (operation : Operation T) (carried : Option T)
  | undefined
  deriving DecidableEq

/-- The positions inside the critical section. -/
def Pc.Holding {T : Type*} : Pc T → Prop
  | .check _ | .testPred _ | .update _ | .unlock _ _ | .undefined => True
  | .idle | .lock _ | .sleeping _ | .notify _ _ => False

namespace Storage

variable {T Buffer : Type*} (storage : Storage T Buffer)

/-- The condition on which an operation waits: `empty()` or `full()`. -/
def blocked (buffer : Buffer) : Operation T → Bool
  | .release _ => storage.full buffer
  | .acquire | .drop => storage.empty buffer

/-- The update of an operation, with the element that `acquire` took. -/
def apply (buffer : Buffer) : Operation T → Option (Option T × Buffer)
  | .release item => (storage.put buffer item).map fun rest => (none, rest)
  | .acquire =>
      (storage.take buffer).map fun taken => (some taken.1, taken.2)
  | .drop => (storage.discard buffer).map fun rest => (none, rest)

/-- The element that an operation puts in. -/
def putBy : Operation T → Option T
  | .release item => some item
  | .acquire | .drop => none

/-- The element that an operation takes out. -/
def takenBy (buffer : Buffer) : Operation T → Option T
  | .release _ => none
  | .acquire => (storage.take buffer).map Prod.fst
  | .drop => storage.front buffer

/-- The slot that an operation constructs holds nothing, and the slot that it
destroys holds an element. -/
def SlotReady (buffer : Buffer) : Operation T → Prop
  | .release _ => storage.back buffer = none
  | .acquire | .drop => (storage.front buffer).isSome

end Storage

structure State (Coro T Buffer : Type*) where
  buffer : Buffer
  /-- The owner of `m_mtx`. -/
  holder : Option Coro
  pc : Coro → Pc T

inductive Action (Coro T : Type*)
  | call (coro : Coro) (operation : Operation T)
  | run (coro : Coro)
  deriving DecidableEq

instance {Coro T : Type*} [Inhabited Coro] : Inhabited (Action Coro T) :=
  ⟨.run default⟩

variable {Coro T Buffer : Type*}

def State.new (Coro : Type*) (storage : Storage T Buffer) :
    State Coro T Buffer where
  buffer := storage.new
  holder := none
  pc _ := .idle

variable [DecidableEq Coro]

namespace State

def setPc (s : State Coro T Buffer) (coro : Coro) (pc : Pc T) :
    State Coro T Buffer :=
  { s with pc := Function.update s.pc coro pc }

/-- Lock `m_mtx` if it is free. -/
def lockTo (s : State Coro T Buffer) (coro : Coro) (pc : Pc T) :
    Option (State Coro T Buffer) :=
  if s.holder = none then
    some { s.setPc coro pc with holder := some coro }
  else
    none

def unlockTo (s : State Coro T Buffer) (coro : Coro) (pc : Pc T) :
    State Coro T Buffer :=
  { s.setPc coro pc with holder := none }

/-- The next step of the operation of a coroutine. -/
def run (storage : Storage T Buffer) (s : State Coro T Buffer)
    (coro : Coro) : Option (State Coro T Buffer) :=
  match s.pc coro with
  | .idle | .undefined => none
  | .lock operation => s.lockTo coro (.check operation)
  | .check operation =>
      if storage.blocked s.buffer operation then
        some (s.setPc coro (.testPred operation))
      else
        some (s.setPc coro (.update operation))
  | .testPred operation =>
      if storage.blocked s.buffer operation then
        some (s.unlockTo coro (.sleeping operation))
      else
        some (s.setPc coro (.update operation))
  | .sleeping operation => s.lockTo coro (.testPred operation)
  | .update operation =>
      match storage.apply s.buffer operation with
      | some (carried, rest) =>
          some { s.setPc coro (.unlock operation carried) with buffer := rest }
      | none => some (s.setPc coro .undefined)
  | .unlock operation carried =>
      some (s.unlockTo coro (.notify operation carried))
  | .notify _ _ => some (s.setPc coro .idle)

end State

def step (storage : Storage T Buffer) (s : State Coro T Buffer) :
    Action Coro T → Option (State Coro T Buffer)
  | .call coro operation =>
      match s.pc coro with
      | .idle => some (s.setPc coro (.lock operation))
      | _ => none
  | .run coro => s.run storage coro

/-- Arbitrarily many coroutines use the channel in any interleaving. -/
def system (Coro : Type*) [DecidableEq Coro] (storage : Storage T Buffer) :
    TransitionSystem (State Coro T Buffer) (Action Coro T) where
  initial s := s = State.new Coro storage
  step := step storage

/-- The operation whose update the next action performs. -/
def updates (s : State Coro T Buffer) : Action Coro T → Option (Operation T)
  | .call _ _ => none
  | .run coro =>
      match s.pc coro with
      | .update operation => some operation
      | _ => none

/-- The element that the next action puts in. -/
def observePut (s : State Coro T Buffer) (action : Action Coro T) : Option T :=
  (updates s action).bind Storage.putBy

/-- The element that the next action takes out. -/
def observeTaken (storage : Storage T Buffer) (s : State Coro T Buffer)
    (action : Action Coro T) : Option T :=
  (updates s action).bind (storage.takenBy s.buffer)

end CoContext.Channel
