import CoContext.Sequential
import CoContext.TransitionSystem
import Mathlib.Logic.Function.Basic

/-!
# The unbuffered channel

`release` runs inside `m_release_mtx` and `acquire` and `drop` run inside
`m_acquire_mtx`; a sender and a receiver meet inside `m_match_mtx`, where the
receiver publishes the address of its `item` and both sleep on `m_match_cv`.

Coroutines of any number of contexts interleave.  The mutexes are first in,
first out, and each of their calls is one step, at the access that decides it
(`SequentialCalls` has the proof).  A wait and a notification are several
steps, in the order in which they access the lists of `m_match_cv`
(`RendezvousCalls` has the proof).  The `item` of a receiver lives in its
frame, so the coroutine names it.
-/

namespace CoContext.Rendezvous

open CoContext.Sequential

/-- The functions that receive an element. -/
inductive Receive
  | acquire
  | drop
  deriving DecidableEq

/-- The position of a coroutine inside `notify_one`. -/
inductive NotifyPc (Coro : Type*)
  | takeResume
  | exchange
  | splice (taken : List Coro)
  | register (head : Coro)
  deriving DecidableEq

/-- The position of a sender that owns `m_release_mtx`.  It is suspended at
`awaitMatch`, `sleeping` and `relock`, in line for `m_match_mtx` at the first
and the last of these. -/
inductive SenderPc (Coro : Type*)
  | lockMatch
  | awaitMatch
  | checkReceiver
  | testPred
  | push
  | unlockAhead
  | sleeping
  | relock
  | emplace
  | unlockMatch
  | notify (pc : NotifyPc Coro)
  | unlockRelease
  deriving DecidableEq

/-- The position of a receiver that owns `m_acquire_mtx`. -/
inductive ReceiverPc (Coro : Type*)
  | lockMatch
  | awaitMatch
  | publish
  | checkSender
  | notify (pc : NotifyPc Coro)
  | testPred
  | push
  | unlockAhead
  | sleeping
  | relock
  | clearSender
  | unlockMatch
  | unlockAcquire
  deriving DecidableEq

inductive Pc (Coro T : Type*)
  | idle
  | awaitRelease (item : T)
  | awaitAcquire (receive : Receive)
  | sender (item : T) (pc : SenderPc Coro)
  | receiver (receive : Receive) (pc : ReceiverPc Coro)
  | undefined
  deriving DecidableEq

/-- Where a suspended coroutine goes on when it is resumed. -/
def Pc.resumed {Coro T : Type*} : Pc Coro T → Pc Coro T
  | .awaitRelease item => .sender item .lockMatch
  | .awaitAcquire receive => .receiver receive .lockMatch
  | .sender item .awaitMatch => .sender item .checkReceiver
  | .sender item .sleeping | .sender item .relock => .sender item .testPred
  | .receiver receive .awaitMatch => .receiver receive .publish
  | .receiver receive .sleeping | .receiver receive .relock =>
      .receiver receive .testPred
  | pc => pc

/-- A sleeping coroutine was put in line for `m_match_mtx`. -/
def Pc.relocking {Coro T : Type*} : Pc Coro T → Pc Coro T
  | .sender item .sleeping => .sender item .relock
  | .receiver receive .sleeping => .receiver receive .relock
  | pc => pc

structure State (Coro T : Type*) where
  releaseMtx : Mutex Coro
  acquireMtx : Mutex Coro
  matchMtx : Mutex Coro
  matchCv : ConditionVariable Coro
  /-- `m_receiver`, the coroutine whose `item` it points to. -/
  receiver : Option Coro
  hasSender : Bool
  /-- The local variable `item` of a receiver. -/
  item : Coro → Option T
  pc : Coro → Pc Coro T

inductive Action (Coro T : Type*)
  | release (coro : Coro) (item : T)
  | receive (coro : Coro) (receive : Receive)
  | run (coro : Coro)
  deriving DecidableEq

instance {Coro T : Type*} [Inhabited Coro] : Inhabited (Action Coro T) :=
  ⟨.run default⟩

variable {Coro T : Type*}

def State.new (Coro T : Type*) : State Coro T where
  releaseMtx := .new Coro
  acquireMtx := .new Coro
  matchMtx := .new Coro
  matchCv := .new Coro
  receiver := none
  hasSender := false
  item _ := none
  pc _ := .idle

variable [DecidableEq Coro]

namespace State

def setPc (s : State Coro T) (coro : Coro) (pc : Pc Coro T) : State Coro T :=
  { s with pc := Function.update s.pc coro pc }

/-- The handle of a coroutine is spawned; it goes on some time later. -/
def coSpawn (s : State Coro T) (coro : Coro) : State Coro T :=
  s.setPc coro (s.pc coro).resumed

def coSpawnOption (s : State Coro T) : Option Coro → State Coro T
  | none => s
  | some coro => s.coSpawn coro

/-- Lock `m_match_mtx`. -/
def lockMatch (s : State Coro T) (coro : Coro) (acquired waiting : Pc Coro T) :
    State Coro T :=
  match s.matchMtx.registerAwaiting coro with
  | (false, mutex) => { s.setPc coro acquired with matchMtx := mutex }
  | (true, mutex) => { s.setPc coro waiting with matchMtx := mutex }

/-- Unlock `m_match_mtx`; the call goes wrong if an assertion fails. -/
def unlockMatch (s : State Coro T) (coro : Coro) (pc : Pc Coro T) :
    State Coro T :=
  match s.matchMtx.unlock with
  | none => s.setPc coro .undefined
  | some (spawned, mutex) =>
      { s.setPc coro pc with matchMtx := mutex }.coSpawnOption spawned

def unlockRelease (s : State Coro T) (coro : Coro) : State Coro T :=
  match s.releaseMtx.unlock with
  | none => s.setPc coro .undefined
  | some (spawned, mutex) =>
      { s.setPc coro .idle with releaseMtx := mutex }.coSpawnOption spawned

def unlockAcquire (s : State Coro T) (coro : Coro) : State Coro T :=
  match s.acquireMtx.unlock with
  | none => s.setPc coro .undefined
  | some (spawned, mutex) =>
      { s.setPc coro .idle with acquireMtx := mutex }.coSpawnOption spawned

/-- The next step of `m_match_cv.notify_one()`; `within` is a position inside
the call and `next` the position behind it. -/
def notify (s : State Coro T) (coro : Coro)
    (within : NotifyPc Coro → Pc Coro T) (next : Pc Coro T) :
    NotifyPc Coro → State Coro T
  | .takeResume =>
      match s.matchCv.toResume with
      | head :: rest =>
          { s.setPc coro (within (.register head)) with
            matchCv := { s.matchCv with toResume := rest } }
      | [] => s.setPc coro (within .exchange)
  | .exchange =>
      match s.matchCv.awaiting.reverse with
      | [] => s.setPc coro next
      | head :: rest =>
          { s.setPc coro (within (.splice (head :: rest))) with
            matchCv := { s.matchCv with awaiting := [] } }
  | .splice taken =>
      match s.matchCv.toResume ++ taken with
      | [] => s.setPc coro next
      | head :: rest =>
          { s.setPc coro (within (.register head)) with
            matchCv := { s.matchCv with toResume := rest } }
  | .register head =>
      match s.matchMtx.registerAwaiting head with
      | (false, mutex) =>
          { s.setPc coro next with matchMtx := mutex }.coSpawn head
      | (true, mutex) =>
          { (s.setPc coro next).setPc head (s.pc head).relocking with
            matchMtx := mutex }

/-- The next step of `release`. -/
def runSender (s : State Coro T) (coro : Coro) (item : T) :
    SenderPc Coro → Option (State Coro T)
  | .awaitMatch | .sleeping | .relock => none
  | .lockMatch =>
      some (s.lockMatch coro (.sender item .checkReceiver)
        (.sender item .awaitMatch))
  | .checkReceiver =>
      if s.receiver = none then
        some { s.setPc coro (.sender item .testPred) with hasSender := true }
      else
        some (s.setPc coro (.sender item .emplace))
  | .testPred =>
      if s.receiver ≠ none then
        some (s.setPc coro (.sender item .emplace))
      else
        some (s.setPc coro (.sender item .push))
  | .push =>
      some { s.setPc coro (.sender item .unlockAhead) with
        matchCv := s.matchCv.push coro }
  | .unlockAhead => some (s.unlockMatch coro (.sender item .sleeping))
  | .emplace =>
      match s.receiver with
      | none => some (s.setPc coro .undefined)
      | some receiver =>
          some { s.setPc coro (.sender item .unlockMatch) with
            item := Function.update s.item receiver (some item)
            receiver := none }
  | .unlockMatch => some (s.unlockMatch coro (.sender item (.notify .takeResume)))
  | .notify pc =>
      some (s.notify coro (fun pc => .sender item (.notify pc))
        (.sender item .unlockRelease) pc)
  | .unlockRelease => some (s.unlockRelease coro)

/-- The next step of `acquire` or `drop`. -/
def runReceiver (s : State Coro T) (coro : Coro) (receive : Receive) :
    ReceiverPc Coro → Option (State Coro T)
  | .awaitMatch | .sleeping | .relock => none
  | .lockMatch =>
      some (s.lockMatch coro (.receiver receive .publish)
        (.receiver receive .awaitMatch))
  | .publish =>
      some { s.setPc coro (.receiver receive .checkSender) with
        receiver := some coro }
  | .checkSender =>
      if s.hasSender then
        some (s.setPc coro (.receiver receive (.notify .takeResume)))
      else
        some (s.setPc coro (.receiver receive .testPred))
  | .notify pc =>
      some (s.notify coro (fun pc => .receiver receive (.notify pc))
        (.receiver receive .testPred) pc)
  | .testPred =>
      if (s.item coro).isSome then
        some (s.setPc coro (.receiver receive .clearSender))
      else
        some (s.setPc coro (.receiver receive .push))
  | .push =>
      some { s.setPc coro (.receiver receive .unlockAhead) with
        matchCv := s.matchCv.push coro }
  | .unlockAhead => some (s.unlockMatch coro (.receiver receive .sleeping))
  | .clearSender =>
      some { s.setPc coro (.receiver receive .unlockMatch) with
        hasSender := false }
  | .unlockMatch => some (s.unlockMatch coro (.receiver receive .unlockAcquire))
  | .unlockAcquire => some (s.unlockAcquire coro)

end State

def step (s : State Coro T) : Action Coro T → Option (State Coro T)
  | .release coro item =>
      match s.pc coro, s.releaseMtx.registerAwaiting coro with
      | .idle, (false, mutex) =>
          some { s.setPc coro (.sender item .lockMatch) with
            releaseMtx := mutex }
      | .idle, (true, mutex) =>
          some { s.setPc coro (.awaitRelease item) with releaseMtx := mutex }
      | _, _ => none
  | .receive coro receive =>
      match s.pc coro, s.acquireMtx.registerAwaiting coro with
      | .idle, (false, mutex) =>
          some { s.setPc coro (.receiver receive .lockMatch) with
            acquireMtx := mutex
            item := Function.update s.item coro none }
      | .idle, (true, mutex) =>
          some { s.setPc coro (.awaitAcquire receive) with
            acquireMtx := mutex
            item := Function.update s.item coro none }
      | _, _ => none
  | .run coro =>
      match s.pc coro with
      | .sender item pc => s.runSender coro item pc
      | .receiver receive pc => s.runReceiver coro receive pc
      | .idle | .awaitRelease _ | .awaitAcquire _ | .undefined => none

/-- Arbitrarily many senders and receivers in any interleaving. -/
def system (Coro T : Type*) [DecidableEq Coro] :
    TransitionSystem (State Coro T) (Action Coro T) where
  initial s := s = State.new Coro T
  step := step

section Frame

variable {s : State Coro T} {coro : Coro}

@[simp]
theorem State.coSpawnOption_item (s : State Coro T) (spawned : Option Coro) :
    (s.coSpawnOption spawned).item = s.item := by
  cases spawned <;> rfl

@[simp]
theorem State.lockMatch_item (acquired waiting : Pc Coro T) :
    (s.lockMatch coro acquired waiting).item = s.item := by
  unfold lockMatch
  split <;> rfl

@[simp]
theorem State.unlockMatch_item (pc : Pc Coro T) :
    (s.unlockMatch coro pc).item = s.item := by
  unfold unlockMatch
  split
  · rfl
  · rw [coSpawnOption_item]
    rfl

@[simp]
theorem State.notify_item (within : NotifyPc Coro → Pc Coro T)
    (next : Pc Coro T) (pc : NotifyPc Coro) :
    (s.notify coro within next pc).item = s.item := by
  cases pc <;> unfold notify <;> dsimp only <;> split <;> rfl

/-- Only `emplace` stores an element. -/
theorem State.runSender_item {s' : State Coro T} {item : T}
    {pc : SenderPc Coro} (notEmplace : pc ≠ .emplace)
    (notLast : pc ≠ .unlockRelease)
    (stepEq : s.runSender coro item pc = some s') : s'.item = s.item := by
  cases pc with
  | awaitMatch | sleeping | relock => simp [runSender] at stepEq
  | checkReceiver | testPred =>
      rw [runSender] at stepEq
      split at stepEq <;> rw [Option.some.injEq] at stepEq <;>
        subst stepEq <;> rfl
  | emplace | unlockRelease => contradiction
  | lockMatch | push | unlockAhead | unlockMatch | notify =>
      rw [runSender, Option.some.injEq] at stepEq
      subst stepEq
      simp [setPc]

theorem State.runReceiver_item {s' : State Coro T} {receive : Receive}
    {pc : ReceiverPc Coro} (notLast : pc ≠ .unlockAcquire)
    (stepEq : s.runReceiver coro receive pc = some s') : s'.item = s.item := by
  cases pc with
  | awaitMatch | sleeping | relock => simp [runReceiver] at stepEq
  | checkSender | testPred =>
      rw [runReceiver] at stepEq
      split at stepEq <;> rw [Option.some.injEq] at stepEq <;>
        subst stepEq <;> rfl
  | unlockAcquire => contradiction
  | lockMatch | publish | notify | push | unlockAhead | clearSender
  | unlockMatch =>
      rw [runReceiver, Option.some.injEq] at stepEq
      subst stepEq
      simp [setPc]

end Frame

/-- An element that a sender stores for a receiver. -/
structure Delivery (Coro T : Type*) where
  sender : Coro
  item : T
  receiver : Coro
  deriving DecidableEq

def Delivery.sent (delivery : Delivery Coro T) : Coro × T :=
  (delivery.sender, delivery.item)

def Delivery.got (delivery : Delivery Coro T) : Coro × Option T :=
  (delivery.receiver, some delivery.item)

/-- The element of a sender that waits for `m_release_mtx`. -/
def Pc.awaitedItem : Pc Coro T → Option T
  | .awaitRelease item => some item
  | .idle | .awaitAcquire _ | .sender _ _ | .receiver _ _ | .undefined => none

/-- The coroutine to which `unlock` passes a mutex. -/
def heir (mutex : Mutex Coro) : Option Coro :=
  mutex.unlock.bind Prod.fst

section Observations

variable (s : State Coro T)

/-- A sender obtains `m_release_mtx`. -/
def obtainedRelease : Action Coro T → Option (Coro × T)
  | .release coro item =>
      match s.pc coro, s.releaseMtx.awaiting with
      | .idle, none => some (coro, item)
      | _, _ => none
  | .receive _ _ => none
  | .run coro =>
      match s.pc coro with
      | .sender _ .unlockRelease =>
          (heir s.releaseMtx).bind fun head =>
            (s.pc head).awaitedItem.map fun item => (head, item)
      | _ => none

/-- A receiver obtains `m_acquire_mtx`. -/
def obtainedAcquire : Action Coro T → Option Coro
  | .release _ _ => none
  | .receive coro _ =>
      match s.pc coro, s.acquireMtx.awaiting with
      | .idle, none => some coro
      | _, _ => none
  | .run coro =>
      match s.pc coro with
      | .receiver _ .unlockAcquire => heir s.acquireMtx
      | _ => none

/-- A sender stores its element in the `item` of a receiver. -/
def delivered : Action Coro T → Option (Delivery Coro T)
  | .run coro =>
      match s.pc coro with
      | .sender item .emplace =>
          s.receiver.map fun receiver => ⟨coro, item, receiver⟩
      | _ => none
  | .release _ _ | .receive _ _ => none

/-- A `release` returns. -/
def released : Action Coro T → Option (Coro × T)
  | .run coro =>
      match s.pc coro with
      | .sender item .unlockRelease => some (coro, item)
      | _ => none
  | .release _ _ | .receive _ _ => none

/-- An `acquire` or a `drop` returns, with the element in its `item`. -/
def received : Action Coro T → Option (Coro × Option T)
  | .run coro =>
      match s.pc coro with
      | .receiver _ .unlockAcquire => some (coro, s.item coro)
      | _ => none
  | .release _ _ | .receive _ _ => none

end Observations

end CoContext.Rendezvous
