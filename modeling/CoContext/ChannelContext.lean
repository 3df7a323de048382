import CoContext.Channel
import CoContext.Sequential

/-!
# A buffered channel on one context

All coroutines run on one worker.  A coroutine that was taken from the ready
queue runs until it suspends or leaves, and the mutex and the two condition
variables move handles between their queues and the ready queue.  A handle is
the coroutine with the position at which it goes on when it is resumed; a
coroutine that is suspended elsewhere may become ready at any time.  The ready
queue is a list here; `ChannelContextRing` keeps it in its ring.
-/

namespace CoContext.ChannelContext

open Channel CoContext.Sequential

/-- A coroutine at a position of the operations of a channel. -/
structure Frame (Coro T : Type*) where
  coro : Coro
  pc : Pc T
  deriving DecidableEq

/-- The condition variables `m_not_empty_cv` and `m_not_full_cv`. -/
inductive Condition
  | notEmpty
  | notFull
  deriving DecidableEq

/-- The condition variable on which an operation waits. -/
def waitsFor {T : Type*} : Operation T → Condition
  | .release _ => .notFull
  | .acquire | .drop => .notEmpty

/-- The condition variable that an operation notifies. -/
def establishes {T : Type*} : Operation T → Condition
  | .release _ => .notEmpty
  | .acquire | .drop => .notFull

structure State (Coro T Buffer : Type*) where
  buffer : Buffer
  mutex : Mutex (Frame Coro T)
  cv : Condition → ConditionVariable (Frame Coro T)
  /-- The ready queue of the worker. -/
  ready : List (Frame Coro T)
  running : Option (Frame Coro T)

inductive Action (Coro T : Type*)
  | arrive (coro : Coro)
  | schedule
  | call (operation : Operation T)
  | run
  | leave
  deriving DecidableEq

instance {Coro T : Type*} : Inhabited (Action Coro T) := ⟨.schedule⟩

variable {Coro T Buffer : Type*}

namespace State

def new (Coro : Type*) (storage : Storage T Buffer) : State Coro T Buffer where
  buffer := storage.new
  mutex := .new _
  cv _ := .new _
  ready := []
  running := none

def resume (s : State Coro T Buffer) (frame : Frame Coro T) :
    State Coro T Buffer :=
  { s with running := some frame }

/-- `co_spawn_auto`, on the worker itself. -/
def coSpawn (s : State Coro T Buffer) (frame : Frame Coro T) :
    State Coro T Buffer :=
  { s with ready := s.ready ++ [frame] }

/-- Unlock `m_mtx`; a failed assertion stops the running coroutine. -/
def unlock (s : State Coro T Buffer) (coro : Coro) : State Coro T Buffer :=
  match s.mutex.unlock with
  | none => s.resume ⟨coro, .undefined⟩
  | some (none, left) => { s with mutex := left }
  | some (some head, left) => { s with mutex := left }.coSpawn head

/-- `co_await m_mtx.lock()`. -/
def lock (s : State Coro T Buffer) (coro : Coro) (operation : Operation T) :
    State Coro T Buffer :=
  match s.mutex.registerAwaiting ⟨coro, .check operation⟩ with
  | (false, taken) =>
      { s with mutex := taken }.resume ⟨coro, .check operation⟩
  | (true, joined) => { s with mutex := joined, running := none }

/-- `co_await wait(m_mtx)` on the condition variable of an operation. -/
def wait (s : State Coro T Buffer) (coro : Coro) (operation : Operation T) :
    State Coro T Buffer :=
  let condition := waitsFor operation
  let pushed := (s.cv condition).push ⟨coro, .testPred operation⟩
  { s with
    cv := fun other => if other = condition then pushed else s.cv other
    running := none }.unlock coro

/-- `notify_one` on the condition variable that an operation notifies. -/
def notifyOne (s : State Coro T Buffer) (operation : Operation T) :
    State Coro T Buffer :=
  let condition := establishes operation
  let notified := (s.cv condition).notifyOne
  let taken := { s with
    cv := fun other => if other = condition then notified.2 else s.cv other }
  match notified.1 with
  | none => taken
  | some head =>
      match s.mutex.registerAwaiting head with
      | (false, mutex) => { taken with mutex := mutex }.coSpawn head
      | (true, mutex) => { taken with mutex := mutex }

/-- The next step of the running coroutine. -/
def run (storage : Storage T Buffer) (s : State Coro T Buffer) (coro : Coro) :
    Pc T → Option (State Coro T Buffer)
  | .idle | .sleeping _ | .undefined => none
  | .lock operation => some (s.lock coro operation)
  | .check operation =>
      if storage.blocked s.buffer operation then
        some (s.resume ⟨coro, .testPred operation⟩)
      else
        some (s.resume ⟨coro, .update operation⟩)
  | .testPred operation =>
      if storage.blocked s.buffer operation then
        some (s.wait coro operation)
      else
        some (s.resume ⟨coro, .update operation⟩)
  | .update operation =>
      match storage.apply s.buffer operation with
      | some (carried, rest) =>
          some ({ s with buffer := rest }.resume
            ⟨coro, .unlock operation carried⟩)
      | none => some (s.resume ⟨coro, .undefined⟩)
  | .unlock operation carried =>
      some ((s.resume ⟨coro, .notify operation carried⟩).unlock coro)
  | .notify operation _ =>
      some ((s.resume ⟨coro, .idle⟩).notifyOne operation)

/-- The coroutines that are running, ready or in line for `m_mtx`. -/
def present (s : State Coro T Buffer) : List (Frame Coro T) :=
  s.running.toList ++ s.ready ++ s.mutex.line

/-- All coroutines except those that are suspended elsewhere. -/
def frames (s : State Coro T Buffer) : List (Frame Coro T) :=
  s.present ++ (s.cv .notEmpty).queue ++ (s.cv .notFull).queue

end State

def step [DecidableEq Coro] (storage : Storage T Buffer)
    (s : State Coro T Buffer) :
    Action Coro T → Option (State Coro T Buffer)
  | .arrive coro =>
      if coro ∈ s.frames.map Frame.coro then
        none
      else
        some (s.coSpawn ⟨coro, .idle⟩)
  | .schedule =>
      match s.running, s.ready with
      | none, frame :: rest => some ({ s with ready := rest }.resume frame)
      | _, _ => none
  | .call operation =>
      match s.running with
      | some ⟨coro, .idle⟩ => some (s.resume ⟨coro, .lock operation⟩)
      | _ => none
  | .run =>
      match s.running with
      | some frame => s.run storage frame.coro frame.pc
      | none => none
  | .leave =>
      match s.running with
      | some ⟨_, .idle⟩ => some { s with running := none }
      | _ => none

/-- Arbitrarily many coroutines of one context use the channel. -/
def system (Coro : Type*) [DecidableEq Coro] (storage : Storage T Buffer) :
    TransitionSystem (State Coro T Buffer) (Action Coro T) where
  initial s := s = State.new Coro storage
  step := step storage

end CoContext.ChannelContext
