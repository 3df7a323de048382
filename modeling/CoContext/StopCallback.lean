import CoContext.DoublyLinkedList
import CoContext.TransitionSystem

/-!
# Stop requests and stop callbacks

Any number of threads construct and destroy callbacks on one stop state and
request a stop of it.  `m_value` holds a stop bit, a lock bit and the number of
stop sources; the lock protects a doubly linked list of callbacks rooted at
`m_head`.  The first `request_stop` takes the callbacks off the list, one after
the other, and runs each without the lock; a callback that is constructed later
is run by its constructor.

A callback may construct and destroy callbacks, itself included, and request a
stop, so each thread has a stack of the calls that it is inside of.  Every
access to `m_value` and every section under the lock bit is one step.
-/

namespace CoContext.StopCallback

/-- The parts of `m_value`. -/
structure Value where
  stopRequested : Bool
  locked : Bool
  sources : Nat
  deriving DecidableEq

/-- The position of a thread in `request_stop`, `register_callback` or
`remove_callback`. -/
inductive Pc (Cb : Type*)
  /-- It runs a callback, or its own code if it is inside of no call. -/
  | user
  | stopLoad
  | stopTry (old : Value)
  /-- Behind the exchange, with the lock. -/
  | stopEnter
  /-- At the test of the loop, with the lock. -/
  | stopPop
  | stopUnlock (cb : Cb) (lastCb : Bool)
  | stopRun (cb : Cb) (lastCb : Bool)
  /-- Behind `cb->run()`. -/
  | stopRan (cb : Cb) (lastCb : Bool)
  | stopLock
  | stopRelock (old : Value)
  /-- Behind the loop, with the lock. -/
  | stopEnd
  | registerLoad (cb : Cb)
  | registerTry (cb : Cb) (old : Value)
  | registerLink (cb : Cb)
  | registerUnlock (cb : Cb)
  /-- Behind the `cb->run()` of a callback that comes too late. -/
  | registerRan (cb : Cb)
  | removeLoad (cb : Cb)
  | removeTry (cb : Cb) (old : Value)
  | removeUnlink (cb : Cb)
  | removeUnlock (cb : Cb) (found : Bool)
  | removeRequester (cb : Cb)
  | removeAcquire (cb : Cb)
  deriving DecidableEq

/-- A call of `cb->run()` that has not returned. -/
inductive Call (Cb : Type*)
  /-- By `request_stop`. -/
  | stop (cb : Cb) (lastCb : Bool)
  /-- By `register_callback`. -/
  | register (cb : Cb)
  deriving DecidableEq

def Call.cb {Cb : Type*} : Call Cb → Cb
  | .stop cb _ | .register cb => cb

/-- The life of a `stop_callback`. -/
inductive Life
  | absent
  | constructing
  /-- `hasState` tells whether it refers to the stop state. -/
  | alive (hasState : Bool)
  | destroying
  | destroyed
  deriving DecidableEq

/-- What has become of a callback with respect to the list. -/
inductive Place
  | never
  | listed
  /-- Taken off the list by `request_stop`. -/
  | popped
  | running
  | finished
  /-- Taken off the list by `remove_callback`. -/
  | unlinked
  deriving DecidableEq

structure State (Thread Cb : Type*) where
  mValue : Value
  mHead : Option Cb
  mRequester : Option Thread
  mPrev : Cb → Option Cb
  mNext : Cb → Option Cb
  /-- The thread whose `destroyed` the pointer refers to. -/
  mDestroyed : Cb → Option Thread
  mDone : Cb → Nat
  /-- The local variable of `request_stop`. -/
  destroyed : Thread → Bool
  life : Cb → Life
  pc : Thread → Pc Cb
  /-- The calls that a thread is inside of, the innermost first. -/
  calls : Thread → List (Call Cb)
  /-- How often the callback was called. -/
  ran : Cb → Nat
  place : Cb → Place
  /-- The construction began after the stop. -/
  late : Cb → Bool
  /-- What the calls of `request_stop` have returned. -/
  returned : List Bool

/-- A stop state with one stop source. -/
def State.new (Thread Cb : Type*) : State Thread Cb where
  mValue := ⟨false, false, 1⟩
  mHead := none
  mRequester := none
  mPrev _ := none
  mNext _ := none
  mDestroyed _ := none
  mDone _ := 0
  destroyed _ := false
  life _ := .absent
  pc _ := .user
  calls _ := []
  ran _ := 0
  place _ := .never
  late _ := false
  returned := []

inductive Action (Thread Cb : Type*)
  /-- `stop_callback(token, cb)` with a token of the stop state. -/
  | construct (thread : Thread) (cb : Cb)
  /-- `~stop_callback` -/
  | destroy (thread : Thread) (cb : Cb)
  | requestStop (thread : Thread)
  /-- The innermost callback of the thread returns. -/
  | leave (thread : Thread)
  /-- The next step of a member function; `compare_exchange_weak` may fail
  spuriously. -/
  | run (thread : Thread) (spurious : Bool)
  | addSsrc (thread : Thread)
  | subSsrc (thread : Thread)
  deriving DecidableEq

/-- The thread that performs an action. -/
def Action.thread {Thread Cb : Type*} : Action Thread Cb → Thread
  | .construct thread _ | .destroy thread _ | .requestStop thread
  | .leave thread | .run thread _ | .addSsrc thread | .subSsrc thread =>
      thread

instance {Thread Cb : Type*} [Inhabited Thread] :
    Inhabited (Action Thread Cb) :=
  ⟨.requestStop default⟩

variable {Thread Cb : Type*}

namespace State

variable [DecidableEq Thread] [DecidableEq Cb]
variable (s : State Thread Cb) (thread : Thread) (cb : Cb)

def setPc (pc : Pc Cb) : State Thread Cb :=
  { s with pc := Function.update s.pc thread pc }

def setLife (life : Life) : State Thread Cb :=
  { s with life := Function.update s.life cb life }

def setPlace (place : Place) : State Thread Cb :=
  { s with place := Function.update s.place cb place }

def lock : State Thread Cb :=
  { s with mValue := { s.mValue with locked := true } }

def unlock : State Thread Cb :=
  { s with mValue := { s.mValue with locked := false } }

/-- `request_stop` returns. -/
def returnStop (result : Bool) : State Thread Cb :=
  { s.setPc thread .user with returned := s.returned ++ [result] }

/-- The section of the loop of `request_stop`. -/
def pop : State Thread Cb :=
  match s.mHead with
  | none => s.setPc thread .stopEnd
  | some cb =>
      { (s.setPlace cb .popped).setPc thread
          (.stopUnlock cb (s.mNext cb).isNone) with
        mHead := s.mNext cb
        mPrev := setAt s.mPrev (s.mNext cb) none }

/-- `m_callback` is called. -/
def call (call : Call Cb) : State Thread Cb :=
  { s.setPc thread .user with
    calls := Function.update s.calls thread (call :: s.calls thread)
    ran := Function.update s.ran call.cb (s.ran call.cb + 1) }

/-- `cb->m_destroyed` is set and the callback is called. -/
def runCallback (lastCb : Bool) : State Thread Cb :=
  { (s.setPlace cb .running).call thread (.stop cb lastCb) with
    destroyed := Function.update s.destroyed thread false
    mDestroyed := Function.update s.mDestroyed cb (some thread) }

/-- What `request_stop` does when a callback has returned. -/
def afterRun (lastCb : Bool) : State Thread Cb :=
  let s := s.setPlace cb .finished
  let s :=
    if s.destroyed thread then s
    else { s with
      mDestroyed := Function.update s.mDestroyed cb none
      mDone := Function.update s.mDone cb (s.mDone cb + 1) }
  if lastCb then s.returnStop thread true else s.setPc thread .stopLock

/-- The section of `register_callback`. -/
def link : State Thread Cb :=
  { (s.setPlace cb .listed).setPc thread (.registerUnlock cb) with
    mNext := Function.update s.mNext cb s.mHead
    mPrev := setAt s.mPrev s.mHead (some cb)
    mHead := some cb }

/-- The constructor returns. -/
def constructed (hasState : Bool) : State Thread Cb :=
  (s.setLife cb (.alive hasState)).setPc thread .user

/-- The section of `remove_callback`. -/
def unlink : State Thread Cb :=
  if s.mHead = some cb then
    { (s.setPlace cb .unlinked).setPc thread (.removeUnlock cb true) with
      mHead := s.mNext cb
      mPrev := setAt s.mPrev (s.mNext cb) none }
  else
    match s.mPrev cb with
    | some before =>
        { (s.setPlace cb .unlinked).setPc thread (.removeUnlock cb true) with
          mNext := Function.update s.mNext before (s.mNext cb)
          mPrev := setAt s.mPrev (s.mNext cb) (some before) }
    | none => s.setPc thread (.removeUnlock cb false)

/-- The destructor returns. -/
def destroy : State Thread Cb :=
  (s.setLife cb .destroyed).setPc thread .user

/-- `*cb->m_destroyed = true`, unless the pointer is null. -/
def markDestroyed : State Thread Cb :=
  match s.mDestroyed cb with
  | some requester =>
      { s with destroyed := Function.update s.destroyed requester true }
  | none => s

/-- One round of a loop that locks `m_value` with `do_try_lock`. -/
def tryLock (old : Value) (spurious : Bool) (retry : Value → Pc Cb)
    (success : Pc Cb) : State Thread Cb :=
  if old.locked then s.setPc thread (retry s.mValue)
  else if s.mValue = old ∧ spurious = false then s.lock.setPc thread success
  else s.setPc thread (retry s.mValue)

/-- One round of the loop of `request_stop`. -/
def tryLockAndStop (old : Value) (spurious : Bool) : State Thread Cb :=
  if old.stopRequested then s.returnStop thread false
  else if old.locked then s.setPc thread (.stopTry s.mValue)
  else if s.mValue = old ∧ spurious = false then
    { s.setPc thread .stopEnter with
      mValue := { s.mValue with stopRequested := true, locked := true } }
  else s.setPc thread (.stopTry s.mValue)

/-- One round of the loop of `register_callback`. -/
def tryRegister (old : Value) (spurious : Bool) : State Thread Cb :=
  if old.stopRequested then s.call thread (.register cb)
  else if old.sources = 0 then s.constructed thread cb false
  else s.tryLock thread old spurious (.registerTry cb) (.registerLink cb)

def run (spurious : Bool) : Option (State Thread Cb) :=
  match s.pc thread with
  | .user => none
  | .stopLoad => some (s.setPc thread (.stopTry s.mValue))
  | .stopTry old => some (s.tryLockAndStop thread old spurious)
  | .stopEnter => some ({ s with mRequester := some thread }.pop thread)
  | .stopPop => some (s.pop thread)
  | .stopUnlock cb lastCb =>
      some (s.unlock.setPc thread (.stopRun cb lastCb))
  | .stopRun cb lastCb => some (s.runCallback thread cb lastCb)
  | .stopRan cb lastCb => some (s.afterRun thread cb lastCb)
  | .stopLock => some (s.setPc thread (.stopRelock s.mValue))
  | .stopRelock old => some (s.tryLock thread old spurious .stopRelock .stopPop)
  | .stopEnd => some (s.unlock.returnStop thread true)
  | .registerLoad cb => some (s.setPc thread (.registerTry cb s.mValue))
  | .registerTry cb old => some (s.tryRegister thread cb old spurious)
  | .registerLink cb => some (s.link thread cb)
  | .registerUnlock cb => some (s.unlock.constructed thread cb true)
  | .registerRan cb => some (s.constructed thread cb false)
  | .removeLoad cb => some (s.setPc thread (.removeTry cb s.mValue))
  | .removeTry cb old =>
      some (s.tryLock thread old spurious (.removeTry cb) (.removeUnlink cb))
  | .removeUnlink cb => some (s.unlink thread cb)
  | .removeUnlock cb true => some (s.unlock.destroy thread cb)
  | .removeUnlock cb false => some (s.unlock.setPc thread (.removeRequester cb))
  | .removeRequester cb =>
      if s.mRequester = some thread then
        some ((s.markDestroyed cb).destroy thread cb)
      else some (s.setPc thread (.removeAcquire cb))
  | .removeAcquire cb =>
      if 0 < s.mDone cb then
        some ({ s with mDone := Function.update s.mDone cb (s.mDone cb - 1) }
          |>.destroy thread cb)
      else none

/-- The innermost call of a thread returns. -/
def leave : Option (State Thread Cb) :=
  match s.pc thread, s.calls thread with
  | .user, call :: rest =>
      some { s.setPc thread
          (match call with
            | .stop cb lastCb => .stopRan cb lastCb
            | .register cb => .registerRan cb) with
        calls := Function.update s.calls thread rest }
  | _, _ => none

end State

section System

variable [DecidableEq Thread] [DecidableEq Cb]

def step (s : State Thread Cb) :
    Action Thread Cb → Option (State Thread Cb)
  | .construct thread cb =>
      if s.pc thread = .user ∧ s.life cb = .absent then
        some { (s.setLife cb .constructing).setPc thread (.registerLoad cb) with
          late := Function.update s.late cb s.mValue.stopRequested }
      else none
  | .destroy thread cb =>
      if s.pc thread = .user then
        match s.life cb with
        | .alive true =>
            some ((s.setLife cb .destroying).setPc thread (.removeLoad cb))
        | .alive false => some (s.destroy thread cb)
        | .absent | .constructing | .destroying | .destroyed => none
      else none
  | .requestStop thread =>
      if s.pc thread = .user then some (s.setPc thread .stopLoad) else none
  | .leave thread => s.leave thread
  | .run thread spurious => s.run thread spurious
  | .addSsrc _ =>
      some { s with
        mValue := { s.mValue with sources := s.mValue.sources + 1 } }
  | .subSsrc _ =>
      if 0 < s.mValue.sources then
        some { s with
          mValue := { s.mValue with sources := s.mValue.sources - 1 } }
      else none

/-- One stop state and the threads that use it. -/
def system (Thread Cb : Type*) [DecidableEq Thread] [DecidableEq Cb] :
    TransitionSystem (State Thread Cb) (Action Thread Cb) where
  initial s := s = State.new Thread Cb
  step := step

end System

/-- The thread is inside of the callback. -/
def State.Runs (s : State Thread Cb) (thread : Thread) (cb : Cb) : Prop :=
  ∃ call ∈ s.calls thread, call.cb = cb

/-- No thread is inside of a member function or a callback. -/
def State.AtRest (s : State Thread Cb) : Prop :=
  ∀ thread, s.pc thread = .user ∧ s.calls thread = []

/-- In this step `~stop_callback` returns. -/
def Destroys (s s' : State Thread Cb) (cb : Cb) : Prop :=
  s.life cb ≠ .destroyed ∧ s'.life cb = .destroyed

/-- What is promised of a run. -/
structure Stops [DecidableEq Thread] [DecidableEq Cb]
    (run : (system Thread Cb).Run) : Prop where
  returned_once : ∀ time ≤ run.length,
    (run.state time).returned.count true ≤ 1
  takes_effect : ∀ time ≤ run.length, (run.state time).returned ≠ [] →
    (run.state time).mValue.stopRequested = true
  list : ∀ time ≤ run.length, (run.state time).mValue.locked = false →
    ∃ cbs : List Cb, cbs.Nodup ∧
      DoublyChain (run.state time).mNext (run.state time).mPrev none
        (run.state time).mHead cbs ∧
      ∀ cb, cb ∈ cbs ↔ (run.state time).place cb = .listed
  ran_le_once : ∀ time ≤ run.length, ∀ cb, (run.state time).ran cb ≤ 1
  /-- Once `request_stop` has returned, or nobody does anything after the stop,
  every callback that was registered has run, unless its destructor took it off
  the list. -/
  registered_ran : ∀ time ≤ run.length,
    true ∈ (run.state time).returned ∨
      (run.state time).AtRest ∧
        (run.state time).mValue.stopRequested = true →
    ∀ cb, (run.state time).place cb ≠ .never →
      (run.state time).place cb = .unlinked ∨ (run.state time).ran cb = 1
  /-- A callback that its destructor took off the list never runs. -/
  unlinked_ran : ∀ time ≤ run.length, ∀ cb,
    (run.state time).place cb = .unlinked → (run.state time).ran cb = 0
  /-- A callback that is constructed after the stop runs in its constructor. -/
  late_ran : ∀ time ≤ run.length, ∀ cb, (run.state time).late cb = true →
    (∀ thread lastCb, .stop cb lastCb ∉ (run.state time).calls thread) ∧
    ((run.state time).life cb ≠ .constructing →
      (run.state time).ran cb = 1 ∧
        ∀ thread, ¬ (run.state time).Runs thread cb)
  /-- When `~stop_callback` has returned on another thread than the
  requester's, the callback does not run any more. -/
  destroyed_quiet : ∀ destroyed < run.length, ∀ cb,
    Destroys (run.state destroyed) (run.state (destroyed + 1)) cb →
    (run.state destroyed).mRequester ≠
      some (run.action destroyed).thread →
    ∀ time, destroyed < time → time ≤ run.length →
      (run.state time).ran cb = (run.state destroyed).ran cb ∧
        ∀ thread, ¬ (run.state time).Runs thread cb
  /-- A destructor waits only for a callback that has not returned. -/
  not_stuck : ∀ time ≤ run.length, ∀ thread,
    (run.state time).pc thread ≠ .user →
    (∃ successor, step (run.state time) (.run thread false) =
      some successor) ∨
    ∃ cb, (run.state time).pc thread = .removeAcquire cb ∧
      ((run.state time).place cb = .popped ∨
        (run.state time).place cb = .running)

end CoContext.StopCallback
