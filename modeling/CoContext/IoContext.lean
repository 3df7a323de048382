import CoContext.Worker
import Mathlib.Data.Fintype.Basic

/-!
# The contexts of a program

Each `io_context` runs a worker on a thread of its own.  The threads meet at
`io_context_meta`: a constructor increments `create_count`, and a thread whose
ring is set up increments `ready_count` and waits until the two are equal, for
a second at most; whoever finds them equal goes on and notifies the others.  A
thread that leaves the loop of its worker decrements both.  The counters are
machine words of 8 bits.

A section under `meta.mtx` is one step, as the condition variable releases the
mutex and begins to wait at once.  It may end a wait at any time.  A worker
reads `ready_count` when it decides whether to block and whether to stop.  What
other contexts send to a context before its loop arrives at the loop's start.
-/

namespace CoContext.IoContext

inductive Phase
  /-- It is not constructed. -/
  | unborn
  | constructed
  /-- Its thread sets up the ring. -/
  | init
  /-- In `wait_for`. -/
  | waitFor (notified : Bool)
  | notifyAll
  | run
  /-- Behind `deinit`. -/
  | finished
  deriving DecidableEq

structure State (Ctx Coro Info : Type*) where
  createCount : UInt8
  readyCount : UInt8
  phase : Ctx → Phase
  id : Ctx → UInt8
  /-- Each worker, where `ready_count` is that of `io_context_meta`. -/
  worker : Ctx → Worker.State Coro Info
  /-- `std::terminate` was called. -/
  terminated : Bool

inductive Action (Ctx Coro Info : Type*)
  | construct (ctx : Ctx)
  /-- The main thread spawns a coroutine on a context before any is ready. -/
  | coSpawn (ctx : Ctx) (coro : Coro)
  | start (ctx : Ctx)
  /-- The thread of the context takes `meta.mtx` and increments
  `ready_count`. -/
  | register (ctx : Ctx)
  /-- The thread wakes up, perhaps by itself. -/
  | wakeUp (ctx : Ctx)
  | timeout (ctx : Ctx)
  | notifyAll (ctx : Ctx)
  /-- A step of the worker of the context and of what surrounds it. -/
  | work (ctx : Ctx) (action : Worker.Action Coro Info)
  | deinit (ctx : Ctx)

instance {Ctx Coro Info : Type*} [Inhabited Ctx] :
    Inhabited (Action Ctx Coro Info) :=
  ⟨.start default⟩

namespace State

variable {Ctx Coro Info : Type*}

/-- Before any context is constructed. -/
def new (Ctx Coro Info : Type*) [DecidableEq Coro] :
    State Ctx Coro Info where
  createCount := 0
  readyCount := 0
  phase _ := .unborn
  id _ := 0
  worker _ := .new Info [] 0
  terminated := false

variable [DecidableEq Ctx]

def setPhase (s : State Ctx Coro Info) (ctx : Ctx) (phase : Phase) :
    State Ctx Coro Info :=
  { s with phase := Function.update s.phase ctx phase }

def setWorker (s : State Ctx Coro Info) (ctx : Ctx)
    (worker : Worker.State Coro Info) : State Ctx Coro Info :=
  { s with worker := Function.update s.worker ctx worker }

/-- The worker of a context as it reads `ready_count`. -/
def view (s : State Ctx Coro Info) (ctx : Ctx) : Worker.State Coro Info :=
  { s.worker ctx with readyCount := s.readyCount.toNat }

/-- The constructor. -/
def construct (s : State Ctx Coro Info) (ctx : Ctx) : State Ctx Coro Info :=
  { s.setPhase ctx .constructed with
    id := Function.update s.id ctx s.createCount
    createCount := s.createCount + 1 }

/-- The test of the predicate of `wait_for`. -/
def test (s : State Ctx Coro Info) (ctx : Ctx) (timedOut : Bool) :
    State Ctx Coro Info :=
  if s.createCount = s.readyCount then s.setPhase ctx .notifyAll
  else if timedOut then { s with terminated := true }
  else s.setPhase ctx (.waitFor false)

def register (s : State Ctx Coro Info) (ctx : Ctx) : State Ctx Coro Info :=
  { s with readyCount := s.readyCount + 1 }.test ctx false

end State

/-- What `notify_all` makes of a thread. -/
def Phase.notified : Phase → Phase
  | waitFor _ => waitFor true
  | phase => phase

namespace State

variable {Ctx Coro Info : Type*} [DecidableEq Ctx]

/-- `meta.cv.notify_all()`, behind which `run` begins. -/
def notifyAll (s : State Ctx Coro Info) (ctx : Ctx) : State Ctx Coro Info :=
  { s with
    phase := Function.update (fun other => (s.phase other).notified) ctx .run }

def deinit (s : State Ctx Coro Info) (ctx : Ctx) : State Ctx Coro Info :=
  { s.setPhase ctx .finished with
    readyCount := s.readyCount - 1
    createCount := s.createCount - 1 }

variable [DecidableEq Coro] [DecidableEq Info]

/-- Other contexts change `ready_count` by their own steps only. -/
def work (s : State Ctx Coro Info) (ctx : Ctx) :
    Worker.Action Coro Info → Option (State Ctx Coro Info)
  | .deinit => none
  | action => (Worker.step (s.view ctx) action).map (s.setWorker ctx)

end State

variable {Ctx Coro Info : Type*}
variable [DecidableEq Ctx] [DecidableEq Coro] [DecidableEq Info]

def step (s : State Ctx Coro Info) (action : Action Ctx Coro Info) :
    Option (State Ctx Coro Info) :=
  if s.terminated then none
  else match action with
    | .construct ctx =>
        if s.phase ctx = .unborn then some (s.construct ctx) else none
    | .coSpawn ctx coro =>
        if (s.phase ctx = .constructed ∨ s.phase ctx = .init) ∧
            s.readyCount = 0 ∧ (s.worker ctx).status coro = .idle then
          some (s.setWorker ctx ((s.worker ctx).forwardTask (some coro)))
        else none
    | .start ctx =>
        if s.phase ctx = .constructed then some (s.setPhase ctx .init)
        else none
    | .register ctx =>
        if s.phase ctx = .init then some (s.register ctx) else none
    | .wakeUp ctx =>
        match s.phase ctx with
        | .waitFor _ => some (s.test ctx false)
        | _ => none
    | .timeout ctx =>
        match s.phase ctx with
        | .waitFor _ => some (s.test ctx true)
        | _ => none
    | .notifyAll ctx =>
        if s.phase ctx = .notifyAll then some (s.notifyAll ctx) else none
    | .work ctx action =>
        if s.phase ctx = .run then s.work ctx action else none
    | .deinit ctx =>
        if s.phase ctx = .run ∧ (s.worker ctx).pc = .stopped then
          some (s.deinit ctx)
        else none

/-- Contexts that a program constructs and starts in any order. -/
def system (Ctx Coro Info : Type*) [DecidableEq Ctx] [DecidableEq Coro]
    [DecidableEq Info] :
    TransitionSystem (State Ctx Coro Info) (Action Ctx Coro Info) where
  initial s := s = State.new Ctx Coro Info
  step := step

/-- `create_count` counts the context. -/
def Phase.Alive : Phase → Prop
  | unborn | finished => False
  | constructed | init | waitFor _ | notifyAll | run => True

/-- `ready_count` counts the context. -/
def Phase.Ready : Phase → Prop
  | waitFor _ | notifyAll | run => True
  | unborn | constructed | init | finished => False

/-- The context found the counters equal. -/
def Phase.Passed : Phase → Prop
  | notifyAll | run | finished => True
  | unborn | constructed | init | waitFor _ => False

instance : DecidablePred Phase.Ready
  | .waitFor _ | .notifyAll | .run => .isTrue trivial
  | .unborn | .constructed | .init | .finished => .isFalse id

instance : DecidablePred Phase.Passed
  | .notifyAll | .run | .finished => .isTrue trivial
  | .unborn | .constructed | .init | .waitFor _ => .isFalse id

/-- No more than 255 contexts exist at a time. -/
def Fits (s : State Ctx Coro Info) : Action Ctx Coro Info → Prop
  | .construct _ => s.createCount ≠ 255
  | _ => True

instance (s : State Ctx Coro Info) (action : Action Ctx Coro Info) :
    Decidable (Fits s action) :=
  match action with
  | .construct _ => inferInstanceAs (Decidable (_ ≠ _))
  | .coSpawn .. | .start _ | .register _ | .wakeUp _ | .timeout _
  | .notifyAll _ | .work .. | .deinit _ => .isTrue trivial

/-- All contexts are constructed before the first one runs. -/
def Early (s : State Ctx Coro Info) : Action Ctx Coro Info → Prop
  | .construct _ => ∀ ctx, ¬ (s.phase ctx).Passed
  | _ => True

instance [Fintype Ctx] (s : State Ctx Coro Info)
    (action : Action Ctx Coro Info) : Decidable (Early s action) :=
  match action with
  | .construct _ => inferInstanceAs (Decidable (∀ _, ¬ Phase.Passed _))
  | .coSpawn .. | .start _ | .register _ | .wakeUp _ | .timeout _
  | .notifyAll _ | .work .. | .deinit _ => .isTrue trivial

def isCanStop : Worker.Action Coro Info → Bool
  | .canStop => true
  | _ => false

/-- Nobody calls `can_stop`. -/
def Quiet (_ : State Ctx Coro Info) : Action Ctx Coro Info → Prop
  | .work _ action => isCanStop action = false
  | _ => True

instance (s : State Ctx Coro Info) (action : Action Ctx Coro Info) :
    Decidable (Quiet s action) :=
  match action with
  | .work _ action => inferInstanceAs (Decidable (isCanStop action = false))
  | .construct _ | .coSpawn .. | .start _ | .register _ | .wakeUp _
  | .timeout _ | .notifyAll _ | .deinit _ => .isTrue trivial

end CoContext.IoContext
