import CoContext.RequestRings
import CoContext.TransitionSystem
import Mathlib.Data.List.Nodup
import Mathlib.Tactic.Simps.Basic

/-!
# The worker of an io_context

A worker resumes its ready coroutines, submits the requests that they
prepared and handles the completions, which make coroutines ready.  The
coroutines prepare awaited I/O, `&&` chains, timed I/O, detached I/O and
hand-overs to other contexts; an I/O may also be created first and awaited
later.  The model is that of a build for kernels that skip the completions of
successful requests and send messages between rings.

Only the thread of the worker touches its state, so that an expression that
prepares I/O is one step, and so are the handling of one completion, each
decision of the loop and each action of the kernel.  The ready handles and the
prepared requests are lists here; `WorkerRing` keeps them in their rings.
-/

namespace CoContext.Worker

/-- The tagged pointers that requests carry.  The tags use bits that the
alignment of their targets keeps free. -/
inductive UserData (Coro Info : Type*)
  /-- `reserved_user_data::nop` -/
  | nop
  | taskInfo (info : Info)
  | coroutineHandle (coro : Coro)
  | taskInfoLinkSqe (info : Info)
  | msgRing (coro : Coro)
  deriving DecidableEq

abbrev Sqe (Coro Info : Type*) :=
  Request (UserData Coro Info)

abbrev Cqe (Coro Info : Type*) :=
  Completion (UserData Coro Info)

namespace Sqe

variable {Coro Info : Type*}

/-- The entry of a `lazy_awaiter`. -/
def lazyAwaiter (info : Info) : Sqe Coro Info where
  userData := .taskInfo info
  link := false
  skipSuccess := false

def setCqeSkip (sqe : Sqe Coro Info) : Sqe Coro Info :=
  { sqe with skipSuccess := true }

def setLink (sqe : Sqe Coro Info) : Sqe Coro Info :=
  { sqe with link := true }

/-- The entry of the timer of a `lazy_link_timeout`. -/
def lazyLinkTimeout (timer : Info) : Sqe Coro Info :=
  (lazyAwaiter timer).setCqeSkip

/-- `co_spawn_safe_msg_ring`.  The handle is sent to the other ring. -/
def msgRing : Sqe Coro Info where
  userData := .nop
  link := false
  skipSuccess := true

end Sqe

/-- The tag `task_info_ptr__link_sqe` is or-ed into the data. -/
def UserData.setLinkSqe {Coro Info : Type*} :
    UserData Coro Info → UserData Coro Info
  | taskInfo info => taskInfoLinkSqe info
  | data => data

/-- `set_link_sqe` -/
def setLinkSqe {Coro Info : Type*} (sqe : Sqe Coro Info) : Sqe Coro Info :=
  { sqe.setLink with userData := sqe.userData.setLinkSqe }

/-- What `co_await` takes, with the places of the `task_info` of its
operands. -/
inductive Io (Info : Type*)
  | io (info : Info)
  /-- `timeout(io, d)` -/
  | timeout (timed timer : Info)

/-- The expressions that the overloads of `&&` accept. -/
inductive LinkIo (Info : Type*)
  | awaiters (lhs rhs : Info)
  | linkAwaiter (lhs : LinkIo Info) (rhs : Info)
  | links (lhs rhs : LinkIo Info)
  /-- `io && timeout(io, d)` -/
  | awaiterTimeout (lhs timed timer : Info)

/-- The entries that an expression prepares, in order, and the position of the
entry of `last_io`. -/
structure Prepared (Coro Info : Type*) where
  sqes : List (Sqe Coro Info)
  lastIo : Nat

section Expressions

variable {Coro Info : Type*}

namespace Prepared

def lazyAwaiter (info : Info) : Prepared Coro Info where
  sqes := [.lazyAwaiter info]
  lastIo := 0

/-- `lazy_link_timeout`: the timer follows the I/O that it limits. -/
def timeout (timed timer : Info) : Prepared Coro Info where
  sqes := [(Sqe.lazyAwaiter timed).setLink, .lazyLinkTimeout timer]
  lastIo := 0

/-- `operator&&` links the last I/O of the left operand. -/
def link (lhs rhs : Prepared Coro Info) : Prepared Coro Info where
  sqes := lhs.sqes.modify lhs.lastIo setLinkSqe ++ rhs.sqes
  lastIo := lhs.sqes.length + rhs.lastIo

/-- `detach` -/
def detach (prepared : Prepared Coro Info) : Prepared Coro Info :=
  { prepared with
    sqes := prepared.sqes.modify prepared.lastIo Sqe.setCqeSkip }

end Prepared

def Io.prepared : Io Info → Prepared Coro Info
  | io info => .lazyAwaiter info
  | timeout timed timer => .timeout timed timer

def LinkIo.prepared : LinkIo Info → Prepared Coro Info
  | awaiters lhs rhs => (Prepared.lazyAwaiter lhs).link (.lazyAwaiter rhs)
  | linkAwaiter lhs rhs => lhs.prepared.link (.lazyAwaiter rhs)
  | links lhs rhs => lhs.prepared.link rhs.prepared
  | awaiterTimeout lhs timed timer =>
      (Prepared.lazyAwaiter lhs).link (.timeout timed timer)

/-- The temporaries of an expression. -/
def Io.infos : Io Info → List Info
  | io info => [info]
  | timeout timed timer => [timed, timer]

def LinkIo.infos : LinkIo Info → List Info
  | awaiters lhs rhs => [lhs, rhs]
  | linkAwaiter lhs rhs => lhs.infos ++ [rhs]
  | links lhs rhs => lhs.infos ++ rhs.infos
  | awaiterTimeout lhs timed timer => [lhs, timed, timer]

/-- The operand whose result `co_await` returns. -/
def Io.lastIo : Io Info → Info
  | io info => info
  | timeout timed _ => timed

def LinkIo.lastIo : LinkIo Info → Info
  | awaiters _ rhs => rhs
  | linkAwaiter _ rhs => rhs
  | links _ rhs => rhs.lastIo
  | awaiterTimeout _ timed _ => timed

end Expressions

/-- An operand of `co_await`. -/
inductive Expr (Info : Type*)
  | single (io : Io Info)
  | link (io : LinkIo Info)

namespace Expr

variable {Coro Info : Type*}

def prepared : Expr Info → Prepared Coro Info
  | single io => io.prepared
  | link io => io.prepared

def infos : Expr Info → List Info
  | single io => io.infos
  | link io => io.infos

def lastIo : Expr Info → Info
  | single io => io.lastIo
  | link io => io.lastIo

end Expr

/-- A `task_info` that exists, with the coroutine whose frame holds it. -/
structure TaskInfo (Coro : Type*) where
  handle : Option Coro
  result : Option Int
  owner : Coro
  /-- Its awaiter was created to be awaited later and was not awaited yet. -/
  kept : Bool
  deriving DecidableEq

/-- A `co_await` of I/O: the temporaries that live until the coroutine goes on,
and the one that holds its handle. -/
structure Await (Info : Type*) where
  temporaries : List Info
  lastIo : Info
  deriving DecidableEq

inductive Status (Info : Type*)
  /-- It is not created, finished, on another context, or waits for something
  that is no I/O of this worker. -/
  | idle
  | running
  | awaiting (await : Await Info)
  /-- It is in the ready queue, perhaps behind a `co_await` of I/O. -/
  | ready (await : Option (Await Info))
  /-- Another context has sent it to this ring. -/
  | handedOver
  deriving DecidableEq

/-- The position of the loop of the worker. -/
inductive Pc (Coro : Type*)
  | loop
  /-- `do_worker_part`, with the number of coroutines still to resume. -/
  | schedule (num : Nat)
  | running (coro : Coro) (num : Nat)
  | pollSubmission
  /-- `submit_and_wait` before it enters the kernel. -/
  | submitAndWait (willWait : Bool)
  /-- `submit_and_wait` waits for a completion. -/
  | waiting
  | completionPart
  /-- `poll_completion`, called by `do_completion_part` or by its bad path. -/
  | pollCompletion (badPath : Bool) (handledNum : Nat)
  | isFastPath (handledNum : Nat)
  | badPath
  | waitUring
  | isNotOver (handledNum : Nat)
  | stopped
  deriving DecidableEq

structure State (Coro Info : Type*) where
  rings : Rings (UserData Coro Info)
  requestsToReap : Int
  requestsToSubmit : Nat
  /-- The ready queue.  A null handle is `none`. -/
  reapSwap : List (Option Coro)
  info : Info → Option (TaskInfo Coro)
  status : Coro → Status Info
  /-- The result with which the kernel ended the I/O of this record, unless its
  completion is skipped. -/
  outcome : Info → Option Int
  /-- What the last `co_await` of I/O returned. -/
  value : Coro → Option Int
  pc : Pc Coro
  willStop : Bool
  readyCount : Nat

inductive Action (Coro Info : Type*)
  /-- The next step of the loop. -/
  | work
  /-- The running coroutine awaits the expression that it creates. -/
  | await (expr : Expr Info)
  /-- The running coroutine detaches the I/O that it creates. -/
  | detach (io : Io Info)
  /-- The running coroutine creates a `lazy_awaiter` and keeps it. -/
  | create (info : Info)
  | awaitKept (info : Info)
  | yield
  /-- The running coroutine makes another one ready. -/
  | spawn (coro : Coro)
  /-- It hands itself or another coroutine over to another context. -/
  | send (coro : Coro)
  /-- It finishes or suspends without I/O. -/
  | block
  /-- The kernel consumes entries in `io_uring_enter`. -/
  | enter (consumed : Nat)
  /-- The kernel ends the first request of a chain. -/
  | complete (chain : Nat) (outcome : Outcome)
  /-- Another ring sends a coroutine. -/
  | receive (coro : Coro)
  /-- A signal ends the wait of the worker. -/
  | interrupt
  | canStop
  /-- Another context stops. -/
  | deinit
  deriving Inhabited

variable {Coro Info : Type*}

/-- The `co_await` that the coroutine has to go on from. -/
def Status.pending : Status Info → Option (Await Info)
  | ready await => await
  | awaiting await => some await
  | idle | running | handedOver => none

def Status.forwarded (status : Status Info) : Status Info :=
  .ready status.pending

namespace State

/-- A worker before its loop, when `coros` were spawned. -/
def new [DecidableEq Coro] (Info : Type*) (coros : List Coro)
    (readyCount : Nat) : State Coro Info where
  rings := .empty _
  requestsToReap := 0
  requestsToSubmit := 0
  reapSwap := coros.map some
  info _ := none
  status coro := if coro ∈ coros then .ready none else .idle
  outcome _ := none
  value _ := none
  pc := .loop
  willStop := false
  readyCount := readyCount

/-- `get_free_sqe`, and the preparation of the entry.  Whoever flags the entry
to skip its completion takes it back from `requests_to_reap`. -/
def prepare (s : State Coro Info) (sqe : Sqe Coro Info) : State Coro Info :=
  { s with
    rings := s.rings.prepare sqe
    requestsToReap :=
      if sqe.skipSuccess then s.requestsToReap + 1 - 1
      else s.requestsToReap + 1
    requestsToSubmit := s.requestsToSubmit + 1 }

def prepareAll (s : State Coro Info) (sqes : List (Sqe Coro Info)) :
    State Coro Info :=
  sqes.foldl prepare s

variable [DecidableEq Coro] [DecidableEq Info]

/-- The records of the temporaries of an expression come into being. -/
def construct (s : State Coro Info) (coro : Coro) (await : Await Info) :
    State Coro Info :=
  { s with
    info := fun info =>
      if info ∈ await.temporaries then
        some ⟨if info = await.lastIo then some coro else none, none, coro,
          false⟩
      else s.info info
    outcome := fun info =>
      if info ∈ await.temporaries then none else s.outcome info }

@[simps -fullyApplied]
def setStatus (s : State Coro Info) (coro : Coro) (status : Status Info) :
    State Coro Info :=
  { s with status := Function.update s.status coro status }

/-- `forward_task` -/
def forwardTask (s : State Coro Info) : Option Coro → State Coro Info
  | none => { s with reapSwap := s.reapSwap ++ [none] }
  | some coro =>
      { s.setStatus coro (s.status coro).forwarded with
        reapSwap := s.reapSwap ++ [some coro] }

/-- `io_info->result = result`.  A record that does not exist any more keeps
nothing. -/
def storeResult (s : State Coro Info) (info : Info) (res : Int) :
    State Coro Info :=
  { s with
    info := Function.update s.info info
      ((s.info info).map fun record => { record with result := some res }) }

/-- `io_info->handle`, which is null where no record exists. -/
def handle (s : State Coro Info) (info : Info) : Option Coro :=
  (s.info info).bind TaskInfo.handle

/-- `handle_cq_entry` -/
def handleCqEntry (s : State Coro Info) (cqe : Cqe Coro Info) :
    State Coro Info :=
  let s := { s with
    requestsToReap := s.requestsToReap - 1
    rings := s.rings.seen }
  match cqe.userData with
  | .nop => s
  | .taskInfo info => (s.storeResult info cqe.res).forwardTask (s.handle info)
  | .coroutineHandle coro => s.forwardTask (some coro)
  | .taskInfoLinkSqe info => s.storeResult info cqe.res
  | .msgRing coro =>
      { s.forwardTask (some coro) with
        requestsToReap := s.requestsToReap + 1 }

/-- The coroutine reads the result that it awaited and destroys the
temporaries. -/
def resume (s : State Coro Info) (coro : Coro) : State Coro Info :=
  match (s.status coro).pending with
  | none => s.setStatus coro .running
  | some await =>
      { s.setStatus coro .running with
        value := Function.update s.value coro
          ((s.info await.lastIo).bind TaskInfo.result)
        info := fun info =>
          if info ∈ await.temporaries then none else s.info info }

/-- The next step of the loop. -/
def work (s : State Coro Info) : Option (State Coro Info) :=
  match s.pc with
  | .loop =>
      some { s with
        pc := if s.willStop then .stopped else .schedule s.reapSwap.length }
  | .schedule 0 => some { s with pc := .pollSubmission }
  | .schedule (num + 1) =>
      match s.reapSwap with
      | some coro :: rest =>
          some { s.resume coro with
            reapSwap := rest
            pc := .running coro num }
      | _ => none
  | .pollSubmission =>
      some { s with
        pc := if s.requestsToSubmit = 0 then .completionPart
          else .submitAndWait s.reapSwap.isEmpty }
  | .waiting =>
      if s.rings.cq = [] then none
      else some { s with pc := .completionPart, requestsToSubmit := 0 }
  | .completionPart =>
      some { s with
        pc := if s.rings.cq = [] then .isFastPath 0
          else .pollCompletion false 0 }
  | .pollCompletion badPath handledNum =>
      match s.rings.cq with
      | [] =>
          some { s with
            pc := if badPath then .isNotOver handledNum
              else .isFastPath handledNum }
      | cqe :: _ =>
          some { s.handleCqEntry cqe with
            pc := .pollCompletion badPath (handledNum + 1) }
  | .isFastPath handledNum =>
      some { s with
        pc := if s.requestsToSubmit ≠ 0 ∨ s.reapSwap ≠ [] ∨ handledNum ≠ 0
          then .loop else .badPath }
  | .badPath =>
      some { s with
        pc := if s.rings.cq = [] ∧ (0 < s.requestsToReap ∨ 1 < s.readyCount)
          then .waitUring else .pollCompletion true 0 }
  | .waitUring =>
      if s.rings.cq = [] then none
      else some { s with pc := .pollCompletion true 0 }
  | .isNotOver handledNum =>
      some { s with
        pc := .loop
        willStop := s.willStop || decide
          (handledNum = 0 ∧ ¬ 1 < s.readyCount ∧ s.requestsToReap = 0) }
  | .running .. | .submitAndWait _ | .stopped => none

/-- The running coroutine suspends. -/
def suspend (s : State Coro Info) (coro : Coro) (num : Nat)
    (status : Status Info) : State Coro Info :=
  { s.setStatus coro status with pc := .schedule num }

/-- The places are free for the temporaries of an expression. -/
def Free (s : State Coro Info) (infos : List Info) : Prop :=
  infos.Nodup ∧ ∀ info ∈ infos, s.info info = none

instance (s : State Coro Info) (infos : List Info) :
    Decidable (s.Free infos) :=
  inferInstanceAs (Decidable (_ ∧ _))

/-- What the running coroutine does. -/
def runCoro (s : State Coro Info) (coro : Coro) (num : Nat) :
    Action Coro Info → Option (State Coro Info)
  | .await expr =>
      if s.Free expr.infos then
        some (((s.prepareAll expr.prepared.sqes).construct coro
          ⟨expr.infos, expr.lastIo⟩).suspend coro num
            (.awaiting ⟨expr.infos, expr.lastIo⟩))
      else none
  | .detach io =>
      if s.Free io.infos then
        some (s.prepareAll io.prepared.detach.sqes)
      else none
  | .create info =>
      if s.info info = none then
        some { s.prepare (.lazyAwaiter info) with
          info := Function.update s.info info (some ⟨none, none, coro, true⟩)
          outcome := Function.update s.outcome info none }
      else none
  | .awaitKept info =>
      match s.info info with
      | some record =>
          if record.owner = coro ∧ record.kept = true then
            some ({ s with
              info := Function.update s.info info
                (some { record with handle := some coro, kept := false })
              }.suspend coro num (.awaiting ⟨[info], info⟩))
          else none
      | none => none
  | .yield => some ((s.suspend coro num .idle).forwardTask (some coro))
  | .spawn other =>
      if s.status other = .idle then some (s.forwardTask (some other))
      else none
  | .send other =>
      if other = coro then some ((s.prepare .msgRing).suspend coro num .idle)
      else if s.status other = .idle then some (s.prepare .msgRing)
      else none
  | .block => some (s.suspend coro num .idle)
  | _ => none

/-- `io_uring_enter`.  The call returns at once unless it waits. -/
def enter (s : State Coro Info) (consumed : Nat) (willWait : Bool) :
    State Coro Info :=
  if willWait then { s with rings := s.rings.enter consumed, pc := .waiting }
  else { s with
    rings := s.rings.enter consumed
    requestsToSubmit := 0
    pc := .completionPart }

/-- The kernel ends a request, which fixes the result of its I/O. -/
def complete (s : State Coro Info) (chain : Nat) (outcome : Outcome) :
    Option (State Coro Info) :=
  match s.rings.complete chain outcome with
  | some (sqe, rings) =>
      match sqe.userData, sqe.skipSuccess with
      | .taskInfo info, false =>
          some { s with
            rings := rings
            outcome := Function.update s.outcome info (some outcome.res) }
      | _, _ => some { s with rings := rings }
  | none => none

end State

variable [DecidableEq Coro] [DecidableEq Info]

def step (s : State Coro Info) (action : Action Coro Info) :
    Option (State Coro Info) :=
  match action with
  | .work => s.work
  | .enter consumed =>
      match s.pc with
      | .submitAndWait willWait =>
          if 0 < consumed ∧ consumed ≤ s.rings.sq.length then
            some (s.enter consumed willWait)
          else none
      | _ => none
  | .complete chain outcome => s.complete chain outcome
  | .receive coro =>
      if s.status coro = .idle then
        some { s.setStatus coro .handedOver with
          rings := s.rings.receive (.msgRing coro) 0 }
      else none
  | .interrupt =>
      match s.pc with
      | .waiting =>
          some { s with pc := .completionPart, requestsToSubmit := 0 }
      | .waitUring => some { s with pc := .pollCompletion true 0 }
      | _ => none
  | .canStop => some { s with willStop := true }
  | .deinit =>
      if 1 < s.readyCount then some { s with readyCount := s.readyCount - 1 }
      else none
  | _ =>
      match s.pc with
      | .running coro num => s.runCoro coro num action
      | _ => none

/-- The worker of a context among `readyCount` ones. -/
def system (Coro Info : Type*) [DecidableEq Coro] [DecidableEq Info] :
    TransitionSystem (State Coro Info) (Action Coro Info) where
  initial s := ∃ coros readyCount, coros.Nodup ∧ 0 < readyCount ∧
    s = State.new Info coros readyCount
  step := step

end CoContext.Worker
