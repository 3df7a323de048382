import CoContext.TransitionSystem
import Mathlib.Data.List.Perm.Basic
import Mathlib.Logic.Function.Basic

/-!
# Spawning on another worker through its ring

`co_spawn_auto` forwards a coroutine on its own worker and sends it to another
one in a request `IORING_OP_MSG_RING` of the calling worker.  When the kernel
carries the request out, it posts a completion with the handle on the ring of
the target and none on that of the sender; when it fails, it posts one with
`nop` on the ring of the sender.

The handle exists only in the request.  What a worker counts is taken back by
the sender when it prepares the request, and by the target when it handles the
completion.
-/

namespace CoContext.MsgRing

/-- A coroutine that one worker spawns on another. -/
structure Send (Worker Coro : Type*) where
  sender : Worker
  target : Worker
  handle : Coro
  deriving DecidableEq

inductive Cqe (Coro : Type*)
  /-- A handle with the tag `msg_ring`. -/
  | msgRing (handle : Coro)
  /-- The request of this worker failed. -/
  | nop
  deriving DecidableEq

/-- What of each worker takes part in the exchange. -/
structure State (Worker Coro : Type*) where
  /-- The requests that are prepared. -/
  sq : Worker → List (Send Worker Coro)
  /-- The requests that the kernel has taken. -/
  inFlight : Worker → List (Send Worker Coro)
  cq : Worker → List (Cqe Coro)
  requestsToReap : Worker → Int
  reapSwap : Worker → List Coro

inductive Action (Worker Coro : Type*)
  /-- `co_spawn_auto` of `target`, called on the thread of `sender`. -/
  | coSpawnAuto (sender target : Worker) (handle : Coro)
  | coSpawnSafeMsgRing (sender target : Worker) (handle : Coro)
  /-- The kernel takes the next request of this worker. -/
  | submit (sender : Worker)
  /-- The kernel ends a request that it has taken. -/
  | complete (sender : Worker) (place : Nat) (succeeds : Bool)
  | handleCqEntry (worker : Worker)
  /-- The worker resumes its next coroutine. -/
  | schedule (worker : Worker)
  deriving DecidableEq

instance {Worker Coro : Type*} [Inhabited Worker] :
    Inhabited (Action Worker Coro) :=
  ⟨.schedule default⟩

variable {Worker Coro : Type*}

namespace State

def new (Coro : Type*) (requestsToReap : Worker → Int) :
    State Worker Coro where
  sq _ := []
  inFlight _ := []
  cq _ := []
  requestsToReap := requestsToReap
  reapSwap _ := []

variable [DecidableEq Worker] (s : State Worker Coro)

/-- `forward_task` -/
def forwardTask (worker : Worker) (handle : Coro) : State Worker Coro :=
  { s with reapSwap :=
      Function.update s.reapSwap worker (s.reapSwap worker ++ [handle]) }

/-- The entry of `get_free_sqe` is counted and taken back. -/
def coSpawnSafeMsgRing (send : Send Worker Coro) : State Worker Coro :=
  { s with
    sq := Function.update s.sq send.sender (s.sq send.sender ++ [send])
    requestsToReap := Function.update s.requestsToReap send.sender
      (s.requestsToReap send.sender + 1 - 1) }

def coSpawnAuto (send : Send Worker Coro) : State Worker Coro :=
  if send.sender = send.target then s.forwardTask send.target send.handle
  else s.coSpawnSafeMsgRing send

def submit (sender : Worker) : Option (State Worker Coro) :=
  match s.sq sender with
  | send :: rest =>
      some { s with
        sq := Function.update s.sq sender rest
        inFlight :=
          Function.update s.inFlight sender (s.inFlight sender ++ [send]) }
  | [] => none

/-- The completion of a request, and the ring that it is posted on. -/
def posted (send : Send Worker Coro) : Bool → Worker × Cqe Coro
  | true => (send.target, .msgRing send.handle)
  | false => (send.sender, .nop)

def complete (sender : Worker) (place : Nat) (succeeds : Bool) :
    Option (State Worker Coro) :=
  match (s.inFlight sender)[place]? with
  | some send =>
      some { s with
        inFlight := Function.update s.inFlight sender
          ((s.inFlight sender).eraseIdx place)
        cq := Function.update s.cq (posted send succeeds).1
          (s.cq (posted send succeeds).1 ++ [(posted send succeeds).2]) }
  | none => none

/-- `handle_cq_entry`.  A handle of another ring was not counted here. -/
def handleCqEntry (worker : Worker) : Option (State Worker Coro) :=
  match s.cq worker with
  | cqe :: rest =>
      let s := { s with
        cq := Function.update s.cq worker rest
        requestsToReap := Function.update s.requestsToReap worker
          (s.requestsToReap worker - 1) }
      match cqe with
      | .nop => some s
      | .msgRing handle =>
          some { s.forwardTask worker handle with
            requestsToReap := Function.update s.requestsToReap worker
              (s.requestsToReap worker + 1) }
  | [] => none

end State

section System

variable [DecidableEq Worker]

def step (s : State Worker Coro) :
    Action Worker Coro → Option (State Worker Coro)
  | .coSpawnAuto sender target handle =>
      some (s.coSpawnAuto ⟨sender, target, handle⟩)
  | .coSpawnSafeMsgRing sender target handle =>
      some (s.coSpawnSafeMsgRing ⟨sender, target, handle⟩)
  | .submit sender => s.submit sender
  | .complete sender place succeeds => s.complete sender place succeeds
  | .handleCqEntry worker => s.handleCqEntry worker
  | .schedule worker =>
      some { s with reapSwap :=
        Function.update s.reapSwap worker (s.reapSwap worker).tail }

/-- Workers that spawn coroutines on each other. -/
def system (Worker Coro : Type*) [DecidableEq Worker] :
    TransitionSystem (State Worker Coro) (Action Worker Coro) where
  initial s := ∃ requestsToReap, s = State.new Coro requestsToReap
  step := step

/-- What a step prepares in a submission ring, or forwards at once. -/
def prepared (_ : State Worker Coro) :
    Action Worker Coro → Option (Send Worker Coro)
  | .coSpawnAuto sender target handle
  | .coSpawnSafeMsgRing sender target handle =>
      some ⟨sender, target, handle⟩
  | _ => none

/-- What a step hands to the kernel, or forwards at once. -/
def sent (s : State Worker Coro) :
    Action Worker Coro → Option (Send Worker Coro)
  | .coSpawnAuto sender target handle =>
      if sender = target then some ⟨sender, target, handle⟩ else none
  | .submit sender => (s.sq sender).head?
  | _ => none

/-- What a step brings to the ring of its target, or forwards at once. -/
def arrived (s : State Worker Coro) :
    Action Worker Coro → Option (Send Worker Coro)
  | .coSpawnAuto sender target handle =>
      if sender = target then some ⟨sender, target, handle⟩ else none
  | .complete sender place true => (s.inFlight sender)[place]?
  | _ => none

/-- What the kernel fails to send. -/
def failed (s : State Worker Coro) :
    Action Worker Coro → Option (Send Worker Coro)
  | .complete sender place false => (s.inFlight sender)[place]?
  | _ => none

/-- What a step forwards, and where. -/
def forwarded (s : State Worker Coro) :
    Action Worker Coro → Option (Worker × Coro)
  | .coSpawnAuto sender target handle =>
      if sender = target then some (target, handle) else none
  | .handleCqEntry worker =>
      match s.cq worker with
      | .msgRing handle :: _ => some (worker, handle)
      | _ => none
  | _ => none

end System

/-- The kernel has ended what it has taken, and what it posted is handled. -/
def Settled (s : State Worker Coro) : Prop :=
  ∀ worker, s.inFlight worker = [] ∧ s.cq worker = []

section Step

variable [DecidableEq Worker] {s s' : State Worker Coro}
variable {action : Action Worker Coro}

/-- Requests stay on the ring of their sender. -/
def Owned (s : State Worker Coro) : Prop :=
  ∀ worker send, send ∈ s.sq worker ∨ send ∈ s.inFlight worker →
    send.sender = worker

/-- The steps of the exchange. -/
inductive Transition (s : State Worker Coro) :
    Action Worker Coro → State Worker Coro → Prop
  | forward (send : Send Worker Coro) : send.sender = send.target →
      Transition s (.coSpawnAuto send.sender send.target send.handle)
        (s.forwardTask send.target send.handle)
  | prepare {action : Action Worker Coro} {send : Send Worker Coro} :
      prepared s action = some send → sent s action = none →
      arrived s action = none → failed s action = none →
      forwarded s action = none →
      Transition s action (s.coSpawnSafeMsgRing send)
  | submit {sender : Worker} {send : Send Worker Coro}
      {rest : List (Send Worker Coro)} : s.sq sender = send :: rest →
      Transition s (.submit sender) { s with
        sq := Function.update s.sq sender rest
        inFlight :=
          Function.update s.inFlight sender (s.inFlight sender ++ [send]) }
  | complete {sender : Worker} {place : Nat} {succeeds : Bool}
      {send : Send Worker Coro} :
      (s.inFlight sender)[place]? = some send →
      Transition s (.complete sender place succeeds) { s with
        inFlight := Function.update s.inFlight sender
          ((s.inFlight sender).eraseIdx place)
        cq := Function.update s.cq (State.posted send succeeds).1
          (s.cq (State.posted send succeeds).1 ++
            [(State.posted send succeeds).2]) }
  | handleNop {worker : Worker} {rest : List (Cqe Coro)} :
      s.cq worker = .nop :: rest →
      Transition s (.handleCqEntry worker) { s with
        cq := Function.update s.cq worker rest
        requestsToReap := Function.update s.requestsToReap worker
          (s.requestsToReap worker - 1) }
  | handleMsgRing {worker : Worker} {handle : Coro}
      {rest : List (Cqe Coro)} : s.cq worker = .msgRing handle :: rest →
      Transition s (.handleCqEntry worker)
        { s.forwardTask worker handle with
          cq := Function.update s.cq worker rest }
  | schedule {worker : Worker} : Transition s (.schedule worker)
      { s with reapSwap :=
        Function.update s.reapSwap worker (s.reapSwap worker).tail }

theorem transition_of_step (stepEq : MsgRing.step s action = some s') :
    Transition s action s' := by
  cases action with
  | coSpawnAuto sender target handle =>
      obtain rfl := Option.some.inj stepEq
      unfold State.coSpawnAuto
      split
      next same => exact .forward ⟨sender, target, handle⟩ same
      next differs =>
        have notLocal : sender ≠ target := differs
        exact .prepare rfl (if_neg notLocal) (if_neg notLocal) rfl
          (if_neg notLocal)
  | coSpawnSafeMsgRing sender target handle =>
      obtain rfl := Option.some.inj stepEq
      exact .prepare rfl rfl rfl rfl rfl
  | submit sender =>
      simp only [step, State.submit] at stepEq
      split at stepEq
      next front =>
        obtain rfl := Option.some.inj stepEq
        exact .submit front
      next => simp at stepEq
  | complete sender place succeeds =>
      simp only [step, State.complete] at stepEq
      split at stepEq
      next found =>
        obtain rfl := Option.some.inj stepEq
        exact .complete found
      next => simp at stepEq
  | handleCqEntry worker =>
      simp only [step, State.handleCqEntry] at stepEq
      split at stepEq
      next cqe rest front =>
        cases cqe with
        | nop =>
            obtain rfl := Option.some.inj stepEq
            exact .handleNop front
        | msgRing handle =>
            have restored : Function.update
                (Function.update s.requestsToReap worker
                  (s.requestsToReap worker - 1)) worker
                (Function.update s.requestsToReap worker
                  (s.requestsToReap worker - 1) worker + 1) =
                s.requestsToReap := by
              rw [Function.update_idem, Function.update_self,
                Int.sub_add_cancel, Function.update_eq_self]
            simp only [restored] at stepEq
            obtain rfl := Option.some.inj stepEq
            exact .handleMsgRing front
      next => simp at stepEq
  | schedule worker =>
      obtain rfl := Option.some.inj stepEq
      exact .schedule

theorem owned_step (owned : Owned s) (transition : Transition s action s') :
    Owned s' := by
  cases transition with
  | forward send same => exact owned
  | @prepare _ send =>
      intro worker other isOther
      rcases isOther with isPrepared | isTaken
      · by_cases isSender : worker = send.sender
        · subst worker
          simp only [State.coSpawnSafeMsgRing, Function.update_self,
            List.mem_append, List.mem_singleton] at isPrepared
          rcases isPrepared with isPrepared | rfl
          · exact owned _ other (.inl isPrepared)
          · rfl
        · simp only [State.coSpawnSafeMsgRing,
            Function.update_of_ne isSender] at isPrepared
          exact owned worker other (.inl isPrepared)
      · exact owned worker other (.inr isTaken)
  | @submit sender send rest front =>
      have isOwned := owned sender send (.inl (by simp [front]))
      intro worker other isOther
      by_cases isSender : worker = sender
      · subst worker
        simp only [Function.update_self, List.mem_append,
          List.mem_singleton] at isOther
        rcases isOther with isPrepared | isTaken | rfl
        · exact owned sender other (.inl (by simp [front, isPrepared]))
        · exact owned sender other (.inr isTaken)
        · exact isOwned
      · simp only [Function.update_of_ne isSender] at isOther
        exact owned worker other isOther
  | @complete sender place =>
      intro worker other isOther
      rcases isOther with isPrepared | isTaken
      · exact owned worker other (.inl isPrepared)
      · by_cases isSender : worker = sender
        · subst worker
          simp only [Function.update_self] at isTaken
          exact owned sender other (.inr (List.mem_of_mem_eraseIdx isTaken))
        · simp only [Function.update_of_ne isSender] at isTaken
          exact owned worker other (.inr isTaken)
  | handleNop | handleMsgRing | schedule => exact owned

variable [DecidableEq Coro]

/-- What is prepared is in the submission ring until it is sent. -/
theorem prepared_account (owned : Owned s)
    (transition : Transition s action s') (send : Send Worker Coro) :
    (s.sq send.sender).count send + (prepared s action).toList.count send =
      (sent s action).toList.count send + (s'.sq send.sender).count send := by
  cases transition with
  | forward other same =>
      simp only [prepared, sent, if_pos same, State.forwardTask]
      omega
  | @prepare _ other isPrepared notSent =>
      rw [isPrepared, notSent]
      by_cases isSender : send.sender = other.sender
      · simp [State.coSpawnSafeMsgRing, isSender]
      · have isOther : other ≠ send := by
          rintro rfl
          exact isSender rfl
        simp [State.coSpawnSafeMsgRing, isSender, isOther]
  | @submit sender other rest front =>
      have isOwned := owned sender other (.inl (by simp [front]))
      by_cases isSender : send.sender = sender
      · subst isSender
        simp only [prepared, sent, front, List.head?_cons, Option.toList_some,
          Option.toList_none, List.count_nil, Function.update_self,
          List.count_cons]
        omega
      · have isOther : other ≠ send := by
          rintro rfl
          exact isSender isOwned
        simp [prepared, sent, front, isSender, isOther]
  | handleNop | handleMsgRing | complete | schedule =>
      simp [prepared, sent, State.forwardTask]

/-- What is sent is with the kernel until it arrives or fails. -/
theorem sent_account (owned : Owned s)
    (transition : Transition s action s') (send : Send Worker Coro) :
    (s.inFlight send.sender).count send + (sent s action).toList.count send =
      (arrived s action).toList.count send +
        (failed s action).toList.count send +
          (s'.inFlight send.sender).count send := by
  cases transition with
  | forward other same =>
      simp only [sent, arrived, failed, if_pos same, State.forwardTask,
        Option.toList_none, List.count_nil]
      omega
  | @prepare _ other _ notSent notArrived notFailed =>
      rw [notSent, notArrived, notFailed]
      simp [State.coSpawnSafeMsgRing]
  | @submit sender other rest front =>
      have isOwned := owned sender other (.inl (by simp [front]))
      by_cases isSender : send.sender = sender
      · subst isSender
        simp [sent, arrived, failed, front]
      · have isOther : other ≠ send := by
          rintro rfl
          exact isSender isOwned
        simp [sent, arrived, failed, front, isSender, isOther]
  | @complete sender place succeeds other found =>
      have isOwned := owned sender other (.inr (List.mem_of_getElem? found))
      obtain ⟨placeLt, isPlace⟩ := List.getElem?_eq_some_iff.mp found
      have ended : (arrived s (.complete sender place succeeds)).toList.count
          send + (failed s (.complete sender place succeeds)).toList.count
            send = [other].count send := by
        cases succeeds <;> simp [arrived, failed, found]
      have isSent : sent s (.complete sender place succeeds) = none := rfl
      rw [ended, isSent]
      by_cases isSender : send.sender = sender
      · subst isSender
        have erased := (List.getElem_cons_eraseIdx_perm placeLt).count_eq send
        rw [isPlace] at erased
        simp only [Function.update_self, Option.toList_none, List.count_nil,
          List.count_cons] at erased ⊢
        omega
      · have isOther : other ≠ send := by
          rintro rfl
          exact isSender isOwned
        simp [isSender, isOther]
  | handleNop | handleMsgRing | schedule =>
      simp [sent, arrived, failed, State.forwardTask]

/-- What arrives is in the completion ring until it is forwarded. -/
theorem arrived_account (transition : Transition s action s')
    (worker : Worker) (handle : Coro) :
    (s.cq worker).count (.msgRing handle) +
        ((arrived s action).toList.map fun send =>
          (send.target, send.handle)).count (worker, handle) =
      (forwarded s action).toList.count (worker, handle) +
        (s'.cq worker).count (.msgRing handle) := by
  cases transition with
  | forward send same =>
      simp only [arrived, forwarded, if_pos same, State.forwardTask,
        Option.toList_some, List.map_cons, List.map_nil]
      omega
  | @prepare _ send _ _ notArrived _ notForwarded =>
      rw [notArrived, notForwarded]
      simp [State.coSpawnSafeMsgRing]
  | submit front => simp [arrived, forwarded]
  | @complete sender place succeeds send found =>
      cases succeeds with
      | true =>
          by_cases isTarget : worker = send.target
          · subst isTarget
            by_cases isHandle : send.handle = handle
            · simp [arrived, forwarded, found, State.posted, isHandle]
            · simp [arrived, forwarded, found, State.posted, isHandle]
          · have isOther : send.target ≠ worker := fun same =>
              isTarget same.symm
            simp [arrived, forwarded, found, State.posted, isTarget, isOther]
      | false =>
          by_cases isSender : worker = send.sender
          · subst isSender
            simp [arrived, forwarded, State.posted]
          · simp [arrived, forwarded, State.posted, isSender]
  | @handleNop place rest front =>
      by_cases isPlace : worker = place
      · subst isPlace
        simp [arrived, forwarded, front]
      · simp [arrived, forwarded, front, isPlace]
  | @handleMsgRing place other rest front =>
      by_cases isPlace : worker = place
      · subst isPlace
        by_cases isHandle : other = handle
        · simp [arrived, forwarded, front, isHandle, Nat.add_comm]
        · simp [arrived, forwarded, front, isHandle]
      · have isOther : place ≠ worker := fun same => isPlace same.symm
        simp [arrived, forwarded, front, isPlace, isOther]
  | schedule => simp [arrived, forwarded]

end Step

section Runs

variable [DecidableEq Worker]

/-- What is promised of a run up to a time: a prepared request is sent or
still in its ring; each handle that was sent was forwarded once, by its target
or by its sender; and no worker counts anything. -/
structure Delivered [DecidableEq Coro] (run : (system Worker Coro).Run)
    (time : Nat) : Prop where
  unsent : ∀ send : Send Worker Coro, (run.log prepared 0 time).count send =
    (run.log sent 0 time).count send +
      ((run.state time).sq send.sender).count send
  once : ∃ places : List (Send Worker Coro × Worker),
    (places.map Prod.fst).Perm (run.log sent 0 time) ∧
    (places.map fun place => (place.2, place.1.handle)).Perm
      (run.log forwarded 0 time) ∧
    ∀ place ∈ places, place.2 = place.1.target ∨ place.2 = place.1.sender
  requestsToReap : ∀ worker,
    (run.state time).requestsToReap worker =
      (run.state 0).requestsToReap worker

/-- The kernel fails a request. -/
def Fails : Action Worker Coro → Prop
  | .complete _ _ false => True
  | _ => False

instance (action : Action Worker Coro) : Decidable (Fails action) := by
  unfold Fails
  split <;> infer_instance

variable {run : (system Worker Coro).Run} {time : Nat}

theorem log_succ {Event : Type*}
    (observe : State Worker Coro → Action Worker Coro → Option Event) :
    run.log observe 0 (time + 1) = run.log observe 0 time ++
      (observe (run.state time) (run.action time)).toList := by
  rw [run.log_append (Nat.zero_le time) (Nat.le_succ time), run.log_single]

theorem owned_of_run (timeLe : time ≤ run.length) :
    Owned (run.state time) := by
  induction time with
  | zero =>
      obtain ⟨requestsToReap, starts⟩ := run.starts
      rw [starts]
      intro worker send isSend
      simp [State.new] at isSend
  | succ time ih =>
      exact owned_step (ih (Nat.le_of_succ_le timeLe))
        (transition_of_step (run.steps time timeLe))

section Accounts

variable [DecidableEq Coro]

theorem prepared_of_run (timeLe : time ≤ run.length)
    (send : Send Worker Coro) : (run.log prepared 0 time).count send =
      (run.log sent 0 time).count send +
        ((run.state time).sq send.sender).count send := by
  induction time with
  | zero =>
      obtain ⟨requestsToReap, starts⟩ := run.starts
      simp [starts, State.new]
  | succ time ih =>
      have before := ih (Nat.le_of_succ_le timeLe)
      have account := prepared_account
        (owned_of_run (Nat.le_of_succ_le timeLe))
        (transition_of_step (run.steps time timeLe)) send
      rw [log_succ, log_succ, List.count_append, List.count_append]
      omega

theorem sent_of_run (timeLe : time ≤ run.length) (send : Send Worker Coro) :
    (run.log sent 0 time).count send = (run.log arrived 0 time).count send +
      (run.log failed 0 time).count send +
        ((run.state time).inFlight send.sender).count send := by
  induction time with
  | zero =>
      obtain ⟨requestsToReap, starts⟩ := run.starts
      simp [starts, State.new]
  | succ time ih =>
      have before := ih (Nat.le_of_succ_le timeLe)
      have account := sent_account (owned_of_run (Nat.le_of_succ_le timeLe))
        (transition_of_step (run.steps time timeLe)) send
      rw [log_succ, log_succ, log_succ, List.count_append, List.count_append,
        List.count_append]
      omega

theorem arrived_of_run (timeLe : time ≤ run.length) (worker : Worker)
    (handle : Coro) : ((run.log arrived 0 time).map fun send =>
        (send.target, send.handle)).count (worker, handle) =
      (run.log forwarded 0 time).count (worker, handle) +
        ((run.state time).cq worker).count (.msgRing handle) := by
  induction time with
  | zero =>
      obtain ⟨requestsToReap, starts⟩ := run.starts
      simp [starts, State.new]
  | succ time ih =>
      have before := ih (Nat.le_of_succ_le timeLe)
      have account := arrived_account
        (transition_of_step (run.steps time timeLe)) worker handle
      rw [log_succ, log_succ, List.map_append, List.count_append,
        List.count_append]
      omega

theorem sent_perm (timeLe : time ≤ run.length)
    (settled : Settled (run.state time)) :
    (run.log sent 0 time).Perm
      (run.log arrived 0 time ++ run.log failed 0 time) := by
  apply List.perm_iff_count.mpr
  intro send
  have account := sent_of_run timeLe send
  rw [(settled send.sender).1, List.count_nil] at account
  rw [List.count_append, account, Nat.add_zero]

theorem forwarded_perm (timeLe : time ≤ run.length)
    (settled : Settled (run.state time)) :
    ((run.log arrived 0 time).map fun send =>
      (send.target, send.handle)).Perm (run.log forwarded 0 time) := by
  apply List.perm_iff_count.mpr
  rintro ⟨worker, handle⟩
  have account := arrived_of_run timeLe worker handle
  rwa [(settled worker).2, List.count_nil, Nat.add_zero] at account

end Accounts

/-- As long as no request fails, no worker has anything to count. -/
theorem counts_of_run (timeLe : time ≤ run.length)
    (succeeds : ∀ earlier < time, ¬ Fails (run.action earlier)) :
    (∀ worker, (run.state time).requestsToReap worker =
      (run.state 0).requestsToReap worker) ∧
    ∀ worker, Cqe.nop ∉ (run.state time).cq worker := by
  induction time with
  | zero =>
      obtain ⟨requestsToReap, starts⟩ := run.starts
      simp [starts, State.new]
  | succ time ih =>
      obtain ⟨reapEq, noNop⟩ := ih (Nat.le_of_succ_le timeLe)
        fun earlier earlierLt => succeeds earlier (by omega)
      have notFails := succeeds time (Nat.lt_succ_self time)
      have transition := transition_of_step (run.steps time timeLe)
      generalize run.state time = s at reapEq noNop transition
      generalize run.state (time + 1) = s' at transition ⊢
      generalize run.action time = action at notFails transition
      cases transition with
      | forward send same => exact ⟨reapEq, noNop⟩
      | prepare =>
          refine ⟨?_, noNop⟩
          intro worker
          rw [← reapEq worker]
          simp only [State.coSpawnSafeMsgRing, Int.add_sub_cancel,
            Function.update_eq_self]
      | submit front => exact ⟨reapEq, noNop⟩
      | @complete sender place succeeds send found =>
          cases succeeds with
          | false => exact absurd trivial notFails
          | true =>
              refine ⟨reapEq, ?_⟩
              intro worker
              by_cases isTarget : worker = send.target
              · subst isTarget
                simpa [State.posted] using noNop send.target
              · simpa [State.posted, isTarget] using noNop worker
      | @handleNop worker rest front =>
          exact absurd (by simp [front]) (noNop worker)
      | @handleMsgRing place handle rest front =>
          refine ⟨reapEq, ?_⟩
          intro worker
          by_cases isPlace : worker = place
          · subst isPlace
            have before := noNop worker
            rw [front] at before
            simpa using fun inRest => before (List.mem_cons_of_mem _ inRest)
          · simpa [isPlace] using noNop worker
      | schedule => exact ⟨reapEq, noNop⟩

/-- When everything that was sent is ended and handled, everything is
delivered if and only if no request has failed. -/
theorem run_delivers_iff [DecidableEq Coro] (run : (system Worker Coro).Run)
    {time : Nat} (timeLe : time ≤ run.length)
    (settled : Settled (run.state time)) :
    Delivered run time ↔ ∀ earlier < time, ¬ Fails (run.action earlier) := by
  have sentPerm := sent_perm timeLe settled
  have forwardedPerm := forwarded_perm timeLe settled
  constructor
  · intro delivered earlier earlierLt fails
    obtain ⟨places, isSent, isForwarded, _⟩ := delivered.once
    have noneFailed : run.log failed 0 time = [] := by
      have sentLength := sentPerm.length_eq
      have forwardedLength := forwardedPerm.length_eq
      have placesSent := isSent.length_eq
      have placesForwarded := isForwarded.length_eq
      simp only [List.length_append, List.length_map] at *
      apply List.eq_nil_of_length_eq_zero
      omega
    have stepEq := run.steps earlier (by omega)
    have transition := transition_of_step stepEq
    generalize actionEq : run.action earlier = action at fails transition
    generalize run.state (earlier + 1) = s' at transition
    cases transition with
    | @complete sender place succeeds send found =>
        cases succeeds with
        | true => exact fails
        | false =>
            have isFailed : send ∈ run.log failed 0 time := by
              apply run.mem_log.mpr
              refine ⟨earlier, Nat.zero_le _, earlierLt, ?_⟩
              rw [actionEq]
              exact found
            rw [noneFailed] at isFailed
            simp at isFailed
    | prepare isPrepared =>
        unfold Fails at fails
        split at fails
        · simp [prepared] at isPrepared
        · exact fails
    | forward | submit | handleNop | handleMsgRing | schedule => exact fails
  · intro succeeds
    have noneFailed : run.log failed 0 time = [] := by
      rw [List.eq_nil_iff_forall_not_mem]
      intro send isFailed
      obtain ⟨earlier, _, earlierLt, observed⟩ := run.mem_log.mp isFailed
      apply succeeds earlier earlierLt
      unfold failed at observed
      split at observed
      next actionEq => rw [actionEq]; trivial
      next => simp at observed
    rw [noneFailed, List.append_nil] at sentPerm
    refine ⟨prepared_of_run timeLe, ⟨(run.log arrived 0 time).map fun send =>
      (send, send.target), ?_, ?_, ?_⟩, (counts_of_run timeLe succeeds).1⟩
    · simpa [List.map_map, Function.comp_def] using sentPerm.symm
    · simpa [List.map_map, Function.comp_def] using forwardedPerm
    · intro place isPlace
      obtain ⟨send, _, rfl⟩ := List.mem_map.mp isPlace
      exact .inl rfl

end Runs

section Exchange

theorem exchange_initial : (system (Fin 2) Nat).initial
    (State.new Nat fun _ => 0) :=
  ⟨_, rfl⟩

/-- Worker 0 spawns coroutine 7 on worker 1. -/
def sentRun : (system (Fin 2) Nat).Run :=
  .ofActions (State.new Nat fun _ => 0) exchange_initial
    [.coSpawnAuto 0 1 7, .submit 0, .complete 0 0 true, .handleCqEntry 1]
    (by decide)

theorem run_delivers_sent : Delivered sentRun 4 := by
  have settled : Settled (sentRun.state 4) := by
    unfold Settled
    decide
  exact (run_delivers_iff sentRun (by decide) settled).mpr (by decide)

/-- The kernel fails the request. -/
def failedRun : (system (Fin 2) Nat).Run :=
  .ofActions (State.new Nat fun _ => 0) exchange_initial
    [.coSpawnAuto 0 1 7, .submit 0, .complete 0 0 false, .handleCqEntry 0]
    (by decide)

/-- A coroutine in a request that failed is lost, and the sender counts less
than nothing. -/
theorem run_delivers_fails :
    ¬ ∀ run : (system (Fin 2) Nat).Run, ∀ time ≤ run.length,
      Settled (run.state time) → Delivered run time := by
  intro law
  have settled : Settled (failedRun.state 4) := by
    unfold Settled
    decide
  have delivered := law failedRun 4 (by decide) settled
  have sameCount := delivered.requestsToReap 0
  have isNegative : (failedRun.state 4).requestsToReap 0 = -1 := by decide
  have wasZero : (failedRun.state 0).requestsToReap 0 = 0 := by decide
  omega

end Exchange

end CoContext.MsgRing
