import CoContext.ReadyQueue
import CoContext.SubmissionQueue
import CoContext.WorkerTracking

/-!
# The rings of a worker

The loop of a worker is modelled over lists: its ready queue, and the requests
that it prepared.  In the source these are rings.  `reap_swap` takes every
handle and overwrites the oldest one when it is full; the submission ring gives
out no entry when it is full.  Here each step of the worker works on what it
finds between the cursors and moves them.

While each handle is forwarded to a free slot, the worker over its rings runs
as the worker over lists does.
-/

namespace CoContext.WorkerRing

variable {Coro Info : Type*}

structure State (Coro Info : Type*) where
  /-- Everything but the rings.  The lists in their place stay empty. -/
  worker : Worker.State Coro Info
  ready : ReapSwap Coro
  submission : SubmissionQueue.State (Worker.Sqe Coro Info)

/-- A worker apart from its rings. -/
def withoutRings (worker : Worker.State Coro Info) : Worker.State Coro Info :=
  { worker with
    reapSwap := []
    rings := { worker.rings with sq := [] } }

namespace State

/-- The entries that the kernel did not consume yet, oldest first. -/
def prepared (s : State Coro Info) : List (Worker.Sqe Coro Info) :=
  (List.range s.submission.offered).filterMap fun offset =>
    s.submission.sqes
      (defaultIoUringEntries.slot (s.submission.khead + UInt32.ofNat offset))

/-- The worker with what it finds in its rings. -/
def view (s : State Coro Info) : Worker.State Coro Info :=
  { s.worker with
    reapSwap := s.ready.pending swapCapacity
    rings := { s.worker.rings with sq := s.prepared } }

/-- A worker before its loop, when `coros` were spawned. -/
def new [DecidableEq Coro] (Info : Type*) (coros : List Coro)
    (readyCount : Nat) : State Coro Info where
  worker := withoutRings (.new Info coros readyCount)
  ready := (coros.map some).foldl (ReapSwap.forwardTask swapCapacity) (.new Coro)
  submission := .new _

end State

/-- `get_free_sqe`, and the preparation of the entry.  Nothing follows when the
entry is null. -/
def getFreeSqe (submission : SubmissionQueue.State (Worker.Sqe Coro Info))
    (sqe : Worker.Sqe Coro Info) :
    Option (SubmissionQueue.State (Worker.Sqe Coro Info)) :=
  if (submission.getSqEntry defaultIoUringEntries).isSome then
    some (submission.getFreeSqe defaultIoUringEntries sqe)
  else none

/-- `work_once` takes a handle of the ready queue. -/
def schedules (worker : Worker.State Coro Info) :
    Worker.Action Coro Info → Bool
  | .work =>
      match worker.pc with
      | .schedule (_ + 1) => true
      | _ => false
  | _ => false

/-- `forward_task` is called. -/
def forwards (worker : Worker.State Coro Info) :
    Worker.Action Coro Info → Bool
  | .work =>
      match worker.pc, worker.rings.cq with
      | .pollCompletion _ _, cqe :: _ => cqe.userData.resumes
      | _, _ => false
  | .yield | .spawn _ => true
  | _ => false

namespace State

/-- What a step that leads to `next` does to `reap_swap`. -/
def moveReady (s : State Coro Info) (action : Worker.Action Coro Info)
    (next : Worker.State Coro Info) : ReapSwap Coro :=
  if schedules s.view action then s.ready.pop
  else (next.reapSwap.drop s.view.reapSwap.length).foldl
    (ReapSwap.forwardTask swapCapacity) s.ready

/-- What a step that leads to `next` does to the submission ring. -/
def moveSubmission (s : State Coro Info) (action : Worker.Action Coro Info)
    (next : Worker.State Coro Info) :
    Option (SubmissionQueue.State (Worker.Sqe Coro Info)) :=
  match action with
  | .enter consumed => some (s.submission.submitAndWait consumed)
  | _ =>
      (next.rings.sq.drop s.view.rings.sq.length).foldlM getFreeSqe
        s.submission

end State

variable [DecidableEq Coro] [DecidableEq Info]

def step (s : State Coro Info) (action : Worker.Action Coro Info) :
    Option (State Coro Info) :=
  (Worker.step s.view action).bind fun next =>
    (s.moveSubmission action next).map fun submission =>
      { worker := withoutRings next
        ready := s.moveReady action next
        submission := submission }

/-- The worker of a context among `readyCount` ones, with its rings. -/
def system (Coro Info : Type*) [DecidableEq Coro] [DecidableEq Info] :
    TransitionSystem (State Coro Info) (Worker.Action Coro Info) where
  initial s := ∃ coros readyCount, coros.Nodup ∧ 0 < readyCount ∧
    s = State.new Info coros readyCount
  step := step

/-- The coroutines that were spawned before the loop fit into the ready
queue. -/
def Fits (s : State Coro Info) : Prop :=
  ∃ coros readyCount, coros.Nodup ∧ 0 < readyCount ∧
    s = State.new Info coros readyCount ∧ coros.length ≤ swapCapacity.slots

omit [DecidableEq Coro] [DecidableEq Info] in
/-- A handle is forwarded only when a slot of `reap_swap` is free. -/
def HasRoom (s : State Coro Info) (action : Worker.Action Coro Info) : Prop :=
  forwards s.view action = true → s.ready.reapCur.size < swapCapacity.value

omit [DecidableEq Coro] [DecidableEq Info] in
instance (s : State Coro Info) (action : Worker.Action Coro Info) :
    Decidable (HasRoom s action) :=
  inferInstanceAs (Decidable (_ → _))

section Steps

variable {worker next : Worker.State Coro Info}
variable {action : Worker.Action Coro Info}

omit [DecidableEq Info] in
/-- A handle behind the ready queue. -/
theorem reapSwap_forwardTask (worker : Worker.State Coro Info)
    (handle : Option Coro) :
    (worker.forwardTask handle).reapSwap = worker.reapSwap ++ [handle] := by
  cases handle <;> rfl

theorem reapSwap_handleCqEntry (worker : Worker.State Coro Info)
    (cqe : Worker.Cqe Coro Info) :
    ∃ handles, (worker.handleCqEntry cqe).reapSwap =
        worker.reapSwap ++ handles ∧
      handles.length ≤ cqe.userData.resumes.toNat := by
  unfold Worker.State.handleCqEntry
  cases cqe.userData with
  | nop | taskInfoLinkSqe _ => exact ⟨[], by simp [Worker.State.storeResult], by simp⟩
  | taskInfo _ | coroutineHandle _ | msgRing _ =>
      exact ⟨[_], reapSwap_forwardTask _ _, by simp [Worker.UserData.resumes]⟩

/-- What a step does to the ready queue: it takes the first handle, or it adds
what it forwards. -/
theorem reapSwap_of_step (transition : Worker.Transition worker action next) :
    (schedules worker action = true ∧ ∃ handle,
      worker.reapSwap = handle :: next.reapSwap) ∨
    (schedules worker action = false ∧ ∃ handles,
      next.reapSwap = worker.reapSwap ++ handles ∧
        handles.length ≤ (forwards worker action).toNat) := by
  have same : schedules worker action = false →
      next.reapSwap = worker.reapSwap →
        schedules worker action = false ∧ ∃ handles,
          next.reapSwap = worker.reapSwap ++ handles ∧
            handles.length ≤ (forwards worker action).toNat :=
    fun keeps queue => ⟨keeps, [], by rw [queue, List.append_nil], by simp⟩
  cases transition with
  | control control =>
      refine .inr (same ?_ rfl)
      cases control <;> simp_all [schedules]
  | schedule pc queue => exact .inl ⟨by simp [schedules, pc], _, queue⟩
  | submitted pc isWork =>
      rcases isWork with rfl | rfl <;>
        exact .inr (same (by simp [schedules, pc]) rfl)
  | @handle _ _ cqe _ pc front =>
      obtain ⟨handles, queue, lengthLe⟩ := reapSwap_handleCqEntry worker cqe
      refine .inr ⟨by simp [schedules, pc], handles, queue, ?_⟩
      simpa [forwards, pc, front] using lengthLe
  | isNotOver pc => exact .inr (same (by simp [schedules, pc]) rfl)
  | await _ _ | detach _ _ | create _ _ | awaitKept _ _ _ _ | sendSelf _
  | send _ _ | block _ | receive _ | complete _ _ _ | interrupt _ | canStop
  | deinit _ => exact .inr (same rfl rfl)
  | @enter willWait _ _ _ _ => cases willWait <;> exact .inr (same rfl rfl)
  | yield _ | spawn _ _ => exact .inr ⟨rfl, [_], rfl, by simp [forwards]⟩

/-- What a step does to the submission ring: the kernel consumes entries, or
requests are prepared. -/
theorem sq_of_step (transition : Worker.Transition worker action next) :
    (∃ consumed, action = .enter consumed ∧
      consumed ≤ worker.rings.sq.length ∧
        next.rings.sq = (worker.rings.enter consumed).sq) ∨
    ((∀ consumed, action ≠ .enter consumed) ∧ ∃ sqes,
      next.rings.sq = worker.rings.sq ++ sqes) := by
  have same : (∀ consumed, action ≠ .enter consumed) →
      next.rings.sq = worker.rings.sq →
        (∀ consumed, action ≠ .enter consumed) ∧ ∃ sqes,
          next.rings.sq = worker.rings.sq ++ sqes :=
    fun noEnter sq => ⟨noEnter, [], by rw [sq, List.append_nil]⟩
  cases transition with
  | control _ | isNotOver _ | awaitKept _ _ _ _ | yield _ | spawn _ _
  | block _ | receive _ | interrupt _ | canStop | deinit _ =>
      exact .inr (same (by simp) rfl)
  | schedule _ _ =>
      have rings := Worker.resume_rings worker
      exact .inr (same (by simp) (congrArg Rings.sq (rings _)))
  | submitted _ isWork =>
      rcases isWork with rfl | rfl <;> exact .inr (same (by simp) rfl)
  | @handle _ _ cqe _ _ _ =>
      have rings := Worker.handleCqEntry_rings worker cqe
      exact .inr (same (by simp) (congrArg Rings.sq rings :))
  | await _ _ | detach _ _ | create _ _ | sendSelf _ | send _ _ =>
      exact .inr ⟨by simp, _, rfl⟩
  | @enter willWait consumed _ _ consumedLe =>
      refine .inl ⟨consumed, rfl, consumedLe, ?_⟩
      cases willWait <;> rfl
  | complete completeEq _ _ =>
      obtain ⟨_, _, _, _, rfl⟩ := Rings.complete_eq_some completeEq
      exact .inr (same (by simp) rfl)

end Steps

/-- The rings hold the lists of a worker over lists. -/
structure Holds (s : State Coro Info) (lists : Worker.State Coro Info) :
    Prop where
  worker : s.worker = withoutRings lists
  ready : s.ready.Holds swapCapacity lists.reapSwap
  submission : CursorRing defaultIoUringEntries s.submission.sqes
    s.submission.khead s.submission.sqeTail lists.rings.sq

section Refinement

variable {s s' : State Coro Info} {lists : Worker.State Coro Info}
variable {action : Worker.Action Coro Info}

omit [DecidableEq Coro] [DecidableEq Info] in
theorem Holds.prepared (holds : Holds s lists) :
    s.prepared = lists.rings.sq := by
  have contents := holds.submission.contents
  rw [State.prepared, ← Function.id_comp (fun _ => _), ← List.filterMap_map]
  exact (congrArg _ contents).trans (by rw [List.filterMap_map]; simp)

omit [DecidableEq Coro] [DecidableEq Info] in
/-- What the worker finds in its rings is the worker over lists. -/
theorem Holds.view (holds : Holds s lists) : s.view = lists := by
  rw [State.view, holds.ready.pending, holds.prepared, holds.worker]
  rfl

theorem holds_new {coros : List Coro} (Info : Type*) (readyCount : Nat)
    (lengthLe : coros.length ≤ swapCapacity.slots) :
    Holds (State.new Info coros readyCount)
      (Worker.State.new Info coros readyCount) where
  worker := rfl
  ready := by
    have ready := ReapSwap.holds_new.forwardAll (coros.map some)
      (by simpa using lengthLe)
    rwa [List.nil_append] at ready
  submission := .empty _ _

omit [DecidableEq Coro] [DecidableEq Info] in
/-- The entries that were given out hold the requests. -/
theorem submission_getFreeSqe {rings : Rings (Worker.UserData Coro Info)}
    {submission submission' : SubmissionQueue.State (Worker.Sqe Coro Info)}
    (ring : CursorRing defaultIoUringEntries submission.sqes submission.khead
      submission.sqeTail rings.sq) {sqes : List (Worker.Sqe Coro Info)}
    (prepares : sqes.foldlM getFreeSqe submission = some submission') :
    CursorRing defaultIoUringEntries submission'.sqes submission'.khead
      submission'.sqeTail (rings.sq ++ sqes) := by
  induction sqes generalizing rings submission with
  | nil =>
      obtain rfl := Option.some.inj prepares
      rwa [List.append_nil]
  | cons sqe sqes ih =>
      rw [List.foldlM_cons, Option.bind_eq_bind, Option.bind_eq_some_iff]
        at prepares
      obtain ⟨middle, isMiddle, rest⟩ := prepares
      simp only [getFreeSqe, Option.ite_none_right_eq_some, Option.some.injEq]
        at isMiddle
      obtain ⟨isSome, rfl⟩ := isMiddle
      have room : rings.sq.length < defaultIoUringEntries.slots := by
        rw [SubmissionQueue.State.getSqEntry] at isSome
        split at isSome
        next isRoom =>
          rwa [UInt32.lt_iff_toNat_lt, ring.size_eq] at isRoom
        next => simp at isSome
      have filled := ih (SubmissionQueue.getFreeSqe_refines ring room) rest
      rwa [Rings.prepare, List.append_assoc] at filled

theorem Holds.moveReady (holds : Holds s lists) (room : HasRoom s action)
    {next : Worker.State Coro Info}
    (transition : Worker.Transition lists action next) :
    (s.moveReady action next).Holds swapCapacity next.reapSwap := by
  have ready := holds.ready
  rw [State.moveReady, holds.view]
  rcases reapSwap_of_step transition with
    ⟨isSchedule, handle, queue⟩ | ⟨notSchedule, handles, queue, lengthLe⟩
  · rw [if_pos isSchedule]
    rw [queue] at ready
    exact ready.pop
  · rw [notSchedule, if_neg Bool.false_ne_true, queue, List.drop_left]
    apply ready.forwardAll handles
    rw [HasRoom, holds.view, ready.room_iff] at room
    cases isForward : forwards lists action with
    | true =>
        have isRoom := room isForward
        rw [isForward, Bool.toNat_true] at lengthLe
        omega
    | false =>
        have fits := ready.length_le
        rw [isForward, Bool.toNat_false] at lengthLe
        omega

theorem Holds.moveSubmission (holds : Holds s lists)
    {next : Worker.State Coro Info}
    {submission : SubmissionQueue.State (Worker.Sqe Coro Info)}
    (transition : Worker.Transition lists action next)
    (moveEq : s.moveSubmission action next = some submission) :
    CursorRing defaultIoUringEntries submission.sqes submission.khead
      submission.sqeTail next.rings.sq := by
  have ring := holds.submission
  rcases sq_of_step transition with
    ⟨consumed, rfl, consumedLe, sqEq⟩ | ⟨noEnter, sqes, sqEq⟩
  · obtain rfl := Option.some.inj moveEq
    rw [sqEq]
    apply SubmissionQueue.submitAndWait_refines ring
    rwa [SubmissionQueue.State.offered, ring.size_eq]
  · have prepares :
        (next.rings.sq.drop s.view.rings.sq.length).foldlM getFreeSqe
          s.submission = some submission := by
      unfold State.moveSubmission at moveEq
      split at moveEq
      next consumed => exact absurd rfl (noEnter consumed)
      next => exact moveEq
    rw [holds.view, sqEq, List.drop_left] at prepares
    rw [sqEq]
    exact submission_getFreeSqe ring prepares

/-- With a free slot for what it forwards, a step of the worker over its rings
is a step of the worker over lists. -/
theorem Holds.step (holds : Holds s lists) (room : HasRoom s action)
    (stepEq : WorkerRing.step s action = some s') :
    ∃ next, Worker.step lists action = some next ∧ Holds s' next := by
  rw [WorkerRing.step, holds.view, Option.bind_eq_some_iff] at stepEq
  obtain ⟨next, nextEq, moves⟩ := stepEq
  obtain ⟨submission, moveEq, rfl⟩ := Option.map_eq_some_iff.mp moves
  have transition := Worker.transition_of_step nextEq
  exact ⟨next, nextEq, rfl, holds.moveReady room transition,
    holds.moveSubmission transition moveEq⟩

end Refinement

section Runs

variable {run : (system Coro Info).Run}

theorem holds_of_run (fits : Fits (run.state 0)) (room : run.Guarded HasRoom)
    {time : Nat} (timeLe : time ≤ run.length) :
    ∃ lists, Holds (run.state time) lists := by
  induction time with
  | zero =>
      obtain ⟨coros, readyCount, _, _, startEq, lengthLe⟩ := fits
      rw [startEq]
      exact ⟨_, holds_new Info readyCount lengthLe⟩
  | succ time ih =>
      obtain ⟨lists, holds⟩ := ih (by omega)
      obtain ⟨next, _, holds'⟩ :=
        holds.step (room time timeLe) (run.steps time timeLe)
      exact ⟨next, holds'⟩

/-- The run of a worker over lists that a run over rings follows. -/
def lists (run : (system Coro Info).Run) (fits : Fits (run.state 0))
    (room : run.Guarded HasRoom) : (Worker.system Coro Info).Run :=
  run.map State.view id
    (by
      obtain ⟨coros, readyCount, nodup, positive, startEq, lengthLe⟩ := fits
      rw [startEq, (holds_new Info readyCount lengthLe).view]
      exact ⟨coros, readyCount, nodup, positive, rfl⟩)
    (by
      intro time timeLt
      obtain ⟨lists, holds⟩ := holds_of_run fits room (Nat.le_of_lt timeLt)
      obtain ⟨next, nextEq, holds'⟩ :=
        holds.step (room time timeLt) (run.steps time timeLt)
      rw [holds.view, holds'.view]
      exact nextEq)

end Runs

end CoContext.WorkerRing
