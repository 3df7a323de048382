import CoContext.WorkerAccounting
import CoContext.WorkerExpression
import Mathlib.Data.List.Count

/-!
# The coroutines that completions resume

A completion that forwards a coroutine must find the coroutine still waiting
for it.  In runs in which no detached I/O fails, no link timeout is rejected
and no completion is handled before its I/O is awaited, each suspended
coroutine is owed exactly one such completion, and the ready queue holds each
ready coroutine once and no null handle.
-/

namespace CoContext.Worker

open Request TransitionSystem

variable {Coro Info : Type*}

/-- The handling of this data forwards a coroutine. -/
def UserData.resumes : UserData Coro Info → Bool
  | taskInfo _ | coroutineHandle _ | msgRing _ => true
  | nop | taskInfoLinkSqe _ => false

def UserData.isNop : UserData Coro Info → Bool
  | nop => true
  | taskInfo _ | coroutineHandle _ | taskInfoLinkSqe _ | msgRing _ => false

/-- The completions that are to resume coroutines. -/
def State.owed (s : State Coro Info) : List (UserData Coro Info) :=
  s.rings.outstanding.filter UserData.resumes

/-- No detached I/O fails and no link timeout is rejected. -/
def State.quietIo (s : State Coro Info) : Action Coro Info → Bool
  | .complete chain outcome =>
      match s.rings.complete chain outcome with
      | some (sqe, _) =>
          !(sqe.skipSuccess && sqe.posts outcome) || sqe.userData.isNop
      | none => true
  | _ => true

/-- The completion of an I/O is handled after its `co_await`. -/
def State.awaitedFirst (s : State Coro Info) : Action Coro Info → Bool
  | .work =>
      match s.pc, s.rings.cq with
      | .pollCompletion _ _, cqe :: _ =>
          match cqe.userData with
          | .taskInfo info => !(s.info info).any TaskInfo.kept
          | _ => true
      | _, _ => true
  | _ => true

def Status.isReady : Status Info → Bool
  | ready _ => true
  | idle | running | awaiting _ | handedOver => false

/-- The coroutine runs. -/
def Pc.Runs (pc : Pc Coro) (coro : Coro) : Prop :=
  ∃ num, pc = .running coro num

@[simp]
theorem runs_running {coro other : Coro} {num : Nat} :
    (Pc.running coro num).Runs other ↔ coro = other := by
  simp [Pc.Runs]

/-- Only a completion that is handled before its `co_await` is not awaited
first. -/
theorem exists_kept {s : State Coro Info} {action : Action Coro Info}
    (early : s.awaitedFirst action ≠ true) :
    ∃ badPath handledNum cqe rest info record, action = .work ∧
      s.pc = .pollCompletion badPath handledNum ∧
      s.rings.cq = cqe :: rest ∧ cqe.userData = .taskInfo info ∧
      s.info info = some record ∧ record.kept = true := by
  unfold State.awaitedFirst at early
  split at early
  next =>
    split at early
    next badPath handledNum cqe rest pc front =>
      split at early
      next info data =>
        simp only [Bool.not_eq_true', Bool.not_eq_false, ne_eq,
          Option.any_eq_true_iff_get] at early
        obtain ⟨isSome, isKept⟩ := early
        exact ⟨badPath, handledNum, cqe, rest, info, _, rfl, pc, front, data,
          (Option.some_get isSome).symm, isKept⟩
      next => simp at early
    next => simp at early
  next => simp at early

section Owed

variable {s : State Coro Info}

theorem owed_withSqes (sqes : List (Sqe Coro Info)) :
    (s.withSqes sqes).owed =
      s.owed ++ (awaited sqes).filter UserData.resumes := by
  have outstanding : (s.withSqes sqes).rings.outstanding =
      s.rings.outstanding ++ awaited sqes := Rings.outstanding_append sqes
  rw [State.owed, outstanding, List.filter_append]
  rfl

/-- Of the entries of an expression one resumes the coroutine. -/
theorem Expr.owed_sqes (expr : Expr Info) :
    (awaited (expr.prepared : Prepared Coro Info).sqes).filter
      UserData.resumes = [.taskInfo expr.lastIo] := by
  rw [expr.shaped.awaited_eq, List.filter_append,
    List.filter_eq_nil_iff.mpr (by simp [UserData.resumes])]
  rfl

theorem owed_of_quiet {chain : Nat} {outcome : Outcome}
    {sqe : Sqe Coro Info} {s' : State Coro Info}
    (completeEq : s.rings.complete chain outcome = some (sqe, s'.rings))
    (quiet : s.quietIo (.complete chain outcome) = true) :
    s'.owed.Perm s.owed := by
  have perm := (Rings.outstanding_complete completeEq).filter UserData.resumes
  simp only [State.quietIo, completeEq] at quiet
  refine perm.trans (List.Perm.of_eq ?_)
  cases noisy : sqe.skipSuccess && sqe.posts outcome with
  | false => simp [State.owed]
  | true =>
      have isNop : sqe.userData.isNop = true := by simpa [noisy] using quiet
      have silent : sqe.userData.resumes = false := by
        cases data : sqe.userData <;>
          simp_all [UserData.isNop, UserData.resumes]
      simp [State.owed, silent]

theorem owed_of_receive {coro : Coro} {s' : State Coro Info}
    (ringsEq : s'.rings = s.rings.receive (.msgRing coro) 0) :
    s'.owed.Perm (.msgRing coro :: s.owed) := by
  have received : s'.rings.outstanding.Perm
      (.msgRing coro :: s.rings.outstanding) := by
    rw [ringsEq]
    exact Rings.outstanding_receive _ 0
  have perm := received.filter UserData.resumes
  rwa [List.filter_cons_of_pos rfl] at perm

theorem owed_of_seen {cqe : Cqe Coro Info} {rest : List (Cqe Coro Info)}
    {s' : State Coro Info} (front : s.rings.cq = cqe :: rest)
    (ringsEq : s'.rings = s.rings.seen) :
    s.owed = if cqe.userData.resumes then cqe.userData :: s'.owed
      else s'.owed := by
  rw [State.owed, Rings.outstanding_seen front, State.owed, ringsEq,
    List.filter_cons]

end Owed

variable [DecidableEq Coro]

/-- Each suspended coroutine is owed one completion, and its records exist. -/
structure Tracked (s : State Coro Info) : Prop where
  nodup : s.owed.Nodup
  taskInfo : ∀ info, .taskInfo info ∈ s.owed → ∃ record,
    s.info info = some record ∧ (record.kept = true ∨
      ∃ await, s.status record.owner = .awaiting await ∧ await.lastIo = info)
  msgRing : ∀ coro, .msgRing coro ∈ s.owed → s.status coro = .handedOver
  noHandle : ∀ coro, .coroutineHandle coro ∉ s.owed
  kept : ∀ info record, s.info info = some record → record.kept = true →
    .taskInfo info ∈ s.owed
  awaiting : ∀ coro await, s.status coro = .awaiting await →
    .taskInfo await.lastIo ∈ s.owed
  owned : ∀ coro await, (s.status coro).pending = some await →
    ∀ info ∈ await.temporaries, ∃ record, s.info info = some record ∧
      record.owner = coro ∧ record.kept = false
  lastIo : ∀ coro await, (s.status coro).pending = some await →
    await.lastIo ∈ await.temporaries ∧ s.handle await.lastIo = some coro
  queue : ∀ coro,
    s.reapSwap.count (some coro) = (s.status coro).isReady.toNat
  noNull : none ∉ s.reapSwap
  running : ∀ coro, s.status coro = .running ↔ s.pc.Runs coro

namespace Tracked

variable {s s' : State Coro Info}

/-- A step that resumes and suspends nobody. -/
theorem same (tracked : Tracked s) (owed : s'.owed.Perm s.owed)
    (info : s'.info = s.info) (status : s'.status = s.status)
    (reapSwap : s'.reapSwap = s.reapSwap)
    (runs : ∀ coro, s'.pc.Runs coro ↔ s.pc.Runs coro) : Tracked s' where
  nodup := owed.nodup_iff.mpr tracked.nodup
  taskInfo place isOwed := by
    rw [info, status]
    exact tracked.taskInfo place (owed.mem_iff.mp isOwed)
  msgRing coro isOwed := by
    rw [status]
    exact tracked.msgRing coro (owed.mem_iff.mp isOwed)
  noHandle coro isOwed := tracked.noHandle coro (owed.mem_iff.mp isOwed)
  kept place record isRecord isKept :=
    owed.mem_iff.mpr (tracked.kept place record (info ▸ isRecord) isKept)
  awaiting coro await isAwaiting :=
    owed.mem_iff.mpr (tracked.awaiting coro await (status ▸ isAwaiting))
  owned coro await isPending := by
    rw [info]
    exact tracked.owned coro await (status ▸ isPending)
  lastIo coro await isPending := by
    rw [State.handle, info]
    exact tracked.lastIo coro await (status ▸ isPending)
  queue coro := by
    rw [reapSwap, status]
    exact tracked.queue coro
  noNull := reapSwap ▸ tracked.noNull
  running coro := by
    rw [status, runs]
    exact tracked.running coro

/-- A coroutine that awaits no I/O, before and after the step, moves. -/
theorem move (tracked : Tracked s) (coro : Coro) (status : Status Info)
    (leaves : (s.status coro).pending = none)
    (enters : status.pending = none)
    (statusEq : s'.status = Function.update s.status coro status)
    (info : s'.info = s.info) (nodup : s'.owed.Nodup)
    (taskInfo : ∀ place, .taskInfo place ∈ s'.owed ↔ .taskInfo place ∈ s.owed)
    (noHandle : ∀ other, .coroutineHandle other ∉ s'.owed)
    (others : ∀ other ≠ coro, .msgRing other ∈ s'.owed →
      .msgRing other ∈ s.owed)
    (handedOver : .msgRing coro ∈ s'.owed → status = .handedOver)
    (queue : ∀ other, s'.reapSwap.count (some other) =
      if other = coro then status.isReady.toNat
      else s.reapSwap.count (some other))
    (noNull : none ∉ s'.reapSwap)
    (running : status = .running ↔ s'.pc.Runs coro)
    (runs : ∀ other ≠ coro, s'.pc.Runs other ↔ s.pc.Runs other) :
    Tracked s' := by
  have self : s'.status coro = status := by simp [statusEq]
  have other : ∀ other ≠ coro, s'.status other = s.status other := by
    intro other notCoro
    rw [statusEq, Function.update_of_ne notCoro]
  have notCoro : ∀ other await, (s'.status other).pending = some await →
      other ≠ coro := by
    rintro other await isPending rfl
    simp [self, enters] at isPending
  have pendingOf : ∀ other await, (s'.status other).pending = some await →
      (s.status other).pending = some await := by
    intro other' await isPending
    rwa [other other' (notCoro other' await isPending)] at isPending
  refine ⟨nodup, ?_, ?_, noHandle, ?_, ?_, ?_, ?_, ?_, noNull, ?_⟩
  · intro place isOwed
    obtain ⟨record, isRecord, waits⟩ :=
      tracked.taskInfo place ((taskInfo place).mp isOwed)
    refine ⟨record, by rw [info, isRecord], waits.imp_right ?_⟩
    rintro ⟨await, isAwaiting, isLast⟩
    refine ⟨await, ?_, isLast⟩
    have notOwner : record.owner ≠ coro := by
      rintro rfl
      simp [isAwaiting, Status.pending] at leaves
    rw [other record.owner notOwner, isAwaiting]
  · intro other' isOwed
    by_cases isCoro : other' = coro
    · subst isCoro
      rw [self]
      exact handedOver isOwed
    · rw [other other' isCoro]
      exact tracked.msgRing other' (others other' isCoro isOwed)
  · intro place record isRecord isKept
    exact (taskInfo place).mpr
      (tracked.kept place record (info ▸ isRecord) isKept)
  · intro other' await isAwaiting
    have isPending : (s'.status other').pending = some await := by
      rw [isAwaiting]
      rfl
    rw [other other' (notCoro other' await isPending)] at isAwaiting
    exact (taskInfo _).mpr (tracked.awaiting other' await isAwaiting)
  · intro other' await isPending
    rw [info]
    exact tracked.owned other' await (pendingOf other' await isPending)
  · intro other' await isPending
    rw [State.handle, info]
    exact tracked.lastIo other' await (pendingOf other' await isPending)
  · intro other'
    rw [queue]
    by_cases isCoro : other' = coro
    · rw [if_pos isCoro, isCoro, self]
    · rw [if_neg isCoro, other other' isCoro]
      exact tracked.queue other'
  · intro other'
    by_cases isCoro : other' = coro
    · subst isCoro
      rw [self]
      exact running
    · rw [other other' isCoro, runs other' isCoro]
      exact tracked.running other'

/-- A coroutine that is owed no completion moves. -/
theorem shift (tracked : Tracked s) (coro : Coro) (status : Status Info)
    (leaves : (s.status coro).pending = none)
    (notHandedOver : s.status coro ≠ .handedOver)
    (enters : status.pending = none)
    (statusEq : s'.status = Function.update s.status coro status)
    (info : s'.info = s.info) (owed : s'.owed = s.owed)
    (queue : ∀ other, s'.reapSwap.count (some other) =
      if other = coro then status.isReady.toNat
      else s.reapSwap.count (some other))
    (noNull : none ∉ s'.reapSwap)
    (running : status = .running ↔ s'.pc.Runs coro)
    (runs : ∀ other ≠ coro, s'.pc.Runs other ↔ s.pc.Runs other) :
    Tracked s' := by
  refine tracked.move coro status leaves enters statusEq info
    (owed ▸ tracked.nodup) ?_ ?_ ?_ ?_ queue noNull running runs <;> rw [owed]
  · exact fun _ => Iff.rfl
  · exact tracked.noHandle
  · exact fun _ _ => id
  · exact fun isOwed => absurd (tracked.msgRing coro isOwed) notHandedOver

/-- Records whose results change. -/
theorem storeResult [DecidableEq Info] (tracked : Tracked s) (place : Info)
    (res : Int) : Tracked (s.storeResult place res) := by
  have stored : ∀ other record, s.info other = some record →
      ∃ record', (s.storeResult place res).info other = some record' ∧
        record'.handle = record.handle ∧ record'.owner = record.owner ∧
          record'.kept = record.kept := by
    intro other record isRecord
    by_cases isPlace : other = place
    · subst isPlace
      exact ⟨{ record with result := some res },
        by simp [State.storeResult, isRecord], rfl, rfl, rfl⟩
    · exact ⟨record, by simp [State.storeResult, isPlace, isRecord], rfl, rfl,
        rfl⟩
  refine ⟨tracked.nodup, ?_, tracked.msgRing, tracked.noHandle, ?_,
    tracked.awaiting, ?_, ?_, tracked.queue, tracked.noNull,
    tracked.running⟩
  · intro other isOwed
    obtain ⟨record, isRecord, waits⟩ := tracked.taskInfo other isOwed
    obtain ⟨record', isRecord', _, owner, kept⟩ := stored other record isRecord
    refine ⟨record', isRecord', ?_⟩
    rw [owner, kept]
    exact waits
  · intro other record' isRecord' isKept
    cases was : s.info other with
    | none =>
        by_cases isPlace : other = place
        · subst isPlace
          simp [State.storeResult, was] at isRecord'
        · simp [State.storeResult, isPlace, was] at isRecord'
    | some record =>
        obtain ⟨record'', isRecord'', _, _, kept⟩ := stored other record was
        obtain rfl := Option.some.inj (isRecord'.symm.trans isRecord'')
        exact tracked.kept other record was (kept ▸ isKept)
  · intro coro await isPending other inTemporaries
    obtain ⟨record, isRecord, owner, notKept⟩ :=
      tracked.owned coro await isPending other inTemporaries
    obtain ⟨record', isRecord', _, ownerEq, keptEq⟩ :=
      stored other record isRecord
    exact ⟨record', isRecord', ownerEq.trans owner, keptEq.trans notKept⟩
  · intro coro await isPending
    obtain ⟨inTemporaries, handleEq⟩ := tracked.lastIo coro await isPending
    obtain ⟨record, isRecord, _⟩ :=
      tracked.owned coro await isPending _ inTemporaries
    obtain ⟨record', isRecord', sameHandle, _⟩ := stored _ record isRecord
    refine ⟨inTemporaries, ?_⟩
    rw [State.handle, isRecord] at handleEq
    rw [State.handle, isRecord']
    exact sameHandle.trans handleEq

/-- The running coroutine suspends in a `co_await` of I/O.  Its temporaries are
new, or the one that it kept. -/
theorem suspend (tracked : Tracked s) (coro : Coro) {await : Await Info}
    (isRunning : s.status coro = .running)
    (statusEq : s'.status = Function.update s.status coro (.awaiting await))
    (nodup : s'.owed.Nodup)
    (owed : ∀ data, data ∈ s'.owed ↔
      data ∈ s.owed ∨ data = .taskInfo await.lastIo)
    (lastIoMem : await.lastIo ∈ await.temporaries)
    (handle : s'.handle await.lastIo = some coro)
    (inside : ∀ place ∈ await.temporaries, ∃ record,
      s'.info place = some record ∧ record.owner = coro ∧
        record.kept = false)
    (outside : ∀ place ∉ await.temporaries, s'.info place = s.info place)
    (wasKept : ∀ place ∈ await.temporaries, ∀ record,
      s.info place = some record →
        record.kept = true ∧ place = await.lastIo)
    (reapSwap : s'.reapSwap = s.reapSwap)
    (runs : ∀ other, ¬ s'.pc.Runs other)
    (onlyRunning : ∀ other ≠ coro, ¬ s.pc.Runs other) : Tracked s' := by
  have self : s'.status coro = .awaiting await := by simp [statusEq]
  have other : ∀ other ≠ coro, s'.status other = s.status other := by
    intro other notCoro
    rw [statusEq, Function.update_of_ne notCoro]
  -- the temporaries of the other coroutines stay as they are
  have keeps : ∀ place record, s.info place = some record →
      record.kept = false → s'.info place = some record := by
    intro place record isRecord notKept
    rw [outside place, isRecord]
    intro inTemporaries
    have kept := (wasKept place inTemporaries record isRecord).1
    simp [notKept] at kept
  refine ⟨nodup, ?_, ?_, ?_, ?_, ?_, ?_, ?_, ?_, reapSwap ▸ tracked.noNull, ?_⟩
  · intro place isOwed
    rcases (owed _).mp isOwed with wasOwed | isLast
    · obtain ⟨record, isRecord, waits⟩ := tracked.taskInfo place wasOwed
      by_cases inTemporaries : place ∈ await.temporaries
      · obtain ⟨_, isLast⟩ := wasKept place inTemporaries record isRecord
        obtain ⟨record', isRecord', owner, _⟩ := inside place inTemporaries
        refine ⟨record', isRecord', .inr ⟨await, ?_, isLast.symm⟩⟩
        rw [owner, self]
      · refine ⟨record, by rw [outside place inTemporaries, isRecord],
          waits.imp_right ?_⟩
        rintro ⟨await', isAwaiting, isLast⟩
        refine ⟨await', ?_, isLast⟩
        rw [other record.owner, isAwaiting]
        rintro isCoro
        simp [isCoro, isRunning] at isAwaiting
    · obtain rfl : place = await.lastIo := by simpa using isLast
      obtain ⟨record, isRecord, owner, _⟩ := inside _ lastIoMem
      refine ⟨record, isRecord, .inr ⟨await, ?_, rfl⟩⟩
      rw [owner, self]
  · intro other' isOwed
    have handedOver :=
      tracked.msgRing other' (((owed _).mp isOwed).resolve_right (by simp))
    rw [other other', handedOver]
    rintro rfl
    simp [isRunning] at handedOver
  · intro other' isOwed
    exact tracked.noHandle other'
      (((owed _).mp isOwed).resolve_right (by simp))
  · intro place record isRecord isKept
    apply (owed _).mpr
    left
    by_cases inTemporaries : place ∈ await.temporaries
    · obtain ⟨record', isRecord', _, notKept⟩ := inside place inTemporaries
      obtain rfl := Option.some.inj (isRecord.symm.trans isRecord')
      simp [notKept] at isKept
    · rw [outside place inTemporaries] at isRecord
      exact tracked.kept place record isRecord isKept
  · intro other' await' isAwaiting
    apply (owed _).mpr
    by_cases isCoro : other' = coro
    · subst isCoro
      obtain rfl := Status.awaiting.inj (self.symm.trans isAwaiting)
      exact .inr rfl
    · rw [other other' isCoro] at isAwaiting
      exact .inl (tracked.awaiting other' await' isAwaiting)
  · intro other' await' isPending place inTemporaries
    by_cases isCoro : other' = coro
    · subst isCoro
      rw [self] at isPending
      obtain rfl := Option.some.inj isPending
      exact inside place inTemporaries
    · rw [other other' isCoro] at isPending
      obtain ⟨record, isRecord, owner, notKept⟩ :=
        tracked.owned other' await' isPending place inTemporaries
      exact ⟨record, keeps place record isRecord notKept, owner, notKept⟩
  · intro other' await' isPending
    by_cases isCoro : other' = coro
    · subst isCoro
      rw [self] at isPending
      obtain rfl := Option.some.inj isPending
      exact ⟨lastIoMem, handle⟩
    · rw [other other' isCoro] at isPending
      obtain ⟨inTemporaries, handleEq⟩ :=
        tracked.lastIo other' await' isPending
      obtain ⟨record, isRecord, _, notKept⟩ :=
        tracked.owned other' await' isPending _ inTemporaries
      refine ⟨inTemporaries, ?_⟩
      rw [State.handle, keeps _ record isRecord notKept]
      rwa [State.handle, isRecord] at handleEq
  · intro other'
    rw [reapSwap]
    have queue := tracked.queue other'
    by_cases isCoro : other' = coro
    · subst isCoro
      rw [isRunning] at queue
      rw [self]
      exact queue
    · rw [other other' isCoro]
      exact queue
  · intro other'
    refine iff_of_false ?_ (runs other')
    by_cases isCoro : other' = coro
    · simp [isCoro, self]
    · rw [other other' isCoro, tracked.running]
      exact onlyRunning other' isCoro

/-- The coroutine that awaits the I/O at the place becomes ready. -/
theorem forward (tracked : Tracked s) {coro : Coro} {await : Await Info}
    (isAwaiting : s.status coro = .awaiting await)
    (statusEq :
      s'.status = Function.update s.status coro (.ready (some await)))
    (owed : s.owed = .taskInfo await.lastIo :: s'.owed)
    (info : s'.info = s.info)
    (reapSwap : s'.reapSwap = s.reapSwap ++ [some coro])
    (runs : ∀ other, s'.pc.Runs other ↔ s.pc.Runs other) : Tracked s' := by
  have self : s'.status coro = .ready (some await) := by simp [statusEq]
  have other : ∀ other ≠ coro, s'.status other = s.status other := by
    intro other notCoro
    rw [statusEq, Function.update_of_ne notCoro]
  have pending : ∀ other, (s'.status other).pending =
      (s.status other).pending := by
    intro other'
    by_cases isCoro : other' = coro
    · rw [isCoro, self, isAwaiting]
      rfl
    · rw [other other' isCoro]
  have subset : ∀ data ∈ s'.owed, data ∈ s.owed := by
    intro data isOwed
    rw [owed]
    exact List.mem_cons_of_mem _ isOwed
  have nodup := tracked.nodup
  rw [owed, List.nodup_cons] at nodup
  -- the I/O of another coroutine is another one
  have lastIoNe : ∀ other ≠ coro, ∀ await',
      s.status other = .awaiting await' → await'.lastIo ≠ await.lastIo := by
    intro other' notCoro await' isAwaiting' isLast
    have handle' := (tracked.lastIo other' await' (by rw [isAwaiting']; rfl)).2
    have handle := (tracked.lastIo coro await (by rw [isAwaiting]; rfl)).2
    rw [isLast, handle] at handle'
    exact notCoro (Option.some.inj handle').symm
  refine ⟨nodup.2, ?_, ?_, ?_, ?_, ?_, ?_, ?_, ?_, ?_, ?_⟩
  · intro place isOwed
    obtain ⟨record, isRecord, waits⟩ :=
      tracked.taskInfo place (subset _ isOwed)
    refine ⟨record, by rw [info, isRecord], waits.imp_right ?_⟩
    rintro ⟨await', isAwaiting', isLast⟩
    refine ⟨await', ?_, isLast⟩
    rw [other record.owner, isAwaiting']
    intro isCoro
    rw [isCoro, isAwaiting] at isAwaiting'
    obtain rfl := Status.awaiting.inj isAwaiting'
    rw [isLast] at nodup
    exact nodup.1 isOwed
  · intro other' isOwed
    have handedOver := tracked.msgRing other' (subset _ isOwed)
    rw [other other', handedOver]
    rintro rfl
    simp [isAwaiting] at handedOver
  · exact fun other' isOwed => tracked.noHandle other' (subset _ isOwed)
  · intro place record isRecord isKept
    rw [info] at isRecord
    have isOwed := tracked.kept place record isRecord isKept
    rw [owed, List.mem_cons] at isOwed
    refine isOwed.resolve_left fun isLast => ?_
    obtain rfl : place = await.lastIo := by simpa using isLast
    have isPending : (s.status coro).pending = some await := by
      rw [isAwaiting]
      rfl
    obtain ⟨record', isRecord', _, notKept⟩ := tracked.owned coro await
      isPending _ (tracked.lastIo coro await isPending).1
    obtain rfl := Option.some.inj (isRecord.symm.trans isRecord')
    simp [notKept] at isKept
  · intro other' await' isAwaiting'
    have notCoro : other' ≠ coro := by
      rintro rfl
      simp [self] at isAwaiting'
    rw [other other' notCoro] at isAwaiting'
    have isOwed := tracked.awaiting other' await' isAwaiting'
    rw [owed, List.mem_cons] at isOwed
    refine isOwed.resolve_left fun isLast => ?_
    exact lastIoNe other' notCoro await' isAwaiting' (by simpa using isLast)
  · intro other' await' isPending
    rw [info]
    exact tracked.owned other' await' (pending other' ▸ isPending)
  · intro other' await' isPending
    rw [State.handle, info]
    exact tracked.lastIo other' await' (pending other' ▸ isPending)
  · intro other'
    rw [reapSwap, List.count_append, tracked.queue]
    by_cases isCoro : other' = coro
    · simp [isCoro, self, isAwaiting, Status.isReady]
    · rw [other other' isCoro]
      simp [Ne.symm isCoro]
  · rw [reapSwap]
    simpa using tracked.noNull
  · intro other'
    rw [runs, ← tracked.running]
    by_cases isCoro : other' = coro
    · simp [isCoro, self, isAwaiting]
    · rw [other other' isCoro]

/-- The coroutine goes on behind its `co_await` and destroys the
temporaries. -/
theorem goOn (tracked : Tracked s) {coro : Coro} {await : Await Info}
    (isReady : s.status coro = .ready (some await))
    (statusEq : s'.status = Function.update s.status coro .running)
    (owed : s'.owed = s.owed)
    (inside : ∀ place ∈ await.temporaries, s'.info place = none)
    (outside : ∀ place ∉ await.temporaries, s'.info place = s.info place)
    (reapSwap : s.reapSwap = some coro :: s'.reapSwap)
    (runs : ∀ other, s'.pc.Runs other ↔ other = coro)
    (idle : ∀ other, ¬ s.pc.Runs other) : Tracked s' := by
  have self : s'.status coro = .running := by simp [statusEq]
  have other : ∀ other ≠ coro, s'.status other = s.status other := by
    intro other notCoro
    rw [statusEq, Function.update_of_ne notCoro]
  have isPending : (s.status coro).pending = some await := by
    rw [isReady]
    rfl
  have notCoro : ∀ other await', (s'.status other).pending = some await' →
      other ≠ coro := by
    rintro other' await' isPending' rfl
    simp [self, Status.pending] at isPending'
  -- nobody else holds the temporaries
  have keeps : ∀ place record, s.info place = some record →
      record.owner ≠ coro ∨ record.kept = true →
      s'.info place = some record := by
    intro place record isRecord isOther
    rw [outside place, isRecord]
    intro inTemporaries
    obtain ⟨record', isRecord', owner, notKept⟩ :=
      tracked.owned coro await isPending place inTemporaries
    obtain rfl := Option.some.inj (isRecord.symm.trans isRecord')
    simp [owner, notKept] at isOther
  refine ⟨owed ▸ tracked.nodup, ?_, ?_, ?_, ?_, ?_, ?_, ?_, ?_, ?_, ?_⟩
  · intro place isOwed
    rw [owed] at isOwed
    obtain ⟨record, isRecord, waits⟩ := tracked.taskInfo place isOwed
    rcases waits with isKept | ⟨await', isAwaiting, isLast⟩
    · exact ⟨record, keeps place record isRecord (.inr isKept), .inl isKept⟩
    · have isOther : record.owner ≠ coro := by
        intro isCoro
        simp [isCoro, isReady] at isAwaiting
      refine ⟨record, keeps place record isRecord (.inl isOther),
        .inr ⟨await', ?_, isLast⟩⟩
      rw [other record.owner isOther, isAwaiting]
  · intro other' isOwed
    have handedOver := tracked.msgRing other' (owed ▸ isOwed)
    rw [other other', handedOver]
    rintro rfl
    simp [isReady] at handedOver
  · exact fun other' isOwed => tracked.noHandle other' (owed ▸ isOwed)
  · intro place record isRecord isKept
    rw [owed]
    by_cases inTemporaries : place ∈ await.temporaries
    · simp [inside place inTemporaries] at isRecord
    · rw [outside place inTemporaries] at isRecord
      exact tracked.kept place record isRecord isKept
  · intro other' await' isAwaiting
    rw [owed]
    rw [other other' (notCoro other' await' (by rw [isAwaiting]; rfl))]
      at isAwaiting
    exact tracked.awaiting other' await' isAwaiting
  · intro other' await' isPending' place inTemporaries
    have isOther := notCoro other' await' isPending'
    rw [other other' isOther] at isPending'
    obtain ⟨record, isRecord, owner, notKept⟩ :=
      tracked.owned other' await' isPending' place inTemporaries
    exact ⟨record, keeps place record isRecord (.inl (owner ▸ isOther)),
      owner, notKept⟩
  · intro other' await' isPending'
    have isOther := notCoro other' await' isPending'
    rw [other other' isOther] at isPending'
    obtain ⟨inTemporaries, handleEq⟩ :=
      tracked.lastIo other' await' isPending'
    obtain ⟨record, isRecord, owner, _⟩ :=
      tracked.owned other' await' isPending' _ inTemporaries
    refine ⟨inTemporaries, ?_⟩
    rw [State.handle, keeps _ record isRecord (.inl (owner ▸ isOther))]
    rwa [State.handle, isRecord] at handleEq
  · intro other'
    have queue := tracked.queue other'
    rw [reapSwap] at queue
    by_cases isCoro : other' = coro
    · subst isCoro
      rw [isReady, List.count_cons_self] at queue
      rw [self]
      simpa [Status.isReady] using queue
    · rw [other other' isCoro]
      rwa [List.count_cons_of_ne (by simpa using Ne.symm isCoro)] at queue
  · have noNull := tracked.noNull
    rw [reapSwap] at noNull
    exact fun isNull => noNull (List.mem_cons_of_mem _ isNull)
  · intro other'
    rw [runs]
    by_cases isCoro : other' = coro
    · simp [isCoro, self]
    · rw [other other' isCoro, tracked.running]
      exact iff_of_false (idle other') isCoro

/-- The running coroutine creates an I/O and keeps it. -/
theorem create [DecidableEq Info] (tracked : Tracked s) {coro : Coro}
    {info : Info} (free : s.info info = none)
    (infoEq : s'.info =
      Function.update s.info info (some ⟨none, none, coro, true⟩))
    (owed : s'.owed = s.owed ++ [.taskInfo info])
    (status : s'.status = s.status) (reapSwap : s'.reapSwap = s.reapSwap)
    (pc : s'.pc = s.pc) : Tracked s' := by
  have keeps : ∀ place record, s.info place = some record →
      s'.info place = some record := by
    intro place record isRecord
    rw [infoEq, Function.update_of_ne, isRecord]
    rintro rfl
    simp [free] at isRecord
  have self : s'.info info = some ⟨none, none, coro, true⟩ := by simp [infoEq]
  have isOwed : ∀ data, data ∈ s'.owed ↔
      data ∈ s.owed ∨ data = .taskInfo info := by
    intro data
    rw [owed, List.mem_append, List.mem_singleton]
  refine ⟨?_, ?_, ?_, ?_, ?_, ?_, ?_, ?_, ?_, reapSwap ▸ tracked.noNull, ?_⟩
  · rw [owed, List.nodup_append]
    refine ⟨tracked.nodup, List.nodup_singleton _, ?_⟩
    rintro data wasOwed last isLast rfl
    rw [List.mem_singleton.mp isLast] at wasOwed
    obtain ⟨record, isRecord, _⟩ := tracked.taskInfo info wasOwed
    simp [free] at isRecord
  · intro place placeOwed
    rw [status]
    rcases (isOwed _).mp placeOwed with wasOwed | isNew
    · obtain ⟨record, isRecord, waits⟩ := tracked.taskInfo place wasOwed
      exact ⟨record, keeps place record isRecord, waits⟩
    · obtain rfl : place = info := by simpa using isNew
      exact ⟨_, self, .inl rfl⟩
  · intro other otherOwed
    rw [status]
    exact tracked.msgRing other
      (((isOwed _).mp otherOwed).resolve_right (by simp))
  · intro other otherOwed
    exact tracked.noHandle other
      (((isOwed _).mp otherOwed).resolve_right (by simp))
  · intro place record isRecord isKept
    apply (isOwed _).mpr
    by_cases isNew : place = info
    · exact .inr (by rw [isNew])
    · rw [infoEq, Function.update_of_ne isNew] at isRecord
      exact .inl (tracked.kept place record isRecord isKept)
  · intro other await isAwaiting
    rw [status] at isAwaiting
    exact (isOwed _).mpr (.inl (tracked.awaiting other await isAwaiting))
  · intro other await isPending place inTemporaries
    rw [status] at isPending
    obtain ⟨record, isRecord, owner, notKept⟩ :=
      tracked.owned other await isPending place inTemporaries
    exact ⟨record, keeps place record isRecord, owner, notKept⟩
  · intro other await isPending
    rw [status] at isPending
    obtain ⟨inTemporaries, handleEq⟩ := tracked.lastIo other await isPending
    obtain ⟨record, isRecord, _⟩ :=
      tracked.owned other await isPending _ inTemporaries
    refine ⟨inTemporaries, ?_⟩
    rw [State.handle, keeps _ record isRecord]
    rwa [State.handle, isRecord] at handleEq
  · intro other
    rw [status, reapSwap]
    exact tracked.queue other
  · intro other
    rw [status, pc]
    exact tracked.running other

end Tracked

section Steps

variable [DecidableEq Info] {s s' : State Coro Info}

omit [DecidableEq Coro] [DecidableEq Info] in
theorem Control.runs {pc : Pc Coro} (control : Control s pc) (coro : Coro) :
    pc.Runs coro ↔ s.pc.Runs coro := by
  cases control with
  | stop pc _ | doWorkerPart pc _ | doSubmissionPart pc | nothingToSubmit pc _
  | submitAndWait pc _ | nothingToPeek pc _ | peeked pc _ | polled pc _
  | polledAgain pc _ | fastPath pc _ | badPath pc _ _ | waitUring pc _ _
  | pollAgain pc _ | waited pc => simp [Pc.Runs, pc]

theorem resume_of_none {coro : Coro} (idle : (s.status coro).pending = none) :
    s.resume coro = s.setStatus coro .running := by
  simp only [State.resume, idle]

theorem resume_of_some {coro : Coro} {await : Await Info}
    (isPending : (s.status coro).pending = some await) :
    s.resume coro = { s.setStatus coro .running with
      value := Function.update s.value coro
        ((s.info await.lastIo).bind TaskInfo.result)
      info := fun info =>
        if info ∈ await.temporaries then none else s.info info } := by
  simp only [State.resume, isPending]

@[simp]
theorem resume_status (coro : Coro) :
    (s.resume coro).status = Function.update s.status coro .running := by
  unfold State.resume
  split <;> rfl

omit [DecidableEq Info] in
/-- Whoever stands in the ready queue is ready. -/
theorem Tracked.ready_of_queue (tracked : Tracked s) {coro : Coro}
    (queued : some coro ∈ s.reapSwap) :
    ∃ await, s.status coro = .ready await := by
  have queue := tracked.queue coro
  have positive := List.count_pos_iff.mpr queued
  cases status : s.status coro with
  | ready await => exact ⟨await, rfl⟩
  | idle | running | awaiting _ | handedOver =>
      rw [status] at queue
      simp [queue, Status.isReady] at positive

theorem Tracked.schedule (tracked : Tracked s) {coro : Coro}
    {rest : List (Option Coro)} {num : Nat} (pc : s.pc = .schedule (num + 1))
    (queue : s.reapSwap = some coro :: rest) :
    Tracked { s.resume coro with
      reapSwap := rest
      pc := .running coro num } := by
  have idle : ∀ other, ¬ s.pc.Runs other := by simp [Pc.Runs, pc]
  obtain ⟨pending, isReady⟩ :=
    tracked.ready_of_queue (queue ▸ List.mem_cons_self)
  cases pending with
  | none =>
      have noAwait : (s.status coro).pending = none := by
        rw [isReady]
        rfl
      rw [resume_of_none noAwait]
      refine tracked.shift coro .running noAwait (by simp [isReady]) rfl rfl
        rfl rfl ?_ ?_ (by simp) ?_
      · intro other
        have count := tracked.queue other
        split
        next isCoro =>
          rw [isCoro, isReady, queue, List.count_cons_self] at count
          rw [isCoro]
          exact Nat.succ.inj count
        next notCoro =>
          rw [queue, List.count_cons_of_ne (by simpa using Ne.symm notCoro)]
      · have noNull := tracked.noNull
        rw [queue] at noNull
        exact fun isNull => noNull (List.mem_cons_of_mem _ isNull)
      · intro other notCoro
        exact iff_of_false (by simpa using Ne.symm notCoro) (idle other)
  | some await =>
      have isPending : (s.status coro).pending = some await := by
        rw [isReady]
        rfl
      rw [resume_of_some isPending]
      refine tracked.goOn isReady rfl rfl ?_ ?_ queue ?_ idle
      · exact fun place inTemporaries => if_pos inTemporaries
      · exact fun place notTemporary => if_neg notTemporary
      · intro other
        rw [runs_running, eq_comm]

omit [DecidableEq Coro] [DecidableEq Info] in
/-- The front of the completion ring is owed, if it resumes a coroutine. -/
theorem owed_of_front {cqe : Cqe Coro Info} {rest : List (Cqe Coro Info)}
    (front : s.rings.cq = cqe :: rest)
    (resumes : cqe.userData.resumes = true) : cqe.userData ∈ s.owed := by
  let seen := { s with rings := s.rings.seen }
  have owed : s.owed = if cqe.userData.resumes then cqe.userData :: seen.owed
      else seen.owed := owed_of_seen front rfl
  rw [owed, if_pos resumes]
  exact List.mem_cons_self

omit [DecidableEq Info] in
/-- The completion of an I/O that was awaited finds its coroutine. -/
theorem Tracked.awaiting_of_front (tracked : Tracked s)
    {cqe : Cqe Coro Info} {rest : List (Cqe Coro Info)} {info : Info}
    (front : s.rings.cq = cqe :: rest) (data : cqe.userData = .taskInfo info)
    (awaited : (s.info info).any TaskInfo.kept = false) :
    ∃ record await, s.info info = some record ∧
      record.handle = some record.owner ∧
      s.status record.owner = .awaiting await ∧ await.lastIo = info := by
  have isOwed := owed_of_front front (by rw [data]; rfl)
  rw [data] at isOwed
  obtain ⟨record, isRecord, waits⟩ := tracked.taskInfo info isOwed
  rcases waits with isKept | ⟨await, isAwaiting, isLast⟩
  · simp [isRecord, isKept] at awaited
  · have handle := (tracked.lastIo record.owner await
      (by rw [isAwaiting]; rfl)).2
    rw [isLast, State.handle, isRecord] at handle
    exact ⟨record, await, isRecord, handle, isAwaiting, isLast⟩

theorem Tracked.handle (tracked : Tracked s) {cqe : Cqe Coro Info}
    {rest : List (Cqe Coro Info)} (front : s.rings.cq = cqe :: rest)
    (awaited : ∀ info, cqe.userData = .taskInfo info →
      (s.info info).any TaskInfo.kept = false) {pc : Pc Coro}
    (runs : ∀ coro, pc.Runs coro ↔ s.pc.Runs coro) :
    Tracked { s.handleCqEntry cqe with pc } := by
  let seen := { s with rings := s.rings.seen }
  have owed : s.owed = if cqe.userData.resumes then cqe.userData :: seen.owed
      else seen.owed := owed_of_seen front rfl
  -- an entry that resumes nobody
  have silent : cqe.userData.resumes = false → ∀ {s' : State Coro Info},
      s'.rings = s.rings.seen → s'.owed.Perm s.owed := by
    intro resumes s' ringsEq
    rw [owed_of_seen front ringsEq, resumes]
    exact List.Perm.refl _
  unfold State.handleCqEntry
  cases data : cqe.userData with
  | nop => exact tracked.same (silent (by rw [data]; rfl) rfl) rfl rfl rfl runs
  | taskInfoLinkSqe info =>
      exact (tracked.storeResult info cqe.res).same
        (silent (by rw [data]; rfl) rfl) rfl rfl rfl runs
  | coroutineHandle coro =>
      have isOwed := owed_of_front front (by rw [data]; rfl)
      rw [data] at isOwed
      exact absurd isOwed (tracked.noHandle coro)
  | taskInfo info =>
      obtain ⟨record, await, isRecord, handle, isAwaiting, rfl⟩ :=
        tracked.awaiting_of_front front data (awaited info data)
      have handleEq : s.handle await.lastIo = some record.owner := by
        rw [State.handle, isRecord]
        exact handle
      simp only [State.handle] at handleEq ⊢
      rw [handleEq]
      rw [data] at owed
      refine (tracked.storeResult await.lastIo cqe.res).forward isAwaiting ?_
        owed rfl rfl runs
      simp [State.forwardTask, State.storeResult, isAwaiting, Status.forwarded,
        Status.pending]
  | msgRing coro =>
      have isOwed := owed_of_front front (by rw [data]; rfl)
      rw [data] at isOwed owed
      replace owed : s.owed = .msgRing coro :: _ := owed
      have handedOver := tracked.msgRing coro isOwed
      have nodup := tracked.nodup
      rw [owed, List.nodup_cons] at nodup
      refine tracked.move coro (.ready none)
        (by rw [handedOver]; rfl) rfl ?_ rfl nodup.2 ?_ ?_ ?_ ?_ ?_ ?_ ?_ ?_
      · simp [State.forwardTask, handedOver, Status.forwarded, Status.pending]
      · intro place
        rw [owed, List.mem_cons]
        exact (or_iff_right (by simp)).symm
      · intro other otherOwed
        apply tracked.noHandle other
        rw [owed]
        exact List.mem_cons_of_mem _ otherOwed
      · intro other _ otherOwed
        rw [owed]
        exact List.mem_cons_of_mem _ otherOwed
      · exact fun isOwed => absurd isOwed nodup.1
      · intro other
        have count := tracked.queue other
        simp only [State.forwardTask, List.count_append]
        split
        next isCoro =>
          rw [isCoro, handedOver] at count
          simp [isCoro, count, Status.isReady]
        next notCoro => simp [Ne.symm notCoro]
      · simpa [State.forwardTask] using tracked.noNull
      · refine iff_of_false (by simp) ?_
        rw [runs, ← tracked.running, handedOver]
        simp
      · exact fun other _ => runs other

omit [DecidableEq Info] in
theorem Tracked.idle_of_pc (tracked : Tracked s) {coro other : Coro}
    {num : Nat} (pc : s.pc = .running coro num)
    (isIdle : s.status other = .idle) : other ≠ coro := by
  rintro rfl
  have isRunning := (tracked.running other).mpr ⟨num, pc⟩
  simp [isIdle] at isRunning

omit [DecidableEq Info] in
/-- The running coroutine suspends without a `co_await` of I/O. -/
theorem Tracked.leave (tracked : Tracked s) {coro : Coro} {num : Nat}
    (pc : s.pc = .running coro num) (status : Status Info)
    (statusEq : s'.status = Function.update s.status coro status)
    (enters : status.pending = none) (notRunning : status ≠ .running)
    (info : s'.info = s.info) (owed : s'.owed = s.owed)
    (reapSwap : s'.reapSwap =
      s.reapSwap ++ List.replicate status.isReady.toNat (some coro))
    (pcEq : s'.pc = .schedule num) : Tracked s' := by
  have isRunning := (tracked.running coro).mpr ⟨num, pc⟩
  have idle : ∀ other, ¬ s'.pc.Runs other := by simp [Pc.Runs, pcEq]
  refine tracked.shift coro status (by rw [isRunning]; rfl)
    (by simp [isRunning]) enters statusEq info owed ?_ ?_
    (iff_of_false notRunning (idle coro)) ?_
  · intro other
    have queue := tracked.queue other
    rw [reapSwap, List.count_append]
    split
    next isCoro =>
      rw [isCoro, isRunning] at queue
      simp [isCoro, queue, Status.isReady]
    next notCoro =>
      simp [List.count_replicate, Ne.symm notCoro]
  · rw [reapSwap, List.mem_append, not_or]
    exact ⟨tracked.noNull, by simp [List.mem_replicate]⟩
  · intro other notCoro
    refine iff_of_false (idle other) ?_
    simpa [pc] using Ne.symm notCoro

theorem Tracked.step {action : Action Coro Info} (tracked : Tracked s)
    (quiet : s.quietIo action = true) (awaited : s.awaitedFirst action = true)
    (transition : Transition s action s') : Tracked s' := by
  cases transition with
  | control control =>
      exact tracked.same (List.Perm.refl _) rfl rfl rfl control.runs
  | interrupt pc =>
      exact tracked.same (List.Perm.refl _) rfl rfl rfl (Control.waited pc).runs
  | schedule pc queue => exact tracked.schedule pc queue
  | submitted pc _ | isNotOver pc =>
      exact tracked.same (List.Perm.refl _) rfl rfl rfl
        (by simp [Pc.Runs, pc])
  | handle pc front =>
      apply tracked.handle front
      · intro info data
        simpa [State.awaitedFirst, pc, front, data] using awaited
      · simp [Pc.Runs, pc]
  | @await coro num expr pc free =>
      have owed := owed_withSqes (s := s) expr.prepared.sqes
      rw [expr.owed_sqes] at owed
      refine tracked.suspend coro
        ((tracked.running coro).mpr ⟨num, pc⟩) rfl ?_ ?_ expr.lastIo_mem ?_ ?_
        ?_ ?_ rfl (by simp [Pc.Runs, State.suspend]) ?_
      · refine Eq.subst owed.symm (List.nodup_append.mpr
          ⟨tracked.nodup, List.nodup_singleton _, ?_⟩)
        rintro data isOwed last isLast rfl
        rw [List.mem_singleton.mp isLast] at isOwed
        obtain ⟨record, isRecord, _⟩ := tracked.taskInfo _ isOwed
        simp [free.2 _ expr.lastIo_mem] at isRecord
      · intro data
        refine (Eq.to_iff (congrArg (data ∈ ·) owed)).trans ?_
        rw [List.mem_append, List.mem_singleton]
      · simp [State.handle, State.suspend, State.construct, expr.lastIo_mem]
      · intro place inTemporaries
        exact ⟨_, if_pos inTemporaries, rfl, rfl⟩
      · exact fun place notTemporary => if_neg notTemporary
      · intro place inTemporaries record isRecord
        simp [free.2 place inTemporaries] at isRecord
      · intro other notCoro
        simpa [pc] using Ne.symm notCoro
  | @awaitKept coro num info record pc isRecord owner isKept =>
      refine tracked.suspend coro
        ((tracked.running coro).mpr ⟨num, pc⟩) rfl tracked.nodup ?_
        (List.mem_singleton_self info) ?_ ?_ ?_ ?_ rfl
        (by simp [Pc.Runs, State.suspend]) ?_
      · intro data
        refine (or_iff_left_of_imp ?_).symm
        rintro rfl
        exact tracked.kept info record isRecord isKept
      · simp [State.handle, State.suspend]
      · intro place inTemporaries
        obtain rfl := List.mem_singleton.mp inTemporaries
        exact ⟨_, Function.update_self _ _ _, owner, rfl⟩
      · intro place notTemporary
        exact Function.update_of_ne (by simpa using notTemporary) _ _
      · intro place inTemporaries record' isRecord'
        obtain rfl := List.mem_singleton.mp inTemporaries
        obtain rfl := Option.some.inj (isRecord.symm.trans isRecord')
        exact ⟨isKept, rfl⟩
      · intro other notCoro
        simpa [pc] using Ne.symm notCoro
  | @detach coro num io pc free =>
      refine tracked.same (List.Perm.of_eq ?_) rfl rfl rfl fun _ => Iff.rfl
      rw [owed_withSqes, io.shaped.detach]
      simp
  | send pc _ =>
      refine tracked.same (List.Perm.of_eq ?_) rfl rfl rfl fun _ => Iff.rfl
      rw [owed_withSqes, awaited_of_skips rfl]
      simp
  | create pc free =>
      refine tracked.create free rfl ?_ rfl rfl rfl
      exact owed_withSqes [.lazyAwaiter _]
  | sendSelf pc =>
      have owed := owed_withSqes (s := s) [.msgRing]
      rw [awaited_of_skips rfl, List.filter_nil, List.append_nil] at owed
      exact tracked.leave pc .idle rfl rfl (by simp) rfl owed
        (List.append_nil _).symm rfl
  | block pc =>
      exact tracked.leave pc .idle rfl rfl (by simp) rfl rfl
        (List.append_nil _).symm rfl
  | @yield coro num pc =>
      refine tracked.leave pc (.ready none) ?_ rfl
        (by simp) rfl rfl rfl rfl
      simp [State.forwardTask, State.suspend, Status.forwarded, Status.pending]
  | @spawn coro other num pc isIdle =>
      have notCoro := tracked.idle_of_pc pc isIdle
      refine tracked.shift other (.ready none)
        (by rw [isIdle]; rfl) (by simp [isIdle]) rfl ?_ rfl rfl ?_ ?_ ?_ ?_
      · simp [State.forwardTask, isIdle, Status.forwarded, Status.pending]
      · intro third
        have queue := tracked.queue third
        simp only [State.forwardTask, List.count_append]
        split
        next isOther =>
          rw [isOther, isIdle] at queue
          simp [isOther, queue, Status.isReady]
        next notOther => simp [Ne.symm notOther]
      · simpa [State.forwardTask] using tracked.noNull
      · refine iff_of_false (by simp) ?_
        simpa [State.forwardTask, pc] using Ne.symm notCoro
      · exact fun _ _ => Iff.rfl
  | @enter willWait consumed pc _ _ =>
      have owed : ∀ {s' : State Coro Info},
          s'.rings = s.rings.enter consumed → s'.owed = s.owed := by
        intro s' ringsEq
        rw [State.owed, ringsEq, Rings.outstanding_enter]
        rfl
      cases willWait with
      | true =>
          exact tracked.same (List.Perm.of_eq (owed rfl)) rfl rfl rfl
            (by simp [Pc.Runs, State.enter, pc])
      | false =>
          exact tracked.same (List.Perm.of_eq (owed rfl)) rfl rfl rfl
            (by simp [Pc.Runs, State.enter, pc])
  | complete completeEq _ _ =>
      exact tracked.same (owed_of_quiet completeEq quiet) rfl rfl rfl
        fun _ => Iff.rfl
  | @receive coro isIdle =>
      let received := { s.setStatus coro .handedOver with
        rings := s.rings.receive (.msgRing coro) 0 }
      have owed : received.owed.Perm (.msgRing coro :: s.owed) :=
        owed_of_receive rfl
      have notOwed : .msgRing coro ∉ s.owed := by
        intro isOwed
        simp [tracked.msgRing coro isOwed] at isIdle
      refine tracked.move coro .handedOver
        (by rw [isIdle]; rfl) rfl rfl rfl ?_ ?_ ?_ ?_ (fun _ => rfl) ?_
        tracked.noNull ?_ fun _ _ => Iff.rfl
      · exact owed.nodup_iff.mpr (List.nodup_cons.mpr ⟨notOwed, tracked.nodup⟩)
      · intro place
        rw [owed.mem_iff, List.mem_cons]
        exact or_iff_right (by simp)
      · intro other isOwed
        rw [owed.mem_iff, List.mem_cons] at isOwed
        exact tracked.noHandle other (isOwed.resolve_left (by simp))
      · intro other notCoro isOwed
        rw [owed.mem_iff, List.mem_cons] at isOwed
        exact isOwed.resolve_left (by simpa using notCoro)
      · intro other
        have queue := tracked.queue other
        split
        next isCoro =>
          rw [isCoro, isIdle] at queue
          rw [isCoro]
          exact queue
        next => rfl
      · refine iff_of_false (by simp) ?_
        have running := tracked.running coro
        rw [isIdle] at running
        exact fun runs => absurd (running.mpr runs) (by simp)
  | canStop | deinit _ =>
      exact tracked.same (List.Perm.refl _) rfl rfl rfl fun _ => Iff.rfl

omit [DecidableEq Info] in
theorem tracked_new {coros : List Coro} (nodup : coros.Nodup)
    (readyCount : Nat) : Tracked (State.new Info coros readyCount) := by
  have notPending : ∀ coro await,
      ((State.new Info coros readyCount).status coro).pending ≠ some await := by
    intro coro await
    simp only [State.new]
    split <;> simp [Status.pending]
  have notOwed : (State.new Info coros readyCount).owed = [] := rfl
  refine ⟨?_, ?_, ?_, ?_, ?_, ?_, ?_, ?_, ?_, ?_, ?_⟩
  · simp [notOwed]
  · simp [notOwed]
  · simp [notOwed]
  · simp [notOwed]
  · simp [State.new]
  · intro coro await isAwaiting
    exact absurd (by rw [isAwaiting]; rfl) (notPending coro await)
  · exact fun coro await isPending => absurd isPending (notPending coro await)
  · exact fun coro await isPending => absurd isPending (notPending coro await)
  · intro coro
    have count : (coros.map some).count (some coro) = coros.count coro :=
      List.count_map_of_injective coros some (fun _ _ => Option.some.inj) coro
    simp only [State.new, count, nodup.count]
    split <;> rfl
  · simp [State.new]
  · intro coro
    refine iff_of_false ?_ (by simp [State.new, Pc.Runs])
    simp only [State.new]
    split <;> simp

omit [DecidableEq Info] in
@[simp]
theorem forwardTask_info (s : State Coro Info) (handle : Option Coro) :
    (s.forwardTask handle).info = s.info := by
  cases handle <;> rfl

omit [DecidableEq Coro] in
theorem storeResult_record {place info : Info} {res : Int}
    {record : TaskInfo Coro}
    (isRecord : (s.storeResult place res).info info = some record) :
    ∃ before, s.info info = some before ∧ record.handle = before.handle ∧
      record.kept = before.kept := by
  by_cases isPlace : info = place
  · subst isPlace
    simp only [State.storeResult, Function.update_self,
      Option.map_eq_some_iff] at isRecord
    obtain ⟨before, wasRecord, rfl⟩ := isRecord
    exact ⟨before, wasRecord, rfl, rfl⟩
  · simp only [State.storeResult, Function.update_of_ne isPlace] at isRecord
    exact ⟨record, isRecord, rfl, rfl⟩

theorem handleCqEntry_record {cqe : Cqe Coro Info} {info : Info}
    {record : TaskInfo Coro}
    (isRecord : (s.handleCqEntry cqe).info info = some record) :
    ∃ before, s.info info = some before ∧ record.handle = before.handle ∧
      record.kept = before.kept := by
  unfold State.handleCqEntry at isRecord
  cases data : cqe.userData with
  | nop =>
      rw [data] at isRecord
      exact ⟨record, isRecord, rfl, rfl⟩
  | coroutineHandle _ | msgRing _ =>
      simp only [data, forwardTask_info] at isRecord
      exact ⟨record, isRecord, rfl, rfl⟩
  | taskInfo _ | taskInfoLinkSqe _ =>
      simp only [data, forwardTask_info] at isRecord
      exact storeResult_record isRecord

theorem resume_record {coro : Coro} {info : Info} {record : TaskInfo Coro}
    (isRecord : (s.resume coro).info info = some record) :
    s.info info = some record := by
  cases pending : (s.status coro).pending with
  | none =>
      rw [resume_of_none pending] at isRecord
      exact isRecord
  | some await =>
      simp only [resume_of_some pending] at isRecord
      split at isRecord
      next => simp at isRecord
      next => exact isRecord

/-- Where the records of a step come from. -/
theorem record_of_step {action : Action Coro Info} {info : Info}
    {record : TaskInfo Coro} (transition : Transition s action s')
    (isRecord : s'.info info = some record) :
    (∃ before, s.info info = some before ∧ record.handle = before.handle ∧
      record.kept = before.kept) ∨ record.kept = false ∨
      (action = .create info ∧ record.handle = none) := by
  have same : s'.info = s.info → ∃ before, s.info info = some before ∧
      record.handle = before.handle ∧ record.kept = before.kept := by
    intro infoEq
    exact ⟨record, infoEq ▸ isRecord, rfl, rfl⟩
  cases transition with
  | control _ | submitted _ _ | isNotOver _ | detach _ _ | sendSelf _
  | send _ _ | block _ | complete _ _ _ | receive _ | interrupt _ | canStop
  | deinit _ => exact .inl (same rfl)
  | yield _ | spawn _ _ => exact .inl (same (forwardTask_info _ _))
  | @enter willWait _ _ _ _ => cases willWait <;> exact .inl (same rfl)
  | schedule _ _ => exact .inl ⟨record, resume_record isRecord, rfl, rfl⟩
  | handle _ _ => exact .inl (handleCqEntry_record isRecord)
  | @await coro num expr _ _ =>
      simp only [State.suspend, State.setStatus_info, State.construct]
        at isRecord
      split at isRecord
      next =>
        obtain rfl := Option.some.inj isRecord
        exact .inr (.inl rfl)
      next => exact .inl ⟨record, isRecord, rfl, rfl⟩
  | @create coro num place _ _ =>
      by_cases isPlace : info = place
      · subst isPlace
        simp only [Function.update_self] at isRecord
        obtain rfl := Option.some.inj isRecord
        exact .inr (.inr ⟨rfl, rfl⟩)
      · simp only [Function.update_of_ne isPlace] at isRecord
        exact .inl ⟨record, isRecord, rfl, rfl⟩
  | @awaitKept coro num place _ _ _ _ _ =>
      by_cases isPlace : info = place
      · subst isPlace
        simp only [State.suspend, State.setStatus_info, Function.update_self]
          at isRecord
        obtain rfl := Option.some.inj isRecord
        exact .inr (.inl rfl)
      · simp only [State.suspend, State.setStatus_info,
          Function.update_of_ne isPlace] at isRecord
        exact .inl ⟨record, isRecord, rfl, rfl⟩

/-- A kept I/O has no handle yet. -/
theorem kept_handle (run : (system Coro Info).Run) {time : Nat}
    (timeLe : time ≤ run.length) :
    ∀ info record, (run.state time).info info = some record →
      record.kept = true → record.handle = none := by
  induction time with
  | zero =>
      obtain ⟨coros, readyCount, _, _, startEq⟩ := run.starts
      simp [startEq, State.new]
  | succ time ih =>
      intro info record isRecord isKept
      rcases record_of_step (transition_of_step (run.steps time timeLe))
        isRecord with ⟨before, wasRecord, handle, kept⟩ | notKept | created
      · rw [handle]
        exact ih (by omega) info before wasRecord (kept ▸ isKept)
      · simp [notKept] at isKept
      · exact created.2

end Steps

end CoContext.Worker
