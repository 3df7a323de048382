import CoContext.WorkerTracking

/-!
# The order of linked completions

The temporaries of a `&&` chain live until the completion of its last I/O is
handled.  The completions of the other ones are handled before, because the
kernel ends the requests of a chain in their order, as long as it takes chains
as a whole and no operand stands behind a timed one.  Each store of a result
then finds the record of an awaiter that still exists.
-/

namespace CoContext.Worker

open Request TransitionSystem

variable {Coro Info : Type*}

/-- The handling of this data only stores a result. -/
def UserData.links : UserData Coro Info → Bool
  | taskInfoLinkSqe _ => true
  | nop | taskInfo _ | coroutineHandle _ | msgRing _ => false

/-- The completions that are to store the results of linked I/O. -/
def State.linked (s : State Coro Info) : List (UserData Coro Info) :=
  s.rings.outstanding.filter UserData.links

/-- No detached I/O fails and no link timeout is rejected, the kernel takes
chains as a whole, and no operand stands behind a timed one. -/
def State.soundIo (s : State Coro Info) : Action Coro Info → Bool
  | .complete chain outcome => s.quietIo (.complete chain outcome)
  | .enter consumed =>
      (s.rings.sq.take consumed).getLast?.all fun last => !last.link
  | .await expr => !expr.continued
  | _ => true

theorem quietIo_of_soundIo {s : State Coro Info} {action : Action Coro Info}
    (sound : s.soundIo action = true) : s.quietIo action = true := by
  cases action <;> first | rfl | exact sound

theorem closed_of_soundIo {s : State Coro Info} {consumed : Nat}
    (sound : s.soundIo (.enter consumed) = true) :
    Closed (s.rings.sq.take consumed) := by
  intro last isLast
  simp only [State.soundIo, Option.all_eq_true] at sound
  simpa using sound last isLast

/-- The record belongs to a coroutine that awaits I/O. -/
structure Holds (s : State Coro Info) (info : Info) (coro : Coro)
    (await : Await Info) : Prop where
  record : ∃ record, s.info info = some record ∧ record.owner = coro ∧
    record.kept = false
  isAwaiting : s.status coro = .awaiting await

/-- The awaiter of each linked I/O that is still to complete exists, and its
coroutine resumes later. -/
structure Ordered (s : State Coro Info) : Prop where
  closed : Closed s.rings.sq
  nodup : s.linked.Nodup
  links : ∀ info, .taskInfoLinkSqe info ∈ s.linked → ∃ coro await,
    Holds s info coro await ∧
      s.rings.Follows (.taskInfoLinkSqe info) (.taskInfo await.lastIo)

section Persistence

variable [DecidableEq Coro] [DecidableEq Info] {s s' : State Coro Info}

omit [DecidableEq Coro] [DecidableEq Info] in
theorem Holds.ne_of_status {info : Info} {coro other : Coro}
    {await : Await Info} (holds : Holds s info coro await)
    {status : Status Info} (isStatus : s.status other = status)
    (notAwaiting : status ≠ .awaiting await) : coro ≠ other := by
  rintro rfl
  exact notAwaiting (isStatus.symm.trans holds.isAwaiting)

omit [DecidableEq Info] in
/-- Another coroutine moves. -/
theorem Holds.other {info : Info} {coro other : Coro} {await : Await Info}
    (holds : Holds s info coro await) (isOther : coro ≠ other)
    {status : Status Info} (infoEq : s'.info info = s.info info)
    (statusEq : s'.status = Function.update s.status other status) :
    Holds s' info coro await := by
  refine ⟨infoEq ▸ holds.record, ?_⟩
  rw [statusEq, Function.update_of_ne isOther]
  exact holds.isAwaiting

omit [DecidableEq Coro] in
theorem Holds.storeResult {info : Info} {coro : Coro} {await : Await Info}
    (holds : Holds s info coro await) (place : Info) (res : Int) :
    Holds (s.storeResult place res) info coro await := by
  obtain ⟨record, isRecord, owner, notKept⟩ := holds.record
  refine ⟨?_, holds.isAwaiting⟩
  by_cases isPlace : info = place
  · subst isPlace
    exact ⟨{ record with result := some res },
      by simp [State.storeResult, isRecord], owner, notKept⟩
  · exact ⟨record, by simp [State.storeResult, isPlace, isRecord], owner,
      notKept⟩

/-- The handling of a completion ends the waiting of its own coroutine
only. -/
theorem Holds.handle {info : Info} {coro : Coro} {await : Await Info}
    (holds : Holds s info coro await) (tracked : Tracked s)
    {cqe : Cqe Coro Info} {rest : List (Cqe Coro Info)}
    (front : s.rings.cq = cqe :: rest)
    (awaited : ∀ info, cqe.userData = .taskInfo info →
      (s.info info).any TaskInfo.kept = false)
    (notLast : cqe.userData ≠ .taskInfo await.lastIo) (pc : Pc Coro) :
    Holds { s.handleCqEntry cqe with pc } info coro await := by
  unfold State.handleCqEntry
  cases data : cqe.userData with
  | nop => exact ⟨holds.record, holds.isAwaiting⟩
  | taskInfoLinkSqe place =>
      have stored := holds.storeResult place cqe.res
      exact ⟨stored.record, stored.isAwaiting⟩
  | coroutineHandle other =>
      have isOwed := owed_of_front front (by rw [data]; rfl)
      rw [data] at isOwed
      exact absurd isOwed (tracked.noHandle other)
  | msgRing other =>
      have isOwed := owed_of_front front (by rw [data]; rfl)
      rw [data] at isOwed
      have handedOver := tracked.msgRing other isOwed
      exact holds.other (holds.ne_of_status handedOver (by simp)) rfl rfl
  | taskInfo place =>
      obtain ⟨record, await', isRecord, handle, isAwaiting, isLast⟩ :=
        tracked.awaiting_of_front front data (awaited place data)
      have isOther : coro ≠ record.owner := by
        apply holds.ne_of_status isAwaiting
        rintro sameAwait
        obtain rfl := Status.awaiting.inj sameAwait
        rw [data, isLast] at notLast
        exact notLast rfl
      have handleEq : s.handle place = some record.owner := by
        rw [State.handle, isRecord]
        exact handle
      simp only [State.handle] at handleEq ⊢
      rw [handleEq]
      exact (holds.storeResult place cqe.res).other isOther rfl rfl

/-- A step that neither resumes a coroutine nor handles a completion keeps the
records of those that wait behind a `co_await`. -/
theorem Tracked.frame {action : Action Coro Info} {info : Info}
    {record : TaskInfo Coro} {coro : Coro} {await : Await Info}
    (tracked : Tracked s) (transition : Transition s action s')
    (isPending : (s.status coro).pending = some await)
    (isRecord : s.info info = some record) (notKept : record.kept = false) :
    (s'.info info = some record ∧ s'.status coro = s.status coro) ∨
    (∃ badPath handledNum cqe rest, action = .work ∧
      s.pc = .pollCompletion badPath handledNum ∧ s.rings.cq = cqe :: rest ∧
      s' = { s.handleCqEntry cqe with
        pc := .pollCompletion badPath (handledNum + 1) }) ∨
    ∃ other rest num, action = .work ∧ s.pc = .schedule (num + 1) ∧
      s.reapSwap = some other :: rest ∧
      s' = { s.resume other with
        reapSwap := rest
        pc := .running other num } := by
  have ne : ∀ other, (s.status other).pending = none → coro ≠ other := by
    rintro other notPending rfl
    simp [isPending] at notPending
  have running : ∀ {other num}, s.pc = .running other num → coro ≠ other := by
    intro other num pc
    apply ne other
    rw [(tracked.running other).mpr ⟨num, pc⟩]
    rfl
  cases transition with
  | control _ | submitted _ _ | isNotOver _ | detach _ _ | send _ _
  | complete _ _ _ | interrupt _ | canStop | deinit _ =>
      exact .inl ⟨isRecord, rfl⟩
  | @enter willWait _ _ _ _ => cases willWait <;> exact .inl ⟨isRecord, rfl⟩
  | handle pc front => exact .inr (.inl ⟨_, _, _, _, rfl, pc, front, rfl⟩)
  | schedule pc queue => exact .inr (.inr ⟨_, _, _, rfl, pc, queue, rfl⟩)
  | sendSelf pc | block pc =>
      exact .inl ⟨isRecord, Function.update_of_ne (running pc) _ _⟩
  | @receive other isIdle =>
      have isOther := ne other (by rw [isIdle]; rfl)
      exact .inl ⟨isRecord, Function.update_of_ne isOther _ _⟩
  | @spawn _ other _ _ isIdle =>
      have isOther := ne other (by rw [isIdle]; rfl)
      exact .inl ⟨isRecord, Function.update_of_ne isOther _ _⟩
  | yield pc =>
      refine .inl ⟨isRecord, ?_⟩
      simp [State.forwardTask, State.suspend, running pc]
  | await pc free =>
      refine .inl ⟨(if_neg fun inTemporaries => ?_).trans isRecord,
        Function.update_of_ne (running pc) _ _⟩
      simp [free.2 info inTemporaries] at isRecord
  | create pc free =>
      refine .inl ⟨(Function.update_of_ne ?_ _ _).trans isRecord, rfl⟩
      rintro rfl
      simp [free] at isRecord
  | awaitKept pc isRecord' _ isKept =>
      refine .inl ⟨(Function.update_of_ne ?_ _ _).trans isRecord,
        Function.update_of_ne (running pc) _ _⟩
      rintro rfl
      obtain rfl := Option.some.inj (isRecord.symm.trans isRecord')
      simp [notKept] at isKept

/-- The resumption of one coroutine keeps the records of the others. -/
theorem Tracked.resume_other {info : Info} {record : TaskInfo Coro}
    {coro : Coro} (tracked : Tracked s) (isOther : record.owner ≠ coro)
    (isRecord : s.info info = some record) :
    (s.resume coro).info info = some record := by
  cases pending : (s.status coro).pending with
  | none =>
      rw [resume_of_none pending]
      exact isRecord
  | some await =>
      rw [resume_of_some pending]
      refine (if_neg fun inTemporaries => ?_).trans isRecord
      obtain ⟨record', isRecord', owner, _⟩ :=
        tracked.owned coro await pending info inTemporaries
      obtain rfl := Option.some.inj (isRecord.symm.trans isRecord')
      exact isOther owner

/-- A coroutine goes on awaiting until the completion of its last I/O is
handled. -/
theorem Holds.step {action : Action Coro Info} {info : Info} {coro : Coro}
    {await : Await Info} (holds : Holds s info coro await)
    (tracked : Tracked s) (awaited : s.awaitedFirst action = true)
    (transition : Transition s action s')
    (notLast : ∀ cqe rest, s.rings.cq = cqe :: rest →
      cqe.userData ≠ .taskInfo await.lastIo) :
    Holds s' info coro await := by
  obtain ⟨record, isRecord, owner, notKept⟩ := holds.record
  rcases tracked.frame transition (by rw [holds.isAwaiting]; rfl) isRecord
    notKept with ⟨sameRecord, sameStatus⟩ |
      ⟨badPath, handledNum, cqe, rest, rfl, pc, front, rfl⟩ |
      ⟨other, rest, num, rfl, pc, queue, rfl⟩
  · exact ⟨⟨record, sameRecord, owner, notKept⟩,
      sameStatus.trans holds.isAwaiting⟩
  · refine holds.handle tracked front ?_ (notLast cqe rest front) _
    intro place data
    simpa [State.awaitedFirst, pc, front, data] using awaited
  · obtain ⟨pending, isReady⟩ :=
      tracked.ready_of_queue (queue ▸ List.mem_cons_self)
    have isOther := holds.ne_of_status isReady (by simp)
    refine ⟨⟨record, tracked.resume_other (owner ▸ isOther) isRecord, owner,
      notKept⟩, ?_⟩
    simpa [isOther] using holds.isAwaiting

end Persistence

section Links

variable {s s' : State Coro Info}

theorem linked_withSqes (sqes : List (Sqe Coro Info)) :
    (s.withSqes sqes).linked =
      s.linked ++ (awaited sqes).filter UserData.links := by
  have outstanding : (s.withSqes sqes).rings.outstanding =
      s.rings.outstanding ++ awaited sqes := Rings.outstanding_append sqes
  rw [State.linked, outstanding, List.filter_append]
  rfl

theorem Expr.linked_data (expr : Expr Info) :
    (awaited (expr.prepared : Prepared Coro Info).sqes).filter
      UserData.links = expr.linked.map .taskInfoLinkSqe := by
  rw [expr.shaped.awaited_eq, List.filter_append, List.filter_eq_self.mpr
    (by simp [UserData.links])]
  exact List.append_nil _

theorem linked_of_seen {cqe : Cqe Coro Info} {rest : List (Cqe Coro Info)}
    (front : s.rings.cq = cqe :: rest) (ringsEq : s'.rings = s.rings.seen) :
    s.linked = if cqe.userData.links then cqe.userData :: s'.linked
      else s'.linked := by
  rw [State.linked, Rings.outstanding_seen front, State.linked, ringsEq,
    List.filter_cons]

theorem linked_of_front {cqe : Cqe Coro Info} {rest : List (Cqe Coro Info)}
    (front : s.rings.cq = cqe :: rest)
    (links : cqe.userData.links = true) : cqe.userData ∈ s.linked := by
  apply List.mem_filter.mpr
  rw [Rings.outstanding_seen front]
  exact ⟨List.mem_cons_self, links⟩

theorem linked_sublist {cqe : Cqe Coro Info} {rest : List (Cqe Coro Info)}
    (front : s.rings.cq = cqe :: rest) (ringsEq : s'.rings = s.rings.seen) :
    s'.linked.Sublist s.linked := by
  rw [linked_of_seen front ringsEq]
  split
  · exact List.sublist_cons_self _ _
  · exact List.Sublist.refl _

theorem linked_of_quiet {chain : Nat} {outcome : Outcome}
    {sqe : Sqe Coro Info}
    (completeEq : s.rings.complete chain outcome = some (sqe, s'.rings))
    (quiet : s.quietIo (.complete chain outcome) = true) :
    s'.linked.Perm s.linked := by
  have perm := (Rings.outstanding_complete completeEq).filter UserData.links
  simp only [State.quietIo, completeEq] at quiet
  refine perm.trans (List.Perm.of_eq ?_)
  cases noisy : sqe.skipSuccess && sqe.posts outcome with
  | false => simp [State.linked]
  | true =>
      have isNop : sqe.userData.isNop = true := by simpa [noisy] using quiet
      have silent : sqe.userData.links = false := by
        cases data : sqe.userData <;>
          simp_all [UserData.isNop, UserData.links]
      simp [State.linked, silent]

theorem linked_of_receive {coro : Coro}
    (ringsEq : s'.rings = s.rings.receive (.msgRing coro) 0) :
    s'.linked.Perm s.linked := by
  have received : s'.rings.outstanding.Perm
      (.msgRing coro :: s.rings.outstanding) := by
    rw [ringsEq]
    exact Rings.outstanding_receive _ 0
  exact received.filter UserData.links

/-- The last I/O of an expression completes after the linked ones. -/
theorem follows_of_await (closed : Closed s.rings.sq) {expr : Expr Info}
    (whole : expr.continued = false) {info : Info}
    (isLinked : info ∈ expr.linked) :
    (s.withSqes expr.prepared.sqes).rings.Follows (.taskInfoLinkSqe info)
      (.taskInfo expr.lastIo) := by
  apply Rings.Follows.of_chain closed (expr.linked_sqes whole).chains
  rw [expr.shaped.awaited_eq]
  have inFront : List.Sublist [(.taskInfoLinkSqe info : UserData Coro Info)]
      (expr.linked.map .taskInfoLinkSqe) :=
    List.singleton_sublist.mpr (List.mem_map_of_mem isLinked)
  exact inFront.append (List.Sublist.refl _)

/-- No linked I/O of an expression is still to complete when its last one is
handled. -/
theorem Tracked.not_last [DecidableEq Coro] (tracked : Tracked s)
    {cqe : Cqe Coro Info} {rest : List (Cqe Coro Info)}
    (front : s.rings.cq = cqe :: rest) {info last : Info}
    (follows : s.rings.Follows (.taskInfoLinkSqe info) (.taskInfo last)) :
    cqe.userData ≠ .taskInfo last := by
  intro data
  have nodup := tracked.nodup
  rw [State.owed, Rings.outstanding_seen front, List.filter_cons,
    if_pos (by rw [data]; rfl), List.nodup_cons] at nodup
  rw [← data] at follows
  refine Rings.Follows.not_front front (fun isOutstanding => ?_) follows
  exact nodup.1 (List.mem_filter.mpr ⟨isOutstanding, by rw [data]; rfl⟩)

end Links

section Steps

variable [DecidableEq Coro] [DecidableEq Info] {s s' : State Coro Info}

/-- A step that adds no linked I/O. -/
theorem Ordered.keeps {action : Action Coro Info} (ordered : Ordered s)
    (tracked : Tracked s) (awaited : s.awaitedFirst action = true)
    (transition : Transition s action s') (closed : Closed s'.rings.sq)
    (nodup : s'.linked.Nodup)
    (links : ∀ info, .taskInfoLinkSqe info ∈ s'.linked →
      .taskInfoLinkSqe info ∈ s.linked)
    (follows : ∀ info last, .taskInfoLinkSqe info ∈ s'.linked →
      s.rings.Follows (.taskInfoLinkSqe info) (.taskInfo last) →
        s'.rings.Follows (.taskInfoLinkSqe info) (.taskInfo last)) :
    Ordered s' := by
  refine ⟨closed, nodup, ?_⟩
  intro info isLinked
  obtain ⟨coro, await, holds, later⟩ := ordered.links info (links info isLinked)
  refine ⟨coro, await, ?_, follows info _ isLinked later⟩
  apply holds.step tracked awaited transition
  intro cqe rest front
  exact tracked.not_last front later

/-- A step that leaves the rings alone. -/
theorem Ordered.same {action : Action Coro Info} (ordered : Ordered s)
    (tracked : Tracked s) (awaited : s.awaitedFirst action = true)
    (transition : Transition s action s') (rings : s'.rings = s.rings) :
    Ordered s' := by
  have linked : s'.linked = s.linked := by
    rw [State.linked, rings]
    rfl
  exact ordered.keeps tracked awaited transition (rings ▸ ordered.closed)
    (linked ▸ ordered.nodup) (fun _ isLinked => linked ▸ isLinked)
    fun _ _ _ later => rings ▸ later

/-- A step that prepares entries, but no linked ones. -/
theorem Ordered.prepares {action : Action Coro Info} (ordered : Ordered s)
    (tracked : Tracked s) (awaited : s.awaitedFirst action = true)
    (transition : Transition s action s') (sqes : List (Sqe Coro Info))
    (rings : s'.rings = (s.withSqes sqes).rings) (closed : Closed sqes)
    (noLinks : (Request.awaited sqes).filter UserData.links = []) :
    Ordered s' := by
  have linked : s'.linked = s.linked := by
    rw [State.linked, rings]
    refine (linked_withSqes sqes).trans ?_
    rw [noLinks, List.append_nil]
  apply ordered.keeps tracked awaited transition
  · rw [rings]
    exact ordered.closed.append closed
  · exact linked ▸ ordered.nodup
  · exact fun _ isLinked => linked ▸ isLinked
  · intro info last _ later
    rw [rings]
    exact later.prepare ordered.closed sqes

omit [DecidableEq Coro] [DecidableEq Info] in
theorem Ordered.link_ne_front (ordered : Ordered s) {cqe : Cqe Coro Info}
    {rest : List (Cqe Coro Info)} (front : s.rings.cq = cqe :: rest)
    (ringsEq : s'.rings = s.rings.seen) {info : Info}
    (isLinked : .taskInfoLinkSqe info ∈ s'.linked) :
    .taskInfoLinkSqe info ≠ cqe.userData := by
  intro data
  have nodup := ordered.nodup
  rw [linked_of_seen front ringsEq, ← data,
    if_pos (show UserData.links (.taskInfoLinkSqe info) = true from rfl),
    List.nodup_cons] at nodup
  exact nodup.1 isLinked

theorem Ordered.await (ordered : Ordered s) (tracked : Tracked s)
    {coro : Coro} {num : Nat} {expr : Expr Info}
    (pc : s.pc = .running coro num) (free : s.Free expr.infos)
    (whole : expr.continued = false) :
    Ordered (((s.withSqes expr.prepared.sqes).construct coro
      ⟨expr.infos, expr.lastIo⟩).suspend coro num
        (.awaiting ⟨expr.infos, expr.lastIo⟩)) := by
  have linkedEq := linked_withSqes (s := s) expr.prepared.sqes
  rw [expr.linked_data] at linkedEq
  have isLinked : ∀ info, .taskInfoLinkSqe info ∈
      (s.withSqes expr.prepared.sqes).linked ↔
        .taskInfoLinkSqe info ∈ s.linked ∨ info ∈ expr.linked := by
    intro info
    rw [linkedEq, List.mem_append]
    simp
  refine ⟨ordered.closed.append (expr.linked_sqes whole).closed, ?_, ?_⟩
  · refine Eq.subst linkedEq.symm (List.nodup_append.mpr
      ⟨ordered.nodup, ?_, ?_⟩)
    · have infos := free.1.sublist
        ((List.sublist_append_left _ _).trans expr.sublist_infos)
      exact infos.map fun first second => by simp
    · rintro data inOld other isNew rfl
      obtain ⟨info, isLink, rfl⟩ := List.mem_map.mp isNew
      obtain ⟨_, _, holds, _⟩ := ordered.links info inOld
      obtain ⟨record, isRecord, _⟩ := holds.record
      simp [free.2 info (expr.linked_subset info isLink)] at isRecord
  · intro info inLinked
    rcases (isLinked info).mp inLinked with inOld | isNew
    · obtain ⟨other, await, holds, later⟩ := ordered.links info inOld
      refine ⟨other, await, ?_, later.prepare ordered.closed _⟩
      exact holds.step tracked rfl (.await pc free)
        fun cqe rest front => tracked.not_last front later
    · refine ⟨coro, ⟨expr.infos, expr.lastIo⟩, ⟨?_, ?_⟩,
        follows_of_await ordered.closed whole isNew⟩
      · exact ⟨_, if_pos (expr.linked_subset info isNew), rfl, rfl⟩
      · exact Function.update_self _ _ _

theorem Ordered.step {action : Action Coro Info} (ordered : Ordered s)
    (tracked : Tracked s) (sound : s.soundIo action = true)
    (awaited : s.awaitedFirst action = true)
    (transition : Transition s action s') : Ordered s' := by
  have same := ordered.same tracked awaited transition
  have keeps := ordered.keeps tracked awaited transition
  have prepares := ordered.prepares tracked awaited transition
  cases transition with
  | control _ | submitted _ _ | isNotOver _ | awaitKept _ _ _ _ | yield _
  | spawn _ _ | block _ | interrupt _ | canStop | deinit _ => exact same rfl
  | schedule _ _ => exact same (resume_rings s _)
  | await pc free =>
      exact ordered.await tracked pc free (by simpa [State.soundIo] using sound)
  | @detach _ _ io _ _ =>
      exact prepares _ rfl io.detach_closed (by rw [io.shaped.detach]; rfl)
  | create _ _ =>
      exact prepares [.lazyAwaiter _] rfl (by simp [Closed, Sqe.lazyAwaiter])
        rfl
  | sendSelf _ | send _ _ =>
      exact prepares [.msgRing] rfl (by simp [Closed, Sqe.msgRing]) rfl
  | @enter willWait consumed _ _ _ =>
      have rings : (s.enter consumed willWait).rings =
          s.rings.enter consumed := by
        cases willWait <;> rfl
      have linked : (s.enter consumed willWait).linked = s.linked := by
        rw [State.linked, rings, Rings.outstanding_enter]
        rfl
      apply keeps
      · rw [rings]
        exact ordered.closed.drop consumed
      · exact linked ▸ ordered.nodup
      · exact fun _ isLinked => linked ▸ isLinked
      · intro info last _ later
        rw [rings]
        exact later.enter (closed_of_soundIo sound)
  | complete completeEq _ _ =>
      refine keeps ?_
        ((linked_of_quiet completeEq sound).nodup_iff.mpr ordered.nodup)
        (fun _ => (linked_of_quiet completeEq sound).mem_iff.mp)
        fun _ _ _ later => later.complete completeEq
      obtain ⟨_, _, _, _, rfl⟩ := Rings.complete_eq_some completeEq
      exact ordered.closed
  | receive _ =>
      exact keeps ordered.closed
        ((linked_of_receive rfl).nodup_iff.mpr ordered.nodup)
        (fun _ => (linked_of_receive rfl).mem_iff.mp)
        fun _ _ _ later => later.receive _ 0
  | @handle _ _ cqe _ pc front =>
      have rings := handleCqEntry_rings s cqe
      refine keeps ?_ (ordered.nodup.sublist (linked_sublist front rings))
        (fun _ isLinked => (linked_sublist front rings).subset isLinked) ?_
      · rw [rings]
        exact ordered.closed
      · intro info last isLinked later
        rw [rings]
        exact later.seen front (ordered.link_ne_front front rings isLinked)

end Steps

end CoContext.Worker
