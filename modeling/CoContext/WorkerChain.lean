import CoContext.WorkerQuiescence
import CoContext.WorkerSafety
import Mathlib.Data.List.Perm.Basic

/-!
# Linked chains

An expression of linked I/O takes consecutive entries in the order of its
operands.  One of them, that of the last I/O, carries the awaiting coroutine,
so that the coroutine is forwarded once and goes on with the result of that
I/O, in whatever order and with whatever results the completions come.  All of
this holds for every expression.  That each entry in front of the last one is
linked to the next fails exactly where the expression goes on behind a timer.
-/

namespace CoContext.Worker

open Request

variable {Coro Info : Type*}

/-- The record that tagged data points to. -/
def UserData.record : UserData Coro Info → Option Info
  | taskInfo info | taskInfoLinkSqe info => some info
  | nop | coroutineHandle _ | msgRing _ => none

section Entries

@[simp]
theorem record_setLinkSqe (data : UserData Coro Info) :
    data.setLinkSqe.record = data.record := by
  cases data <;> rfl

/-- The records of the entries, in the order of the ring. -/
def Prepared.records (prepared : Prepared Coro Info) : List (Option Info) :=
  prepared.sqes.map fun sqe => sqe.userData.record

theorem Prepared.records_link (lhs rhs : Prepared Coro Info) :
    (lhs.link rhs).records = lhs.records ++ rhs.records := by
  have linkedEq : ∀ (sqes : List (Sqe Coro Info)) (lastIo : Nat),
      (sqes.modify lastIo setLinkSqe).map (fun sqe => sqe.userData.record) =
        sqes.map fun sqe => sqe.userData.record := by
    intro sqes
    induction sqes with
    | nil => simp
    | cons sqe sqes ih =>
        intro lastIo
        cases lastIo with
        | zero => simp [setLinkSqe]
        | succ lastIo => simp [ih]
  simp only [records, link, List.map_append, linkedEq]

theorem Io.records_prepared (io : Io Info) :
    (io.prepared : Prepared Coro Info).records = io.infos.map some := by
  cases io <;> rfl

theorem LinkIo.records_prepared (io : LinkIo Info) :
    (io.prepared : Prepared Coro Info).records = io.infos.map some := by
  induction io with
  | awaiters lhs rhs => rfl
  | linkAwaiter lhs rhs ih =>
      rw [prepared, Prepared.records_link, ih, infos, List.map_append]
      rfl
  | links lhs rhs lhsIH rhsIH =>
      rw [prepared, Prepared.records_link, lhsIH, rhsIH, infos,
        List.map_append]
  | awaiterTimeout lhs timed timer => rfl

/-- The entries stand in the order of the operands, and the timer directly
behind the I/O that it limits. -/
theorem Expr.records_prepared (expr : Expr Info) :
    (expr.prepared : Prepared Coro Info).records = expr.infos.map some := by
  cases expr with
  | single io => exact io.records_prepared
  | link io => exact io.records_prepared

end Entries

section Unlinked

/-- An entry in front of that of the last I/O is not linked to the next. -/
def Prepared.Broken (prepared : Prepared Coro Info) : Prop :=
  ∃ front sqe tail, prepared.sqes = front ++ sqe :: tail ∧
    sqe.link = false ∧ front.length < prepared.lastIo

/-- The last entry stands behind that of the last I/O and is not linked. -/
def Prepared.EndsTimed (prepared : Prepared Coro Info) : Prop :=
  ∃ front timer, prepared.sqes = front ++ [timer] ∧
    timer.link = false ∧ prepared.lastIo < front.length

theorem modify_behind {Entry : Type*} (front tail : List Entry) (entry : Entry)
    (change : Entry → Entry) {place : Nat} (behind : front.length < place) :
    ∃ changed, (front ++ entry :: tail).modify place change =
      front ++ entry :: changed := by
  induction front generalizing place with
  | nil =>
      cases place with
      | zero => simp at behind
      | succ place => exact ⟨tail.modify place change, rfl⟩
  | cons first front ih =>
      cases place with
      | zero => simp at behind
      | succ place =>
          rw [List.length_cons] at behind
          obtain ⟨changed, changedEq⟩ := ih (Nat.lt_of_succ_lt_succ behind)
          refine ⟨changed, ?_⟩
          rw [List.cons_append, List.modify_succ_cons, changedEq,
            List.cons_append]

theorem modify_before {Entry : Type*} (front : List Entry) (entry : Entry)
    (change : Entry → Entry) {place : Nat} (before : place < front.length) :
    (front ++ [entry]).modify place change =
      front.modify place change ++ [entry] := by
  induction front generalizing place with
  | nil => simp at before
  | cons first front ih =>
      cases place with
      | zero => rfl
      | succ place =>
          rw [List.length_cons] at before
          rw [List.cons_append, List.modify_succ_cons, List.modify_succ_cons,
            ih (Nat.lt_of_succ_lt_succ before), List.cons_append]

namespace Prepared

variable {lhs rhs prepared : Prepared Coro Info} {links : List Info}
  {last : Info}

theorem Shaped.lastIo_lt (shaped : prepared.Shaped links last) :
    prepared.lastIo < prepared.sqes.length := by
  obtain ⟨front, linked, tail, sqesEq, lengthEq, _⟩ := shaped.split
  rw [sqesEq, ← lengthEq, List.length_append, List.length_cons]
  omega

theorem Broken.link_left (broken : lhs.Broken) (lastIoLt : lhs.lastIo <
    lhs.sqes.length) : (lhs.link rhs).Broken := by
  obtain ⟨front, sqe, tail, sqesEq, unlinked, before⟩ := broken
  obtain ⟨changed, changedEq⟩ :=
    modify_behind front tail sqe setLinkSqe before
  refine ⟨front, sqe, changed ++ rhs.sqes, ?_, unlinked, ?_⟩
  · rw [link, sqesEq, changedEq, List.append_assoc, List.cons_append]
  · simp only [link]
    omega

/-- Whatever stands behind a timer stands behind a gap. -/
theorem EndsTimed.link_left (endsTimed : lhs.EndsTimed) :
    (lhs.link rhs).Broken := by
  obtain ⟨front, timer, sqesEq, unlinked, before⟩ := endsTimed
  refine ⟨front.modify lhs.lastIo setLinkSqe, timer, rhs.sqes, ?_, unlinked,
    ?_⟩
  · rw [link, sqesEq, modify_before front timer setLinkSqe before,
      List.append_assoc, List.singleton_append]
  · simp only [link, sqesEq, List.length_modify, List.length_append,
      List.length_singleton]
    omega

theorem Broken.link_right (broken : rhs.Broken) : (lhs.link rhs).Broken := by
  obtain ⟨front, sqe, tail, sqesEq, unlinked, before⟩ := broken
  refine ⟨lhs.sqes.modify lhs.lastIo setLinkSqe ++ front, sqe, tail, ?_,
    unlinked, ?_⟩
  · rw [link, sqesEq, List.append_assoc]
  · simp only [link, List.length_append, List.length_modify]
    omega

theorem EndsTimed.link_right (endsTimed : rhs.EndsTimed) :
    (lhs.link rhs).EndsTimed := by
  obtain ⟨front, timer, sqesEq, unlinked, before⟩ := endsTimed
  refine ⟨lhs.sqes.modify lhs.lastIo setLinkSqe ++ front, timer, ?_,
    unlinked, ?_⟩
  · rw [link, sqesEq, List.append_assoc]
  · simp only [link, List.length_append, List.length_modify]
    omega

theorem endsTimed_timeout (timed timer : Info) :
    (Prepared.timeout timed timer : Prepared Coro Info).EndsTimed :=
  ⟨[_], _, rfl, rfl, Nat.zero_lt_one⟩

/-- A gap in front of the last I/O breaks the chain. -/
theorem Broken.not_linked (broken : prepared.Broken)
    (lastIoLt : prepared.lastIo < prepared.sqes.length) :
    ¬ Linked prepared.sqes := by
  rintro ⟨linked, last, linkedEq, areLinked, _⟩
  obtain ⟨front, sqe, tail, sqesEq, unlinked, before⟩ := broken
  have frontLt : front.length < linked.length := by
    rw [linkedEq, List.length_append, List.length_singleton] at lastIoLt
    omega
  have found : prepared.sqes[front.length]? = some sqe := by
    rw [sqesEq, List.getElem?_append_right (Nat.le_refl _), Nat.sub_self,
      List.getElem?_cons_zero]
  rw [linkedEq, List.getElem?_append_left frontLt] at found
  have isLinked := areLinked sqe (List.mem_of_getElem? found)
  rw [unlinked] at isLinked
  exact Bool.false_ne_true isLinked

end Prepared

theorem LinkIo.endsTimed (io : LinkIo Info) (isTimed : io.timed = true) :
    (io.prepared : Prepared Coro Info).EndsTimed := by
  induction io with
  | awaiters lhs rhs => simp [LinkIo.timed] at isTimed
  | linkAwaiter lhs rhs _ => simp [LinkIo.timed] at isTimed
  | links lhs rhs _ rhsIH =>
      exact Prepared.EndsTimed.link_right (rhsIH isTimed)
  | awaiterTimeout lhs timed timer =>
      exact (Prepared.endsTimed_timeout timed timer).link_right

theorem LinkIo.broken (io : LinkIo Info) (continued : io.continued = true) :
    (io.prepared : Prepared Coro Info).Broken := by
  have behind : ∀ (lhs : LinkIo Info) (rhs : Prepared Coro Info),
      (lhs.continued = true → (lhs.prepared : Prepared Coro Info).Broken) →
      lhs.continued = true ∨ lhs.timed = true →
        (lhs.prepared.link rhs).Broken := by
    intro lhs rhs ih gap
    rcases gap with continued | timed
    · exact (ih continued).link_left lhs.shaped.lastIo_lt
    · exact (lhs.endsTimed timed).link_left
  induction io with
  | awaiters lhs rhs => simp [LinkIo.continued] at continued
  | linkAwaiter lhs rhs ih =>
      apply behind lhs (.lazyAwaiter rhs) ih
      simpa [LinkIo.continued] using continued
  | links lhs rhs lhsIH rhsIH =>
      simp only [LinkIo.continued, Bool.or_eq_true] at continued
      rcases continued with gap | continued
      · exact behind lhs rhs.prepared lhsIH gap
      · exact (rhsIH continued).link_right
  | awaiterTimeout lhs timed timer => simp [LinkIo.continued] at continued

/-- The entries are one chain unless an operand stands behind a timed one. -/
theorem Expr.linked_sqes_iff (expr : Expr Info) :
    Linked (expr.prepared : Prepared Coro Info).sqes ↔
      expr.continued = false := by
  refine ⟨fun linked => ?_, expr.linked_sqes⟩
  cases continued : expr.continued with
  | false => rfl
  | true =>
      cases expr with
      | single io => simp [Expr.continued] at continued
      | link io =>
          have broken : (io.prepared : Prepared Coro Info).Broken :=
            io.broken continued
          exact absurd linked (broken.not_linked io.shaped.lastIo_lt)

end Unlinked

section Handling

variable [DecidableEq Coro] [DecidableEq Info] {s : State Coro Info}

/-- What `handle_cq_entry` forwards. -/
def State.forwards (s : State Coro Info) :
    UserData Coro Info → Option (Option Coro)
  | .taskInfo info => some (s.handle info)
  | .coroutineHandle coro | .msgRing coro => some (some coro)
  | .nop | .taskInfoLinkSqe _ => none

def State.handleAll (s : State Coro Info) (cqes : List (Cqe Coro Info)) :
    State Coro Info :=
  cqes.foldl State.handleCqEntry s

theorem handleCqEntry_reapSwap (s : State Coro Info) (cqe : Cqe Coro Info) :
    (s.handleCqEntry cqe).reapSwap =
      s.reapSwap ++ (s.forwards cqe.userData).toList := by
  unfold State.handleCqEntry
  cases cqe.userData with
  | nop | taskInfoLinkSqe _ => exact (List.append_nil _).symm
  | taskInfo info | coroutineHandle coro | msgRing coro =>
      exact forwardTask_extends _ _

omit [DecidableEq Coro] in
theorem storeResult_handle (s : State Coro Info) (place info : Info)
    (res : Int) : (s.storeResult place res).handle info = s.handle info := by
  by_cases isPlace : info = place
  · subst isPlace
    cases found : s.info info with
    | none => simp [State.handle, State.storeResult, found]
    | some record => simp [State.handle, State.storeResult, found]
  · simp [State.handle, State.storeResult, isPlace]

omit [DecidableEq Info] in
theorem forwardTask_handle (s : State Coro Info) (target : Option Coro)
    (info : Info) : (s.forwardTask target).handle info = s.handle info := by
  rw [State.handle, forwardTask_info, State.handle]

/-- Results are stored, and handles stay. -/
@[simp]
theorem handleCqEntry_handle (s : State Coro Info) (cqe : Cqe Coro Info)
    (info : Info) : (s.handleCqEntry cqe).handle info = s.handle info := by
  unfold State.handleCqEntry
  cases cqe.userData with
  | nop | coroutineHandle _ | msgRing _ => rfl
  | taskInfo place =>
      exact (forwardTask_handle _ _ info).trans
        (storeResult_handle s place info cqe.res)
  | taskInfoLinkSqe place => exact storeResult_handle s place info cqe.res

@[simp]
theorem handleCqEntry_forwards (s : State Coro Info) (cqe : Cqe Coro Info) :
    (s.handleCqEntry cqe).forwards = s.forwards := by
  funext data
  cases data <;> simp [State.forwards]

/-- A record that the completion does not point to stays as it is. -/
theorem handleCqEntry_info_of_ne {cqe : Cqe Coro Info} {info : Info}
    (isOther : cqe.userData.record ≠ some info) :
    (s.handleCqEntry cqe).info info = s.info info := by
  have stored : ∀ place, cqe.userData.record = some place →
      (s.storeResult place cqe.res).info info = s.info info := by
    intro place isRecord
    have isPlace : info ≠ place := by
      rintro rfl
      exact isOther isRecord
    exact Function.update_of_ne isPlace _ _
  unfold State.handleCqEntry
  cases data : cqe.userData with
  | nop => rfl
  | taskInfo place =>
      rw [data] at stored
      simpa [State.storeResult] using stored place rfl
  | coroutineHandle coro => simp
  | taskInfoLinkSqe place =>
      rw [data] at stored
      simpa [State.storeResult] using stored place rfl
  | msgRing coro => simp

theorem handleCqEntry_result {cqe : Cqe Coro Info} {info : Info}
    (data : cqe.userData = .taskInfo info) (exists_ : (s.info info).isSome) :
    ((s.handleCqEntry cqe).info info).bind TaskInfo.result = some cqe.res := by
  obtain ⟨record, isRecord⟩ := Option.isSome_iff_exists.mp exists_
  unfold State.handleCqEntry
  rw [data]
  simp [State.storeResult, isRecord]

section HandleAll

variable {cqes : List (Cqe Coro Info)}

theorem handleAll_append (s : State Coro Info)
    (first second : List (Cqe Coro Info)) :
    s.handleAll (first ++ second) = (s.handleAll first).handleAll second :=
  List.foldl_append

theorem handleAll_handle (s : State Coro Info) (cqes : List (Cqe Coro Info))
    (info : Info) : (s.handleAll cqes).handle info = s.handle info := by
  induction cqes generalizing s with
  | nil => rfl
  | cons cqe cqes ih =>
      exact (ih (s.handleCqEntry cqe)).trans (handleCqEntry_handle _ _ _)

theorem handleAll_pending (s : State Coro Info) (cqes : List (Cqe Coro Info))
    (coro : Coro) : ((s.handleAll cqes).status coro).pending =
      (s.status coro).pending := by
  induction cqes generalizing s with
  | nil => rfl
  | cons cqe cqes ih =>
      exact (ih (s.handleCqEntry cqe)).trans (handleCqEntry_pending _ _ _)

theorem handleAll_info_of_ne {info : Info}
    (areOther : ∀ cqe ∈ cqes, cqe.userData.record ≠ some info) :
    (s.handleAll cqes).info info = s.info info := by
  induction cqes generalizing s with
  | nil => rfl
  | cons cqe cqes ih =>
      have isOther := areOther cqe List.mem_cons_self
      exact (ih fun other isLater =>
        areOther other (List.mem_cons_of_mem _ isLater)).trans
          (handleCqEntry_info_of_ne isOther)

theorem handleAll_reapSwap (s : State Coro Info)
    (cqes : List (Cqe Coro Info)) : (s.handleAll cqes).reapSwap =
      s.reapSwap ++ cqes.filterMap fun cqe => s.forwards cqe.userData := by
  induction cqes generalizing s with
  | nil => exact (List.append_nil _).symm
  | cons cqe cqes ih =>
      rw [State.handleAll, List.foldl_cons, ← State.handleAll,
        ih (s.handleCqEntry cqe), handleCqEntry_reapSwap,
        handleCqEntry_forwards]
      cases target : s.forwards cqe.userData with
      | none => simp [target]
      | some handle => simp [target]

/-- Completions that forward somebody else do not make a coroutine ready. -/
theorem handleAll_count (coro : Coro)
    (areOther : ∀ cqe ∈ cqes, s.forwards cqe.userData ≠ some (some coro)) :
    (s.handleAll cqes).reapSwap.count (some coro) =
      s.reapSwap.count (some coro) := by
  rw [handleAll_reapSwap, List.count_append, Nat.add_eq_left,
    List.count_eq_zero, List.mem_filterMap]
  rintro ⟨cqe, isCqe, target⟩
  exact areOther cqe isCqe target

end HandleAll

/-- The coroutine awaits the expression, and its records exist. -/
structure Awaits (s : State Coro Info) (coro : Coro) (expr : Expr Info) :
    Prop where
  nodup : expr.infos.Nodup
  pending : (s.status coro).pending = some ⟨expr.infos, expr.lastIo⟩
  isSome : ∀ info ∈ expr.infos, (s.info info).isSome
  handle : ∀ info ∈ expr.infos,
    s.handle info = if info = expr.lastIo then some coro else none

/-- A step of awaiting prepares the entries behind what is in the ring. -/
theorem await_step {s' : State Coro Info} {coro : Coro} {num : Nat}
    {expr : Expr Info} (pc : s.pc = .running coro num)
    (stepEq : Worker.step s (.await expr) = some s') :
    s'.rings.sq = s.rings.sq ++ expr.prepared.sqes ∧ Awaits s' coro expr := by
  simp only [Worker.step, pc, State.runCoro, Option.ite_none_right_eq_some,
    Option.some.injEq] at stepEq
  obtain ⟨free, rfl⟩ := stepEq
  refine ⟨?_, free.1, ?_, ?_, ?_⟩
  · rw [State.prepareAll_eq]
    rfl
  · simp [State.suspend, Status.pending]
  · intro info isInfo
    simp [State.suspend, State.construct, isInfo]
  · intro info isInfo
    simp [State.suspend, State.construct, State.handle, isInfo]

/-- The data belongs to an operand of the expression. -/
def Expr.names (expr : Expr Info) (data : UserData Coro Info) : Bool :=
  decide (data.record ∈ expr.infos.map some)

/-- Each entry of the expression that is not skipped has its completion, in
any order and with any result.  What other completions come in between does not
make the coroutine ready. -/
structure Answers (s : State Coro Info) (coro : Coro) (expr : Expr Info)
    (cqes : List (Cqe Coro Info)) : Prop where
  own : ((cqes.filter fun cqe => expr.names cqe.userData).map
    fun cqe => cqe.userData).Perm (awaited expr.prepared.sqes)
  others : ∀ cqe ∈ cqes, expr.names cqe.userData = false →
    s.forwards cqe.userData ≠ some (some coro)

/-- The coroutine is made ready by the completions that are handled before it
goes on, it goes on with `res`, and is not made ready again by the rest. -/
structure ContinuesWith (s : State Coro Info) (coro : Coro)
    (handled rest : List (Cqe Coro Info)) (res : Int) : Prop where
  forwarded : (s.handleAll handled).reapSwap.count (some coro) =
    s.reapSwap.count (some coro) + 1
  result : ((s.handleAll handled).resume coro).value coro = some res
  onlyOnce :
    (((s.handleAll handled).resume coro).handleAll rest).reapSwap.count
      (some coro) = (s.handleAll handled).reapSwap.count (some coro)

/-- Data of a completion that is not the one of the last I/O: it comes from a
linked operand or has nothing to do with the coroutine. -/
def Aside (s : State Coro Info) (coro : Coro) (expr : Expr Info)
    (data : UserData Coro Info) : Prop :=
  (∃ info ∈ expr.linked, data = .taskInfoLinkSqe info) ∨
    expr.names data = false ∧ s.forwards data ≠ some (some coro)

namespace Aside

omit [DecidableEq Coro]

variable {coro : Coro} {expr : Expr Info} {data : UserData Coro Info}

theorem forwards (aside : Aside s coro expr data) :
    s.forwards data ≠ some (some coro) := by
  rcases aside with ⟨info, _, rfl⟩ | ⟨_, others⟩
  · simp [State.forwards]
  · exact others

theorem record (aside : Aside s coro expr data) (nodup : expr.infos.Nodup) :
    data.record ≠ some expr.lastIo := by
  intro isLast
  rcases aside with ⟨info, isLinked, rfl⟩ | ⟨unnamed, _⟩
  · obtain rfl : info = expr.lastIo := Option.some.inj isLast
    have linkedNodup := nodup.sublist expr.sublist_infos
    exact (List.nodup_append.mp linkedNodup).2.2 _ isLinked _
      (List.mem_singleton_self _) rfl
  · apply of_decide_eq_false unnamed
    rw [isLast]
    exact List.mem_map_of_mem expr.lastIo_mem

/-- Whether a completion is aside depends on the records of others only. -/
theorem of_handle {t : State Coro Info} (aside : Aside s coro expr data)
    (same : ∀ info ∉ expr.infos, t.handle info = s.handle info) :
    Aside t coro expr data := by
  rcases aside with isLinked | ⟨unnamed, others⟩
  · exact .inl isLinked
  · refine .inr ⟨unnamed, ?_⟩
    cases data with
    | taskInfo info =>
        have isForeign : info ∉ expr.infos := by
          intro isInfo
          apply of_decide_eq_false unnamed
          exact List.mem_map_of_mem isInfo
        simpa [State.forwards, same info isForeign] using others
    | nop | coroutineHandle _ | taskInfoLinkSqe _ | msgRing _ => exact others

end Aside

section Continues

variable {coro : Coro} {expr : Expr Info} {cqes : List (Cqe Coro Info)}

omit [DecidableEq Coro] in
/-- One completion is that of the last I/O, and all others are aside. -/
theorem Answers.split (answers : Answers s coro expr cqes) :
    ∃ before cqe after, cqes = before ++ cqe :: after ∧
      cqe.userData = .taskInfo expr.lastIo ∧
      ∀ other ∈ before ++ after, Aside s coro expr other.userData := by
  have own := answers.own
  rw [expr.shaped.awaited_eq] at own
  have isOwn : UserData.taskInfo expr.lastIo ∈
      (cqes.filter fun cqe => expr.names cqe.userData).map
        fun cqe => cqe.userData :=
    own.mem_iff.mpr (by simp)
  obtain ⟨cqe, isCqe, data⟩ := List.mem_map.mp isOwn
  obtain ⟨inCqes, named⟩ := List.mem_filter.mp isCqe
  obtain ⟨before, after, rfl⟩ := List.append_of_mem inCqes
  have rest : (((before ++ after).filter fun cqe =>
      expr.names cqe.userData).map fun cqe => cqe.userData).Perm
        (expr.linked.map .taskInfoLinkSqe) := by
    have consEq : (cqe :: after).filter (fun cqe => expr.names cqe.userData) =
        cqe :: after.filter fun cqe => expr.names cqe.userData :=
      List.filter_cons_of_pos named
    rw [List.filter_append, consEq, List.map_append, List.map_cons, data]
      at own
    have moved := List.perm_middle.symm.trans
      (own.trans (List.perm_append_singleton _ _))
    rw [List.filter_append, List.map_append]
    exact moved.cons_inv
  refine ⟨before, cqe, after, rfl, data, ?_⟩
  intro other isOther
  cases names : expr.names other.userData with
  | true =>
      have isLinked := rest.mem_iff.mp (List.mem_map_of_mem
        (List.mem_filter.mpr ⟨isOther, names⟩))
      obtain ⟨info, inLinked, dataEq⟩ := List.mem_map.mp isLinked
      exact .inl ⟨info, inLinked, dataEq.symm⟩
  | false =>
      refine .inr ⟨names, answers.others other ?_ names⟩
      rcases List.mem_append.mp isOther with isBefore | isAfter
      · exact List.mem_append_left _ isBefore
      · exact List.mem_append_right _ (List.mem_cons_of_mem _ isAfter)

/-- The coroutine goes on once, whenever it does so behind the completion of
the last I/O. -/
theorem Awaits.continuesWith (awaits : Awaits s coro expr)
    {before more rest : List (Cqe Coro Info)} {cqe : Cqe Coro Info}
    (data : cqe.userData = .taskInfo expr.lastIo)
    (asideBefore : ∀ other ∈ before, Aside s coro expr other.userData)
    (asideMore : ∀ other ∈ more, Aside s coro expr other.userData)
    (asideRest : ∀ other ∈ rest, Aside s coro expr other.userData) :
    ContinuesWith s coro (before ++ cqe :: more) rest cqe.res := by
  have lastMem := expr.lastIo_mem
  have handleLast : s.handle expr.lastIo = some coro := by
    rw [awaits.handle _ lastMem, if_pos rfl]
  have pending : ((s.handleAll (before ++ cqe :: more)).status coro).pending =
      some ⟨expr.infos, expr.lastIo⟩ := by
    rw [handleAll_pending, awaits.pending]
  have moreForwards : ∀ other ∈ more, ((s.handleAll before).handleCqEntry
      cqe).forwards other.userData ≠ some (some coro) := by
    intro other isMore
    have kept := (asideMore other isMore).of_handle
      (t := (s.handleAll before).handleCqEntry cqe) fun info _ => by
        rw [handleCqEntry_handle, handleAll_handle]
    exact kept.forwards
  have resultEq : ((s.handleAll (before ++ cqe :: more)).info
      expr.lastIo).bind TaskInfo.result = some cqe.res := by
    have beforeInfo : (s.handleAll before).info expr.lastIo =
        s.info expr.lastIo := handleAll_info_of_ne fun other isBefore =>
      (asideBefore other isBefore).record awaits.nodup
    rw [handleAll_append]
    have moreInfo := handleAll_info_of_ne
      (s := (s.handleAll before).handleCqEntry cqe) fun other isMore =>
        (asideMore other isMore).record awaits.nodup
    refine (congrArg (Option.bind · TaskInfo.result) moreInfo).trans ?_
    apply handleCqEntry_result data
    rw [beforeInfo]
    exact awaits.isSome _ lastMem
  refine ⟨?_, ?_, ?_⟩
  · have beforeCount := handleAll_count coro fun other isBefore =>
      (asideBefore other isBefore).forwards
    rw [handleAll_append]
    refine (handleAll_count coro moreForwards).trans ?_
    rw [handleCqEntry_reapSwap, data, State.forwards, handleAll_handle,
      handleLast, List.count_append, beforeCount]
    simp
  · rw [resume_of_some pending]
    simpa using resultEq
  · have restForwards : ∀ other ∈ rest,
        ((s.handleAll (before ++ cqe :: more)).resume coro).forwards
          other.userData ≠ some (some coro) := by
      intro other isRest
      refine ((asideRest other isRest).of_handle ?_).forwards
      intro info isForeign
      rw [← handleAll_handle s (before ++ cqe :: more) info,
        resume_of_some pending]
      simp [State.handle, isForeign]
    rw [handleAll_count coro restForwards, resume_of_some pending]
    rfl

end Continues

section Law

variable {expr : Expr Info}

/-- The data points to a record that holds the coroutine, under the tag that
makes `handle_cq_entry` forward it. -/
def State.carries (s : State Coro Info) (coro : Coro) :
    UserData Coro Info → Bool
  | .taskInfo info => decide (s.handle info = some coro)
  | _ => false

/-- Exactly one entry carries the coroutine, that of the last I/O. -/
theorem Awaits.carrier {coro : Coro} (awaits : Awaits s coro expr) :
    ((expr.prepared : Prepared Coro Info).sqes.filter fun sqe =>
      s.carries coro sqe.userData).map (fun sqe => sqe.userData) =
        [.taskInfo expr.lastIo] := by
  have shaped : (expr.prepared : Prepared Coro Info).Shaped expr.linked
      expr.lastIo := expr.shaped
  obtain ⟨front, linked, tail, sqesEq, _⟩ := shaped.split
  have recordsEq : (expr.prepared : Prepared Coro Info).records =
      expr.infos.map some := expr.records_prepared
  have nodup : (expr.infos.map some).Nodup :=
    awaits.nodup.map fun _ _ => Option.some.inj
  rw [← recordsEq, Prepared.records, sqesEq, List.map_append, List.map_cons]
    at nodup
  have carried : s.carries coro (.taskInfo expr.lastIo) = true := by
    simp [State.carries, awaits.handle _ expr.lastIo_mem]
  have others : ∀ sqe ∈ front ++ tail,
      s.carries coro sqe.userData = false := by
    intro sqe isOther
    have isOperand : sqe.userData.record ∈ expr.infos.map some := by
      rw [← recordsEq, Prepared.records, sqesEq]
      apply List.mem_map_of_mem
      rcases List.mem_append.mp isOther with isFront | isTail
      · exact List.mem_append_left _ isFront
      · exact List.mem_append_right _ (List.mem_cons_of_mem _ isTail)
    have notLast : sqe.userData.record ≠ some expr.lastIo := by
      have distinct := List.perm_middle.nodup_iff.mp nodup
      rw [List.nodup_cons, ← List.map_append] at distinct
      intro isLast
      apply distinct.1
      exact List.mem_map.mpr ⟨sqe, isOther, isLast⟩
    cases data : sqe.userData with
    | taskInfo info =>
        rw [data] at isOperand notLast
        have isInfo : info ∈ expr.infos := by
          simpa [UserData.record] using isOperand
        have isOtherInfo : info ≠ expr.lastIo := by
          rintro rfl
          exact notLast rfl
        simp [State.carries, awaits.handle info isInfo, isOtherInfo]
    | nop | coroutineHandle _ | taskInfoLinkSqe _ | msgRing _ => rfl
  have noneOf : ∀ part : List (Sqe Coro Info), part ⊆ front ++ tail →
      part.filter (fun sqe => s.carries coro sqe.userData) = [] := by
    intro part isPart
    apply List.filter_eq_nil_iff.mpr
    intro sqe inPart
    simp [others sqe (isPart inPart)]
  rw [sqesEq, List.filter_append, noneOf front (List.subset_append_left _ _)]
  simp [carried, noneOf tail (List.subset_append_right _ _)]

/-- What is promised for an expression of linked I/O: its entries follow each
other in the ring in the order of the operands and form one chain, one of them
carries the awaiting coroutine, and the coroutine goes on once with the result
of the last I/O. -/
structure ChainLaw (Coro : Type*) [DecidableEq Coro] (expr : Expr Info) :
    Prop where
  linked : Linked (expr.prepared : Prepared Coro Info).sqes
  operands : (expr.prepared : Prepared Coro Info).records =
    expr.infos.map some
  slots : ∀ (s s' : State Coro Info) (coro : Coro) (num : Nat),
    s.pc = .running coro num → Worker.step s (.await expr) = some s' →
      s'.rings.sq = s.rings.sq ++ expr.prepared.sqes
  carrier : ∀ (s s' : State Coro Info) (coro : Coro) (num : Nat),
    s.pc = .running coro num → Worker.step s (.await expr) = some s' →
      (expr.prepared.sqes.filter fun sqe =>
        s'.carries coro sqe.userData).map (fun sqe => sqe.userData) =
          [.taskInfo expr.lastIo]
  continues : ∀ (s s' : State Coro Info) (coro : Coro) (num : Nat)
    (cqes : List (Cqe Coro Info)), s.pc = .running coro num →
      Worker.step s (.await expr) = some s' → Answers s' coro expr cqes →
        ∃ before cqe after, cqes = before ++ cqe :: after ∧
          cqe.userData = .taskInfo expr.lastIo ∧
          ∀ more rest, after = more ++ rest →
            ContinuesWith s' coro (before ++ cqe :: more) rest cqe.res

/-- The promise is kept by exactly those expressions in which nothing stands
behind a timed operand. -/
theorem chainLaw_iff (expr : Expr Info) :
    ChainLaw Coro expr ↔ expr.continued = false := by
  constructor
  · intro law
    exact expr.linked_sqes_iff.mp law.linked
  · intro whole
    refine ⟨expr.linked_sqes whole, expr.records_prepared, ?_, ?_, ?_⟩
    · intro s s' coro num pc stepEq
      exact (await_step pc stepEq).1
    · intro s s' coro num pc stepEq
      exact (await_step pc stepEq).2.carrier
    · intro s s' coro num cqes pc stepEq answers
      have awaits := (await_step pc stepEq).2
      obtain ⟨before, cqe, after, rfl, data, aside⟩ := answers.split
      refine ⟨before, cqe, after, rfl, data, ?_⟩
      rintro more rest rfl
      simp only [List.mem_append] at aside
      apply awaits.continuesWith data
      · exact fun other isBefore => aside other (.inl isBefore)
      · exact fun other isMore => aside other (.inr (.inl isMore))
      · exact fun other isRest => aside other (.inr (.inr isRest))

/-- In `(a && timeout(b, d)) && c` the timer is not linked to `c`. -/
theorem chainLaw_fails_behind_timer :
    ¬ ChainLaw Nat (Expr.link (.linkAwaiter (.awaiterTimeout 0 1 2) 3)) := by
  intro law
  have unlinked : ¬ Linked ((Expr.link (.linkAwaiter
      (.awaiterTimeout 0 1 2) 3)).prepared : Prepared Nat Nat).sqes := by
    rw [Expr.linked_sqes_iff]
    decide
  exact unlinked law.linked

end Law

end Handling

end CoContext.Worker
