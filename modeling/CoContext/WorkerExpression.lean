import CoContext.Worker

/-!
# The entries of an I/O expression

Whatever operands an expression has, one of its entries carries the
`task_info` of its last I/O and holds the handle of the awaiting coroutine; the
other entries that post completions are tagged as linked, and the timers post
none.  The entries form one chain unless the expression continues behind a
timer.
-/

namespace CoContext.Worker

open Request

variable {Coro Info : Type*}

/-- The operands in front of the last I/O. -/
def LinkIo.linked : LinkIo Info → List Info
  | awaiters lhs _ => [lhs]
  | linkAwaiter lhs _ => lhs.linked ++ [lhs.lastIo]
  | links lhs rhs => (lhs.linked ++ [lhs.lastIo]) ++ rhs.linked
  | awaiterTimeout lhs _ _ => [lhs]

/-- The last operand is timed. -/
def LinkIo.timed : LinkIo Info → Bool
  | awaiters _ _ | linkAwaiter _ _ => false
  | links _ rhs => rhs.timed
  | awaiterTimeout _ _ _ => true

/-- Some operand stands behind a timed one. -/
def LinkIo.continued : LinkIo Info → Bool
  | awaiters _ _ | awaiterTimeout _ _ _ => false
  | linkAwaiter lhs _ => lhs.continued || lhs.timed
  | links lhs rhs => lhs.continued || lhs.timed || rhs.continued

namespace Expr

def linked : Expr Info → List Info
  | single _ => []
  | link io => io.linked

def continued : Expr Info → Bool
  | single _ => false
  | link io => io.continued

end Expr

theorem modify_at_length {Entry : Type*} (front tail : List Entry)
    (entry : Entry) (change : Entry → Entry) :
    (front ++ entry :: tail).modify front.length change =
      front ++ change entry :: tail := by
  induction front with
  | nil => rfl
  | cons first front ih =>
      rw [List.cons_append, List.length_cons, List.modify_succ_cons, ih,
        List.cons_append]

/-- The entries of `links` come first, then the one of `last`, then entries
that post nothing. -/
structure Prepared.Shaped (prepared : Prepared Coro Info) (links : List Info)
    (last : Info) : Prop where
  split : ∃ front linked tail,
    prepared.sqes = front ++ ⟨.taskInfo last, linked, false⟩ :: tail ∧
    front.length = prepared.lastIo ∧
    awaited front = links.map .taskInfoLinkSqe ∧ awaited tail = []

namespace Prepared.Shaped

variable {prepared lhs rhs : Prepared Coro Info} {links more : List Info}
  {last rhsLast : Info}

theorem awaited_eq (shaped : prepared.Shaped links last) :
    awaited prepared.sqes =
      links.map .taskInfoLinkSqe ++ [.taskInfo last] := by
  obtain ⟨front, linked, tail, sqesEq, _, frontEq, tailEq⟩ := shaped.split
  rw [sqesEq, awaited_append, frontEq, awaited_cons, tailEq,
    awaited_of_not_skips rfl, List.append_nil]

theorem lazyAwaiter (info : Info) :
    (Prepared.lazyAwaiter info : Prepared Coro Info).Shaped [] info :=
  ⟨[], false, [], rfl, rfl, rfl, rfl⟩

theorem timeout (timed timer : Info) :
    (Prepared.timeout timed timer : Prepared Coro Info).Shaped [] timed :=
  ⟨[], true, [Sqe.lazyLinkTimeout timer], rfl, rfl, rfl, rfl⟩

theorem modify_sqes (shaped : prepared.Shaped links last)
    (change : Sqe Coro Info → Sqe Coro Info) :
    ∃ front linked tail,
      prepared.sqes.modify prepared.lastIo change =
        front ++ change ⟨.taskInfo last, linked, false⟩ :: tail ∧
      awaited front = links.map .taskInfoLinkSqe ∧ awaited tail = [] := by
  obtain ⟨front, linked, tail, sqesEq, lengthEq, frontEq, tailEq⟩ :=
    shaped.split
  refine ⟨front, linked, tail, ?_, frontEq, tailEq⟩
  rw [sqesEq, ← lengthEq, modify_at_length]

theorem link (lhsShaped : lhs.Shaped links last)
    (rhsShaped : rhs.Shaped more rhsLast) :
    (lhs.link rhs).Shaped ((links ++ [last]) ++ more) rhsLast := by
  obtain ⟨front, linked, tail, lhsEq, frontEq, tailEq⟩ :=
    lhsShaped.modify_sqes setLinkSqe
  obtain ⟨rhsFront, rhsLinked, rhsTail, rhsEq, lengthEq, rhsFrontEq,
    rhsTailEq⟩ := rhsShaped.split
  refine ⟨lhs.sqes.modify lhs.lastIo setLinkSqe ++ rhsFront, rhsLinked,
    rhsTail, ?_, ?_, ?_, rhsTailEq⟩
  · simp [Prepared.link, rhsEq]
  · simp [Prepared.link, lengthEq]
  · have linkedEq : awaited [setLinkSqe
        (⟨.taskInfo last, linked, false⟩ : Sqe Coro Info)] =
          [.taskInfoLinkSqe last] := rfl
    rw [awaited_append, lhsEq, awaited_append, awaited_cons, linkedEq, frontEq,
      tailEq, rhsFrontEq]
    simp

/-- A detached I/O posts nothing when it succeeds. -/
theorem detach (shaped : prepared.Shaped [] last) :
    awaited prepared.detach.sqes = [] := by
  obtain ⟨front, linked, tail, sqesEq, frontEq, tailEq⟩ :=
    shaped.modify_sqes Sqe.setCqeSkip
  rw [Prepared.detach, sqesEq, awaited_append, frontEq, awaited_cons, tailEq,
    awaited_of_skips rfl]
  rfl

end Prepared.Shaped

theorem Io.shaped (io : Io Info) :
    (io.prepared : Prepared Coro Info).Shaped [] io.lastIo := by
  cases io with
  | io info => exact .lazyAwaiter info
  | timeout timed timer => exact .timeout timed timer

theorem LinkIo.shaped (io : LinkIo Info) :
    (io.prepared : Prepared Coro Info).Shaped io.linked io.lastIo := by
  induction io with
  | awaiters lhs rhs =>
      exact (Prepared.Shaped.lazyAwaiter lhs).link (.lazyAwaiter rhs)
  | linkAwaiter lhs rhs ih =>
      have shaped := ih.link (.lazyAwaiter rhs)
      rwa [List.append_nil] at shaped
  | links lhs rhs lhsIH rhsIH => exact lhsIH.link rhsIH
  | awaiterTimeout lhs timed timer =>
      exact (Prepared.Shaped.lazyAwaiter lhs).link (.timeout timed timer)

theorem Expr.shaped (expr : Expr Info) :
    (expr.prepared : Prepared Coro Info).Shaped expr.linked expr.lastIo := by
  cases expr with
  | single io => exact io.shaped
  | link io => exact io.shaped

section Temporaries

theorem LinkIo.sublist_infos (io : LinkIo Info) :
    (io.linked ++ [io.lastIo]).Sublist io.infos := by
  induction io with
  | awaiters lhs rhs => exact List.Sublist.refl _
  | linkAwaiter lhs rhs ih => exact ih.append (List.Sublist.refl _)
  | links lhs rhs lhsIH rhsIH =>
      simp only [linked, lastIo, infos, List.append_assoc] at lhsIH rhsIH ⊢
      rw [← List.append_assoc]
      exact lhsIH.append rhsIH
  | awaiterTimeout lhs timed timer =>
      exact List.sublist_append_left [lhs, timed] [timer]

/-- The records of the entries are temporaries of the expression. -/
theorem Expr.sublist_infos (expr : Expr Info) :
    (expr.linked ++ [expr.lastIo]).Sublist expr.infos := by
  cases expr with
  | single io =>
      cases io with
      | io info => exact List.Sublist.refl _
      | timeout timed timer => exact List.sublist_append_left [timed] [timer]
  | link io => exact io.sublist_infos

theorem Expr.lastIo_mem (expr : Expr Info) : expr.lastIo ∈ expr.infos :=
  expr.sublist_infos.subset (by simp)

theorem Expr.linked_subset (expr : Expr Info) :
    ∀ info ∈ expr.linked, info ∈ expr.infos := fun _ isLinked =>
  expr.sublist_infos.subset (List.mem_append_left _ isLinked)

end Temporaries

section Chains

/-- All entries but the last are linked to the next one. -/
def Linked (sqes : List (Sqe Coro Info)) : Prop :=
  ∃ front last, sqes = front ++ [last] ∧
    (∀ sqe ∈ front, sqe.link = true) ∧ last.link = false

theorem Linked.chains {sqes : List (Sqe Coro Info)} (linked : Linked sqes) :
    Request.chains sqes = [sqes] := by
  obtain ⟨front, last, rfl, areLinked, isLast⟩ := linked
  exact chains_of_linked areLinked isLast

/-- The entries form one chain, which ends with the last I/O or, if that is
timed, with its timer. -/
structure Prepared.Chained (prepared : Prepared Coro Info) (timed : Bool) :
    Prop where
  split : ∃ front last tail,
    prepared.sqes = front ++ last :: tail ∧ front.length = prepared.lastIo ∧
    (∀ sqe ∈ front, sqe.link = true) ∧
    (timed = false → last.link = false ∧ tail = []) ∧
    (timed = true → last.link = true ∧
      ∃ timer, tail = [timer] ∧ timer.link = false)

namespace Prepared.Chained

variable {prepared lhs rhs : Prepared Coro Info} {timed : Bool}

theorem lazyAwaiter (info : Info) :
    (Prepared.lazyAwaiter info : Prepared Coro Info).Chained false :=
  ⟨[], _, [], rfl, rfl, by simp, fun _ => ⟨rfl, rfl⟩, by simp⟩

theorem timeout (timed timer : Info) :
    (Prepared.timeout timed timer : Prepared Coro Info).Chained true :=
  ⟨[], _, _, rfl, rfl, by simp, by simp, fun _ => ⟨rfl, _, rfl, rfl⟩⟩

theorem link (lhsChained : lhs.Chained false)
    (rhsChained : rhs.Chained timed) : (lhs.link rhs).Chained timed := by
  obtain ⟨front, last, tail, lhsEq, lengthEq, areLinked, isLast, _⟩ :=
    lhsChained.split
  obtain ⟨rhsFront, rhsLast, rhsTail, rhsEq, rhsLengthEq, rhsLinked, rhsSplit⟩ :=
    rhsChained.split
  obtain ⟨_, rfl⟩ := isLast rfl
  have modifyEq : lhs.sqes.modify lhs.lastIo setLinkSqe =
      front ++ [setLinkSqe last] := by
    rw [lhsEq, ← lengthEq, modify_at_length]
  refine ⟨front ++ [setLinkSqe last] ++ rhsFront, rhsLast, rhsTail, ?_, ?_, ?_,
    rhsSplit⟩
  · simp [Prepared.link, modifyEq, rhsEq]
  · simp only [Prepared.link, lhsEq, List.length_append, List.length_cons,
      List.length_nil, rhsLengthEq]
  · intro sqe inFront
    simp only [List.mem_append, List.mem_singleton] at inFront
    rcases inFront with (inFront | rfl) | inRhs
    · exact areLinked sqe inFront
    · rfl
    · exact rhsLinked sqe inRhs

theorem linked (chained : prepared.Chained timed) : Linked prepared.sqes := by
  obtain ⟨front, last, tail, sqesEq, _, areLinked, untimed, isTimed⟩ :=
    chained.split
  cases timed with
  | false =>
      obtain ⟨isLast, rfl⟩ := untimed rfl
      exact ⟨front, last, sqesEq, areLinked, isLast⟩
  | true =>
      obtain ⟨lastLinked, timer, rfl, isLast⟩ := isTimed rfl
      refine ⟨front ++ [last], timer, by simp [sqesEq], ?_, isLast⟩
      intro sqe inFront
      rcases List.mem_append.mp inFront with inFront | isLast
      · exact areLinked sqe inFront
      · rwa [List.mem_singleton.mp isLast]

end Prepared.Chained

theorem LinkIo.chained (io : LinkIo Info) (whole : io.continued = false) :
    (io.prepared : Prepared Coro Info).Chained io.timed := by
  induction io with
  | awaiters lhs rhs =>
      exact (Prepared.Chained.lazyAwaiter lhs).link (.lazyAwaiter rhs)
  | linkAwaiter lhs rhs ih =>
      obtain ⟨lhsWhole, untimed⟩ : lhs.continued = false ∧ lhs.timed = false :=
        by simpa [continued] using whole
      have lhsChained := ih lhsWhole
      rw [untimed] at lhsChained
      exact lhsChained.link (.lazyAwaiter rhs)
  | links lhs rhs lhsIH rhsIH =>
      obtain ⟨⟨lhsWhole, untimed⟩, rhsWhole⟩ :
          (lhs.continued = false ∧ lhs.timed = false) ∧
            rhs.continued = false := by simpa [continued] using whole
      have lhsChained := lhsIH lhsWhole
      rw [untimed] at lhsChained
      exact lhsChained.link (rhsIH rhsWhole)
  | awaiterTimeout lhs timed timer =>
      exact (Prepared.Chained.lazyAwaiter lhs).link (.timeout timed timer)

/-- An expression without operands behind a timed one is one chain. -/
theorem Expr.linked_sqes (expr : Expr Info) (whole : expr.continued = false) :
    Linked (expr.prepared : Prepared Coro Info).sqes := by
  cases expr with
  | single io =>
      cases io with
      | io info => exact (Prepared.Chained.lazyAwaiter info).linked
      | timeout timed timer =>
          exact (Prepared.Chained.timeout timed timer).linked
  | link io => exact (io.chained whole).linked

/-- Nothing prepared by an expression is linked to what follows it. -/
theorem Linked.closed {sqes : List (Sqe Coro Info)} (linked : Linked sqes) :
    Closed sqes := by
  obtain ⟨front, last, rfl, _, isLast⟩ := linked
  intro sqe isSqe
  obtain rfl : last = sqe := by simpa using isSqe
  exact isLast

theorem Io.detach_closed (io : Io Info) :
    Closed (io.prepared : Prepared Coro Info).detach.sqes := by
  cases io with
  | io info => simp [Closed, Io.prepared, Prepared.detach,
      Prepared.lazyAwaiter, Sqe.setCqeSkip, Sqe.lazyAwaiter]
  | timeout timed timer => simp [Closed, Io.prepared, Prepared.detach,
      Prepared.timeout, Sqe.lazyLinkTimeout, Sqe.setCqeSkip, Sqe.lazyAwaiter]

end Chains

end CoContext.Worker
