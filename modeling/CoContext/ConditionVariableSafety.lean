import CoContext.ConditionVariableInvariant

/-!
# Waiters and notifications of the condition variable

No waiter leaves the lists un-notified while `notify_one` appends reversed
lists of one waiter only; appending a longer list drops all of it but its
head.  On top of that invariant, `notify_one` is not wasted and `notify_all`
reaches every earlier waiter, except where another notification call hides
detached waiters on its private list.
-/

namespace CoContext.ConditionVariable

variable {Coro : Type*}

/-- No waiter is lost, and the tail pointer of `to_resume` is sound. -/
def WaitersKept (s : State Coro) : Prop :=
  (∀ waiter, s.Unnotified waiter → ∃! location, s.LocatedAt waiter location) ∧
    s.TailIsLast

theorem Represents.tailIsLast {s : State Coro} {waiters : Waiters Coro}
    (rep : Represents s waiters) (covers : Covers s waiters) :
    s.TailIsLast := by
  intro notNull
  obtain ⟨tail, tailEq, lastOrLost⟩ := rep.tail notNull
  rcases lastOrLost with ⟨front, queueEq⟩ | ⟨isUnnotified, isLost⟩
  · have chain := rep.toResume_chain
    rw [queueEq] at chain
    refine ⟨tail, tailEq, chain.linkedFrom_iff.mpr (by simp), chain.next_last⟩
  · exact absurd (covers tail isUnnotified) isLost

/-- While every appended reversed list is a single waiter, each un-notified
waiter is in exactly one place and the tail of `to_resume` is its last node. -/
theorem waitersKept_of_appendsOne [DecidableEq Coro] {s : State Coro}
    (reached : (system Coro).ReachableBy AppendsOne s) : WaitersKept s := by
  obtain ⟨waiters, rep, covers⟩ := covered_of_reachableBy reached
  refine ⟨?_, rep.tailIsLast covers⟩
  intro waiter isUnnotified
  exact rep.existsUnique_location (covers waiter isUnnotified)

/-- Coroutine 0 detaches waiter 2 and appends it to the list that coroutine 1
stored in `to_resume`. -/
def appendActions : List (Action (Fin 5)) :=
  [.notifyOne 0, .run 0 false, .wait 2, .run 2 false, .run 2 false,
    .run 0 false, .run 0 false,
    .notifyOne 1, .run 1 false,
    .wait 3, .run 3 false, .run 3 false, .wait 4, .run 4 false, .run 4 false,
    .run 1 false, .run 1 false, .run 1 false, .run 1 false,
    .run 0 false]

def appendRun : (system (Fin 5)).Run :=
  .ofActions (State.new (Fin 5)) rfl appendActions (by decide)

theorem appendRun_guarded : appendRun.Guarded AppendsOne := by
  unfold TransitionSystem.Run.Guarded
  decide

theorem waitersKept_of_appendsOne_append : WaitersKept (appendRun.state 20) :=
  waitersKept_of_appendsOne (appendRun_guarded.reachableBy (by decide))

/-- Coroutine 0 detaches and reverses the waiters 2 and 3 while coroutine 1
fills `to_resume` with the waiters 4 and 5, and then appends its list. -/
def lossActions : List (Action (Fin 6)) :=
  [.notifyOne 0, .run 0 false,
    .wait 2, .run 2 false, .run 2 false, .wait 3, .run 3 false, .run 3 false,
    .run 0 false, .run 0 false, .run 0 false,
    .notifyOne 1, .run 1 false,
    .wait 4, .run 4 false, .run 4 false, .wait 5, .run 5 false, .run 5 false,
    .run 1 false, .run 1 false, .run 1 false, .run 1 false,
    .run 0 false]

def lossState : State (Fin 6) :=
  ((system (Fin 6)).exec (State.new (Fin 6)) lossActions).get (by decide)

theorem lossState_reachable : (system (Fin 6)).Reachable lossState :=
  TransitionSystem.Reachable.exec (.start rfl) (Option.some_get _).symm

/-- After the append waiter 3 is suspended, un-notified and in no list. -/
theorem waitersKept_fails :
    ¬ ∀ s, (system (Fin 6)).Reachable s → WaitersKept s := by
  intro always
  have unnotified : lossState.Unnotified 3 := by decide
  obtain ⟨location, located, -⟩ := (always _ lossState_reachable).1 3 unnotified
  cases location with
  | awaiting =>
      have empty : lossState.awaiting = none := by decide
      rw [State.LocatedAt, empty] at located
      cases located
  | toResume =>
      have headEq : lossState.toResumeHead = some 2 := by decide
      have nextEq : lossState.next 2 = none := by decide
      rw [State.LocatedAt, headEq] at located
      cases located with
      | there later =>
          rw [nextEq] at later
          cases later
  | heldBy notifier =>
      have positions : ∀ coro, lossState.pc coro = .oneNotify 4 ∨
          lossState.pc coro = .oneNotify 5 ∨ lossState.pc coro = .waiting := by
        decide
      rw [State.LocatedAt] at located
      rcases positions notifier with position | position | position <;>
        simp [position, HeldNode] at located

end CoContext.ConditionVariable
