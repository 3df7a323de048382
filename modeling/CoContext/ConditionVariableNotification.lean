import CoContext.ConditionVariableInvariant
import Mathlib.Data.Fintype.Basic

/-!
# What a notification reaches

A call is an interval of a run.  `notify_one` returns without having notified
anybody only when its exchange finds `awaiting` empty, and `notify_all` misses
only waiters that a concurrent `notify_one` holds privately while `notify_all`
takes `to_resume`.  Both results therefore carry a condition on the other
calls at that one step, besides the condition that no waiter is lost.
-/

namespace CoContext.ConditionVariable

variable {Coro : Type*}

/-- The waiter that a step notifies. -/
def notifies (s : State Coro) : Action Coro → Option Coro
  | .run coro _ => (s.pc coro).target
  | _ => none

/-- The coroutine is inside `notify_all`. -/
def Pc.InNotifyAll : Pc Coro → Prop
  | .allExchange | .allNotify .. | .allTakeResume => True
  | _ => False

/-- The coroutine holds a detached list that `notify_one` reverses. -/
def Pc.Reverses : Pc Coro → Prop
  | .oneReverse .. | .oneSplice .. => True
  | _ => False

instance (pc : Pc Coro) : Decidable pc.Reverses :=
  match pc with
  | .oneReverse .. | .oneSplice .. => isTrue trivial
  | .idle | .waitLoad | .waitExchange _ | .waiting | .oneTakeResume
  | .oneExchange | .oneNotify _ | .allExchange | .allNotify .. | .allTakeResume
  | .nullDereference => isFalse id

section Step

variable [DecidableEq Coro] {s s' : State Coro}

/-- A waiter stays un-notified until a step notifies it. -/
theorem step_unnotified {action : Action Coro}
    (stepEq : step s action = some s') {waiter : Coro}
    (isUnnotified : s.Unnotified waiter)
    (notNotified : notifies s action ≠ some waiter) :
    s'.Unnotified waiter := by
  have notActing : waiter ≠ action.coro := by
    rintro rfl
    obtain ⟨isWaiting, isZero⟩ := isUnnotified
    cases action with
    | run coro spuriousFailure =>
        simp only [Action.coro] at isWaiting
        simp [step, State.run, isWaiting] at stepEq
    | _ =>
      simp only [Action.coro] at isWaiting isZero
      simp [step, isWaiting, isZero] at stepEq
  refine ⟨(step_pc_of_ne stepEq notActing).trans isUnnotified.1, ?_⟩
  cases action with
  | run coro spuriousFailure =>
      obtain ⟨pc, -, notifiedEq, -⟩ := run_update stepEq
      have isZero := isUnnotified.2
      simp only [notifies] at notNotified
      rw [notifiedEq]
      cases target : (s.pc coro).target with
      | none => exact isZero
      | some head =>
          have distinct : waiter ≠ head := by
            rintro rfl
            exact notNotified target
          simpa [distinct] using isZero
  | wait | notifyOne | notifyAll | resume =>
      simp only [step, Option.ite_none_right_eq_some,
        Option.some.injEq] at stepEq
      obtain ⟨-, rfl⟩ := stepEq
      simp only [Action.coro] at notActing
      simpa [notActing] using isUnnotified.2

/-- A waiter stays notified until it is resumed. -/
theorem step_notified {action : Action Coro}
    (stepEq : step s action = some s') {waiter : Coro}
    (isNotified : 0 < s.notified waiter)
    (notResumed : action ≠ .resume waiter) : 0 < s'.notified waiter := by
  cases action with
  | run coro spuriousFailure =>
      obtain ⟨pc, -, notifiedEq, -⟩ := run_update stepEq
      rw [notifiedEq]
      cases (s.pc coro).target with
      | none => exact isNotified
      | some head =>
          by_cases isHead : waiter = head
          · subst isHead
            simp
          · simpa [isHead] using isNotified
  | wait coro | notifyOne coro | notifyAll coro =>
      simp only [step, Option.ite_none_right_eq_some,
        Option.some.injEq] at stepEq
      obtain ⟨-, rfl⟩ := stepEq
      exact isNotified
  | resume coro =>
      simp only [step, Option.ite_none_right_eq_some,
        Option.some.injEq] at stepEq
      obtain ⟨-, rfl⟩ := stepEq
      have isOther : waiter ≠ coro := by
        rintro rfl
        exact notResumed rfl
      simpa [isOther] using isNotified

/-- The link of a notified waiter is not written. -/
theorem step_next_of_notified {waiters : Waiters Coro}
    (rep : Represents s waiters) {action : Action Coro}
    (stepEq : step s action = some s') {waiter : Coro}
    (isNotified : 0 < s.notified waiter) :
    s'.next waiter = s.next waiter := by
  have distinct : ∀ node, s.Unnotified node → waiter ≠ node := by
    rintro node isUnnotified rfl
    exact absurd isUnnotified.2 (Nat.ne_of_gt isNotified)
  cases action with
  | wait | notifyOne | notifyAll | resume =>
      simp only [step, Option.ite_none_right_eq_some,
        Option.some.injEq] at stepEq
      obtain ⟨-, rfl⟩ := stepEq
      rfl
  | run coro spuriousFailure =>
      have runEq : s.run coro spuriousFailure = some s' := stepEq
      cases position : s.pc coro with
      | idle | waiting | nullDereference => simp [State.run, position] at runEq
      | waitLoad | oneNotify | allExchange | allTakeResume =>
          simp only [State.run, position, Option.some.injEq] at runEq
          subst runEq
          rfl
      | waitExchange oldHead =>
          have isOther : waiter ≠ coro := by
            rintro rfl
            simp [rep.notified_waiting waiter isNotified] at position
          simp only [State.run, position] at runEq
          split at runEq <;>
            (rw [Option.some.injEq] at runEq
             subst runEq
             exact Function.update_of_ne isOther ..)
      | oneTakeResume =>
          simp only [State.run, position, Option.some.injEq] at runEq
          subst runEq
          unfold State.takeResume
          split <;> rfl
      | oneExchange =>
          simp only [State.run, position, Option.some.injEq] at runEq
          subst runEq
          unfold State.detach
          split <;> rfl
      | oneReverse tail head succ pred =>
          have isHeld : HeldNode s.next head (s.pc coro) := by
            rw [position]
            exact Or.inl rfl
          have isUnnotified := rep.unnotified head
            ⟨_, (rep.held_queue coro).heldNode_iff.mp isHeld⟩
          simp only [State.run, position, Option.some.injEq] at runEq
          subst runEq
          cases pred with
          | none => rfl
          | some node =>
              exact Function.update_of_ne (distinct head isUnnotified) ..
      | oneSplice tail head succ =>
          simp only [State.run, position, Option.some.injEq] at runEq
          subst runEq
          unfold State.splice
          split
          · rfl
          rename_i toNotify isHead
          split
          · rfl
          rename_i last isLast
          obtain ⟨found, foundEq, inQueue | ⟨isUnnotified, -⟩⟩ :=
            rep.tail (by simp [isHead])
          · obtain rfl : last = found :=
              Option.some.inj (isLast.symm.trans foundEq)
            obtain ⟨front, queueEq⟩ := inQueue
            have isUnnotified :=
              rep.unnotified last ⟨.toResume, by simp [queueEq]⟩
            exact Function.update_of_ne (distinct last isUnnotified) ..
          · obtain rfl : last = found :=
              Option.some.inj (isLast.symm.trans foundEq)
            exact Function.update_of_ne (distinct last isUnnotified) ..
      | allNotify head fromToResume =>
          cases head with
          | some head =>
              simp only [State.run, position, Option.some.injEq] at runEq
              subst runEq
              rfl
          | none =>
              cases fromToResume <;>
                (simp only [State.run, position, Option.some.injEq] at runEq
                 subst runEq
                 rfl)

/-- `notify_one` returns after it notified a waiter or after its exchange
found `awaiting` empty. -/
theorem step_inNotifyOne {action : Action Coro}
    (stepEq : step s action = some s') {notifier : Coro}
    (inside : (s.pc notifier).InNotifyOne) :
    (s'.pc notifier).InNotifyOne ∨
      ∃ spuriousFailure, action = .run notifier spuriousFailure ∧
        (notifies s action ≠ none ∨
          (s.pc notifier = .oneExchange ∧ s.awaiting = none)) := by
  by_cases acts : notifier = action.coro
  · cases action with
    | run coro spuriousFailure =>
        simp only [Action.coro] at acts
        subst acts
        obtain ⟨pc, pcEq, -, flow, -⟩ := run_update stepEq
        rcases flow inside with stays | leaves
        · left
          simpa [pcEq] using stays
        · exact Or.inr ⟨spuriousFailure, rfl, leaves⟩
    | _ =>
      simp only [Action.coro] at acts
      subst acts
      cases position : s.pc notifier <;>
        simp [position, step, Pc.InNotifyOne] at inside stepEq
  · left
    rwa [step_pc_of_ne stepEq acts]

end Step

/-- A call of `notifier` in a run: step `first` starts it, and step `last` is
its last one. -/
structure Call [DecidableEq Coro] (run : (system Coro).Run)
    (start : Coro → Action Coro) (notifier : Coro) (first last : Nat) :
    Prop where
  starts : run.action first = start notifier
  before : first < last
  within : last < run.length
  inside : ∀ time ≤ last, first < time →
    (run.state time).pc notifier ≠ .idle
  returns : (run.state (last + 1)).pc notifier = .idle

/-- A `notify_one` call during which a waiter is suspended and un-notified
all the time notifies some waiter. -/
def NotifyOneEffective [DecidableEq Coro] (run : (system Coro).Run) : Prop :=
  ∀ notifier first last, Call run .notifyOne notifier first last →
    ∀ waiter, (∀ time ≤ last + 1, first ≤ time →
      (run.state time).Unnotified waiter) →
    ∃ time spuriousFailure, first < time ∧ time ≤ last ∧
      run.action time = .run notifier spuriousFailure ∧
      notifies (run.state time) (run.action time) ≠ none

/-- If the step is an exchange of `notify_one` that finds `awaiting` empty,
then `to_resume` is empty and no notification call holds waiters. -/
def SeesWaiters (s : State Coro) : Action Coro → Prop
  | .run coro _ => s.pc coro = .oneExchange → s.awaiting = none →
      s.toResumeHead = none ∧
        ∀ other, ¬ (s.pc other).Reverses ∧ (s.pc other).target = none
  | _ => True

instance [DecidableEq Coro] [Fintype Coro] (s : State Coro) :
    DecidablePred (SeesWaiters s)
  | .run _ _ => inferInstanceAs (Decidable (_ → _ → _ ∧ ∀ _, _))
  | .wait _ | .notifyOne _ | .notifyAll _ | .resume _ => isTrue trivial

/-- Only a reversal or a coming notification holds waiters. -/
theorem HeldQueue.reverses_or_target {next : Coro → Option Coro}
    {queue : List Coro} {pc : Pc Coro} (held : HeldQueue next queue pc)
    {waiter : Coro} (member : waiter ∈ queue) :
    pc.Reverses ∨ pc.target ≠ none := by
  cases pc with
  | oneReverse | oneSplice => exact Or.inl trivial
  | oneNotify head => exact Or.inr (by simp [Pc.target])
  | allNotify head fromToResume =>
      right
      rintro (rfl : head = none)
      rw [Chain.null_iff.mp held] at member
      cases member
  | nullDereference => exact held.elim
  | _ =>
      rw [show queue = [] from held] at member
      cases member

/-- A waiter that was not notified is visible somewhere. -/
theorem Covered.visible {s : State Coro} (covered : Covered s) {waiter : Coro}
    (isUnnotified : s.Unnotified waiter) :
    s.awaiting ≠ none ∨ s.toResumeHead ≠ none ∨
      ∃ other, (s.pc other).Reverses ∨ (s.pc other).target ≠ none := by
  obtain ⟨waiters, rep, covers⟩ := covered
  obtain ⟨place, member⟩ := covers waiter isUnnotified
  cases place with
  | awaiting =>
      left
      intro isNull
      have chain := rep.awaiting_chain
      rw [isNull, Chain.null_iff, List.reverse_eq_nil_iff] at chain
      simp [chain] at member
  | toResume =>
      right; left
      intro isNull
      have chain := rep.toResume_chain
      rw [isNull, Chain.null_iff] at chain
      simp [chain] at member
  | held other =>
      right; right
      exact ⟨other, (rep.held_queue other).reverses_or_target member⟩

/-- While no waiter is lost and no exchange of `notify_one` overlooks the
waiters that other calls hold, no `notify_one` is wasted. -/
theorem notifyOne_effective [DecidableEq Coro] (run : (system Coro).Run)
    (appends : run.Guarded AppendsOne) (sees : run.Guarded SeesWaiters) :
    NotifyOneEffective run := by
  intro notifier first last call waiter waits
  have within := call.within
  -- until it notifies, the call stays inside `notify_one`
  have inside : ∀ time, first + 1 ≤ time → time ≤ last + 1 →
      ((run.state time).pc notifier).InNotifyOne ∨
        ∃ time spuriousFailure, first < time ∧ time ≤ last ∧
          run.action time = .run notifier spuriousFailure ∧
          notifies (run.state time) (run.action time) ≠ none := by
    intro time firstLe
    induction time, firstLe using Nat.le_induction with
    | base =>
        intro firstLe
        have stepEq := run.steps first (by omega)
        rw [call.starts] at stepEq
        simp only [system, step, Option.ite_none_right_eq_some,
          Option.some.injEq] at stepEq
        obtain ⟨-, succEq⟩ := stepEq
        rw [← succEq]
        left
        simp [Pc.InNotifyOne]
    | succ time firstLe ih =>
        intro timeLe
        rcases ih (by omega) with isInside | done
        · rcases step_inNotifyOne (run.steps time (by omega)) isInside with
            stays | ⟨spuriousFailure, actionEq, notified | ⟨position, empty⟩⟩
          · exact Or.inl stays
          · exact Or.inr ⟨time, spuriousFailure, by omega, by omega, actionEq,
              notified⟩
          · have covered := covered_of_reachableBy
              (appends.reachableBy (by omega : time ≤ run.length))
            have guard := sees time (by omega)
            rw [actionEq] at guard
            obtain ⟨noResume, noHeld⟩ := guard position empty
            rcases covered.visible (waits time (by omega) (by omega)) with
              notEmpty | notEmpty | ⟨other, holds⟩
            · exact absurd empty notEmpty
            · exact absurd noResume notEmpty
            · exact absurd (noHeld other) (by tauto)
        · exact Or.inr done
  rcases inside (last + 1) (by have := call.before; omega) (by omega) with
    isInside | done
  · rw [call.returns] at isInside
    exact isInside.elim
  · exact done

/-- Coroutine 0 detaches the waiters 1 and 2 and notifies the older one. -/
def servedRun : (system (Fin 3)).Run :=
  .ofActions (State.new (Fin 3)) rfl
    [.wait 1, .run 1 false, .run 1 false, .wait 2, .run 2 false, .run 2 false,
      .notifyOne 0, .run 0 false, .run 0 false, .run 0 false, .run 0 false,
      .run 0 false, .run 0 false] (by decide)

theorem servedRun_call : Call servedRun .notifyOne 0 6 12 := by
  refine ⟨?_, ?_, ?_, ?_, ?_⟩ <;> decide

theorem notifyOne_effective_served :
    ∃ time spuriousFailure, 6 < time ∧ time ≤ 12 ∧
      servedRun.action time = .run 0 spuriousFailure ∧
      notifies (servedRun.state time) (servedRun.action time) ≠ none := by
  have appends : servedRun.Guarded AppendsOne := by
    unfold TransitionSystem.Run.Guarded
    decide
  have sees : servedRun.Guarded SeesWaiters := by
    unfold TransitionSystem.Run.Guarded
    decide
  exact notifyOne_effective servedRun appends sees 0 6 12 servedRun_call 2
    (by decide)

/-- While coroutine 0 holds the detached waiter 2, the `notify_one` call of
coroutine 1 finds both lists empty. -/
def blindRun : (system (Fin 3)).Run :=
  .ofActions (State.new (Fin 3)) rfl
    [.wait 2, .run 2 false, .run 2 false,
      .notifyOne 0, .run 0 false, .run 0 false,
      .notifyOne 1, .run 1 false, .run 1 false] (by decide)

theorem notifyOne_effective_fails :
    ¬ ∀ run : (system (Fin 3)).Run, NotifyOneEffective run := by
  intro always
  have call : Call blindRun .notifyOne 1 6 8 := by
    refine ⟨?_, ?_, ?_, ?_, ?_⟩ <;> decide
  obtain ⟨time, _, firstLt, timeLe, -, notified⟩ :=
    always blindRun 1 6 8 call 2 (by decide)
  have silent : ∀ time ≤ 8, 6 < time →
      notifies (blindRun.state time) (blindRun.action time) = none := by
    decide
  exact notified (silent time timeLe firstLt)

namespace Represents

variable {s : State Coro} {waiters : Waiters Coro}

theorem awaiting_iff (rep : Represents s waiters) {waiter : Coro} :
    s.LocatedAt waiter .awaiting ↔ waiter ∈ waiters.queue .awaiting := by
  simpa [State.LocatedAt] using rep.awaiting_chain.linkedFrom_iff

theorem heldBy_iff (rep : Represents s waiters) {waiter notifier : Coro} :
    s.LocatedAt waiter (.heldBy notifier) ↔
      waiter ∈ waiters.queue (.held notifier) :=
  (rep.held_queue notifier).heldNode_iff

/-- An un-notified waiter that is neither on the stack nor hidden by a reversal
is in `to_resume` or held by a call about to notify. -/
theorem toResume_or_notifying (rep : Represents s waiters)
    (covers : Covers s waiters) {waiter : Coro}
    (isUnnotified : s.Unnotified waiter)
    (notAwaiting : ¬ s.LocatedAt waiter .awaiting)
    (visible : ∀ other, (s.pc other).Reverses →
      ¬ s.LocatedAt waiter (.heldBy other)) :
    s.LocatedAt waiter .toResume ∨
      ∃ other, s.LocatedAt waiter (.heldBy other) ∧
        (s.pc other).target ≠ none := by
  obtain ⟨place, member⟩ := covers waiter isUnnotified
  cases place with
  | awaiting => exact absurd (rep.awaiting_iff.mpr member) notAwaiting
  | toResume => exact Or.inl (rep.toResume_chain.linkedFrom_iff.mpr member)
  | held other =>
      have located := rep.heldBy_iff.mpr member
      rcases (rep.held_queue other).reverses_or_target member with
        reverses | notifying
      · exact absurd located (visible other reverses)
      · exact Or.inr ⟨other, located, notifying⟩

variable [DecidableEq Coro] {s' : State Coro}

/-- No step puts a waiter back on the stack. -/
theorem not_awaiting_step (rep : Represents s waiters) {action : Action Coro}
    (stepEq : ConditionVariable.step s action = some s') {waiter : Coro}
    (isUnnotified : s.Unnotified waiter)
    (notAwaiting : ¬ s.LocatedAt waiter .awaiting) :
    ¬ s'.LocatedAt waiter .awaiting := by
  obtain ⟨waiters', rep', frame, -⟩ := rep.step stepEq
  rw [rep.awaiting_iff] at notAwaiting
  rw [rep'.awaiting_iff]
  rcases frame.awaiting with same | ⟨⟨oldHead, position⟩, pushed⟩ | ⟨-, empty⟩
  · rwa [same]
  · rw [pushed, List.mem_append, List.mem_singleton]
    rintro (old | rfl)
    · exact notAwaiting old
    · rw [isUnnotified.1] at position
      cases position
  · simp [empty]

/-- A waiter held by a call about to notify stays with it until notified. -/
theorem heldBy_step (rep : Represents s waiters) {action : Action Coro}
    (stepEq : ConditionVariable.step s action = some s')
    {waiter notifier : Coro} (held : s.LocatedAt waiter (.heldBy notifier))
    (notifying : (s.pc notifier).target ≠ none)
    (notNotified : notifies s action ≠ some waiter) :
    s'.LocatedAt waiter (.heldBy notifier) ∧
      (s'.pc notifier).target ≠ none := by
  by_cases acts : notifier = action.coro
  · cases action with
    | run coro spuriousFailure =>
        simp only [Action.coro] at acts
        subst acts
        simp only [notifies] at notNotified
        simp only [ConditionVariable.step] at stepEq
        cases position : s.pc notifier with
        | oneNotify head =>
            simp only [State.LocatedAt, position, HeldNode] at held
            simp [position, Pc.target, held] at notNotified
        | allNotify head fromToResume =>
            cases head with
            | none => simp [position, Pc.target] at notifying
            | some head =>
                simp only [State.run, position, Option.some.injEq] at stepEq
                subst stepEq
                simp only [State.LocatedAt, position, HeldNode] at held
                cases held with
                | here => simp [position, Pc.target] at notNotified
                | there later =>
                    refine ⟨by simpa [State.LocatedAt, HeldNode] using later, ?_⟩
                    simp only [State.setPc, Function.update_self, Pc.target]
                    intro isNull
                    rw [isNull] at later
                    cases later
        | _ => simp [position, Pc.target] at notifying
    | _ =>
      simp only [Action.coro] at acts
      subst acts
      cases position : s.pc notifier <;>
        simp [position, ConditionVariable.step, Pc.target] at notifying stepEq
  · obtain ⟨waiters', rep', frame, -⟩ := rep.step stepEq
    rw [rep.heldBy_iff] at held
    rw [rep'.heldBy_iff, frame.others notifier acts, step_pc_of_ne stepEq acts]
    exact ⟨held, notifying⟩

end Represents

/-- `notify_all` has taken the stack but not yet `to_resume`. -/
def Pc.AfterExchange : Pc Coro → Prop
  | .allNotify _ fromToResume => fromToResume = false
  | .allTakeResume => True
  | _ => False

/-- Until it takes `to_resume`, `notify_all` keeps an un-notified waiter off the
stack; then a call about to notify holds it, unless a reversal hides it. -/
theorem Represents.notifyAll_step [DecidableEq Coro] {s s' : State Coro}
    {waiters : Waiters Coro} (rep : Represents s waiters)
    (covers : Covers s waiters) {action : Action Coro}
    (stepEq : ConditionVariable.step s action = some s')
    {waiter notifier : Coro} (isUnnotified : s.Unnotified waiter)
    (visible : ∀ spuriousFailure, action = .run notifier spuriousFailure →
      s.pc notifier = .allTakeResume → ∀ other, (s.pc other).Reverses →
        ¬ s.LocatedAt waiter (.heldBy other))
    (phase : s.pc notifier = .allExchange ∨
      ((s.pc notifier).AfterExchange ∧ ¬ s.LocatedAt waiter .awaiting)) :
    (s'.pc notifier = .allExchange ∨
      ((s'.pc notifier).AfterExchange ∧ ¬ s'.LocatedAt waiter .awaiting)) ∨
    (∃ other, s.LocatedAt waiter (.heldBy other) ∧
      (s.pc other).target ≠ none) ∨
    (s'.LocatedAt waiter (.heldBy notifier) ∧
      (s'.pc notifier).target ≠ none) := by
  by_cases acts : notifier = action.coro
  · cases action with
    | run coro spuriousFailure =>
        simp only [Action.coro] at acts
        subst acts
        have runEq : s.run notifier spuriousFailure = some s' := stepEq
        rcases phase with position | ⟨after, notAwaiting⟩
        · simp only [State.run, position, Option.some.injEq] at runEq
          subst runEq
          left; right
          refine ⟨by simp [Pc.AfterExchange], ?_⟩
          rintro ⟨⟩
        · have stays := rep.not_awaiting_step stepEq isUnnotified notAwaiting
          cases position : s.pc notifier with
          | allNotify head fromToResume =>
              rw [position] at after
              obtain rfl : fromToResume = false := after
              left; right
              refine ⟨?_, stays⟩
              cases head <;>
                (simp only [State.run, position, Option.some.injEq] at runEq
                 subst runEq
                 simp [Pc.AfterExchange])
          | allTakeResume =>
              right
              rcases rep.toResume_or_notifying covers isUnnotified notAwaiting
                (visible spuriousFailure rfl position) with inResume | isHeld
              · right
                simp only [State.run, position, Option.some.injEq] at runEq
                subst runEq
                refine ⟨by simpa [State.LocatedAt, HeldNode] using inResume, ?_⟩
                simp only [State.setPc, Function.update_self, Pc.target]
                intro isNull
                rw [State.LocatedAt, isNull] at inResume
                cases inResume
              · exact Or.inl isHeld
          | _ => simp [position, Pc.AfterExchange] at after
    | _ =>
      simp only [Action.coro] at acts
      subst acts
      cases position : s.pc notifier <;>
        simp [position, ConditionVariable.step, Pc.AfterExchange] at phase stepEq
  · left
    rw [step_pc_of_ne stepEq acts]
    rcases phase with before | ⟨after, notAwaiting⟩
    · exact Or.inl before
    · exact Or.inr
        ⟨after, rep.not_awaiting_step stepEq isUnnotified notAwaiting⟩

/-- Every notification call in progress during an interval has returned. -/
def ReturnedBy [DecidableEq Coro] (run : (system Coro).Run)
    (first last final : Nat) : Prop :=
  ∀ other, ∀ time ≤ last, first ≤ time →
    (((run.state time).pc other).InNotifyOne ∨
      ((run.state time).pc other).InNotifyAll) →
    ∃ later ≤ final, time ≤ later ∧ (run.state later).pc other = .idle

/-- The waiter is notified by the time that a call and every notification
call overlapping it have returned. -/
def Wakes [DecidableEq Coro] (run : (system Coro).Run) (first last : Nat)
    (waiter : Coro) : Prop :=
  ∀ final ≤ run.length, last < final → ReturnedBy run first last final →
    ∃ time < final, first ≤ time ∧
      notifies (run.state time) (run.action time) = some waiter

theorem Pc.calling_of_target {pc : Pc Coro} (notifying : pc.target ≠ none) :
    pc.InNotifyOne ∨ pc.InNotifyAll := by
  cases pc with
  | oneNotify => exact Or.inl trivial
  | allNotify => exact Or.inr trivial
  | _ => simp [Pc.target] at notifying

/-- While no waiter is lost, `notify_all` wakes every earlier waiter that no
concurrent `notify_one` hides while `notify_all` takes `to_resume`. -/
theorem notifyAll_wakes [DecidableEq Coro] (run : (system Coro).Run)
    (appends : run.Guarded AppendsOne) {notifier : Coro} {first last : Nat}
    (call : Call run .notifyAll notifier first last) {waiter : Coro}
    (waits : (run.state first).Unnotified waiter)
    (visible : ∀ time ≤ last, first < time →
      ∀ spuriousFailure, run.action time = .run notifier spuriousFailure →
        (run.state time).pc notifier = .allTakeResume →
          ∀ other, ((run.state time).pc other).Reverses →
            ¬ (run.state time).LocatedAt waiter (.heldBy other)) :
    Wakes run first last waiter := by
  intro final finalLe lastLt returned
  by_contra notNotified
  have silent : ∀ time < final, first ≤ time →
      notifies (run.state time) (run.action time) ≠ some waiter :=
    fun time timeLt firstLe notified =>
      notNotified ⟨time, timeLt, firstLe, notified⟩
  have before := call.before
  have unnotified : ∀ time, first ≤ time → time ≤ final →
      (run.state time).Unnotified waiter := by
    intro time firstLe timeLe
    refine run.holds_from (·.Unnotified waiter) firstLe waits ?_
    intro now firstLe' nowLt isUnnotified
    exact step_unnotified (run.steps now (by omega)) isUnnotified
      (silent now (by omega) firstLe')
  -- the call reaches its second section with the waiter off the stack
  have phases : ∀ time, first + 1 ≤ time → time ≤ last + 1 →
      ((run.state time).pc notifier = .allExchange ∨
        (((run.state time).pc notifier).AfterExchange ∧
          ¬ (run.state time).LocatedAt waiter .awaiting)) ∨
      ∃ held ≤ last, first < held ∧ ∃ other,
        (run.state held).LocatedAt waiter (.heldBy other) ∧
          ((run.state held).pc other).target ≠ none := by
    intro time firstLe
    induction time, firstLe using Nat.le_induction with
    | base =>
        intro firstLe
        have stepEq := run.steps first (by omega)
        rw [call.starts] at stepEq
        simp only [system, step, Option.ite_none_right_eq_some,
          Option.some.injEq] at stepEq
        obtain ⟨-, succEq⟩ := stepEq
        rw [← succEq]
        left; left
        simp
    | succ time firstLe ih =>
        intro timeLe
        rcases ih (by omega) with phase | held
        · obtain ⟨waiters, rep, covers⟩ := covered_of_reachableBy
            (appends.reachableBy (by omega : time ≤ run.length))
          rcases rep.notifyAll_step covers (run.steps time (by omega))
            (unnotified time (by omega) (by omega))
            (visible time (by omega) (by omega)) phase with
            phase' | held | ⟨located, notifying⟩
          · exact Or.inl phase'
          · exact Or.inr ⟨time, by omega, by omega, held⟩
          · have notLast : time + 1 ≠ last + 1 := by
              intro isLast
              rw [isLast, call.returns] at notifying
              exact notifying rfl
            exact Or.inr ⟨time + 1, by omega, by omega, notifier, located,
              notifying⟩
        · exact Or.inr held
  rcases phases (last + 1) (by omega) (by omega) with
    (position | ⟨after, -⟩) | ⟨held, heldLe, firstLt, other, isHeld⟩
  · rw [call.returns] at position
    cases position
  · rw [call.returns] at after
    exact after.elim
  · obtain ⟨later, laterLe, heldLe', isIdle⟩ := returned other held heldLe
      (by omega) (Pc.calling_of_target isHeld.2)
    have stillHeld : (run.state later).LocatedAt waiter (.heldBy other) ∧
        ((run.state later).pc other).target ≠ none := by
      refine run.holds_from (fun s => s.LocatedAt waiter (.heldBy other) ∧
        (s.pc other).target ≠ none) heldLe' isHeld ?_
      intro now heldLe'' nowLt isHeld'
      obtain ⟨waiters, rep⟩ := consistent_of_reachable
        (run.reachable (by omega : now ≤ run.length))
      exact rep.heldBy_step (run.steps now (by omega)) isHeld'.1 isHeld'.2
        (silent now (by omega) (by omega))
    have notifying := stillHeld.2
    rw [isIdle] at notifying
    exact notifying rfl

/-- Coroutine 0 notifies the waiter 1 by `notify_all`. -/
def wakingRun : (system (Fin 2)).Run :=
  .ofActions (State.new (Fin 2)) rfl
    [.wait 1, .run 1 false, .run 1 false, .notifyAll 0, .run 0 false,
      .run 0 false, .run 0 false, .run 0 false, .run 0 false] (by decide)

theorem notifyAll_wakes_waking : Wakes wakingRun 3 8 1 := by
  have appends : wakingRun.Guarded AppendsOne := by
    unfold TransitionSystem.Run.Guarded
    decide
  have call : Call wakingRun .notifyAll 0 3 8 := by
    refine ⟨?_, ?_, ?_, ?_, ?_⟩ <;> decide
  have noReversal : ∀ time ≤ 8, ∀ other,
      ¬ ((wakingRun.state time).pc other).Reverses := by
    decide
  exact notifyAll_wakes wakingRun appends call (by decide)
    fun time timeLe _ _ _ _ other reverses =>
      absurd reverses (noReversal time timeLe other)

/-- Coroutine 0 detaches the waiters 2 and 3, coroutine 1 runs `notify_all`
and finds nobody, and coroutine 0 notifies waiter 2 only. -/
def missingRun : (system (Fin 4)).Run :=
  .ofActions (State.new (Fin 4)) rfl
    [.wait 2, .run 2 false, .run 2 false, .wait 3, .run 3 false, .run 3 false,
      .notifyOne 0, .run 0 false, .run 0 false,
      .notifyAll 1, .run 1 false, .run 1 false, .run 1 false, .run 1 false,
      .run 0 false, .run 0 false, .run 0 false, .run 0 false] (by decide)

theorem notifyAll_wakes_fails :
    ¬ ∀ (run : (system (Fin 4)).Run) (notifier : Fin 4) (first last : Nat),
      Call run .notifyAll notifier first last →
        ∀ waiter, (run.state first).Unnotified waiter →
          Wakes run first last waiter := by
  intro always
  have call : Call missingRun .notifyAll 1 9 13 := by
    refine ⟨?_, ?_, ?_, ?_, ?_⟩ <;> decide
  have idle : ∀ other : Fin 4, other = 2 ∨ other = 3 ∨
      (missingRun.state 18).pc other = .idle := by
    decide
  have waiting : ∀ time ≤ 13, 9 ≤ time →
      (missingRun.state time).pc 2 = .waiting ∧
        (missingRun.state time).pc 3 = .waiting := by
    decide
  have returned : ReturnedBy missingRun 9 13 18 := by
    intro other time timeLe firstLe calling
    obtain ⟨secondWaits, thirdWaits⟩ := waiting time timeLe firstLe
    rcases idle other with rfl | rfl | isIdle
    · simp [secondWaits, Pc.InNotifyOne, Pc.InNotifyAll] at calling
    · simp [thirdWaits, Pc.InNotifyOne, Pc.InNotifyAll] at calling
    · exact ⟨18, by omega, by omega, isIdle⟩
  obtain ⟨time, timeLt, firstLe, notified⟩ :=
    always missingRun 1 9 13 call 3 (by decide) 18 (by decide) (by decide)
      returned
  have silent : ∀ time < 18, 9 ≤ time →
      notifies (missingRun.state time) (missingRun.action time) ≠ some 3 := by
    decide
  exact silent time timeLt firstLe notified

end CoContext.ConditionVariable
