import CoContext.IntrusiveList
import CoContext.TransitionSystem
import Mathlib.Tactic.Simps.Basic

/-!
# The coroutine condition variable

New waiters push their `cv_wait_awaiter` onto the atomic stack `awaiting`.
`notify_one` serves the list between `to_resume_head` and `to_resume_tail`;
when that list is empty it detaches the stack, reverses it privately and
splices it under `notifier_mtx`.  `notify_all` walks both lists.  An awaiter
lives in the frame of the waiting coroutine, which names it.

Every access to `awaiting`, every section protected by `notifier_mtx` and
every iteration of a loop over a detached list is one step.  Notifying a
waiter registers its `lock_awaiter` on its mutex or spawns it; here this is
one event, after which the waiter may be resumed at any time.
-/

namespace CoContext.ConditionVariable

/-- The position of a coroutine in `wait`, `notify_one` or `notify_all`. -/
inductive Pc (Coro : Type*)
  | idle
  | waitLoad
  | waitExchange (oldHead : Option Coro)
  | waiting
  | oneTakeResume
  | oneExchange
  | oneReverse (tail head : Coro) (succ pred : Option Coro)
  | oneSplice (tail head : Coro) (succ : Option Coro)
  | oneNotify (head : Coro)
  | allExchange
  | allNotify (head : Option Coro) (fromToResume : Bool)
  | allTakeResume
  | nullDereference
  deriving DecidableEq

/-- The waiter that the next step of a notification call notifies. -/
def Pc.target {Coro : Type*} : Pc Coro → Option Coro
  | .oneNotify head => some head
  | .allNotify head _ => head
  | _ => none

/-- The coroutine is inside `notify_one`. -/
def Pc.InNotifyOne {Coro : Type*} : Pc Coro → Prop
  | .oneTakeResume | .oneExchange | .oneReverse .. | .oneSplice ..
  | .oneNotify _ | .nullDereference => True
  | _ => False

/-- The coroutine is in `wait` and has not pushed its awaiter. -/
def Pc.Entering {Coro : Type*} : Pc Coro → Prop
  | .waitLoad | .waitExchange _ => True
  | _ => False

structure State (Coro : Type*) where
  awaiting : Option Coro
  toResumeHead : Option Coro
  toResumeTail : Option Coro
  next : Coro → Option Coro
  pc : Coro → Pc Coro
  /-- How often a waiter was notified since it began to wait. -/
  notified : Coro → Nat

/-- A freshly constructed condition variable that nobody uses yet. -/
def State.new (Coro : Type*) : State Coro where
  awaiting := none
  toResumeHead := none
  toResumeTail := none
  next _ := none
  pc _ := .idle
  notified _ := 0

inductive Action (Coro : Type*)
  | wait (coro : Coro)
  | notifyOne (coro : Coro)
  | notifyAll (coro : Coro)
  | run (coro : Coro) (spuriousFailure : Bool)
  | resume (coro : Coro)
  deriving DecidableEq

/-- The coroutine that performs an action. -/
def Action.coro {Coro : Type*} : Action Coro → Coro
  | .wait coro | .notifyOne coro | .notifyAll coro | .run coro _
  | .resume coro => coro

instance {Coro : Type*} [Inhabited Coro] : Inhabited (Action Coro) :=
  ⟨.resume default⟩

variable {Coro : Type*} [DecidableEq Coro]

namespace State

@[simps -fullyApplied]
def setPc (s : State Coro) (coro : Coro) (pc : Pc Coro) : State Coro :=
  { s with pc := Function.update s.pc coro pc }

/-- `node->next = pointer`. -/
@[simps -fullyApplied]
def link (s : State Coro) (node : Coro) (pointer : Option Coro) : State Coro :=
  { s with next := Function.update s.next node pointer }

/-- The waiter is registered on its mutex, or spawned as its owner. -/
@[simps -fullyApplied]
def notify (s : State Coro) (waiter : Coro) : State Coro :=
  { s with
    notified := Function.update s.notified waiter (s.notified waiter + 1) }

/-- The first section of `notify_one`: pop `to_resume`, or clear its tail. -/
def takeResume (s : State Coro) (coro : Coro) : State Coro :=
  match s.toResumeHead with
  | some head =>
      { s.setPc coro (.oneNotify head) with toResumeHead := s.next head }
  | none => { s.setPc coro .oneExchange with toResumeTail := none }

/-- `notify_one` detaches `awaiting` and returns if it was empty. -/
def detach (s : State Coro) (coro : Coro) : State Coro :=
  match s.awaiting with
  | none => s.setPc coro .idle
  | some head =>
      { s.setPc coro (.oneReverse head head none (s.next head)) with
        awaiting := none }

/-- One test and iteration of the reversal loop of `notify_one`. -/
def reverseNode (s : State Coro) (coro tail head : Coro)
    (succ pred : Option Coro) : State Coro :=
  match pred with
  | none => s.setPc coro (.oneSplice tail head succ)
  | some node =>
      let linked := s.link head succ
      linked.setPc coro (.oneReverse tail node (some head) (linked.next node))

/-- The second section of `notify_one`: the reversed list becomes `to_resume`
or is appended to it. -/
def splice (s : State Coro) (coro tail head : Coro) (succ : Option Coro) :
    State Coro :=
  match s.toResumeHead with
  | none =>
      { s.setPc coro (.oneNotify head) with
        toResumeHead := succ
        toResumeTail := some tail }
  | some toNotify =>
      match s.toResumeTail with
      | none => s.setPc coro .nullDereference
      | some last =>
          let linked := s.link last (some head)
          { linked.setPc coro (.oneNotify toNotify) with
            toResumeHead := linked.next toNotify
            toResumeTail := some tail }

/-- The next step of the operation that `coro` performs. -/
def run (s : State Coro) (coro : Coro) (spuriousFailure : Bool) :
    Option (State Coro) :=
  match s.pc coro with
  | .idle | .waiting | .nullDereference => none
  | .waitLoad => some (s.setPc coro (.waitExchange s.awaiting))
  | .waitExchange oldHead =>
      let linked := s.link coro oldHead
      if s.awaiting = oldHead ∧ spuriousFailure = false then
        some { linked.setPc coro .waiting with awaiting := some coro }
      else
        some (linked.setPc coro (.waitExchange s.awaiting))
  | .oneTakeResume => some (s.takeResume coro)
  | .oneExchange => some (s.detach coro)
  | .oneReverse tail head succ pred =>
      some (s.reverseNode coro tail head succ pred)
  | .oneSplice tail head succ => some (s.splice coro tail head succ)
  | .oneNotify head => some ((s.notify head).setPc coro .idle)
  | .allExchange =>
      some { s.setPc coro (.allNotify s.awaiting false) with awaiting := none }
  | .allNotify (some head) fromToResume =>
      some ((s.notify head).setPc coro
        (.allNotify (s.next head) fromToResume))
  | .allNotify none false => some (s.setPc coro .allTakeResume)
  | .allNotify none true => some (s.setPc coro .idle)
  | .allTakeResume =>
      some { s.setPc coro (.allNotify s.toResumeHead true) with
        toResumeHead := none }

/-- A worker resumes a waiter; its awaiter is destroyed. -/
@[simps -fullyApplied]
def resume (s : State Coro) (coro : Coro) : State Coro :=
  { s with
    pc := Function.update s.pc coro .idle
    notified := Function.update s.notified coro 0 }

end State

def step (s : State Coro) : Action Coro → Option (State Coro)
  | .wait coro =>
      if s.pc coro = .idle then some (s.setPc coro .waitLoad) else none
  | .notifyOne coro =>
      if s.pc coro = .idle then some (s.setPc coro .oneTakeResume) else none
  | .notifyAll coro =>
      if s.pc coro = .idle then some (s.setPc coro .allExchange) else none
  | .run coro spuriousFailure => s.run coro spuriousFailure
  | .resume coro =>
      if s.pc coro = .waiting ∧ 0 < s.notified coro then
        some (s.resume coro)
      else
        none

/-- The condition variable used by arbitrarily many coroutines in any
interleaving. -/
def system (Coro : Type*) [DecidableEq Coro] :
    TransitionSystem (State Coro) (Action Coro) where
  initial s := s = State.new Coro
  step := step

section Steps

variable {s s' : State Coro}

/-- A step of an operation moves its own coroutine only and notifies at most
the target of its position.  It leaves `notify_one` after such a notification
or after an exchange that found `awaiting` empty, and only `wait` waits. -/
theorem run_update {coro : Coro} {spuriousFailure : Bool}
    (stepEq : s.run coro spuriousFailure = some s') :
    ∃ pc, s'.pc = Function.update s.pc coro pc ∧
      (s'.notified = (s.pc coro).target.elim s.notified fun head =>
        Function.update s.notified head (s.notified head + 1)) ∧
      ((s.pc coro).InNotifyOne → pc.InNotifyOne ∨
        (s.pc coro).target ≠ none ∨
        (s.pc coro = .oneExchange ∧ s.awaiting = none)) ∧
      (pc.Entering ∨ pc = .waiting → (s.pc coro).Entering) := by
  cases position : s.pc coro with
  | idle | waiting | nullDereference => simp [State.run, position] at stepEq
  | waitLoad =>
      simp only [State.run, position, Option.some.injEq] at stepEq
      subst stepEq
      exact ⟨_, rfl, rfl, False.elim, fun _ => trivial⟩
  | waitExchange oldHead =>
      simp only [State.run, position] at stepEq
      split at stepEq <;>
        (simp only [Option.some.injEq] at stepEq
         subst stepEq
         exact ⟨_, rfl, rfl, False.elim, fun _ => trivial⟩)
  | allExchange | allTakeResume =>
      simp only [State.run, position, Option.some.injEq] at stepEq
      subst stepEq
      exact ⟨_, rfl, rfl, False.elim, by simp [Pc.Entering]⟩
  | oneTakeResume =>
      simp only [State.run, position, Option.some.injEq] at stepEq
      subst stepEq
      unfold State.takeResume
      split <;>
        exact ⟨_, rfl, rfl, fun _ => Or.inl trivial, by simp [Pc.Entering]⟩
  | oneExchange =>
      simp only [State.run, position, Option.some.injEq] at stepEq
      subst stepEq
      cases stack : s.awaiting with
      | none =>
          simp only [State.detach, stack]
          exact ⟨_, rfl, rfl, fun _ => Or.inr (Or.inr (by simp)),
            by simp [Pc.Entering]⟩
      | some head =>
          simp only [State.detach, stack]
          exact ⟨_, rfl, rfl, fun _ => Or.inl trivial, by simp [Pc.Entering]⟩
  | oneReverse tail head succ pred =>
      simp only [State.run, position, Option.some.injEq] at stepEq
      subst stepEq
      cases pred <;>
        exact ⟨_, rfl, rfl, fun _ => Or.inl trivial, by simp [Pc.Entering]⟩
  | oneSplice tail head succ =>
      simp only [State.run, position, Option.some.injEq] at stepEq
      subst stepEq
      unfold State.splice
      split
      · exact ⟨_, rfl, rfl, fun _ => Or.inl trivial, by simp [Pc.Entering]⟩
      · split <;>
          exact ⟨_, rfl, rfl, fun _ => Or.inl trivial, by simp [Pc.Entering]⟩
  | oneNotify head =>
      simp only [State.run, position, Option.some.injEq] at stepEq
      subst stepEq
      exact ⟨_, rfl, rfl, fun _ => Or.inr (Or.inl (by simp [Pc.target])),
        by simp [Pc.Entering]⟩
  | allNotify head fromToResume =>
      cases head with
      | some head =>
          simp only [State.run, position, Option.some.injEq] at stepEq
          subst stepEq
          exact ⟨_, rfl, rfl, False.elim, by simp [Pc.Entering]⟩
      | none =>
          cases fromToResume <;>
            (simp only [State.run, position, Option.some.injEq] at stepEq
             subst stepEq
             exact ⟨_, rfl, rfl, False.elim, by simp [Pc.Entering]⟩)

theorem step_pc_of_ne {action : Action Coro}
    (stepEq : step s action = some s') {coro : Coro}
    (other : coro ≠ action.coro) : s'.pc coro = s.pc coro := by
  cases action with
  | run agent spuriousFailure =>
      obtain ⟨pc, pcEq, -⟩ := run_update stepEq
      simp only [Action.coro] at other
      rw [pcEq, Function.update_of_ne other]
  | wait | notifyOne | notifyAll | resume =>
      simp only [step, Option.ite_none_right_eq_some,
        Option.some.injEq] at stepEq
      obtain ⟨-, rfl⟩ := stepEq
      simp only [Action.coro] at other
      simp [other]

end Steps

/-- The coroutine is suspended in `wait` and was not notified. -/
def State.Unnotified (s : State Coro) (coro : Coro) : Prop :=
  s.pc coro = .waiting ∧ s.notified coro = 0

instance (s : State Coro) (coro : Coro) : Decidable (s.Unnotified coro) :=
  inferInstanceAs (Decidable (_ ∧ _))

/-- The waiters that a notification call holds privately. -/
def HeldNode (next : Coro → Option Coro) (coro : Coro) : Pc Coro → Prop
  | .oneReverse _ head succ pred =>
      coro = head ∨ LinkedFrom next succ coro ∨ LinkedFrom next pred coro
  | .oneSplice _ head succ => coro = head ∨ LinkedFrom next succ coro
  | .oneNotify head => coro = head
  | .allNotify head _ => LinkedFrom next head coro
  | _ => False

/-- The places where an un-notified waiter can be found. -/
inductive Location (Coro : Type*)
  | awaiting
  | toResume
  | heldBy (notifier : Coro)
  deriving DecidableEq

def State.LocatedAt (s : State Coro) (coro : Coro) : Location Coro → Prop
  | .awaiting => LinkedFrom s.next s.awaiting coro
  | .toResume => LinkedFrom s.next s.toResumeHead coro
  | .heldBy notifier => HeldNode s.next coro (s.pc notifier)

/-- A non-null `to_resume_tail` is the last node of `to_resume`. -/
def State.TailIsLast (s : State Coro) : Prop :=
  s.toResumeHead ≠ none → ∃ tail, s.toResumeTail = some tail ∧
    LinkedFrom s.next s.toResumeHead tail ∧ s.next tail = none

end CoContext.ConditionVariable
