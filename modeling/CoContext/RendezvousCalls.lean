import CoContext.ConditionVariableInvariant
import CoContext.Rendezvous

/-!
# The notifications of the unbuffered channel

Several contexts use `m_match_cv` at once.  Whatever the others do, a step of
`notify_one` on the links of the awaiters is the step that the channel makes on
its lists, or one of the loop that reverses a detached list.  A push of an
awaiter is a push onto the list.
-/

namespace CoContext.RendezvousCalls

open ConditionVariable (Represents Covers AppendsOne)

variable {Coro T : Type*}

/-- The lists of a condition variable whose waiters are placed. -/
def lists (waiters : ConditionVariable.Waiters Coro) :
    Sequential.ConditionVariable Coro where
  awaiting := (waiters.queue .awaiting).reverse
  toResume := waiters.queue .toResume

/-- The position in `notify_one`, with the waiters that the call has taken in
place of its pointers. -/
def notifyPc (taken : List Coro) :
    ConditionVariable.Pc Coro → Option (Rendezvous.NotifyPc Coro)
  | .oneTakeResume => some .takeResume
  | .oneExchange => some .exchange
  | .oneReverse .. | .oneSplice .. => some (.splice taken)
  | .oneNotify head => some (.register head)
  | _ => none

variable [DecidableEq Coro] {s s' : ConditionVariable.State Coro}
variable {waiters waiters' : ConditionVariable.Waiters Coro}

/-- The channel makes this step on its lists: it goes from `pc` to `after`, or
returns from the call. -/
def Notifies (T : Type*) (coro : Coro) (pc : Rendezvous.NotifyPc Coro)
    (cv cv' : Sequential.ConditionVariable Coro)
    (after : Option (Rendezvous.NotifyPc Coro)) : Prop :=
  ∀ (r : Rendezvous.State Coro T)
    (within : Rendezvous.NotifyPc Coro → Rendezvous.Pc Coro T)
    (next : Rendezvous.Pc Coro T), r.matchCv = cv →
      (r.notify coro within next pc).matchCv = cv' ∧
      (r.notify coro within next pc).pc coro = after.elim next within

theorem notifies_takeResume {coro head : Coro} {rest : List Coro}
    {cv : Sequential.ConditionVariable Coro}
    (isQueue : cv.toResume = head :: rest) :
    Notifies T coro .takeResume cv { cv with toResume := rest }
      (some (.register head)) := by
  rintro r within next rfl
  simp [Rendezvous.State.notify, isQueue, Rendezvous.State.setPc]

theorem notifies_takeResume_nil {coro : Coro}
    {cv : Sequential.ConditionVariable Coro} (isQueue : cv.toResume = []) :
    Notifies T coro .takeResume cv cv (some .exchange) := by
  rintro r within next rfl
  simp [Rendezvous.State.notify, isQueue, Rendezvous.State.setPc]

theorem notifies_exchange {coro head : Coro} {rest : List Coro}
    {cv : Sequential.ConditionVariable Coro}
    (isStack : cv.awaiting.reverse = head :: rest) :
    Notifies T coro .exchange cv { cv with awaiting := [] }
      (some (.splice (head :: rest))) := by
  rintro r within next rfl
  simp [Rendezvous.State.notify, isStack, Rendezvous.State.setPc]

theorem notifies_exchange_nil {coro : Coro}
    {cv : Sequential.ConditionVariable Coro} (isStack : cv.awaiting = []) :
    Notifies T coro .exchange cv cv none := by
  rintro r within next rfl
  simp [Rendezvous.State.notify, isStack, Rendezvous.State.setPc]

theorem notifies_splice {coro head : Coro} {taken rest : List Coro}
    {cv : Sequential.ConditionVariable Coro}
    (isQueue : cv.toResume ++ taken = head :: rest) :
    Notifies T coro (.splice taken) cv { cv with toResume := rest }
      (some (.register head)) := by
  rintro r within next rfl
  simp [Rendezvous.State.notify, isQueue, Rendezvous.State.setPc]

theorem notifies_register {coro head : Coro} (isOther : coro ≠ head)
    (cv : Sequential.ConditionVariable Coro) :
    Notifies T coro (.register head) cv cv none := by
  rintro r within next rfl
  rw [Rendezvous.State.notify]
  split
  · simp [Rendezvous.State.coSpawn, Rendezvous.State.setPc, isOther]
  · simp [Rendezvous.State.setPc, isOther]

section Steps

variable {coro : Coro}

theorem takeResume_step (rep : Represents s waiters)
    (rep' : Represents (s.takeResume coro) waiters') :
    Notifies T coro .takeResume (lists waiters) (lists waiters')
      (notifyPc (waiters'.queue (.held coro))
        ((s.takeResume coro).pc coro)) := by
  have queueChain := rep.toResume_chain
  have queueChain' := rep'.toResume_chain
  have stackChain' := rep'.awaiting_chain
  cases isHead : s.toResumeHead with
  | some head =>
      rw [isHead] at queueChain
      obtain ⟨rest, queueEq, restChain⟩ := queueChain.exists_cons
      simp only [ConditionVariable.State.takeResume, isHead,
        ConditionVariable.State.setPc_next] at queueChain' stackChain' ⊢
      have listsEq : lists waiters' = { lists waiters with toResume := rest } := by
        rw [lists, lists, queueChain'.unique restChain,
          Chain.unique stackChain' rep.awaiting_chain]
      rw [listsEq]
      simpa [notifyPc] using notifies_takeResume queueEq
  | none =>
      rw [isHead] at queueChain
      simp only [ConditionVariable.State.takeResume, isHead,
        ConditionVariable.State.setPc_next,
        ConditionVariable.State.setPc_toResumeHead] at queueChain' stackChain' ⊢
      have listsEq : lists waiters' = lists waiters := by
        rw [lists, lists, Chain.unique queueChain' queueChain,
          Chain.unique stackChain' rep.awaiting_chain]
      rw [listsEq]
      simpa [notifyPc] using
        notifies_takeResume_nil (Chain.null_iff.mp queueChain)

theorem exchange_step (rep : Represents s waiters)
    (rep' : Represents (s.detach coro) waiters') :
    Notifies T coro .exchange (lists waiters) (lists waiters')
      (notifyPc (waiters'.queue (.held coro)) ((s.detach coro).pc coro)) := by
  have stackChain := rep.awaiting_chain
  have queueChain' := rep'.toResume_chain
  have stackChain' := rep'.awaiting_chain
  have held' := rep'.held_queue coro
  cases isTop : s.awaiting with
  | none =>
      rw [isTop] at stackChain
      simp only [ConditionVariable.State.detach, isTop,
        ConditionVariable.State.setPc_next,
        ConditionVariable.State.setPc_awaiting] at queueChain' stackChain' ⊢
      have listsEq : lists waiters' = lists waiters := by
        rw [lists, lists, Chain.unique queueChain' rep.toResume_chain,
          Chain.unique stackChain' stackChain]
      rw [listsEq]
      simpa [notifyPc] using
        notifies_exchange_nil (Chain.null_iff.mp stackChain)
  | some top =>
      rw [isTop] at stackChain
      obtain ⟨rest, stackEq, restChain⟩ := stackChain.exists_cons
      simp only [ConditionVariable.State.detach, isTop,
        ConditionVariable.State.setPc_next, ConditionVariable.State.setPc_pc,
        Function.update_self] at queueChain' stackChain' held' ⊢
      obtain ⟨rest', done, heldEq, restChain', doneChain, -, -⟩ := held'
      have noneDone : done = [] := Chain.null_iff.mp doneChain
      have takenEq : (lists waiters).awaiting.reverse =
          waiters'.queue (.held coro) := by
        rw [heldEq, noneDone, restChain'.unique restChain]
        exact (congrArg List.reverse stackEq).trans List.reverse_cons
      have listsEq : lists waiters' = { lists waiters with awaiting := [] } := by
        rw [lists, lists, Chain.unique queueChain' rep.toResume_chain,
          Chain.null_iff.mp stackChain']
      rw [listsEq, notifyPc]
      obtain ⟨head, left, splitEq⟩ :
          ∃ head left, waiters'.queue (.held coro) = head :: left :=
        List.exists_cons_of_ne_nil (by simp [heldEq])
      rw [splitEq] at takenEq ⊢
      exact notifies_exchange takenEq

theorem splice_step (rep : Represents s waiters) (covers : Covers s waiters)
    {tail head : Coro} {succ : Option Coro}
    (position : s.pc coro = .oneSplice tail head succ)
    (appendsOne : s.toResumeHead = none ∨ succ = none)
    (rep' : Represents (s.splice coro tail head succ) waiters') :
    Notifies T coro (.splice (waiters.queue (.held coro))) (lists waiters)
      (lists waiters') (notifyPc (waiters'.queue (.held coro))
        ((s.splice coro tail head succ).pc coro)) := by
  have queueChain := rep.toResume_chain
  have queueChain' := rep'.toResume_chain
  have stackChain' := rep'.awaiting_chain
  have held := rep.held_queue coro
  rw [position] at held
  obtain ⟨done, heldEq, doneChain, nextEq, -⟩ := held
  cases isHead : s.toResumeHead with
  | none =>
      rw [isHead] at queueChain
      have queueNil := Chain.null_iff.mp queueChain
      simp only [ConditionVariable.State.splice, isHead,
        ConditionVariable.State.setPc_next,
        ConditionVariable.State.setPc_awaiting] at queueChain' stackChain' ⊢
      have listsEq : lists waiters' = { lists waiters with toResume := done } := by
        rw [lists, lists, queueChain'.unique doneChain,
          Chain.unique stackChain' rep.awaiting_chain]
      have splitEq : (lists waiters).toResume ++ waiters.queue (.held coro) =
          head :: done := by
        rw [lists, queueNil, heldEq, List.nil_append]
      rw [listsEq]
      simpa [notifyPc] using notifies_splice splitEq
  | some toNotify =>
      obtain rfl : succ = none := appendsOne.resolve_left (by simp [isHead])
      have doneNil : done = [] := Chain.null_iff.mp doneChain
      rw [isHead] at queueChain
      obtain ⟨rest, queueEq, restChain⟩ := queueChain.exists_cons
      obtain ⟨last, lastEq, found | ⟨isUnnotified, isLost⟩⟩ :=
        rep.tail (by simp [isHead])
      · obtain ⟨before, beforeEq⟩ := found
        have lastPlaced : last ∈ waiters.queue .toResume := by simp [beforeEq]
        have notAwaiting : last ∉ (waiters.queue .awaiting).reverse := by
          intro member
          cases waiters.disjoint lastPlaced (List.mem_reverse.mp member)
        have linked := rep.append_chain isHead queueEq beforeEq
          (by simp [heldEq] : head ∈ waiters.queue (.held coro)) nextEq
        simp only [ConditionVariable.State.splice, isHead, lastEq,
          ConditionVariable.State.setPc_next, ConditionVariable.State.link_next,
          ConditionVariable.State.setPc_awaiting,
          ConditionVariable.State.link_awaiting] at queueChain' stackChain' ⊢
        have listsEq : lists waiters' =
            { lists waiters with toResume := rest ++ [head] } := by
          rw [lists, lists, queueChain'.unique linked, stackChain'.unique
            (rep.awaiting_chain.write_of_notMem notAwaiting (some head))]
        have splitEq : (lists waiters).toResume ++ waiters.queue (.held coro) =
            toNotify :: (rest ++ [head]) := by
          rw [lists, queueEq, heldEq, doneNil, List.cons_append]
        rw [listsEq]
        simpa [notifyPc] using notifies_splice splitEq
      · exact absurd (covers last isUnnotified) isLost

theorem register_step (rep : Represents s waiters) {head : Coro}
    (position : s.pc coro = .oneNotify head)
    (rep' : Represents ((s.notify head).setPc coro .idle) waiters') :
    Notifies T coro (.register head) (lists waiters) (lists waiters') none := by
  have listsEq : lists waiters' = lists waiters := by
    rw [lists, lists, Chain.unique rep'.toResume_chain rep.toResume_chain,
      Chain.unique rep'.awaiting_chain rep.awaiting_chain]
  have held := rep.held_queue coro
  rw [position] at held
  have isUnnotified := rep.unnotified head ⟨.held coro, by
    rw [show waiters.queue (.held coro) = [head] from held]
    simp⟩
  have isOther : coro ≠ head := by
    rintro rfl
    rw [isUnnotified.1] at position
    cases position
  rw [listsEq]
  exact notifies_register isOther _

/-- A step of `notify_one` in any interleaving is the step of the channel, or
one of the loop that reverses the list that the call has taken. -/
theorem notify_step (rep : Represents s waiters) (covers : Covers s waiters)
    {spuriousFailure : Bool} {pc : Rendezvous.NotifyPc Coro}
    (position : notifyPc (waiters.queue (.held coro)) (s.pc coro) = some pc)
    (appendsOne : AppendsOne s (.run coro spuriousFailure))
    (stepEq : s.run coro spuriousFailure = some s') :
    ∃ waiters', Represents s' waiters' ∧ Covers s' waiters' ∧
      ((lists waiters' = lists waiters ∧
          notifyPc (waiters'.queue (.held coro)) (s'.pc coro) = some pc) ∨
        Notifies T coro pc (lists waiters) (lists waiters')
          (notifyPc (waiters'.queue (.held coro)) (s'.pc coro))) := by
  obtain ⟨waiters', rep', -, keeps⟩ := rep.run stepEq
  refine ⟨waiters', rep', keeps appendsOne covers, ?_⟩
  cases isAt : s.pc coro with
  | oneTakeResume =>
      obtain rfl : pc = .takeResume := by simpa [isAt, notifyPc] using position.symm
      simp only [ConditionVariable.State.run, isAt, Option.some.injEq] at stepEq
      subst stepEq
      exact Or.inr (takeResume_step rep rep')
  | oneExchange =>
      obtain rfl : pc = .exchange := by simpa [isAt, notifyPc] using position.symm
      simp only [ConditionVariable.State.run, isAt, Option.some.injEq] at stepEq
      subst stepEq
      exact Or.inr (exchange_step rep rep')
  | oneReverse tail head succ pred =>
      obtain rfl : pc = .splice (waiters.queue (.held coro)) := by
        simpa [isAt, notifyPc] using position.symm
      simp only [ConditionVariable.State.run, isAt, Option.some.injEq] at stepEq
      subst stepEq
      have reversed := rep.reverseNode isAt
      have heldEq := (rep'.held_queue coro).unique (reversed.held_queue coro)
      left
      constructor
      · rw [lists, lists, rep'.toResume_chain.unique reversed.toResume_chain,
          rep'.awaiting_chain.unique reversed.awaiting_chain]
      · rw [heldEq]
        cases pred <;> simp [ConditionVariable.State.reverseNode, notifyPc]
  | oneSplice tail head succ =>
      obtain rfl : pc = .splice (waiters.queue (.held coro)) := by
        simpa [isAt, notifyPc] using position.symm
      simp only [ConditionVariable.State.run, isAt, Option.some.injEq] at stepEq
      subst stepEq
      simp only [AppendsOne, isAt, ConditionVariable.Pc.reversedTail]
        at appendsOne
      exact Or.inr (splice_step rep covers isAt appendsOne rep')
  | oneNotify head =>
      obtain rfl : pc = .register head := by
        simpa [isAt, notifyPc] using position.symm
      simp only [ConditionVariable.State.run, isAt, Option.some.injEq] at stepEq
      subst stepEq
      right
      simpa [notifyPc] using register_step rep isAt rep'
  | _ => simp [isAt, notifyPc] at position

/-- The push of an awaiter in any interleaving. -/
theorem push_step (rep : Represents s waiters) (covers : Covers s waiters)
    {oldHead : Option Coro} {spuriousFailure : Bool}
    (position : s.pc coro = .waitExchange oldHead)
    (stepEq : s.run coro spuriousFailure = some s')
    (pushes : s'.pc coro = .waiting) :
    ∃ waiters', Represents s' waiters' ∧ Covers s' waiters' ∧
      lists waiters' = (lists waiters).push coro := by
  obtain ⟨waiters', rep', -, keeps⟩ := rep.run stepEq
  have fresh := rep.fresh_of_not_waiting
    (by simp [position] : s.pc coro ≠ .waiting)
  have notAwaiting : coro ∉ (waiters.queue .awaiting).reverse :=
    fun member => fresh ⟨.awaiting, List.mem_reverse.mp member⟩
  have notToResume : coro ∉ waiters.queue .toResume :=
    fun member => fresh ⟨.toResume, member⟩
  have appendsOne : AppendsOne s (.run coro spuriousFailure) :=
    Or.inr (by simp [position, ConditionVariable.Pc.reversedTail])
  refine ⟨waiters', rep', keeps appendsOne covers, ?_⟩
  simp only [ConditionVariable.State.run, position] at stepEq
  split at stepEq <;> rename_i succeeds <;> rw [Option.some.injEq] at stepEq <;>
    subst stepEq
  · have stackChain := rep.awaiting_chain.push notAwaiting
    rw [succeeds.1] at stackChain
    have queueChain :=
      rep.toResume_chain.write_of_notMem notToResume oldHead
    rw [lists, lists, Sequential.ConditionVariable.push,
      Chain.unique rep'.awaiting_chain stackChain,
      Chain.unique rep'.toResume_chain queueChain]
  · simp at pushes

end Steps

end CoContext.RendezvousCalls
