import CoContext.ConditionVariable
import CoContext.MutexInvariant
import CoContext.Sequential

/-!
# The calls of a mutex and of a condition variable

The components step by step and their calls as functions belong together.  In
any interleaving, each call of a mutex takes place at one of its steps: a
mutex that many coroutines use goes through states that calls lead to, one
after the other.  Of a condition variable this is shown for calls that nothing
interrupts, down to the loop that reverses a detached list; `RendezvousCalls`
has the steps of a `notify_one` among those of other coroutines.
-/

namespace CoContext.SequentialCalls

variable {Coro : Type*}

section Mutex

/-- What the call does to the mutex that a step decides.  The event is what the
step shows of it. -/
inductive Decides (mutex : Sequential.Mutex Coro) :
    Option (FifoEvent Coro) → Sequential.Mutex Coro → Prop
  | nothing : Decides mutex none mutex
  | suspends {coro : Coro} {left : Sequential.Mutex Coro} :
      mutex.registerAwaiting coro = (true, left) →
      Decides mutex (some (.enqueued coro)) left
  | takes {coro : Coro} {left : Sequential.Mutex Coro} :
      mutex.registerAwaiting coro = (false, left) →
      Decides mutex (some (.bypassed coro)) left
  | frees {left : Sequential.Mutex Coro} :
      mutex.unlock = some (none, left) → Decides mutex none left
  | handsOver {coro : Coro} {left : Sequential.Mutex Coro} :
      mutex.unlock = some (some coro, left) →
      Decides mutex (some (.served coro)) left

/-- The same coroutines wait in the same order, and both are locked or free. -/
structure Abstracts (s : Mutex.State Coro) (mutex : Sequential.Mutex Coro) :
    Prop where
  locked_iff : mutex.awaiting.isSome ↔ s.awaiting ≠ .notLocked
  line : ∃ waiters owner, Mutex.Represents s waiters owner ∧
    Mutex.line waiters = mutex.line

theorem abstracts_new : Abstracts (.new Coro) (.new Coro) where
  locked_iff := by simp [Sequential.Mutex.new, Mutex.State.new]
  line := ⟨_, _, Mutex.represents_new, rfl⟩

variable [DecidableEq Coro] {s s' : Mutex.State Coro}
variable {action : Mutex.Action Coro}

/-- When a step finds or leaves the mutex locked. -/
def WordChanges (s s' : Mutex.State Coro) : Option (FifoEvent Coro) → Prop
  | some (.bypassed _) => s.awaiting = .notLocked ∧ s'.awaiting ≠ .notLocked
  | some (.enqueued _) | some (.served _) =>
      s.awaiting ≠ .notLocked ∧ s'.awaiting ≠ .notLocked
  | none => s.awaiting = .notLocked → s'.awaiting = .notLocked

theorem wordChanges_step {waiters : Mutex.Waiters Coro}
    {owner : Mutex.Owner Coro} (rep : Mutex.Represents s waiters owner)
    (stepEq : Mutex.step s action = some s') :
    WordChanges s s' (Mutex.observe s action) := by
  cases action with
  | lock | registerFor | unlock | resume =>
      simp only [Mutex.step, Option.ite_none_right_eq_some,
        Option.some.injEq] at stepEq
      obtain ⟨-, rfl⟩ := stepEq
      exact id
  | tryLock coro =>
      simp only [Mutex.step, Option.some.injEq] at stepEq
      subst stepEq
      by_cases isFree : s.awaiting = .notLocked
      · simp [Mutex.observe, Mutex.State.tryLock, isFree, WordChanges]
      · simp [Mutex.observe, Mutex.State.tryLock, isFree, WordChanges]
  | runRegister agent spuriousFailure =>
      have runEq : s.runRegister agent spuriousFailure = some s' := stepEq
      cases position : s.registerPc agent with
      | idle => simp [Mutex.State.runRegister, position] at runEq
      | load awaiter byNotifier =>
          simp only [Mutex.State.runRegister, position,
            Option.some.injEq] at runEq
          subst runEq
          simp [Mutex.observe, position, WordChanges,
            Mutex.State.retryRegister]
      | compareExchange awaiter byNotifier oldState =>
          simp only [Mutex.State.runRegister, position] at runEq
          simp only [Mutex.observe, position]
          by_cases succeeds : s.awaiting = oldState ∧ spuriousFailure = false
          · simp only [if_pos succeeds] at runEq ⊢
            split at runEq <;> rename_i wasFree <;>
              rw [Option.some.injEq] at runEq <;> subst runEq
            · rw [if_pos wasFree]
              refine ⟨succeeds.1.trans wasFree, ?_⟩
              cases byNotifier <;> simp [Mutex.State.takeLock]
            · rw [if_neg wasFree]
              refine ⟨by rwa [succeeds.1], ?_⟩
              simp [Mutex.State.pushAwaiter]
          · simp only [if_neg succeeds] at runEq ⊢
            split at runEq <;> rw [Option.some.injEq] at runEq <;>
              subst runEq <;> exact id
  | runUnlock coro =>
      have runEq : s.runUnlock coro = some s' := stepEq
      have inside : s.holderPc coro ≠ .outside := by
        intro isOutside
        simp [Mutex.State.runUnlock, isOutside] at runEq
      have isLocked : s.awaiting ≠ .notLocked := by
        intro isFree
        have isOwner := rep.owner_of_holder inside
        rw [rep.owned.notLocked_iff.mp isFree] at isOwner
        cases isOwner
      cases position : s.holderPc coro with
      | spawnResumeHead head =>
          simp only [Mutex.State.runUnlock, position,
            Option.some.injEq] at runEq
          subst runEq
          simp only [Mutex.observe, position]
          exact ⟨isLocked, isLocked⟩
      | _ =>
          simp only [Mutex.observe, position]
          exact fun isFree => absurd isFree isLocked

/-- A step of the mutex in any interleaving does nothing to it, or what one
call does. -/
theorem Abstracts.step {mutex : Sequential.Mutex Coro}
    (abstracts : Abstracts s mutex) (stepEq : Mutex.step s action = some s') :
    ∃ left, Abstracts s' left ∧
      Decides mutex (Mutex.observe s action) left := by
  obtain ⟨waiters, owner, rep, lineEq⟩ := abstracts.line
  obtain ⟨waiters', owner', rep', history⟩ := rep.step stepEq
  have words := wordChanges_step rep stepEq
  rw [lineEq] at history
  cases observed : Mutex.observe s action with
  | none =>
      rw [observed] at history words
      have sameLine : mutex.line = Mutex.line waiters' := history
      by_cases stays : s.awaiting = .notLocked ↔ s'.awaiting = .notLocked
      · exact ⟨mutex, ⟨abstracts.locked_iff.trans (not_congr stays), waiters',
          owner', rep', sameLine.symm⟩, .nothing⟩
      · have isFree : s'.awaiting = .notLocked := by
          by_contra isLocked
          exact stays (iff_of_false (fun wasFree => isLocked (words wasFree))
            isLocked)
        have wasLocked : s.awaiting ≠ .notLocked := fun wasFree =>
          stays (iff_of_true wasFree isFree)
        obtain rfl := rep'.owned.notLocked_iff.mp isFree
        rw [rep'.line_nil_of_free] at sameLine
        obtain ⟨spawned, left, unlockEq, splitEq, isSomeEq, -⟩ :=
          Sequential.Mutex.unlock_locked (abstracts.locked_iff.mpr wasLocked)
        rw [sameLine] at splitEq
        obtain ⟨noSpawn, leftNil⟩ := List.append_eq_nil_iff.mp splitEq.symm
        obtain rfl : spawned = none := by
          cases spawned with
          | none => rfl
          | some head => simp at noSpawn
        refine ⟨left, ⟨?_, waiters', .free, rep', ?_⟩, .frees unlockEq⟩
        · simp [isSomeEq, isFree]
        · rw [rep'.line_nil_of_free, leftNil]
  | some event =>
      rw [observed] at history words
      have changes : event.Changes mutex.line (Mutex.line waiters') := by
        simpa using history
      cases event with
      | enqueued coro =>
          obtain ⟨wasLocked, isLocked⟩ := words
          obtain ⟨left, callEq, leftLocked, leftLine⟩ :=
            Sequential.Mutex.registerAwaiting_locked
              (abstracts.locked_iff.mpr wasLocked) coro
          refine ⟨left, ⟨iff_of_true leftLocked isLocked, waiters', owner',
            rep', ?_⟩, .suspends callEq⟩
          rw [changes.2, leftLine]
      | bypassed coro =>
          obtain ⟨wasFree, isLocked⟩ := words
          have isNone : mutex.awaiting = none := by
            rw [← Option.not_isSome_iff_eq_none, abstracts.locked_iff]
            exact not_not_intro wasFree
          obtain ⟨left, callEq, leftLocked, leftLine⟩ :=
            Sequential.Mutex.registerAwaiting_free isNone coro
          refine ⟨left, ⟨iff_of_true leftLocked isLocked, waiters', owner',
            rep', ?_⟩, .takes callEq⟩
          rw [changes.2, leftLine, changes.1]
      | served coro =>
          obtain ⟨wasLocked, isLocked⟩ := words
          obtain ⟨spawned, left, unlockEq, splitEq, isSomeEq, ofNone⟩ :=
            Sequential.Mutex.unlock_locked (abstracts.locked_iff.mpr wasLocked)
          have front : mutex.line = coro :: Mutex.line waiters' := changes
          rw [front] at splitEq
          cases spawned with
          | none =>
              rw [ofNone rfl] at splitEq
              simp at splitEq
          | some head =>
              simp only [Option.toList_some, List.singleton_append,
                List.cons.injEq] at splitEq
              obtain ⟨rfl, leftLine⟩ := splitEq
              exact ⟨left, ⟨iff_of_true (by simp [isSomeEq]) isLocked,
                waiters', owner', rep', leftLine⟩, .handsOver unlockEq⟩

/-- In every run the mutex goes through states that calls lead to. -/
theorem run_decides_calls (run : (Mutex.system Coro).Run) :
    ∃ mutex : Nat → Sequential.Mutex Coro, mutex 0 = .new Coro ∧
      (∀ time ≤ run.length, Abstracts (run.state time) (mutex time)) ∧
      ∀ time < run.length,
        Decides (mutex time)
          (Mutex.observe (run.state time) (run.action time))
          (mutex (time + 1)) := by
  have goesOn : ∀ time (mutex : Sequential.Mutex Coro), ∃ left,
      time < run.length → Abstracts (run.state time) mutex →
        Abstracts (run.state (time + 1)) left ∧
          Decides mutex (Mutex.observe (run.state time) (run.action time))
            left := by
    intro time mutex
    by_cases goes : time < run.length ∧ Abstracts (run.state time) mutex
    · obtain ⟨left, both⟩ := goes.2.step (run.steps time goes.1)
      exact ⟨left, fun _ _ => both⟩
    · exact ⟨mutex, fun timeLt abstracts => absurd ⟨timeLt, abstracts⟩ goes⟩
  choose after afterSpec using goesOn
  let mutex : Nat → Sequential.Mutex Coro := Nat.rec (.new Coro) after
  have abstracts : ∀ time ≤ run.length,
      Abstracts (run.state time) (mutex time) := by
    intro time timeLe
    induction time with
    | zero =>
        have isNew : run.state 0 = .new Coro := run.starts
        rw [isNew]
        exact abstracts_new
    | succ time ih => exact (afterSpec time _ timeLe (ih (by omega))).1
  exact ⟨mutex, rfl, abstracts, fun time timeLt =>
    (afterSpec time _ timeLt (abstracts time (Nat.le_of_lt timeLt))).2⟩

end Mutex

section ConditionVariable

variable {s : ConditionVariable.State Coro}
variable {cv : Sequential.ConditionVariable Coro}

/-- The lists of a condition variable on which nobody calls. -/
structure Lists (s : ConditionVariable.State Coro)
    (cv : Sequential.ConditionVariable Coro) : Prop where
  awaiting : Chain s.next s.awaiting cv.awaiting
  toResume : Chain s.next s.toResumeHead cv.toResume
  nodup : (cv.awaiting ++ cv.toResume).Nodup

theorem lists_new : Lists (.new Coro) (.new Coro) where
  awaiting := rfl
  toResume := rfl
  nodup := List.nodup_nil

variable [DecidableEq Coro]

/-- The waiters that a call has notified. -/
def notifiedAfter (s : ConditionVariable.State Coro) :
    Option Coro → Coro → Nat
  | none => s.notified
  | some head => Function.update s.notified head (s.notified head + 1)

/-- A coroutine that is on no list pushes its awaiter. -/
theorem exec_wait (lists : Lists s cv) {coro : Coro}
    (isIdle : s.pc coro = .idle) (fresh : coro ∉ cv.awaiting ++ cv.toResume) :
    ∃ s', (ConditionVariable.system Coro).exec s
        [.wait coro, .run coro false, .run coro false] = some s' ∧
      Lists s' (cv.push coro) ∧
      s'.pc = Function.update s.pc coro .waiting := by
  refine ⟨{ s.link coro s.awaiting with
      awaiting := some coro
      pc := Function.update s.pc coro .waiting }, ?_, ?_, rfl⟩
  · simp [TransitionSystem.exec, ConditionVariable.system,
      ConditionVariable.step, isIdle, ConditionVariable.State.run,
      ConditionVariable.State.setPc, ConditionVariable.State.link]
  · obtain ⟨notAwaiting, notToResume⟩ := not_or.mp (List.mem_append.not.mp fresh)
    refine ⟨⟨rfl, ?_⟩, ?_, ?_⟩
    · simpa [ConditionVariable.State.link] using
        lists.awaiting.write_of_notMem notAwaiting s.awaiting
    · exact lists.toResume.write_of_notMem notToResume s.awaiting
    · exact List.nodup_cons.mpr ⟨fresh, lists.nodup⟩

/-- The loop that reverses the rest of a detached list. -/
theorem exec_reverse {coro tail : Coro} (rest : List Coro) :
    ∀ {s : ConditionVariable.State Coro} {head : Coro}
      {succ pred : Option Coro} {done : List Coro},
      s.pc coro = .oneReverse tail head succ pred →
      Chain s.next pred rest → Chain s.next succ done →
      (rest.reverse ++ head :: done).Nodup →
      ∃ last left next succ',
        (ConditionVariable.system Coro).exec s
            (List.replicate (rest.length + 1) (.run coro false)) =
          some { s with
            next := next
            pc := Function.update s.pc coro (.oneSplice tail last succ') } ∧
        rest.reverse ++ head :: done = last :: left ∧
        Chain next succ' left := by
  induction rest with
  | nil =>
      intro s head succ pred done position predChain succChain _
      obtain rfl : pred = none := predChain
      refine ⟨head, done, s.next, succ, ?_, rfl, succChain⟩
      simp [TransitionSystem.exec, ConditionVariable.system,
        ConditionVariable.step, ConditionVariable.State.run, position,
        ConditionVariable.State.reverseNode, ConditionVariable.State.setPc]
  | cons node rest ih =>
      intro s head succ pred done position predChain succChain nodup
      obtain ⟨rfl, restChain⟩ := predChain
      have parts : (node :: rest).reverse ++ head :: done =
          rest.reverse ++ node :: head :: done := by simp
      have nodup' := nodup
      rw [parts] at nodup'
      simp only [List.nodup_append, List.nodup_cons, List.mem_reverse,
        List.mem_cons, not_or] at nodup'
      obtain ⟨-, ⟨⟨nodeNotHead, -⟩, headNotDone, -⟩, apart⟩ := nodup'
      have headNotRest : head ∉ rest := fun isIn =>
        apart head isIn head (Or.inr (Or.inl rfl)) rfl
      let linked := s.link head succ
      have nextNode : linked.next node = s.next node :=
        Function.update_of_ne nodeNotHead ..
      have restChain' : Chain linked.next (linked.next node) rest := by
        rw [nextNode]
        exact restChain.write_of_notMem headNotRest succ
      have doneChain : Chain linked.next (some head) (head :: done) := by
        refine ⟨rfl, ?_⟩
        have nextHead : linked.next head = succ := Function.update_self ..
        rw [nextHead]
        exact succChain.write_of_notMem headNotDone succ
      let turned := linked.setPc coro
        (.oneReverse tail node (some head) (linked.next node))
      have isTurned : turned.pc coro =
          .oneReverse tail node (some head) (linked.next node) :=
        Function.update_self ..
      have stepEq : (ConditionVariable.system Coro).step s (.run coro false) =
          some turned := by
        simp [ConditionVariable.system, ConditionVariable.step,
          ConditionVariable.State.run, position,
          ConditionVariable.State.reverseNode, turned, linked]
      obtain ⟨last, left, next, succ', execEq, splitEq, chain⟩ :=
        ih isTurned restChain' doneChain (by rwa [← parts])
      refine ⟨last, left, next, succ', ?_, by rw [parts, splitEq], chain⟩
      rw [List.length_cons, List.replicate_succ, TransitionSystem.exec, stepEq,
        Option.bind_some, execEq]
      simp [turned, linked, ConditionVariable.State.setPc,
        ConditionVariable.State.link]

/-- An uninterrupted `notify_one` notifies the coroutine and leaves the lists
that the function says. -/
theorem exec_notifyOne (lists : Lists s cv) {coro : Coro}
    (isIdle : s.pc coro = .idle) :
    ∃ steps s', (ConditionVariable.system Coro).exec s
        (.notifyOne coro :: List.replicate steps (.run coro false)) =
          some s' ∧
      Lists s' cv.notifyOne.2 ∧
      s'.pc = s.pc ∧ s'.notified = notifiedAfter s cv.notifyOne.1 := by
  have samePc : Function.update s.pc coro .idle = s.pc := by
    rw [← isIdle, Function.update_eq_self]
  obtain ⟨awaitingChain, toResumeChain, nodup⟩ := lists
  cases isQueue : cv.toResume with
  | cons head rest =>
      rw [isQueue] at toResumeChain nodup
      obtain ⟨isHead, restChain⟩ := toResumeChain
      have callEq : cv.notifyOne =
          (some head, { cv with toResume := rest }) := by
        simp [Sequential.ConditionVariable.notifyOne, isQueue]
      rw [callEq]
      refine ⟨2, { s.notify head with
        toResumeHead := s.next head, pc := Function.update s.pc coro .idle },
        ?_, ⟨awaitingChain, restChain, ?_⟩, samePc, rfl⟩
      · simp [TransitionSystem.exec, ConditionVariable.system,
          ConditionVariable.step, isIdle, ConditionVariable.State.run,
          ConditionVariable.State.takeResume, isHead,
          ConditionVariable.State.setPc, ConditionVariable.State.notify,
          List.replicate_succ]
      · exact nodup.sublist
          (List.Sublist.append_left (List.sublist_cons_self ..) _)
  | nil =>
      rw [isQueue] at toResumeChain nodup
      have noHead : s.toResumeHead = none := toResumeChain
      cases isStack : cv.awaiting with
      | nil =>
          rw [isStack] at awaitingChain
          have noStack : s.awaiting = none := awaitingChain
          have callEq : cv.notifyOne = (none, cv) := by
            simp [Sequential.ConditionVariable.notifyOne, isQueue, isStack]
          rw [callEq]
          refine ⟨2, { s with
            toResumeTail := none, pc := Function.update s.pc coro .idle },
            ?_, ⟨?_, ?_, ?_⟩, samePc, rfl⟩
          · simp [TransitionSystem.exec, ConditionVariable.system,
              ConditionVariable.step, isIdle, ConditionVariable.State.run,
              ConditionVariable.State.takeResume, noHead,
              ConditionVariable.State.detach, noStack,
              ConditionVariable.State.setPc, List.replicate_succ]
          · rw [isStack]
            exact noStack
          · rw [isQueue]
            exact noHead
          · rw [isStack, isQueue]
            exact List.nodup_nil
      | cons top rest =>
          rw [isStack, List.append_nil] at nodup
          rw [isStack] at awaitingChain
          obtain ⟨isTop, restChain⟩ := awaitingChain
          let detached : ConditionVariable.State Coro :=
            { s with
              awaiting := none
              toResumeTail := none
              pc := Function.update s.pc coro
                (.oneReverse top top none (s.next top)) }
          have position : detached.pc coro =
              .oneReverse top top none (s.next top) := Function.update_self ..
          obtain ⟨last, left, next, succ, execEq, splitEq, leftChain⟩ :=
            exec_reverse rest position restChain
              (show Chain detached.next none [] from rfl)
              (by simpa using List.nodup_reverse.mpr nodup)
          have reversed : cv.awaiting.reverse = last :: left := by
            rw [isStack, ← splitEq, List.reverse_cons]
          have callEq : cv.notifyOne = (some last, ⟨[], left⟩) := by
            simp [Sequential.ConditionVariable.notifyOne, isQueue, reversed]
          have takesEq : (ConditionVariable.system Coro).exec s
              [.notifyOne coro, .run coro false, .run coro false] =
                some detached := by
            simp [TransitionSystem.exec, ConditionVariable.system,
              ConditionVariable.step, isIdle, ConditionVariable.State.run,
              ConditionVariable.State.takeResume, noHead,
              ConditionVariable.State.detach, isTop,
              ConditionVariable.State.setPc, detached]
          have actionsEq : ConditionVariable.Action.notifyOne coro ::
              List.replicate (2 + (rest.length + 1) + 2) (.run coro false) =
                [.notifyOne coro, .run coro false, .run coro false] ++
                  (List.replicate (rest.length + 1) (.run coro false) ++
                    [.run coro false, .run coro false]) := by
            rw [List.replicate_add, List.replicate_add]
            simp [List.replicate_succ]
          rw [callEq]
          refine ⟨2 + (rest.length + 1) + 2, { s.notify last with
            awaiting := none
            toResumeHead := succ
            toResumeTail := some top
            next := next
            pc := Function.update s.pc coro .idle },
            ?_, ⟨rfl, leftChain, ?_⟩, samePc, rfl⟩
          · rw [actionsEq, TransitionSystem.exec_append, takesEq,
              Option.bind_some, TransitionSystem.exec_append, execEq,
              Option.bind_some]
            simp [TransitionSystem.exec, ConditionVariable.system,
              ConditionVariable.step, ConditionVariable.State.run,
              ConditionVariable.State.splice, noHead,
              ConditionVariable.State.setPc, ConditionVariable.State.notify,
              detached]
          · have nodup' := List.nodup_reverse.mpr nodup
            rw [← isStack, reversed] at nodup'
            exact (List.nodup_cons.mp nodup').2

end ConditionVariable

end CoContext.SequentialCalls
