import CoContext.ConditionVariable
import CoContext.Placement

/-!
# The invariant of the condition variable

A reachable state represents a placement of un-notified waiters: those on the
stack `awaiting`, those on the list `to_resume`, and those that a running
notification call holds privately.  The position of the call says how its
local pointers describe its private queue.  The representation survives every
step; that it places every un-notified waiter additionally needs that
`notify_one` never appends a reversed list of more than one waiter.
-/

namespace CoContext.ConditionVariable

variable {Coro : Type*}

/-- The queues of un-notified waiters. -/
inductive Place (Coro : Type*)
  | awaiting
  | toResume
  | held (notifier : Coro)
  deriving DecidableEq

abbrev Waiters (Coro : Type*) := Placement (Place Coro) Coro

/-- How the position of a notification call describes the queue it holds. -/
def HeldQueue (next : Coro → Option Coro) (queue : List Coro) :
    Pc Coro → Prop
  | .oneReverse tail head succ pred =>
      ∃ rest done, queue = rest.reverse ++ head :: done ∧
        Chain next pred rest ∧ Chain next succ done ∧ next head = pred ∧
        ∃ front, head :: done = front ++ [tail]
  | .oneSplice tail head succ =>
      ∃ done, queue = head :: done ∧ Chain next succ done ∧
        next head = none ∧ ∃ front, head :: done = front ++ [tail]
  | .oneNotify head => queue = [head]
  | .allNotify head _ => Chain next head queue
  | .nullDereference => False
  | .idle | .waitLoad | .waitExchange _ | .waiting | .oneTakeResume
  | .oneExchange | .allExchange | .allTakeResume => queue = []

/-- The tail pointer of `to_resume` is its last node or a waiter that was
lost with the tail of an appended list. -/
def TailPointer (s : State Coro) (waiters : Waiters Coro) : Prop :=
  s.toResumeHead ≠ none → ∃ tail, s.toResumeTail = some tail ∧
    ((∃ front, waiters.queue .toResume = front ++ [tail]) ∨
      (s.Unnotified tail ∧ ¬ waiters.Holds tail))

/-- A state represents a placement of un-notified waiters. -/
structure Represents (s : State Coro) (waiters : Waiters Coro) : Prop where
  awaiting_chain : Chain s.next s.awaiting (waiters.queue .awaiting).reverse
  toResume_chain : Chain s.next s.toResumeHead (waiters.queue .toResume)
  held_queue : ∀ notifier,
    HeldQueue s.next (waiters.queue (.held notifier)) (s.pc notifier)
  unnotified : ∀ waiter, waiters.Holds waiter → s.Unnotified waiter
  notified_le_one : ∀ waiter, s.notified waiter ≤ 1
  notified_waiting : ∀ waiter, 0 < s.notified waiter → s.pc waiter = .waiting
  tail : TailPointer s waiters

/-- Every un-notified waiter is placed. -/
def Covers (s : State Coro) (waiters : Waiters Coro) : Prop :=
  ∀ waiter, s.Unnotified waiter → waiters.Holds waiter

/-- What the second section of `notify_one` finds behind the head of its
reversed list. -/
def Pc.reversedTail : Pc Coro → Option Coro
  | .oneSplice _ _ succ => succ
  | _ => none

/-- If the step appends a reversed list to `to_resume`, then it is a list of
one waiter. -/
def AppendsOne (s : State Coro) : Action Coro → Prop
  | .run coro _ => s.toResumeHead = none ∨ (s.pc coro).reversedTail = none
  | _ => True

instance [DecidableEq Coro] (s : State Coro) : DecidablePred (AppendsOne s)
  | .run _ _ => inferInstanceAs (Decidable (_ ∨ _))
  | .wait _ | .notifyOne _ | .notifyAll _ | .resume _ => isTrue trivial

/-- The next step of the notification call of `coro` empties `awaiting`. -/
def State.Detaches (s : State Coro) (coro : Coro) : Prop :=
  s.pc coro = .oneExchange ∨ s.pc coro = .allExchange

/-- How a step of `coro` changes the stack, and that it leaves the private
queues of the other calls alone. -/
structure Frame (s : State Coro) (coro : Coro)
    (waiters waiters' : Waiters Coro) : Prop where
  awaiting : waiters'.queue .awaiting = waiters.queue .awaiting ∨
    ((∃ oldHead, s.pc coro = .waitExchange oldHead) ∧
      waiters'.queue .awaiting = waiters.queue .awaiting ++ [coro]) ∨
    (s.Detaches coro ∧ waiters'.queue .awaiting = [])
  others : ∀ notifier, notifier ≠ coro →
    waiters'.queue (.held notifier) = waiters.queue (.held notifier)

theorem Frame.refl (s : State Coro) (coro : Coro) (waiters : Waiters Coro) :
    Frame s coro waiters waiters :=
  ⟨Or.inl rfl, fun _ _ => rfl⟩

/-- The step of `coro` to `s'` keeps a representation, and keeps every waiter
placed if it is lossless. -/
def Simulates (s : State Coro) (waiters : Waiters Coro) (coro : Coro)
    (lossless : Prop) (s' : State Coro) : Prop :=
  ∃ waiters', Represents s' waiters' ∧ Frame s coro waiters waiters' ∧
    (lossless → Covers s waiters → Covers s' waiters')

theorem represents_new : Represents (State.new Coro) Placement.empty where
  awaiting_chain := rfl
  toResume_chain := rfl
  held_queue _ := rfl
  unnotified waiter held := absurd held (Placement.not_holds_empty waiter)
  notified_le_one _ := Nat.zero_le 1
  notified_waiting _ isNotified := absurd isNotified (Nat.lt_irrefl 0)
  tail notNull := absurd rfl notNull

theorem covers_new : Covers (State.new Coro) Placement.empty := by
  rintro waiter ⟨isWaiting, -⟩
  cases isWaiting

/-- A write to a node outside the held queue does not affect it. -/
theorem HeldQueue.write_of_notMem [DecidableEq Coro]
    {next : Coro → Option Coro} {queue : List Coro} {pc : Pc Coro}
    (held : HeldQueue next queue pc) {node : Coro} (fresh : node ∉ queue)
    (pointer : Option Coro) :
    HeldQueue (Function.update next node pointer) queue pc := by
  cases pc with
  | oneReverse tail head succ pred =>
      obtain ⟨rest, done, rfl, restChain, doneChain, nextEq, tailEq⟩ := held
      simp only [List.mem_append, List.mem_reverse, List.mem_cons,
        not_or] at fresh
      obtain ⟨notRest, notHead, notDone⟩ := fresh
      refine ⟨rest, done, rfl, restChain.write_of_notMem notRest pointer,
        doneChain.write_of_notMem notDone pointer, ?_, tailEq⟩
      rw [Function.update_of_ne (Ne.symm notHead), nextEq]
  | oneSplice tail head succ =>
      obtain ⟨done, rfl, doneChain, nextEq, tailEq⟩ := held
      simp only [List.mem_cons, not_or] at fresh
      obtain ⟨notHead, notDone⟩ := fresh
      refine ⟨done, rfl, doneChain.write_of_notMem notDone pointer, ?_, tailEq⟩
      rw [Function.update_of_ne (Ne.symm notHead), nextEq]
  | allNotify head fromToResume =>
      exact Chain.write_of_notMem held fresh pointer
  | _ => exact held

/-- The held nodes of a position are those of the queue it describes. -/
theorem HeldQueue.heldNode_iff {next : Coro → Option Coro}
    {queue : List Coro} {pc : Pc Coro} (held : HeldQueue next queue pc)
    {coro : Coro} : HeldNode next coro pc ↔ coro ∈ queue := by
  cases pc with
  | oneReverse tail head succ pred =>
      obtain ⟨rest, done, rfl, restChain, doneChain, -, -⟩ := held
      simp only [HeldNode, restChain.linkedFrom_iff, doneChain.linkedFrom_iff,
        List.mem_append, List.mem_reverse, List.mem_cons]
      tauto
  | oneSplice tail head succ =>
      obtain ⟨done, rfl, doneChain, -, -⟩ := held
      simp [HeldNode, doneChain.linkedFrom_iff]
  | oneNotify head =>
      have queueEq : queue = [head] := held
      simp [HeldNode, queueEq]
  | allNotify head fromToResume => exact Chain.linkedFrom_iff held
  | nullDereference => exact held.elim
  | _ =>
      have queueEq : queue = [] := held
      simp [HeldNode, queueEq]

/-- A position describes one queue. -/
theorem HeldQueue.unique {next : Coro → Option Coro} {queue other : List Coro}
    {pc : Pc Coro} (held : HeldQueue next queue pc)
    (otherHeld : HeldQueue next other pc) : queue = other := by
  cases pc with
  | oneReverse tail head succ pred =>
      obtain ⟨rest, done, rfl, restChain, doneChain, -, -⟩ := held
      obtain ⟨rest', done', rfl, restChain', doneChain', -, -⟩ := otherHeld
      rw [restChain.unique restChain', doneChain.unique doneChain']
  | oneSplice tail head succ =>
      obtain ⟨done, rfl, doneChain, -, -⟩ := held
      obtain ⟨done', rfl, doneChain', -, -⟩ := otherHeld
      rw [doneChain.unique doneChain']
  | allNotify head fromToResume => exact Chain.unique held otherHeld
  | nullDereference => exact held.elim
  | _ => exact Eq.trans held (Eq.symm otherHeld)

/-- The queue that stands for a location. -/
def Location.place : Location Coro → Place Coro
  | .awaiting => .awaiting
  | .toResume => .toResume
  | .heldBy notifier => .held notifier

namespace Represents

variable {s : State Coro} {waiters : Waiters Coro}

theorem held_nil_of_waiting (rep : Represents s waiters) {coro : Coro}
    (waiting : s.pc coro = .waiting) : waiters.queue (.held coro) = [] := by
  have held := rep.held_queue coro
  rwa [waiting] at held

theorem fresh_of_not_waiting (rep : Represents s waiters) {coro : Coro}
    (notWaiting : s.pc coro ≠ .waiting) : ¬ waiters.Holds coro :=
  fun held => notWaiting (rep.unnotified coro held).1

/-- An un-notified waiter that is placed is at exactly one location. -/
theorem existsUnique_location (rep : Represents s waiters) {waiter : Coro}
    (holds : waiters.Holds waiter) :
    ∃! location, s.LocatedAt waiter location := by
  have located : ∀ location, s.LocatedAt waiter location ↔
      waiter ∈ waiters.queue location.place := by
    rintro (_ | _ | notifier)
    · simpa [State.LocatedAt, Location.place] using
        rep.awaiting_chain.linkedFrom_iff
    · exact rep.toResume_chain.linkedFrom_iff
    · exact (rep.held_queue notifier).heldNode_iff
  obtain ⟨place, member, unique⟩ := holds.existsUnique
  have only : ∀ other, waiter ∈ waiters.queue other → other = place := unique
  cases place with
  | awaiting =>
      refine ⟨.awaiting, (located _).mpr member, ?_⟩
      rintro (_ | _ | notifier) isLocated
      · rfl
      · cases only _ ((located _).mp isLocated)
      · cases only _ ((located _).mp isLocated)
  | toResume =>
      refine ⟨.toResume, (located _).mpr member, ?_⟩
      rintro (_ | _ | notifier) isLocated
      · cases only _ ((located _).mp isLocated)
      · rfl
      · cases only _ ((located _).mp isLocated)
  | held holder =>
      refine ⟨.heldBy holder, (located _).mpr member, ?_⟩
      rintro (_ | _ | notifier) isLocated
      · cases only _ ((located _).mp isLocated)
      · cases only _ ((located _).mp isLocated)
      · cases only _ ((located _).mp isLocated)
        rfl

variable [DecidableEq Coro]

theorem unnotified_setPc {coro : Coro} {pc : Pc Coro}
    (notWaiting : s.pc coro ≠ .waiting) (stays : pc ≠ .waiting)
    {waiter : Coro} :
    (s.setPc coro pc).Unnotified waiter ↔ s.Unnotified waiter := by
  simp only [State.Unnotified, State.setPc]
  grind

/-- A local move to a position that describes the same queue. -/
theorem setPc (rep : Represents s waiters) {coro : Coro} {pc : Pc Coro}
    (notWaiting : s.pc coro ≠ .waiting) (stays : pc ≠ .waiting)
    (held : HeldQueue s.next (waiters.queue (.held coro)) pc) :
    Represents (s.setPc coro pc) waiters where
  awaiting_chain := rep.awaiting_chain
  toResume_chain := rep.toResume_chain
  held_queue := by
    intro notifier
    by_cases same : notifier = coro
    · subst notifier
      simpa using held
    · simpa [same] using rep.held_queue notifier
  unnotified waiter holds :=
    (unnotified_setPc notWaiting stays).mpr (rep.unnotified waiter holds)
  notified_le_one := rep.notified_le_one
  notified_waiting := by
    intro waiter isNotified
    have isWaiting := rep.notified_waiting waiter isNotified
    simp only [State.setPc]
    grind
  tail := by
    intro notNull
    obtain ⟨tail, tailEq, lastOrLost⟩ := rep.tail notNull
    refine ⟨tail, tailEq, lastOrLost.imp_right fun lost => ⟨?_, lost.2⟩⟩
    exact (unnotified_setPc notWaiting stays).mpr lost.1

/-- Writing the field of a node that is in no list changes no list. -/
theorem link (rep : Represents s waiters) {node : Coro}
    (fresh : ¬ waiters.Holds node) (pointer : Option Coro) :
    Represents (s.link node pointer) waiters where
  awaiting_chain := by
    refine rep.awaiting_chain.write_of_notMem ?_ pointer
    intro member
    exact fresh ⟨_, List.mem_reverse.mp member⟩
  toResume_chain :=
    rep.toResume_chain.write_of_notMem (fun member => fresh ⟨_, member⟩) pointer
  held_queue notifier :=
    (rep.held_queue notifier).write_of_notMem
      (fun member => fresh ⟨_, member⟩) pointer
  unnotified := rep.unnotified
  notified_le_one := rep.notified_le_one
  notified_waiting := rep.notified_waiting
  tail := rep.tail

/-- The successful exchange of `wait` puts the waiter on the stack. -/
theorem pushAwaiting (rep : Represents s waiters) {coro : Coro}
    (notWaiting : s.pc coro ≠ .waiting) (linked : s.next coro = s.awaiting)
    (empty : waiters.queue (.held coro) = []) :
    Represents { s.setPc coro .waiting with awaiting := some coro }
      (waiters.enqueue .awaiting coro
        (rep.fresh_of_not_waiting notWaiting)) where
  awaiting_chain := by
    simp only [Placement.queue_enqueue, Function.update_self,
      List.reverse_append, List.reverse_singleton, List.singleton_append]
    exact ⟨rfl, linked ▸ rep.awaiting_chain⟩
  toResume_chain := by simpa using rep.toResume_chain
  held_queue := by
    intro notifier
    by_cases same : notifier = coro
    · subst notifier
      simpa [HeldQueue] using empty
    · simpa [same] using rep.held_queue notifier
  unnotified := by
    intro waiter holds
    have old := rep.unnotified waiter
    have notNotified := rep.notified_waiting waiter
    rw [Placement.holds_enqueue] at holds
    simp only [State.Unnotified, State.setPc] at old ⊢
    grind
  notified_le_one := rep.notified_le_one
  notified_waiting := by
    intro waiter isNotified
    have isWaiting := rep.notified_waiting waiter isNotified
    simp only [State.setPc]
    grind
  tail := by
    intro notNull
    obtain ⟨tail, tailEq, lastOrLost⟩ := rep.tail notNull
    refine ⟨tail, tailEq, ?_⟩
    rcases lastOrLost with isLast | ⟨isUnnotified, isLost⟩
    · exact Or.inl (by simpa using isLast)
    · refine Or.inr ⟨?_, ?_⟩
      · simp only [State.Unnotified, State.setPc] at isUnnotified ⊢
        grind
      · rw [Placement.holds_enqueue]
        rintro (isHeld | rfl)
        · exact isLost isHeld
        · exact notWaiting isUnnotified.1

/-- A step of a notification call moves waiters between the lists and its
private queue and rewrites pointers accordingly. -/
theorem transfer (rep : Represents s waiters) {s' : State Coro}
    {waiters' : Waiters Coro} {coro : Coro} {pc : Pc Coro}
    (notWaiting : s.pc coro ≠ .waiting)
    (pcEq : s'.pc = Function.update s.pc coro pc)
    (notifiedEq : s'.notified = s.notified)
    (within : ∀ waiter, waiters'.Holds waiter → waiters.Holds waiter)
    (awaitingChain : Chain s'.next s'.awaiting
      (waiters'.queue .awaiting).reverse)
    (resumeChain : Chain s'.next s'.toResumeHead (waiters'.queue .toResume))
    (held : HeldQueue s'.next (waiters'.queue (.held coro)) pc)
    (others : ∀ notifier, notifier ≠ coro →
      HeldQueue s'.next (waiters'.queue (.held notifier)) (s.pc notifier))
    (tail : TailPointer s' waiters') : Represents s' waiters' where
  awaiting_chain := awaitingChain
  toResume_chain := resumeChain
  held_queue := by
    intro notifier
    rw [pcEq]
    by_cases same : notifier = coro
    · subst notifier
      simpa using held
    · simpa [same] using others notifier same
  unnotified := by
    intro waiter holds
    have old := rep.unnotified waiter (within waiter holds)
    simp only [State.Unnotified, pcEq, notifiedEq] at old ⊢
    grind
  notified_le_one := by
    rw [notifiedEq]
    exact rep.notified_le_one
  notified_waiting := by
    intro waiter isNotified
    rw [notifiedEq] at isNotified
    have isWaiting := rep.notified_waiting waiter isNotified
    rw [pcEq]
    grind
  tail := tail

/-- `notify_one` takes the first waiter of `to_resume`. -/
theorem popResume (rep : Represents s waiters) {coro head : Coro}
    (position : s.pc coro = .oneTakeResume)
    (resumeList : s.toResumeHead = some head) :
    ∃ waiters', Represents
        { s.setPc coro (.oneNotify head) with toResumeHead := s.next head }
        waiters' ∧ (∀ waiter, waiters.Holds waiter → waiters'.Holds waiter) ∧
      Frame s coro waiters waiters' := by
  have empty : waiters.queue (.held coro) = [] := by
    have held := rep.held_queue coro
    rwa [position] at held
  have resumeChain := rep.toResume_chain
  rw [resumeList] at resumeChain
  obtain ⟨rest, queueEq, restChain⟩ := resumeChain.exists_cons
  have perm : (rest ++ [head]).Perm
      (waiters.queue .toResume ++ waiters.queue (.held coro)) := by
    rw [queueEq, empty, List.append_nil]
    exact List.perm_append_singleton head rest
  refine ⟨waiters.rearrange .toResume (.held coro) (by simp) rest [head] perm,
    ?_, fun _ => Placement.holds_rearrange.mpr, ?_, ?_⟩
  · refine rep.transfer (by simp [position]) rfl rfl
      (fun _ => Placement.holds_rearrange.mp) ?_ ?_ ?_ ?_ ?_
    · simpa using rep.awaiting_chain
    · simpa using restChain
    · simp [HeldQueue]
    · intro notifier other
      simpa [other] using rep.held_queue notifier
    · intro notNull
      obtain ⟨tail, tailEq, lastOrLost⟩ := rep.tail (by simp [resumeList])
      refine ⟨tail, tailEq, ?_⟩
      rcases lastOrLost with ⟨front, frontEq⟩ | ⟨isUnnotified, isLost⟩
      · left
        cases front with
        | nil =>
            rw [frontEq, List.nil_append, List.cons.injEq] at queueEq
            rw [← queueEq.2] at restChain
            exact absurd restChain notNull
        | cons first front =>
            rw [frontEq, List.cons_append, List.cons.injEq] at queueEq
            exact ⟨front, by simp [← queueEq.2]⟩
      · right
        rw [Placement.holds_rearrange]
        refine ⟨?_, isLost⟩
        exact (unnotified_setPc (by simp [position]) (by simp)).mpr
          isUnnotified
  · exact Or.inl (by simp)
  · intro notifier other
    simp [other]

/-- A notification call detaches the whole stack `awaiting`. -/
theorem detachAwaiting (rep : Represents s waiters) {coro : Coro}
    {pc : Pc Coro} (detaches : s.Detaches coro) (stays : pc ≠ .waiting)
    (empty : waiters.queue (.held coro) = []) {queue : List Coro}
    (perm : queue.Perm (waiters.queue .awaiting))
    (held : HeldQueue s.next queue pc) :
    ∃ waiters', Represents { s.setPc coro pc with awaiting := none }
        waiters' ∧ (∀ waiter, waiters.Holds waiter → waiters'.Holds waiter) ∧
      Frame s coro waiters waiters' := by
  have notWaiting : s.pc coro ≠ .waiting := by
    rcases detaches with isExchange | isExchange <;> simp [isExchange]
  have moved : ([] ++ queue).Perm
      (waiters.queue .awaiting ++ waiters.queue (.held coro)) := by
    simpa [empty] using perm
  refine ⟨waiters.rearrange .awaiting (.held coro) (by simp) [] queue moved,
    ?_, fun _ => Placement.holds_rearrange.mpr, ?_, ?_⟩
  · refine rep.transfer notWaiting rfl rfl
      (fun _ => Placement.holds_rearrange.mp) ?_ ?_ ?_ ?_ ?_
    · simp
    · simpa using rep.toResume_chain
    · simpa using held
    · intro notifier other
      simpa [other] using rep.held_queue notifier
    · intro notNull
      obtain ⟨tail, tailEq, lastOrLost⟩ := rep.tail notNull
      refine ⟨tail, tailEq, ?_⟩
      rcases lastOrLost with isLast | ⟨isUnnotified, isLost⟩
      · exact Or.inl (by simpa using isLast)
      · right
        rw [Placement.holds_rearrange]
        exact ⟨(unnotified_setPc notWaiting stays).mpr isUnnotified, isLost⟩
  · exact Or.inr (Or.inr ⟨detaches, by simp⟩)
  · intro notifier other
    simp [other]

/-- `notify_all` takes the whole list `to_resume`. -/
theorem takeAllResume (rep : Represents s waiters) {coro : Coro}
    (position : s.pc coro = .allTakeResume) :
    ∃ waiters', Represents
        { s.setPc coro (.allNotify s.toResumeHead true) with
          toResumeHead := none } waiters' ∧
      (∀ waiter, waiters.Holds waiter → waiters'.Holds waiter) ∧
      Frame s coro waiters waiters' := by
  have empty : waiters.queue (.held coro) = [] := by
    have held := rep.held_queue coro
    rwa [position] at held
  have moved : ([] ++ waiters.queue .toResume).Perm
      (waiters.queue .toResume ++ waiters.queue (.held coro)) := by
    simp [empty]
  refine ⟨waiters.rearrange .toResume (.held coro) (by simp) []
    (waiters.queue .toResume) moved, ?_,
    fun _ => Placement.holds_rearrange.mpr, ?_, ?_⟩
  · refine rep.transfer (by simp [position]) rfl rfl
      (fun _ => Placement.holds_rearrange.mp) ?_ ?_ ?_ ?_ ?_
    · simpa using rep.awaiting_chain
    · simp
    · simpa [HeldQueue] using rep.toResume_chain
    · intro notifier other
      simpa [other] using rep.held_queue notifier
    · intro notNull
      exact absurd rfl notNull
  · exact Or.inl (by simp)
  · intro notifier other
    simp [other]

/-- One iteration of the reversal loop keeps the private queue. -/
theorem reverseNode (rep : Represents s waiters) {coro tail head : Coro}
    {succ pred : Option Coro}
    (position : s.pc coro = .oneReverse tail head succ pred) :
    Represents (s.reverseNode coro tail head succ pred) waiters := by
  have held := rep.held_queue coro
  rw [position] at held
  obtain ⟨rest, done, queueEq, restChain, doneChain, nextEq, front, tailEq⟩ :=
    held
  have notWaiting : s.pc coro ≠ .waiting := by simp [position]
  cases pred with
  | none =>
      obtain rfl : rest = [] := Chain.null_iff.mp restChain
      refine rep.setPc notWaiting (by simp) ?_
      exact ⟨done, by simpa using queueEq, doneChain, nextEq, front, tailEq⟩
  | some node =>
      obtain ⟨rest', rfl, restChain'⟩ := restChain.exists_cons
      have nodup := waiters.nodup (.held coro)
      rw [queueEq] at nodup
      have notRest : head ∉ node :: rest' := by
        intro member
        have := (List.nodup_append'.mp nodup).2.2
        exact this (List.mem_reverse.mpr member) List.mem_cons_self
      have notDone : head ∉ done :=
        (List.nodup_cons.mp (List.nodup_append'.mp nodup).2.1).1
      have headHeld : head ∈ waiters.queue (.held coro) := by
        simp [queueEq]
      have elsewhere : ∀ place, place ≠ .held coro →
          head ∉ waiters.queue place :=
        fun place other member => other (waiters.disjoint member headHeld)
      have nextNode : (s.link head succ).next node = s.next node := by
        have distinct : node ≠ head := fun same => notRest (by simp [same])
        simp [distinct]
      simp only [List.mem_cons, not_or] at notRest
      simp only [State.reverseNode, nextNode]
      refine rep.transfer notWaiting rfl rfl (fun _ => id) ?_ ?_ ?_ ?_ ?_
      · exact rep.awaiting_chain.write_of_notMem
          (by simpa using elsewhere .awaiting (by simp)) succ
      · exact rep.toResume_chain.write_of_notMem
          (elsewhere .toResume (by simp)) succ
      · refine ⟨rest', head :: done, by simp [queueEq],
          restChain'.write_of_notMem notRest.2 succ, doneChain.push notDone,
          nextNode, node :: front, by simp [tailEq]⟩
      · intro notifier other
        exact (rep.held_queue notifier).write_of_notMem
          (elsewhere _ (by simp [other])) succ
      · intro notNull
        obtain ⟨last, lastEq, lastOrLost⟩ := rep.tail notNull
        refine ⟨last, lastEq, lastOrLost.imp_right fun lost => ⟨?_, lost.2⟩⟩
        exact (unnotified_setPc notWaiting (by simp)).mpr lost.1

/-- The reversed list behind its head becomes the list `to_resume`. -/
theorem spliceEmpty (rep : Represents s waiters) {coro tail head : Coro}
    {succ : Option Coro} (position : s.pc coro = .oneSplice tail head succ)
    (noResume : s.toResumeHead = none) :
    ∃ waiters', Represents
        { s.setPc coro (.oneNotify head) with
          toResumeHead := succ
          toResumeTail := some tail } waiters' ∧
      (∀ waiter, waiters.Holds waiter → waiters'.Holds waiter) ∧
      Frame s coro waiters waiters' := by
  have held := rep.held_queue coro
  rw [position] at held
  obtain ⟨done, queueEq, doneChain, nextEq, front, tailEq⟩ := held
  have resumeEmpty : waiters.queue .toResume = [] := by
    have chain := rep.toResume_chain
    rwa [noResume, Chain.null_iff] at chain
  have perm : ([head] ++ done).Perm
      (waiters.queue (.held coro) ++ waiters.queue .toResume) := by
    simp [queueEq, resumeEmpty]
  refine ⟨waiters.rearrange (.held coro) .toResume (by simp) [head] done perm,
    ?_, fun _ => Placement.holds_rearrange.mpr, ?_, ?_⟩
  · refine rep.transfer (by simp [position]) rfl rfl
      (fun _ => Placement.holds_rearrange.mp) ?_ ?_ ?_ ?_ ?_
    · simpa using rep.awaiting_chain
    · simpa using doneChain
    · simp [HeldQueue]
    · intro notifier other
      simpa [other] using rep.held_queue notifier
    · intro notNull
      refine ⟨tail, rfl, Or.inl ?_⟩
      cases front with
      | nil =>
          rw [List.nil_append, List.cons.injEq] at tailEq
          rw [tailEq.2] at doneChain
          exact absurd doneChain notNull
      | cons first front =>
          rw [List.cons_append, List.cons.injEq] at tailEq
          exact ⟨front, by simp [tailEq.2]⟩
  · exact Or.inl (by simp)
  · intro notifier other
    simp [other]

/-- Writing the next field of the old tail of `to_resume` links `kept` out of
the reversed list behind it; the rest of the reversed list is dropped. -/
theorem append (rep : Represents s waiters) {coro tail head toNotify last : Coro}
    {succ : Option Coro} {rest kept : List Coro}
    (position : s.pc coro = .oneSplice tail head succ)
    (resumeEq : waiters.queue .toResume = toNotify :: rest)
    (within : kept.Sublist (waiters.queue (.held coro)))
    (isolated : ∀ place, place ≠ .toResume → last ∉ waiters.queue place)
    (chain : Chain (s.link last (some head)).next
      ((s.link last (some head)).next toNotify) (rest ++ kept))
    (lastOrDropped : (∃ front, rest ++ kept = front ++ [tail]) ∨
      (tail ∈ waiters.queue (.held coro) ∧ tail ∉ kept)) :
    ∃ waiters', Represents
        { (s.link last (some head)).setPc coro (.oneNotify toNotify) with
          toResumeHead := (s.link last (some head)).next toNotify
          toResumeTail := some tail } waiters' ∧
      (∀ waiter, waiters.Holds waiter →
        (waiter ∈ waiters.queue (.held coro) → waiter ∈ kept) →
          waiters'.Holds waiter) ∧
      Frame s coro waiters waiters' := by
  have notWaiting : s.pc coro ≠ .waiting := by simp [position]
  let shortened := waiters.keep (.held coro) kept within
  have perm : ([toNotify] ++ (rest ++ kept)).Perm
      (shortened.queue (.held coro) ++ shortened.queue .toResume) := by
    have swapped : (kept ++ toNotify :: rest).Perm (toNotify :: rest ++ kept) :=
      List.perm_append_comm
    simpa [shortened, resumeEq] using swapped.symm
  have holdsIff : ∀ waiter, (shortened.rearrange (.held coro) .toResume
      (by simp) [toNotify] (rest ++ kept) perm).Holds waiter ↔
        waiters.Holds waiter ∧
          (waiter ∈ waiters.queue (.held coro) → waiter ∈ kept) := by
    intro waiter
    rw [Placement.holds_rearrange, Placement.holds_keep]
  refine ⟨_, ?_, fun waiter holds isKept => (holdsIff waiter).mpr ⟨holds, isKept⟩,
    ?_, ?_⟩
  · refine rep.transfer notWaiting rfl rfl
      (fun waiter holds => ((holdsIff waiter).mp holds).1) ?_ ?_ ?_ ?_ ?_
    · have awaitingChain := rep.awaiting_chain.write_of_notMem
        (by simpa using isolated .awaiting (by simp)) (some head)
      simpa [shortened] using awaitingChain
    · simpa [shortened] using chain
    · simp [HeldQueue]
    · intro notifier other
      have held := (rep.held_queue notifier).write_of_notMem
        (isolated (.held notifier) (by simp)) (some head)
      simpa [shortened, other] using held
    · intro notNull
      refine ⟨tail, rfl, lastOrDropped.imp ?_ ?_⟩
      · intro isLast
        simpa [shortened] using isLast
      · rintro ⟨isHeld, isDropped⟩
        refine ⟨?_, fun holds => isDropped (((holdsIff tail).mp holds).2 isHeld)⟩
        exact (unnotified_setPc notWaiting (by simp)).mpr
          (rep.unnotified tail ⟨_, isHeld⟩)
  · exact Or.inl (by simp [shortened])
  · intro notifier other
    simp [shortened, other]

/-- The head of a reversed list behind the old tail of `to_resume`. -/
theorem append_chain (rep : Represents s waiters) {coro head toNotify last : Coro}
    {rest before : List Coro} (isHead : s.toResumeHead = some toNotify)
    (queueEq : waiters.queue .toResume = toNotify :: rest)
    (beforeEq : waiters.queue .toResume = before ++ [last])
    (isHeld : head ∈ waiters.queue (.held coro)) (nextEq : s.next head = none) :
    Chain (s.link last (some head)).next
      ((s.link last (some head)).next toNotify) (rest ++ [head]) := by
  have resumeChain := rep.toResume_chain
  rw [isHead, beforeEq] at resumeChain
  have lastResume : last ∈ waiters.queue .toResume := by simp [beforeEq]
  have notHead : last ≠ head := by
    rintro rfl
    cases waiters.disjoint lastResume isHeld
  have notBefore : last ∉ before := by
    have nodup := waiters.nodup .toResume
    rw [beforeEq] at nodup
    intro member
    exact (List.nodup_append'.mp nodup).2.2 member (by simp)
  have linked := resumeChain.link_last
    (Chain.cons_iff.mpr ⟨rfl, nextEq⟩ : Chain s.next (some head) [head])
    notBefore (by simpa using notHead)
  have regrouped : before ++ last :: [head] = toNotify :: (rest ++ [head]) := by
    rw [← List.cons_append, ← queueEq, beforeEq]
    simp
  rw [regrouped] at linked
  exact linked.2

/-- The second section of `notify_one` keeps a representation, and loses no
waiter unless it appends a list of more than one waiter. -/
theorem splice (rep : Represents s waiters) {coro tail head : Coro}
    {succ : Option Coro} (position : s.pc coro = .oneSplice tail head succ) :
    ∃ waiters', Represents (s.splice coro tail head succ) waiters' ∧
      (s.toResumeHead = none ∨ succ = none → Covers s waiters →
        ∀ waiter, waiters.Holds waiter → waiters'.Holds waiter) ∧
      Frame s coro waiters waiters' := by
  cases resumeList : s.toResumeHead with
  | none =>
      obtain ⟨waiters', rep', kept, frame⟩ :=
        rep.spliceEmpty position resumeList
      exact ⟨waiters', by simpa [State.splice, resumeList] using rep',
        fun _ _ => kept, frame⟩
  | some toNotify =>
      have resumeChain := rep.toResume_chain
      rw [resumeList] at resumeChain
      obtain ⟨rest, resumeEq, restChain⟩ := resumeChain.exists_cons
      obtain ⟨last, lastEq, lastOrLost⟩ := rep.tail (by simp [resumeList])
      have held := rep.held_queue coro
      rw [position] at held
      obtain ⟨done, heldEq, doneChain, nextEq, front, tailEq⟩ := held
      have headHeld : head ∈ waiters.queue (.held coro) := by simp [heldEq]
      have notDone : head ∉ done := by
        have nodup := waiters.nodup (.held coro)
        rw [heldEq, List.nodup_cons] at nodup
        exact nodup.1
      simp only [State.splice, resumeList, lastEq]
      rcases lastOrLost with ⟨before, beforeEq⟩ | ⟨isUnnotified, isLost⟩
      · have lastResume : last ∈ waiters.queue .toResume := by simp [beforeEq]
        have chain :=
          rep.append_chain resumeList resumeEq beforeEq headHeld nextEq
        obtain ⟨waiters', rep', kept, frame⟩ := rep.append position resumeEq
          (by simp [heldEq])
          (fun place other member => other (waiters.disjoint member lastResume))
          chain (by
            cases front with
            | nil =>
                rw [List.nil_append, List.cons.injEq] at tailEq
                exact Or.inl ⟨rest, by rw [tailEq.1]⟩
            | cons first front =>
                rw [List.cons_append, List.cons.injEq] at tailEq
                have inDone : tail ∈ done := by simp [tailEq.2]
                refine Or.inr ⟨by simp [heldEq, inDone], ?_⟩
                rw [List.mem_singleton]
                rintro rfl
                exact notDone inDone)
        refine ⟨waiters', rep', ?_, frame⟩
        rintro (isNull | rfl) - waiter holds
        · cases isNull
        · rw [Chain.null_iff] at doneChain
          exact kept waiter holds (by simp [heldEq, doneChain])
      · have notNotify : toNotify ≠ last := by
          rintro rfl
          exact isLost ⟨.toResume, by simp [resumeEq]⟩
        have chain : Chain (s.link last (some head)).next
            ((s.link last (some head)).next toNotify) (rest ++ []) := by
          have notRest : last ∉ rest := by
            intro member
            exact isLost ⟨.toResume, by simp [resumeEq, member]⟩
          simpa [notNotify] using
            restChain.write_of_notMem notRest (some head)
        obtain ⟨waiters', rep', -, frame⟩ := rep.append position resumeEq
          (List.nil_sublist _) (fun place _ member => isLost ⟨place, member⟩)
          chain (Or.inr ⟨by simp [heldEq, tailEq], List.not_mem_nil⟩)
        exact ⟨waiters', rep', fun _ covers =>
          absurd (covers last isUnnotified) isLost, frame⟩

/-- A notification call notifies the first waiter that it holds. -/
theorem notify (rep : Represents s waiters) {coro head : Coro} {pc : Pc Coro}
    {rest : List Coro} (notWaiting : s.pc coro ≠ .waiting)
    (heldEq : waiters.queue (.held coro) = head :: rest)
    (held : HeldQueue s.next rest pc) :
    ∃ waiters', Represents ((s.notify head).setPc coro pc) waiters' ∧
      (∀ waiter, waiter ≠ head → waiters.Holds waiter →
        waiters'.Holds waiter) ∧
      Frame s coro waiters waiters' := by
  have notRest : head ∉ rest := by
    have nodup := waiters.nodup (.held coro)
    rw [heldEq, List.nodup_cons] at nodup
    exact nodup.1
  have headUnnotified := rep.unnotified head ⟨.held coro, by simp [heldEq]⟩
  have holdsIff : ∀ waiter,
      (waiters.keep (.held coro) rest (by simp [heldEq])).Holds waiter ↔
        waiters.Holds waiter ∧ waiter ≠ head := by
    intro waiter
    rw [Placement.holds_keep, heldEq]
    constructor
    · rintro ⟨holds, inRest⟩
      refine ⟨holds, ?_⟩
      rintro rfl
      exact notRest (inRest List.mem_cons_self)
    · rintro ⟨holds, notHead⟩
      exact ⟨holds, fun member => by simpa [notHead] using member⟩
  refine ⟨waiters.keep (.held coro) rest (by simp [heldEq]), ?_,
    fun waiter notHead holds => (holdsIff waiter).mpr ⟨holds, notHead⟩, ?_, ?_⟩
  · refine ⟨?_, ?_, ?_, ?_, ?_, ?_, ?_⟩
    · simpa using rep.awaiting_chain
    · simpa using rep.toResume_chain
    · intro notifier
      by_cases same : notifier = coro
      · subst notifier
        simpa using held
      · simpa [same] using rep.held_queue notifier
    · intro waiter holds
      rw [holdsIff] at holds
      have old := rep.unnotified waiter holds.1
      simp only [State.Unnotified, State.notify, State.setPc] at old ⊢
      grind
    · intro waiter
      have old := rep.notified_le_one waiter
      have headZero := headUnnotified.2
      simp only [State.notify, State.setPc]
      grind
    · intro waiter isNotified
      have old := rep.notified_waiting waiter
      have headWaiting := headUnnotified.1
      simp only [State.notify, State.setPc] at isNotified ⊢
      grind
    · intro notNull
      obtain ⟨tail, tailEq, lastOrLost⟩ := rep.tail notNull
      refine ⟨tail, tailEq, ?_⟩
      rcases lastOrLost with isLast | ⟨isUnnotified, isLost⟩
      · exact Or.inl (by simpa using isLast)
      · refine Or.inr ⟨?_, fun holds => isLost ((holdsIff tail).mp holds).1⟩
        have notHead : tail ≠ head := by
          rintro rfl
          exact isLost ⟨.held coro, by simp [heldEq]⟩
        simp only [State.Unnotified, State.notify, State.setPc] at isUnnotified ⊢
        grind
  · exact Or.inl (by simp)
  · intro notifier other
    simp [other]

/-- A notified waiter is resumed. -/
theorem resume (rep : Represents s waiters) {coro : Coro}
    (isWaiting : s.pc coro = .waiting) (isNotified : 0 < s.notified coro) :
    Represents (s.resume coro) waiters := by
  have fresh : ¬ waiters.Holds coro := by
    intro holds
    have := (rep.unnotified coro holds).2
    omega
  refine ⟨rep.awaiting_chain, rep.toResume_chain, ?_, ?_, ?_, ?_, ?_⟩
  · intro notifier
    by_cases same : notifier = coro
    · subst notifier
      simpa [HeldQueue] using rep.held_nil_of_waiting isWaiting
    · simpa [same] using rep.held_queue notifier
  · intro waiter holds
    have old := rep.unnotified waiter holds
    have notCoro : waiter ≠ coro := by
      rintro rfl
      exact fresh holds
    simpa [State.Unnotified, notCoro] using old
  · intro waiter
    have old := rep.notified_le_one waiter
    simp only [State.resume]
    grind
  · intro waiter stillNotified
    have old := rep.notified_waiting waiter
    simp only [State.resume] at stillNotified ⊢
    grind
  · intro notNull
    obtain ⟨tail, tailEq, lastOrLost⟩ := rep.tail notNull
    refine ⟨tail, tailEq, lastOrLost.imp_right fun lost => ⟨?_, lost.2⟩⟩
    have notCoro : tail ≠ coro := by
      rintro rfl
      have := lost.1.2
      omega
    simpa [State.Unnotified, notCoro] using lost.1

/-- A step to a position outside `waiting` that keeps every waiter placed. -/
theorem simulates {coro : Coro} {pc : Pc Coro} {s' : State Coro}
    {lossless : Prop} (stays : pc ≠ .waiting)
    (pcEq : s'.pc = Function.update s.pc coro pc)
    (notifiedEq : s'.notified = s.notified)
    (follows : ∃ waiters', Represents s' waiters' ∧
      (∀ waiter, waiters.Holds waiter → waiters'.Holds waiter) ∧
      Frame s coro waiters waiters') :
    Simulates s waiters coro lossless s' := by
  obtain ⟨waiters', rep', kept, frame⟩ := follows
  refine ⟨waiters', rep', frame, ?_⟩
  intro _ covers waiter isUnnotified
  have old := covers waiter
  simp only [State.Unnotified, pcEq, notifiedEq] at isUnnotified old
  exact kept waiter (by grind)

theorem simulates_setPc (rep : Represents s waiters) {coro : Coro}
    {pc : Pc Coro} {lossless : Prop} (notWaiting : s.pc coro ≠ .waiting)
    (stays : pc ≠ .waiting)
    (held : HeldQueue s.next (waiters.queue (.held coro)) pc) :
    Simulates s waiters coro lossless (s.setPc coro pc) := by
  exact simulates stays rfl rfl
    ⟨waiters, rep.setPc notWaiting stays held, fun _ => id,
      .refl s coro waiters⟩

theorem simulates_waitExchange (rep : Represents s waiters) {coro : Coro}
    {oldHead : Option Coro} {lossless : Prop} {spuriousFailure : Bool}
    {s' : State Coro} (position : s.pc coro = .waitExchange oldHead)
    (stepEq : s.run coro spuriousFailure = some s') :
    Simulates s waiters coro lossless s' := by
  have notWaiting : s.pc coro ≠ .waiting := by simp [position]
  have held := rep.held_queue coro
  rw [position] at held
  have linked := rep.link (rep.fresh_of_not_waiting notWaiting) oldHead
  simp only [State.run, position] at stepEq
  by_cases succeeds : s.awaiting = oldHead ∧ spuriousFailure = false
  · rw [if_pos succeeds, Option.some.injEq] at stepEq
    subst stepEq
    have headEq : (s.link coro oldHead).next coro =
        (s.link coro oldHead).awaiting := by
      simp [succeeds.1]
    refine ⟨_, linked.pushAwaiting notWaiting headEq held, ⟨?_, ?_⟩, ?_⟩
    · exact Or.inr (Or.inl ⟨⟨oldHead, position⟩, by simp⟩)
    · intro notifier other
      simp
    · intro _ covers waiter isUnnotified
      rw [Placement.holds_enqueue]
      have old := covers waiter
      simp only [State.Unnotified, State.setPc, State.link] at isUnnotified old
      grind
  · rw [if_neg succeeds, Option.some.injEq] at stepEq
    subst stepEq
    exact simulates (by simp) rfl rfl <|
      ⟨waiters, linked.setPc notWaiting (by simp) held, fun _ => id,
        .refl s coro waiters⟩

theorem simulates_takeResume (rep : Represents s waiters) {coro : Coro}
    {lossless : Prop} (position : s.pc coro = .oneTakeResume) :
    Simulates s waiters coro lossless (s.takeResume coro) := by
  have notWaiting : s.pc coro ≠ .waiting := by simp [position]
  have held := rep.held_queue coro
  rw [position] at held
  cases resumeList : s.toResumeHead with
  | none =>
      simp only [State.takeResume, resumeList]
      have moved := rep.setPc notWaiting (by simp : Pc.oneExchange ≠ .waiting) held
      refine simulates (by simp) rfl rfl
        ⟨waiters, { moved with tail := ?_ }, fun _ => id,
          .refl s coro waiters⟩
      intro notNull
      exact absurd resumeList notNull
  | some head =>
      simp only [State.takeResume, resumeList]
      exact simulates (by simp) rfl rfl <|
        rep.popResume position resumeList

theorem simulates_detach (rep : Represents s waiters) {coro : Coro}
    {lossless : Prop} (position : s.pc coro = .oneExchange) :
    Simulates s waiters coro lossless (s.detach coro) := by
  have notWaiting : s.pc coro ≠ .waiting := by simp [position]
  have held := rep.held_queue coro
  rw [position] at held
  cases stack : s.awaiting with
  | none =>
      simp only [State.detach, stack]
      exact rep.simulates_setPc notWaiting (by simp) held
  | some head =>
      simp only [State.detach, stack]
      have chain := rep.awaiting_chain
      rw [stack] at chain
      obtain ⟨rest, queueEq, restChain⟩ := chain.exists_cons
      have reversed : HeldQueue s.next (waiters.queue .awaiting)
          (.oneReverse head head none (s.next head)) := by
        refine ⟨rest, [], ?_, restChain, rfl, rfl, [], rfl⟩
        rw [← List.reverse_reverse (waiters.queue .awaiting), queueEq]
        simp
      exact simulates (by simp) rfl rfl <|
        rep.detachAwaiting (Or.inl position) (by simp) held
          (List.Perm.refl _) reversed

theorem simulates_splice (rep : Represents s waiters) {coro tail head : Coro}
    {succ : Option Coro} (position : s.pc coro = .oneSplice tail head succ) :
    Simulates s waiters coro (s.toResumeHead = none ∨ succ = none)
      (s.splice coro tail head succ) := by
  have notWaiting : s.pc coro ≠ .waiting := by simp [position]
  obtain ⟨waiters', rep', kept, frame⟩ := rep.splice position
  refine ⟨waiters', rep', frame, ?_⟩
  intro lossless covers waiter isUnnotified
  refine kept lossless covers waiter (covers waiter ?_)
  simp only [State.splice] at isUnnotified
  split at isUnnotified
  · exact (unnotified_setPc notWaiting (by simp)).mp isUnnotified
  · split at isUnnotified <;>
      exact (unnotified_setPc notWaiting (by simp)).mp isUnnotified

theorem simulates_notify (rep : Represents s waiters) {coro head : Coro}
    {pc : Pc Coro} {rest : List Coro} {lossless : Prop}
    (notWaiting : s.pc coro ≠ .waiting) (stays : pc ≠ .waiting)
    (heldEq : waiters.queue (.held coro) = head :: rest)
    (held : HeldQueue s.next rest pc) :
    Simulates s waiters coro lossless ((s.notify head).setPc coro pc) := by
  obtain ⟨waiters', rep', kept, frame⟩ := rep.notify notWaiting heldEq held
  refine ⟨waiters', rep', frame, ?_⟩
  intro _ covers waiter isUnnotified
  have others : s.Unnotified waiter ∧ waiter ≠ head := by
    simp only [State.Unnotified, State.setPc, State.notify] at isUnnotified ⊢
    grind
  exact kept waiter others.2 (covers waiter others.1)

/-- Every step of an operation keeps a representation, and keeps every waiter
placed unless it appends a reversed list of more than one waiter. -/
theorem run (rep : Represents s waiters) {coro : Coro}
    {spuriousFailure : Bool} {s' : State Coro}
    (stepEq : s.run coro spuriousFailure = some s') :
    Simulates s waiters coro (AppendsOne s (.run coro spuriousFailure)) s' := by
  have notWaiting : s.pc coro ≠ .waiting := by
    intro isWaiting
    simp [State.run, isWaiting] at stepEq
  have held := rep.held_queue coro
  cases position : s.pc coro with
  | idle => simp [State.run, position] at stepEq
  | waiting => exact absurd position notWaiting
  | nullDereference => simp [State.run, position] at stepEq
  | waitExchange oldHead => exact rep.simulates_waitExchange position stepEq
  | waitLoad =>
      rw [position] at held
      simp only [State.run, position, Option.some.injEq] at stepEq
      subst stepEq
      exact rep.simulates_setPc notWaiting (by simp) held
  | oneTakeResume =>
      simp only [State.run, position, Option.some.injEq] at stepEq
      subst stepEq
      exact rep.simulates_takeResume position
  | oneExchange =>
      simp only [State.run, position, Option.some.injEq] at stepEq
      subst stepEq
      exact rep.simulates_detach position
  | oneReverse tail head succ pred =>
      simp only [State.run, position, Option.some.injEq] at stepEq
      subst stepEq
      have follows : ∃ waiters',
          Represents (s.reverseNode coro tail head succ pred) waiters' ∧
            (∀ waiter, waiters.Holds waiter → waiters'.Holds waiter) ∧
            Frame s coro waiters waiters' :=
        ⟨waiters, rep.reverseNode position, fun _ => id, .refl s coro waiters⟩
      cases pred with
      | none => exact simulates (by simp) rfl rfl follows
      | some node => exact simulates (by simp) rfl rfl follows
  | oneSplice tail head succ =>
      simp only [State.run, position, Option.some.injEq] at stepEq
      subst stepEq
      obtain ⟨waiters', rep', frame, covers⟩ := rep.simulates_splice position
      refine ⟨waiters', rep', frame, fun appends => covers ?_⟩
      simpa [AppendsOne, position, Pc.reversedTail] using appends
  | oneNotify head =>
      rw [position] at held
      simp only [State.run, position, Option.some.injEq] at stepEq
      subst stepEq
      exact rep.simulates_notify notWaiting (by simp) held rfl
  | allExchange =>
      rw [position] at held
      simp only [State.run, position, Option.some.injEq] at stepEq
      subst stepEq
      exact simulates (by simp) rfl rfl <|
        rep.detachAwaiting (Or.inr position) (by simp) held
          (List.reverse_perm _) rep.awaiting_chain
  | allNotify head fromToResume =>
      rw [position] at held
      cases head with
      | some head =>
          simp only [State.run, position, Option.some.injEq] at stepEq
          subst stepEq
          obtain ⟨rest, heldEq, restChain⟩ := Chain.exists_cons held
          exact rep.simulates_notify notWaiting (by simp) heldEq restChain
      | none =>
          have noHeld : waiters.queue (.held coro) = [] :=
            Chain.null_iff.mp held
          cases fromToResume <;>
            simp only [State.run, position, Option.some.injEq] at stepEq <;>
            subst stepEq <;>
            exact rep.simulates_setPc notWaiting (by simp) noHeld
  | allTakeResume =>
      simp only [State.run, position, Option.some.injEq] at stepEq
      subst stepEq
      exact simulates (by simp) rfl rfl <|
        rep.takeAllResume position

theorem step (rep : Represents s waiters) {action : Action Coro}
    {s' : State Coro} (stepEq : ConditionVariable.step s action = some s') :
    Simulates s waiters action.coro (AppendsOne s action) s' := by
  have enters : ∀ {coro : Coro} {pc : Pc Coro} {lossless : Prop},
      s.pc coro = .idle → pc ≠ .waiting →
      HeldQueue s.next [] pc →
      Simulates s waiters coro lossless (s.setPc coro pc) := by
    intro coro pc lossless isIdle stays held
    have empty := rep.held_queue coro
    rw [isIdle] at empty
    have noHeld : waiters.queue (.held coro) = [] := empty
    exact rep.simulates_setPc (by simp [isIdle]) stays (noHeld ▸ held)
  cases action with
  | wait coro =>
      simp only [ConditionVariable.step, Option.ite_none_right_eq_some,
        Option.some.injEq] at stepEq
      obtain ⟨isIdle, rfl⟩ := stepEq
      exact enters isIdle (by simp) rfl
  | notifyOne coro =>
      simp only [ConditionVariable.step, Option.ite_none_right_eq_some,
        Option.some.injEq] at stepEq
      obtain ⟨isIdle, rfl⟩ := stepEq
      exact enters isIdle (by simp) rfl
  | notifyAll coro =>
      simp only [ConditionVariable.step, Option.ite_none_right_eq_some,
        Option.some.injEq] at stepEq
      obtain ⟨isIdle, rfl⟩ := stepEq
      exact enters isIdle (by simp) rfl
  | run coro spuriousFailure => exact rep.run stepEq
  | resume coro =>
      simp only [ConditionVariable.step, Option.ite_none_right_eq_some,
        Option.some.injEq] at stepEq
      obtain ⟨⟨isWaiting, isNotified⟩, rfl⟩ := stepEq
      refine ⟨waiters, rep.resume isWaiting isNotified,
        .refl s coro waiters, ?_⟩
      intro _ covers waiter isUnnotified
      have old := covers waiter
      simp only [State.Unnotified, State.resume] at isUnnotified old
      grind

end Represents

/-- The invariant of arbitrary runs. -/
def Consistent (s : State Coro) : Prop :=
  ∃ waiters, Represents s waiters

/-- The invariant of runs that never append a reversed list of more than one
waiter. -/
def Covered (s : State Coro) : Prop :=
  ∃ waiters, Represents s waiters ∧ Covers s waiters

theorem consistent_of_reachable [DecidableEq Coro] {s : State Coro}
    (reached : (system Coro).Reachable s) : Consistent s := by
  apply reached.invariant
  · rintro state rfl
    exact ⟨_, represents_new⟩
  · rintro state action successor ⟨waiters, rep⟩ stepEq
    obtain ⟨waiters', rep', -, -⟩ := rep.step stepEq
    exact ⟨waiters', rep'⟩

theorem covered_of_reachableBy [DecidableEq Coro] {s : State Coro}
    (reached : (system Coro).ReachableBy AppendsOne s) : Covered s := by
  apply reached.invariant
  · rintro state rfl
    exact ⟨_, represents_new, covers_new⟩
  · rintro state action successor ⟨waiters, rep, covers⟩ appends stepEq
    obtain ⟨waiters', rep', -, covers'⟩ := rep.step stepEq
    exact ⟨waiters', rep', covers' appends covers⟩

end CoContext.ConditionVariable
