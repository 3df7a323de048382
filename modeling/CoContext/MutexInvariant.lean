import CoContext.Mutex
import CoContext.Placement

/-!
# The invariant of the coroutine mutex

A reachable state represents a placement of the suspended coroutines in three
queues, each in arrival order: the stack rooted in `awaiting`, the list that a
running `unlock` holds privately, and `to_resume`.  The representation names
the single owner of the lock, and the position of an unlocking owner says how
its private pointers describe the private queue.
-/

namespace CoContext.Mutex

variable {Coro : Type*}

/-- The queues of suspended coroutines. -/
inductive Place
  | awaiting
  | unlocking
  | toResume
  deriving DecidableEq

/-- Who owns the lock: nobody, a coroutine in its critical section or in
`unlock`, or a coroutine whose handle was spawned as owner. -/
inductive Owner (Coro : Type*)
  | free
  | thread (coro : Coro)
  | spawned (coro : Coro)

abbrev Waiters (Coro : Type*) := Placement Place Coro

/-- The coroutines waiting for the lock, oldest first. -/
def line (waiters : Waiters Coro) : List Coro :=
  waiters.queue .unlocking ++ waiters.queue .toResume ++
    waiters.queue .awaiting

/-- How the position of an owner describes the private queue. -/
def PrivateQueue (s : State Coro) (waiters : Waiters Coro) :
    HolderPc Coro → Prop
  | .outside | .holding | .unlockEntry | .readToResume =>
      waiters.queue .unlocking = []
  | .releaseUncontended =>
      waiters.queue .unlocking = [] ∧ waiters.queue .toResume = []
  | .exchangeAwaiting =>
      waiters.queue .unlocking = [] ∧ waiters.queue .toResume = [] ∧
        s.awaiting ≠ .lockedNoAwaiting
  | .reverse node resumeHead =>
      waiters.queue .toResume = [] ∧
        ∃ remaining done,
          waiters.queue .unlocking = remaining.reverse ++ done ∧
            Chain s.next (some node) remaining ∧ Chain s.next resumeHead done
  | .popResumeHead resumeHead =>
      (waiters.queue .unlocking = [] ∨ waiters.queue .toResume = []) ∧
        resumeHead ≠ none ∧
        Chain s.next resumeHead
          (waiters.queue .unlocking ++ waiters.queue .toResume)
  | .spawnResumeHead head => waiters.queue .unlocking = [head]
  | .assertFailed => False

/-- The constraints that the owner puts on the queues. -/
def OwnerQueues (s : State Coro) (waiters : Waiters Coro) :
    Owner Coro → Prop
  | .free => waiters.queue .unlocking = [] ∧ waiters.queue .toResume = []
  | .thread coro => PrivateQueue s waiters (s.holderPc coro)
  | .spawned _ => waiters.queue .unlocking = []

/-- The lock word, the positions of the coroutines and the ready queues agree
on the owner. -/
structure Owned (s : State Coro) (owner : Owner Coro) : Prop where
  notLocked_iff : s.awaiting = .notLocked ↔ owner = .free
  outside_iff : ∀ coro, s.holderPc coro = .outside ↔ owner ≠ .thread coro
  ready_one : ∀ coro, owner = .spawned coro → s.ready coro = 1
  ready_zero : ∀ coro, owner ≠ .spawned coro → s.ready coro = 0

/-- The awaiters that are suspended are placed or own the lock, and every
other awaiter is registered by at most one agent. -/
structure Registered (s : State Coro) (waiters : Waiters Coro)
    (owner : Owner Coro) : Prop where
  suspended_iff : ∀ coro, s.status coro = .suspended ↔
    waiters.Holds coro ∨ owner = .spawned coro
  spawned_fresh : ∀ coro, owner = .spawned coro → ¬ waiters.Holds coro
  target_registering : ∀ agent awaiter,
    (s.registerPc agent).target = some awaiter →
    s.status awaiter = .registering
  target_injective : ∀ first second awaiter,
    (s.registerPc first).target = some awaiter →
    (s.registerPc second).target = some awaiter → first = second

/-- A state of the mutex together with the placement of its waiters and its
owner. -/
structure Represents (s : State Coro) (waiters : Waiters Coro)
    (owner : Owner Coro) : Prop where
  awaiting_chain :
    Chain s.next s.awaiting.pointer (waiters.queue .awaiting).reverse
  toResume_chain : Chain s.next s.toResume (waiters.queue .toResume)
  ownerQueues : OwnerQueues s waiters owner
  owned : Owned s owner
  registered : Registered s waiters owner

theorem represents_new :
    Represents (State.new Coro) Placement.empty .free where
  awaiting_chain := rfl
  toResume_chain := rfl
  ownerQueues := ⟨rfl, rfl⟩
  owned := by constructor <;> simp [State.new]
  registered := by constructor <;> simp [State.new, RegisterPc.target]

namespace Represents

variable {s : State Coro} {waiters : Waiters Coro} {owner : Owner Coro}

theorem fresh_of_status (rep : Represents s waiters owner) {coro : Coro}
    (notSuspended : s.status coro ≠ .suspended) : ¬ waiters.Holds coro :=
  fun holds =>
    notSuspended ((rep.registered.suspended_iff coro).mpr (Or.inl holds))

theorem fresh_of_target (rep : Represents s waiters owner)
    {agent awaiter : Coro}
    (target : (s.registerPc agent).target = some awaiter) :
    ¬ waiters.Holds awaiter := by
  apply rep.fresh_of_status
  rw [rep.registered.target_registering agent awaiter target]
  simp

/-- When the lock is free nobody waits. -/
theorem line_nil_of_free (rep : Represents s waiters .free) :
    line waiters = [] := by
  have noAwaiting : waiters.queue .awaiting = [] := by
    have chain := rep.awaiting_chain
    rw [rep.owned.notLocked_iff.mpr rfl] at chain
    simpa [Word.pointer] using chain
  simp [line, rep.ownerQueues.1, rep.ownerQueues.2, noAwaiting]

theorem owner_of_holder (rep : Represents s waiters owner) {coro : Coro}
    (inside : s.holderPc coro ≠ .outside) : owner = .thread coro := by
  by_contra isOther
  exact inside ((rep.owned.outside_iff coro).mpr isOther)

theorem owner_of_ready (rep : Represents s waiters owner) {coro : Coro}
    (isReady : 0 < s.ready coro) : owner = .spawned coro := by
  by_contra isOther
  have := rep.owned.ready_zero coro isOther
  omega

variable [DecidableEq Coro]

theorem setRegister (rep : Represents s waiters owner) {agent awaiter : Coro}
    {pc : RegisterPc Coro}
    (current : (s.registerPc agent).target = some awaiter)
    (same : pc.target = some awaiter) :
    Represents
      { s with registerPc := Function.update s.registerPc agent pc }
      waiters owner where
  awaiting_chain := rep.awaiting_chain
  toResume_chain := rep.toResume_chain
  ownerQueues := by
    cases owner <;> exact rep.ownerQueues
  owned := ⟨rep.owned.1, rep.owned.2, rep.owned.3, rep.owned.4⟩
  registered := by
    obtain ⟨suspended, fresh, registering, injective⟩ := rep.registered
    refine ⟨suspended, fresh, ?_, ?_⟩
    · intro other target
      grind
    · intro first second target
      grind

theorem startRegister (rep : Represents s waiters owner) {awaiter : Coro}
    (awaiterIdle : s.status awaiter = .idle) (agent : Coro)
    (byNotifier : Bool) :
    Represents (s.startRegister agent awaiter byNotifier) waiters owner where
  awaiting_chain := rep.awaiting_chain
  toResume_chain := rep.toResume_chain
  ownerQueues := by
    cases owner <;> exact rep.ownerQueues
  owned := ⟨rep.owned.1, rep.owned.2, rep.owned.3, rep.owned.4⟩
  registered := by
    obtain ⟨suspended, fresh, registering, injective⟩ := rep.registered
    have notSuspended := suspended awaiter
    have untargeted : ∀ other,
        (s.registerPc other).target ≠ some awaiter := by
      intro other target
      simp [registering other awaiter target] at awaiterIdle
    refine ⟨?_, fresh, ?_, ?_⟩
    · intro coro
      simp only [State.startRegister]
      grind
    · intro other target
      simp only [State.startRegister]
      grind [RegisterPc.target]
    · intro first second target
      simp only [State.startRegister]
      grind [RegisterPc.target]

/-- Writing the link of an awaiter that is not queued changes no queue. -/
theorem linkAwaiter (rep : Represents s waiters owner) {awaiter : Coro}
    (fresh : ¬ waiters.Holds awaiter) (oldState : Word Coro) :
    Represents (s.linkAwaiter awaiter oldState) waiters owner := by
  have notMem : ∀ place, awaiter ∉ waiters.queue place :=
    fun place member => fresh ⟨place, member⟩
  refine ⟨?_, ?_, ?_, ?_, ?_⟩
  · exact rep.awaiting_chain.write_of_notMem (by simpa using notMem _) _
  · exact rep.toResume_chain.write_of_notMem (notMem _) _
  · have queues := rep.ownerQueues
    cases owner with
    | free => exact queues
    | spawned coro => exact queues
    | thread coro =>
        simp only [OwnerQueues, State.linkAwaiter] at queues ⊢
        cases position : s.holderPc coro with
        | reverse node resumeHead =>
            rw [position] at queues
            obtain ⟨noResume, remaining, done, queueEq, chain, doneChain⟩ :=
              queues
            have outside := notMem .unlocking
            simp only [queueEq, List.mem_append, List.mem_reverse, not_or]
              at outside
            exact ⟨noResume, remaining, done, queueEq,
              chain.write_of_notMem outside.1 _,
              doneChain.write_of_notMem outside.2 _⟩
        | popResumeHead resumeHead =>
            rw [position] at queues
            obtain ⟨oneEmpty, notNull, chain⟩ := queues
            refine ⟨oneEmpty, notNull, chain.write_of_notMem ?_ _⟩
            simpa using ⟨notMem .unlocking, notMem .toResume⟩
        | _ =>
            rw [position] at queues
            exact queues
  · exact ⟨rep.owned.1, rep.owned.2, rep.owned.3, rep.owned.4⟩
  · exact ⟨rep.registered.1, rep.registered.2, rep.registered.3,
      rep.registered.4⟩

/-- Registration of an awaiter ends by taking the free lock. -/
theorem takeLock (rep : Represents s waiters owner) {agent awaiter : Coro}
    (target : (s.registerPc agent).target = some awaiter)
    (isFree : s.awaiting = .notLocked) (byNotifier : Bool) :
    ∃ owner', Represents (s.takeLock agent awaiter byNotifier) waiters owner' := by
  obtain rfl : owner = .free := rep.owned.notLocked_iff.mp isFree
  have empty : ∀ place, waiters.queue place = [] := by
    have noLine := rep.line_nil_of_free
    simp only [line, List.append_eq_nil_iff] at noLine
    rintro (_ | _ | _) <;> simp [noLine]
  have notHeld : ∀ coro, ¬ waiters.Holds coro := by
    rintro coro ⟨place, member⟩
    simp [empty place] at member
  obtain ⟨suspended, -, registering, injective⟩ := rep.registered
  have outside := rep.owned.outside_iff
  have notReady := rep.owned.ready_zero
  cases byNotifier with
  | true =>
      refine ⟨.spawned awaiter, ?_, ?_, empty _, ⟨?_, ?_, ?_, ?_⟩,
        ⟨?_, ?_, ?_, ?_⟩⟩
      · simp [State.takeLock, State.coSpawn, empty, Word.pointer]
      · exact rep.toResume_chain
      · simp [State.takeLock, State.coSpawn]
      · intro coro
        simp [State.takeLock, State.coSpawn, outside]
      · intro coro isOwner
        simp only [State.takeLock, State.coSpawn]
        grind
      · intro coro notOwner
        simp only [State.takeLock, State.coSpawn]
        grind
      · intro coro
        simp only [State.takeLock, State.coSpawn]
        grind
      · intro coro _
        exact notHeld coro
      · intro other coro
        simp only [State.takeLock, State.coSpawn]
        grind [RegisterPc.target]
      · intro first second coro
        simp only [State.takeLock, State.coSpawn]
        grind [RegisterPc.target]
  | false =>
      refine ⟨.thread awaiter, ?_, ?_, ?_, ⟨?_, ?_, ?_, ?_⟩,
        ⟨?_, ?_, ?_, ?_⟩⟩
      · simp [State.takeLock, State.setHolder, empty, Word.pointer]
      · exact rep.toResume_chain
      · simp [OwnerQueues, State.takeLock, State.setHolder, PrivateQueue, empty]
      · simp [State.takeLock, State.setHolder]
      · intro coro
        simp only [State.takeLock, State.setHolder]
        grind
      · intro coro isOwner
        cases isOwner
      · intro coro _
        exact notReady coro (by simp)
      · intro coro
        simp only [State.takeLock, State.setHolder]
        grind
      · intro coro isOwner
        cases isOwner
      · intro other coro
        simp only [State.takeLock, State.setHolder]
        grind [RegisterPc.target]
      · intro first second coro
        simp only [State.takeLock, State.setHolder]
        grind [RegisterPc.target]

/-- Registration of a linked awaiter ends by pushing it onto the stack. -/
theorem pushAwaiter (rep : Represents s waiters owner) {agent awaiter : Coro}
    (target : (s.registerPc agent).target = some awaiter)
    (locked : s.awaiting ≠ .notLocked)
    (linked : s.next awaiter = s.awaiting.pointer) :
    Represents (s.pushAwaiter agent awaiter)
      (waiters.enqueue .awaiting awaiter (rep.fresh_of_target target))
      owner := by
  obtain ⟨suspended, fresh, registering, injective⟩ := rep.registered
  have notSpawned : owner ≠ .spawned awaiter := by
    intro isSpawned
    have isSuspended := (suspended awaiter).mpr (Or.inr isSpawned)
    simp [registering agent awaiter target] at isSuspended
  refine ⟨?_, ?_, ?_, ⟨?_, ?_, ?_, ?_⟩, ⟨?_, ?_, ?_, ?_⟩⟩
  · simpa [State.pushAwaiter, Word.pointer, linked] using rep.awaiting_chain
  · exact rep.toResume_chain
  · have queues := rep.ownerQueues
    cases owner with
    | free => exact queues
    | spawned coro => exact queues
    | thread coro =>
        simp only [OwnerQueues, State.pushAwaiter] at queues ⊢
        cases position : s.holderPc coro with
        | exchangeAwaiting =>
            rw [position] at queues
            exact ⟨queues.1, queues.2.1, by simp⟩
        | _ =>
            rw [position] at queues
            exact queues
  · have isOwned : owner ≠ .free := fun isFree =>
      locked (rep.owned.notLocked_iff.mpr isFree)
    simpa [State.pushAwaiter] using isOwned
  · exact rep.owned.outside_iff
  · exact rep.owned.ready_one
  · exact rep.owned.ready_zero
  · intro coro
    rw [Placement.holds_enqueue]
    simp only [State.pushAwaiter]
    grind
  · intro coro isSpawned
    rw [Placement.holds_enqueue]
    grind
  · intro other coro
    simp only [State.pushAwaiter]
    grind [RegisterPc.target]
  · intro first second coro
    simp only [State.pushAwaiter]
    grind [RegisterPc.target]

theorem tryLock (rep : Represents s waiters owner) (coro : Coro) :
    ∃ owner', Represents (s.tryLock coro) waiters owner' := by
  by_cases isFree : s.awaiting = .notLocked
  · obtain rfl : owner = .free := rep.owned.notLocked_iff.mp isFree
    have empty : ∀ place, waiters.queue place = [] := by
      have noLine := rep.line_nil_of_free
      simp only [line, List.append_eq_nil_iff] at noLine
      rintro (_ | _ | _) <;> simp [noLine]
    obtain ⟨suspended, -, registering, injective⟩ := rep.registered
    have outside := rep.owned.outside_iff
    rw [State.tryLock, if_pos isFree]
    refine ⟨.thread coro, ?_, rep.toResume_chain, ?_, ⟨?_, ?_, ?_, ?_⟩,
      ⟨?_, ?_, registering, injective⟩⟩
    · simp [State.setHolder, empty, Word.pointer]
    · simp [OwnerQueues, State.setHolder, PrivateQueue, empty]
    · simp
    · intro other
      simp only [State.setHolder]
      grind
    · intro other isOwner
      cases isOwner
    · intro other _
      exact rep.owned.ready_zero other (by simp)
    · intro other
      simpa [State.setHolder] using suspended other
    · intro other isOwner
      cases isOwner
  · rw [State.tryLock, if_neg isFree]
    exact ⟨owner, rep⟩

/-- An owner moves inside its critical section or `unlock`. -/
theorem setHolder {coro : Coro}
    (rep : Represents s waiters (.thread coro)) {pc : HolderPc Coro}
    (inside : pc ≠ .outside) (privateQueue : PrivateQueue s waiters pc) :
    Represents (s.setHolder coro pc) waiters (.thread coro) := by
  have outside := rep.owned.outside_iff
  refine ⟨rep.awaiting_chain, rep.toResume_chain, ?_,
    ⟨rep.owned.notLocked_iff, ?_, rep.owned.ready_one, rep.owned.ready_zero⟩,
    ⟨rep.registered.1, rep.registered.2, rep.registered.3,
      rep.registered.4⟩⟩
  · simp only [OwnerQueues, State.setHolder, Function.update_self]
    exact privateQueue
  · intro other
    simp only [State.setHolder]
    grind

/-- `unlock` found nobody waiting and releases the lock. -/
theorem release {coro : Coro} (rep : Represents s waiters (.thread coro))
    (noWaiter : s.awaiting = .lockedNoAwaiting)
    (position : s.holderPc coro = .releaseUncontended) :
    Represents { s.setHolder coro .outside with awaiting := .notLocked }
      waiters .free := by
  have queues := rep.ownerQueues
  simp only [OwnerQueues, position] at queues
  have chain := rep.awaiting_chain
  rw [noWaiter] at chain
  have outside := rep.owned.outside_iff
  refine ⟨chain, rep.toResume_chain, queues, ⟨?_, ?_, ?_, ?_⟩,
    ⟨?_, ?_, rep.registered.3, rep.registered.4⟩⟩
  · simp
  · intro other
    simp only [State.setHolder]
    grind
  · intro other isOwner
    cases isOwner
  · intro other _
    exact rep.owned.ready_zero other (by simp)
  · intro other
    simpa using rep.registered.suspended_iff other
  · intro other isOwner
    cases isOwner

/-- `unlock` detaches the whole stack of newer waiters. -/
theorem exchange {coro top : Coro} (rep : Represents s waiters (.thread coro))
    (someWaiter : s.awaiting = .awaiter top)
    (position : s.holderPc coro = .exchangeAwaiting) :
    ∃ waiters', line waiters' = line waiters ∧
      Represents
        { s.setHolder coro (.reverse top none) with
          awaiting := .lockedNoAwaiting }
        waiters' (.thread coro) := by
  have queues := rep.ownerQueues
  simp only [OwnerQueues, position] at queues
  obtain ⟨noPrivate, noResume, -⟩ := queues
  have outside := rep.owned.outside_iff
  refine ⟨waiters.rearrange .awaiting .unlocking (by simp) []
    (waiters.queue .awaiting) (by simp [noPrivate]), ?_, ?_⟩
  · simp [line, noPrivate, noResume]
  · refine ⟨by simp [Word.pointer], ?_, ?_,
      ⟨by simp, ?_, rep.owned.ready_one, rep.owned.ready_zero⟩,
      ⟨?_, ?_, rep.registered.3, rep.registered.4⟩⟩
    · simpa using rep.toResume_chain
    · simp only [OwnerQueues, State.setHolder, Function.update_self]
      refine ⟨by simpa using noResume,
        (waiters.queue .awaiting).reverse, [], by simp, ?_, rfl⟩
      simpa [someWaiter, Word.pointer] using rep.awaiting_chain
    · intro other
      simp only [State.setHolder]
      grind
    · intro other
      rw [Placement.holds_rearrange]
      exact rep.registered.suspended_iff other
    · intro other isOwner
      cases isOwner

/-- One iteration of the reversal loop keeps the private queue. -/
theorem reverse {coro node : Coro} {resumeHead : Option Coro}
    (rep : Represents s waiters (.thread coro))
    (position : s.holderPc coro = .reverse node resumeHead)
    {pc : HolderPc Coro}
    (pcEq : pc = match s.next node with
      | some tmp => .reverse tmp (some node)
      | none => .popResumeHead (some node)) :
    Represents
      (State.setHolder
        { s with next := Function.update s.next node resumeHead } coro pc)
      waiters (.thread coro) := by
  have queues := rep.ownerQueues
  simp only [OwnerQueues, position] at queues
  obtain ⟨noResume, remaining, done, queueEq, chain, doneChain⟩ := queues
  obtain ⟨rest, rfl, restChain⟩ := chain.exists_cons
  have noRepeat := waiters.nodup .unlocking
  simp only [queueEq, List.reverse_cons, List.append_assoc,
    List.cons_append, List.nil_append] at noRepeat
  have notRest : node ∉ rest := by
    intro member
    exact (List.nodup_append'.mp noRepeat).2.2
      (List.mem_reverse.mpr member) List.mem_cons_self
  have notDone : node ∉ done :=
    (List.nodup_cons.mp (List.nodup_append'.mp noRepeat).2.1).1
  obtain ⟨newRest, newDone⟩ := chain.reverse_step doneChain notRest notDone
  have inPrivate : node ∈ waiters.queue .unlocking := by simp [queueEq]
  have elsewhere : ∀ place, place ≠ .unlocking → node ∉ waiters.queue place :=
    fun place isOther member =>
      isOther (waiters.disjoint member inPrivate)
  have outside := rep.owned.outside_iff
  refine ⟨?_, ?_, ?_, ⟨rep.owned.notLocked_iff, ?_, rep.owned.ready_one,
      rep.owned.ready_zero⟩,
    ⟨rep.registered.1, rep.registered.2, rep.registered.3,
      rep.registered.4⟩⟩
  · exact rep.awaiting_chain.write_of_notMem
      (by simpa using elsewhere .awaiting (by simp)) _
  · exact rep.toResume_chain.write_of_notMem (elsewhere _ (by simp)) _
  · simp only [OwnerQueues, State.setHolder, Function.update_self]
    cases following : s.next node with
    | some tmp =>
        rw [following] at pcEq newRest
        subst pcEq
        exact ⟨noResume, rest, node :: done, by simp [queueEq], newRest,
          newDone⟩
    | none =>
        rw [following] at pcEq newRest
        subst pcEq
        obtain rfl : rest = [] := Chain.null_iff.mp newRest
        refine ⟨Or.inr noResume, by simp, ?_⟩
        simpa [queueEq, noResume] using newDone
  · intro other
    simp only [State.setHolder]
    have inside : pc ≠ .outside := by
      subst pcEq
      cases s.next node <;> simp
    grind

/-- The oldest waiter leaves the resumption list. -/
theorem popResumeHead {coro head : Coro}
    (rep : Represents s waiters (.thread coro))
    (position : s.holderPc coro = .popResumeHead (some head)) :
    ∃ waiters', line waiters' = line waiters ∧
      Represents
        { s.setHolder coro (.spawnResumeHead head) with
          toResume := s.next head }
        waiters' (.thread coro) := by
  have queues := rep.ownerQueues
  simp only [OwnerQueues, position] at queues
  obtain ⟨oneEmpty, -, chain⟩ := queues
  obtain ⟨rest, queueEq, restChain⟩ := chain.exists_cons
  have outside := rep.owned.outside_iff
  have perm : (rest ++ [head]).Perm
      (waiters.queue .toResume ++ waiters.queue .unlocking) := by
    refine (List.perm_append_singleton head rest).trans ?_
    rw [← queueEq]
    exact List.perm_append_comm
  refine ⟨waiters.rearrange .toResume .unlocking (by simp) rest [head] perm,
    ?_, ?_⟩
  · simp [line, queueEq]
  · refine ⟨?_, by simpa using restChain, ?_,
      ⟨rep.owned.notLocked_iff, ?_, rep.owned.ready_one,
        rep.owned.ready_zero⟩,
      ⟨?_, ?_, rep.registered.3, rep.registered.4⟩⟩
    · simpa using rep.awaiting_chain
    · simp [OwnerQueues, State.setHolder, PrivateQueue]
    · intro other
      simp only [State.setHolder]
      grind
    · intro other
      rw [Placement.holds_rearrange]
      exact rep.registered.suspended_iff other
    · intro other isOwner
      cases isOwner

/-- The popped waiter is spawned as the new owner. -/
theorem spawn {coro head : Coro} (rep : Represents s waiters (.thread coro))
    (position : s.holderPc coro = .spawnResumeHead head) :
    ∃ waiters', line waiters = head :: line waiters' ∧
      Represents ((s.setHolder coro .outside).coSpawn head) waiters'
        (.spawned head) := by
  have queues := rep.ownerQueues
  simp only [OwnerQueues, position, PrivateQueue] at queues
  have outside := rep.owned.outside_iff
  have notReady := rep.owned.ready_zero
  have headHeld : waiters.Holds head := ⟨.unlocking, by simp [queues]⟩
  refine ⟨waiters.keep .unlocking [] (by simp), by simp [line, queues], ?_⟩
  refine ⟨by simpa using rep.awaiting_chain, by simpa using rep.toResume_chain,
    by simp [OwnerQueues], ⟨?_, ?_, ?_, ?_⟩,
    ⟨?_, ?_, rep.registered.3, rep.registered.4⟩⟩
  · simpa [State.coSpawn, State.setHolder] using rep.owned.notLocked_iff
  · intro other
    simp only [State.coSpawn, State.setHolder]
    grind
  · intro other isSpawned
    simp only [State.coSpawn, State.setHolder]
    grind
  · intro other notSpawned
    simp only [State.coSpawn, State.setHolder]
    grind
  · intro other
    rw [Placement.holds_keep, queues]
    have suspended := rep.registered.suspended_iff other
    simp only [State.coSpawn, State.setHolder]
    grind
  · intro other isSpawned
    rw [Placement.holds_keep, queues]
    grind

/-- A worker resumes the coroutine that was spawned as owner. -/
theorem resume (rep : Represents s waiters owner) {coro : Coro}
    (isReady : 0 < s.ready coro) :
    Represents (s.resume coro) waiters (.thread coro) := by
  obtain rfl := rep.owner_of_ready isReady
  obtain ⟨suspended, fresh, registering, injective⟩ := rep.registered
  have outside := rep.owned.outside_iff
  have readyOne := rep.owned.ready_one coro rfl
  have notReady := rep.owned.ready_zero
  have isSuspended := (suspended coro).mpr (Or.inr rfl)
  refine ⟨rep.awaiting_chain, rep.toResume_chain, ?_, ⟨?_, ?_, ?_, ?_⟩,
    ⟨?_, ?_, ?_, injective⟩⟩
  · simpa [OwnerQueues, State.resume, State.setHolder, PrivateQueue] using
      rep.ownerQueues
  · simpa [State.resume, State.setHolder] using rep.owned.notLocked_iff
  · intro other
    simp only [State.resume, State.setHolder]
    grind
  · intro other isOwner
    cases isOwner
  · intro other _
    simp only [State.resume, State.setHolder]
    grind
  · intro other
    simp only [State.resume, State.setHolder]
    grind
  · intro other isOwner
    cases isOwner
  · intro agent awaiter target
    have := registering agent awaiter target
    simp only [State.resume, State.setHolder]
    grind

/-- Every step of `register_awaiting` keeps a representation; the line only
changes when the awaiter is pushed, and the lock is only taken while nobody
waits. -/
theorem runRegister (rep : Represents s waiters owner) {agent : Coro}
    {spuriousFailure : Bool} {s' : State Coro}
    (stepEq : s.runRegister agent spuriousFailure = some s') :
    ∃ waiters' owner', Represents s' waiters' owner' ∧
      FifoHistory (observe s (.runRegister agent spuriousFailure)).toList
        (line waiters) (line waiters') := by
  cases position : s.registerPc agent with
  | idle => simp [State.runRegister, position] at stepEq
  | load awaiter byNotifier =>
      simp only [State.runRegister, position, Option.some.injEq] at stepEq
      subst stepEq
      have target : (s.registerPc agent).target = some awaiter := by
        simp [position, RegisterPc.target]
      exact ⟨waiters, owner, rep.setRegister target rfl, by
        simp [observe, position]⟩
  | compareExchange awaiter byNotifier oldState =>
      have target : (s.registerPc agent).target = some awaiter := by
        simp [position, RegisterPc.target]
      simp only [State.runRegister, position] at stepEq
      by_cases wasFree : oldState = .notLocked
      · rw [if_pos wasFree] at stepEq
        by_cases succeeds : s.awaiting = oldState ∧ spuriousFailure = false
        · rw [if_pos succeeds, Option.some.injEq] at stepEq
          subst stepEq
          have isFree : s.awaiting = .notLocked := succeeds.1.trans wasFree
          obtain rfl : owner = .free := rep.owned.notLocked_iff.mp isFree
          obtain ⟨owner', rep'⟩ := rep.takeLock target isFree byNotifier
          refine ⟨waiters, owner', rep', ?_⟩
          simp [observe, position, succeeds, wasFree, FifoEvent.Changes,
            rep.line_nil_of_free]
        · rw [if_neg succeeds, Option.some.injEq] at stepEq
          subst stepEq
          exact ⟨waiters, owner, rep.setRegister target rfl, by
            simp [observe, position, succeeds]⟩
      · rw [if_neg wasFree] at stepEq
        have linked := rep.linkAwaiter (rep.fresh_of_target target) oldState
        have linkedTarget : ((s.linkAwaiter awaiter oldState).registerPc
            agent).target = some awaiter := target
        by_cases succeeds : s.awaiting = oldState ∧ spuriousFailure = false
        · rw [if_pos succeeds, Option.some.injEq] at stepEq
          subst stepEq
          have pushed := linked.pushAwaiter linkedTarget
            (by simpa [State.linkAwaiter, succeeds.1] using wasFree)
            (by simp [State.linkAwaiter, succeeds.1])
          refine ⟨_, owner, pushed, ?_⟩
          have notInLine : awaiter ∉ line waiters := by
            intro member
            simp only [line, List.mem_append] at member
            rcases member with (inUnlocking | inResume) | inAwaiting
            · exact rep.fresh_of_target target ⟨_, inUnlocking⟩
            · exact rep.fresh_of_target target ⟨_, inResume⟩
            · exact rep.fresh_of_target target ⟨_, inAwaiting⟩
          simp [observe, position, succeeds, wasFree, FifoEvent.Changes,
            notInLine]
          simp [line]
        · rw [if_neg succeeds, Option.some.injEq] at stepEq
          subst stepEq
          exact ⟨waiters, owner, linked.setRegister linkedTarget rfl, by
            simp [observe, position, succeeds]⟩

/-- Every step of `unlock` keeps a representation; the line only changes when
its first waiter is spawned as the new owner. -/
theorem runUnlock (rep : Represents s waiters owner) {coro : Coro}
    {s' : State Coro} (stepEq : s.runUnlock coro = some s') :
    ∃ waiters' owner', Represents s' waiters' owner' ∧
      FifoHistory (observe s (.runUnlock coro)).toList
        (line waiters) (line waiters') := by
  have inside : s.holderPc coro ≠ .outside := by
    intro isOutside
    simp [State.runUnlock, isOutside] at stepEq
  obtain rfl := rep.owner_of_holder inside
  have queues := rep.ownerQueues
  simp only [OwnerQueues] at queues
  have locked : s.awaiting ≠ .notLocked := by
    intro isFree
    cases rep.owned.notLocked_iff.mp isFree
  cases position : s.holderPc coro with
  | outside => exact absurd position inside
  | holding => simp [State.runUnlock, position] at stepEq
  | assertFailed => simp [State.runUnlock, position] at stepEq
  | unlockEntry =>
      rw [position] at queues
      simp only [State.runUnlock, position, if_neg locked,
        Option.some.injEq] at stepEq
      subst stepEq
      exact ⟨waiters, _, rep.setHolder (by simp) queues, by
        simp [observe, position]⟩
  | readToResume =>
      rw [position] at queues
      have chain := rep.toResume_chain
      simp only [State.runUnlock, position] at stepEq
      cases resumeList : s.toResume with
      | none =>
          simp only [resumeList, Option.some.injEq] at stepEq
          subst stepEq
          rw [resumeList, Chain.null_iff] at chain
          exact ⟨waiters, _, rep.setHolder (by simp) ⟨queues, chain⟩, by
            simp [observe, position]⟩
      | some head =>
          simp only [resumeList, Option.some.injEq] at stepEq
          subst stepEq
          rw [resumeList] at chain
          have noPrivate : waiters.queue .unlocking = [] := queues
          refine ⟨waiters, _, rep.setHolder (by simp)
            ⟨Or.inl noPrivate, by simp, ?_⟩, by simp [observe, position]⟩
          simpa [noPrivate] using chain
  | releaseUncontended =>
      rw [position] at queues
      simp only [State.runUnlock, position] at stepEq
      by_cases noWaiter : s.awaiting = .lockedNoAwaiting
      · rw [if_pos noWaiter, Option.some.injEq] at stepEq
        subst stepEq
        exact ⟨waiters, _, rep.release noWaiter position, by
          simp [observe, position]⟩
      · rw [if_neg noWaiter, Option.some.injEq] at stepEq
        subst stepEq
        exact ⟨waiters, _, rep.setHolder (by simp)
          ⟨queues.1, queues.2, noWaiter⟩, by simp [observe, position]⟩
  | exchangeAwaiting =>
      rw [position] at queues
      simp only [State.runUnlock, position] at stepEq
      cases word : s.awaiting with
      | notLocked => exact absurd word locked
      | lockedNoAwaiting => exact absurd word queues.2.2
      | awaiter top =>
          simp only [word, Option.some.injEq] at stepEq
          subst stepEq
          obtain ⟨waiters', sameLine, rep'⟩ := rep.exchange word position
          exact ⟨waiters', _, rep', by simp [observe, position, sameLine]⟩
  | reverse node resumeHead =>
      simp only [State.runUnlock, position] at stepEq
      refine ⟨waiters, .thread coro, ?_, by simp [observe, position]⟩
      cases following : s.next node with
      | none =>
          simp only [following, Option.some.injEq] at stepEq
          subst stepEq
          exact rep.reverse position (by simp [following])
      | some tmp =>
          simp only [following, Option.some.injEq] at stepEq
          subst stepEq
          exact rep.reverse position (by simp [following])
  | popResumeHead resumeHead =>
      rw [position] at queues
      obtain ⟨head, rfl⟩ := Option.ne_none_iff_exists'.mp queues.2.1
      simp only [State.runUnlock, position, Option.some.injEq] at stepEq
      subst stepEq
      obtain ⟨waiters', sameLine, rep'⟩ := rep.popResumeHead position
      exact ⟨waiters', _, rep', by simp [observe, position, sameLine]⟩
  | spawnResumeHead head =>
      simp only [State.runUnlock, position, Option.some.injEq] at stepEq
      subst stepEq
      obtain ⟨waiters', lineEq, rep'⟩ := rep.spawn position
      exact ⟨waiters', _, rep', by
        simp [observe, position, lineEq, FifoEvent.Changes]⟩

/-- Every step keeps a representation and is an admissible event of the
waiting line. -/
theorem step (rep : Represents s waiters owner) {action : Action Coro}
    {s' : State Coro} (stepEq : Mutex.step s action = some s') :
    ∃ waiters' owner', Represents s' waiters' owner' ∧
      FifoHistory (observe s action).toList (line waiters) (line waiters') := by
  cases action with
  | lock coro =>
      simp only [Mutex.step, Option.ite_none_right_eq_some,
        Option.some.injEq] at stepEq
      obtain ⟨⟨-, isIdle⟩, rfl⟩ := stepEq
      exact ⟨waiters, owner, rep.startRegister isIdle coro false, by
        simp [observe]⟩
  | registerFor notifier waiter =>
      simp only [Mutex.step, Option.ite_none_right_eq_some,
        Option.some.injEq] at stepEq
      obtain ⟨⟨-, isIdle⟩, rfl⟩ := stepEq
      exact ⟨waiters, owner, rep.startRegister isIdle notifier true, by
        simp [observe]⟩
  | tryLock coro =>
      simp only [Mutex.step, Option.some.injEq] at stepEq
      subst stepEq
      obtain ⟨owner', rep'⟩ := rep.tryLock coro
      refine ⟨waiters, owner', rep', ?_⟩
      by_cases isFree : s.awaiting = .notLocked
      · obtain rfl : owner = .free := rep.owned.notLocked_iff.mp isFree
        simp [observe, isFree, FifoEvent.Changes, rep.line_nil_of_free]
      · simp [observe, isFree]
  | unlock coro =>
      simp only [Mutex.step, Option.ite_none_right_eq_some,
        Option.some.injEq] at stepEq
      obtain ⟨isHolding, rfl⟩ := stepEq
      have inside : s.holderPc coro ≠ .outside := by simp [isHolding]
      obtain rfl := rep.owner_of_holder inside
      have queues := rep.ownerQueues
      simp only [OwnerQueues, isHolding] at queues
      exact ⟨waiters, _, rep.setHolder (by simp) queues, by simp [observe]⟩
  | runRegister agent spuriousFailure => exact rep.runRegister stepEq
  | runUnlock coro => exact rep.runUnlock stepEq
  | resume coro =>
      simp only [Mutex.step, Option.ite_none_right_eq_some,
        Option.some.injEq] at stepEq
      obtain ⟨isReady, rfl⟩ := stepEq
      exact ⟨waiters, _, rep.resume isReady, by simp [observe]⟩

end Represents

/-- The invariant of the mutex. -/
def Consistent (s : State Coro) : Prop :=
  ∃ waiters owner, Represents s waiters owner

theorem consistent_of_reachable [DecidableEq Coro] {s : State Coro}
    (reached : (system Coro).Reachable s) : Consistent s := by
  apply reached.invariant
  · rintro state rfl
    exact ⟨_, _, represents_new⟩
  · rintro state action successor ⟨waiters, owner, rep⟩ stepEq
    obtain ⟨waiters', owner', rep', -⟩ := rep.step stepEq
    exact ⟨waiters', owner', rep'⟩

end CoContext.Mutex
