import CoContext.MutexInvariant

/-!
# Safety and fairness of the coroutine mutex

Mutual exclusion, the whereabouts of every suspended coroutine and the
assertions of `unlock` follow from the representation of a reachable state;
the service order follows from the histories of its waiting line.
-/

namespace CoContext.Mutex

variable {Coro : Type*}

namespace Represents

variable {s : State Coro} {waiters : Waiters Coro} {owner : Owner Coro}

theorem owns_iff (rep : Represents s waiters owner) {coro : Coro} :
    s.Owns coro ↔ owner = .thread coro ∨ owner = .spawned coro := by
  constructor
  · rintro (inside | isReady)
    · exact Or.inl (rep.owner_of_holder inside)
    · exact Or.inr (rep.owner_of_ready isReady)
  · rintro (rfl | rfl)
    · exact Or.inl fun isOutside =>
        (rep.owned.outside_iff coro).mp isOutside rfl
    · exact Or.inr (by simp [rep.owned.ready_one coro rfl])

theorem awaitingStack_iff (rep : Represents s waiters owner) {coro : Coro} :
    s.LocatedAt coro .awaitingStack ↔ coro ∈ waiters.queue .awaiting := by
  simpa [State.LocatedAt] using rep.awaiting_chain.linkedFrom_iff

theorem toResumeList_iff (rep : Represents s waiters owner) {coro : Coro} :
    s.LocatedAt coro .toResumeList ↔ coro ∈ waiters.queue .toResume :=
  rep.toResume_chain.linkedFrom_iff

theorem handedLock_iff (rep : Represents s waiters owner) {coro : Coro} :
    s.LocatedAt coro .handedLock ↔ owner = .spawned coro := by
  constructor
  · intro isReady
    exact rep.owner_of_ready (by simp [show s.ready coro = 1 from isReady])
  · exact rep.owned.ready_one coro

theorem privateNode_iff {holder : Coro}
    (rep : Represents s waiters (.thread holder)) {coro : Coro} :
    s.PrivateNode coro (s.holderPc holder) ↔
      coro ∈ waiters.queue .unlocking := by
  have queues := rep.ownerQueues
  have resumeChain := rep.toResume_chain
  simp only [OwnerQueues] at queues
  cases position : s.holderPc holder with
  | reverse node resumeHead =>
      rw [position] at queues
      obtain ⟨-, remaining, done, queueEq, chain, doneChain⟩ := queues
      simp [State.PrivateNode, chain.linkedFrom_iff, doneChain.linkedFrom_iff,
        queueEq]
  | popResumeHead resumeHead =>
      rw [position] at queues
      obtain ⟨oneEmpty, notNull, chain⟩ := queues
      simp only [State.PrivateNode, chain.linkedFrom_iff, List.mem_append]
      rcases oneEmpty with noPrivate | noResume
      · have notNil : s.toResume ≠ none := by
          intro isNull
          rw [isNull, Chain.null_iff] at resumeChain
          simp only [noPrivate, resumeChain, List.append_nil] at chain
          exact notNull chain
        simp [notNil, noPrivate]
      · rw [noResume] at resumeChain
        simp [show s.toResume = none from resumeChain, noResume]
  | spawnResumeHead head =>
      rw [position] at queues
      simp only [PrivateQueue] at queues
      simp [State.PrivateNode, queues]
  | assertFailed =>
      rw [position] at queues
      exact queues.elim
  | releaseUncontended | exchangeAwaiting =>
      rw [position] at queues
      simp [State.PrivateNode, queues.1]
  | outside | holding | unlockEntry | readToResume =>
      rw [position] at queues
      simp only [PrivateQueue] at queues
      simp [State.PrivateNode, queues]

theorem unlockPrivate_iff (rep : Represents s waiters owner) {coro : Coro} :
    s.LocatedAt coro .unlockPrivate ↔ coro ∈ waiters.queue .unlocking := by
  constructor
  · rintro ⟨holder, isPrivate⟩
    have inside : s.holderPc holder ≠ .outside := by
      intro isOutside
      simp [isOutside, State.PrivateNode] at isPrivate
    obtain rfl := rep.owner_of_holder inside
    exact rep.privateNode_iff.mp isPrivate
  · intro member
    cases owner with
    | free =>
        rw [rep.ownerQueues.1] at member
        cases member
    | spawned other =>
        have noPrivate : waiters.queue .unlocking = [] := rep.ownerQueues
        rw [noPrivate] at member
        cases member
    | thread holder => exact ⟨holder, rep.privateNode_iff.mpr member⟩

/-- A suspended coroutine is in exactly one place. -/
theorem existsUnique_location (rep : Represents s waiters owner) {coro : Coro}
    (suspended : s.status coro = .suspended) :
    ∃! location, s.LocatedAt coro location := by
  rcases (rep.registered.suspended_iff coro).mp suspended with
    ⟨place, member⟩ | isSpawned
  · have notSpawned : owner ≠ .spawned coro := fun isSpawned =>
      rep.registered.spawned_fresh coro isSpawned ⟨place, member⟩
    have only : ∀ other, coro ∈ waiters.queue other → other = place :=
      fun other otherMember => waiters.disjoint otherMember member
    cases place with
    | awaiting =>
        refine ⟨.awaitingStack, rep.awaitingStack_iff.mpr member, ?_⟩
        rintro (_ | _ | _ | _) located
        · rfl
        · cases only _ (rep.unlockPrivate_iff.mp located)
        · cases only _ (rep.toResumeList_iff.mp located)
        · exact absurd (rep.handedLock_iff.mp located) notSpawned
    | unlocking =>
        refine ⟨.unlockPrivate, rep.unlockPrivate_iff.mpr member, ?_⟩
        rintro (_ | _ | _ | _) located
        · cases only _ (rep.awaitingStack_iff.mp located)
        · rfl
        · cases only _ (rep.toResumeList_iff.mp located)
        · exact absurd (rep.handedLock_iff.mp located) notSpawned
    | toResume =>
        refine ⟨.toResumeList, rep.toResumeList_iff.mpr member, ?_⟩
        rintro (_ | _ | _ | _) located
        · cases only _ (rep.awaitingStack_iff.mp located)
        · cases only _ (rep.unlockPrivate_iff.mp located)
        · rfl
        · exact absurd (rep.handedLock_iff.mp located) notSpawned
  · have fresh := rep.registered.spawned_fresh coro isSpawned
    refine ⟨.handedLock, rep.handedLock_iff.mpr isSpawned, ?_⟩
    rintro (_ | _ | _ | _) located
    · exact absurd ⟨_, rep.awaitingStack_iff.mp located⟩ fresh
    · exact absurd ⟨_, rep.unlockPrivate_iff.mp located⟩ fresh
    · exact absurd ⟨_, rep.toResumeList_iff.mp located⟩ fresh
    · rfl

end Represents

variable [DecidableEq Coro]

/-- In every reachable state at most one coroutine owns the lock, either on
its own thread or through one spawned handle; the word `not_locked` means that
nobody owns it and nobody waits; every suspended coroutine is in exactly one
place or was spawned once as the owner; and no assertion of `unlock` failed. -/
theorem reachable_safe {s : State Coro}
    (reached : (system Coro).Reachable s) :
    (∀ first second, s.Owns first → s.Owns second → first = second) ∧
      (∀ coro, s.ready coro ≤ 1 ∧ (0 < s.ready coro →
        s.holderPc coro = .outside ∧ s.status coro = .suspended)) ∧
      (s.awaiting = .notLocked →
        ∀ coro, ¬ s.Owns coro ∧ s.status coro ≠ .suspended) ∧
      (∀ coro, s.status coro = .suspended →
        ∃! location, s.LocatedAt coro location) ∧
      ∀ coro, s.holderPc coro ≠ .assertFailed := by
  obtain ⟨waiters, owner, rep⟩ := consistent_of_reachable reached
  refine ⟨?_, ?_, ?_, fun coro => rep.existsUnique_location, ?_⟩
  · intro first second firstOwns secondOwns
    rw [rep.owns_iff] at firstOwns secondOwns
    rcases firstOwns with rfl | rfl <;> simpa using secondOwns
  · intro coro
    by_cases isSpawned : owner = .spawned coro
    · refine ⟨Nat.le_of_eq (rep.owned.ready_one coro isSpawned), fun _ => ⟨?_, ?_⟩⟩
      · exact (rep.owned.outside_iff coro).mpr (by simp [isSpawned])
      · exact (rep.registered.suspended_iff coro).mpr (Or.inr isSpawned)
    · simp [rep.owned.ready_zero coro isSpawned]
  · intro isFree coro
    obtain rfl : owner = .free := rep.owned.notLocked_iff.mp isFree
    refine ⟨by simp [rep.owns_iff], ?_⟩
    rw [Ne, rep.registered.suspended_iff]
    rintro (⟨place, member⟩ | isSpawned)
    · have noLine := rep.line_nil_of_free
      simp only [line, List.append_eq_nil_iff] at noLine
      cases place <;> simp [noLine] at member
    · cases isSpawned
  · intro coro failed
    have inside : s.holderPc coro ≠ .outside := by simp [failed]
    obtain rfl := rep.owner_of_holder inside
    have queues := rep.ownerQueues
    rw [OwnerQueues, failed] at queues
    exact queues

/-- Coroutine 1 receives the lock from coroutine 0 while coroutine 2 waits in
`to_resume` and coroutine 3 on the stack. -/
def contendedActions : List (Action (Fin 4)) :=
  [.lock 0, .runRegister 0 false, .runRegister 0 false,
    .lock 1, .runRegister 1 false, .runRegister 1 true, .runRegister 1 false,
    .lock 2, .runRegister 2 false, .runRegister 2 false,
    .unlock 0, .runUnlock 0, .runUnlock 0, .runUnlock 0, .runUnlock 0,
    .lock 3, .runRegister 3 false, .runRegister 3 false,
    .runUnlock 0, .runUnlock 0, .runUnlock 0, .runUnlock 0]

theorem contendedActions_enabled :
    ((system (Fin 4)).exec (State.new (Fin 4)) contendedActions).isSome := by
  decide

theorem reachable_safe_contended :
    ∃ s, (system (Fin 4)).exec (State.new (Fin 4)) contendedActions = some s ∧
      s.status 2 = .suspended ∧ ∃! location, s.LocatedAt 2 location := by
  obtain ⟨s, execEq⟩ := Option.isSome_iff_exists.mp contendedActions_enabled
  have waiting : ((system (Fin 4)).exec (State.new (Fin 4))
      contendedActions).map (fun s => s.status 2) = some .suspended := by
    decide
  rw [execEq, Option.map_some, Option.some.injEq] at waiting
  have reached : (system (Fin 4)).Reachable s :=
    TransitionSystem.Reachable.exec (.start rfl) execEq
  exact ⟨s, execEq, waiting, (reachable_safe reached).2.2.2.1 2 waiting⟩

/-- The waiters of a mutex are a first-in first-out line. -/
theorem fifoSimulation :
    (system Coro).FifoSimulation observe fun s clients =>
      ∃ waiters owner, Represents s waiters owner ∧ line waiters = clients where
  base := by
    rintro state rfl
    exact ⟨_, _, represents_new, rfl⟩
  step := by
    rintro state _ action successor ⟨waiters, owner, rep, rfl⟩ stepEq
    obtain ⟨waiters', owner', rep', history⟩ := rep.step stepEq
    exact ⟨_, ⟨waiters', owner', rep', rfl⟩, history⟩

/-- In every run, waiters receive the lock in the order of their pushes, and
from its push until it receives the lock no waiter is passed by an acquisition
that does not wait or by a waiter pushed later. -/
theorem run_first_in_first_out (run : (system Coro).Run) {now : Nat}
    (nowLe : now ≤ run.length) :
    ((run.log observe 0 now).filterMap FifoEvent.service? <+:
      (run.log observe 0 now).filterMap FifoEvent.arrival?) ∧
    ∀ push waiter, push < now →
      observe (run.state push) (run.action push) = some (.enqueued waiter) →
      (∀ time, push < time → time < now →
        observe (run.state time) (run.action time) ≠ some (.served waiter)) →
      (∀ time other, push < time → time < now →
        observe (run.state time) (run.action time) ≠
          some (.bypassed other)) ∧
      ∀ later time other, push < later → later < time → time < now →
        observe (run.state later) (run.action later) =
          some (.enqueued other) →
        observe (run.state time) (run.action time) ≠ some (.served other) :=
  ⟨fifoSimulation.services_prefix run nowLe,
    fun _ _ pushLt pushes waits =>
      fifoSimulation.no_overtaking run pushLt nowLe pushes waits⟩

/-- The run of `contendedActions`. -/
def contendedRun : (system (Fin 4)).Run :=
  .ofActions (State.new (Fin 4)) rfl contendedActions contendedActions_enabled

theorem run_first_in_first_out_contended :
    (contendedRun.log observe 0 22).filterMap FifoEvent.service? <+:
      (contendedRun.log observe 0 22).filterMap FifoEvent.arrival? :=
  (run_first_in_first_out contendedRun (Nat.le_refl 22)).1

end CoContext.Mutex
