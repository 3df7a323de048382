import CoContext.Channel
import Mathlib.Data.List.Range

/-!
# A buffered channel is a bounded queue

In every state the storage holds a queue of elements.  The owner of `m_mtx`
updates it only when its own condition does not block it, so the elements put
in are the elements taken out followed by the elements that are held.
-/

namespace CoContext.Channel

variable {Coro T Buffer : Type*} {storage : Storage T Buffer}

namespace Storage

theorem room_of_not_full {buffer : Buffer} {items : List T}
    (holds : storage.Holds buffer items)
    (notFull : storage.full buffer = false) :
    items.length < storage.capacity := by
  apply Nat.lt_of_le_of_ne (storage.length_le holds)
  intro isFull
  rw [(storage.full_iff holds).mpr isFull] at notFull
  contradiction

theorem exists_cons_of_not_empty {buffer : Buffer} {items : List T}
    (holds : storage.Holds buffer items)
    (notEmpty : storage.empty buffer = false) :
    ∃ item kept, items = item :: kept := by
  apply List.exists_cons_of_ne_nil
  intro isNil
  rw [(storage.empty_iff holds).mpr isNil] at notEmpty
  contradiction

/-- What the update of an operation that is not blocked does: it puts an
element in or takes one out. -/
theorem apply_holds {buffer : Buffer} {items : List T}
    {operation : Operation T} (holds : storage.Holds buffer items)
    (unblocked : storage.blocked buffer operation = false) :
    ∃ carried rest kept,
      storage.apply buffer operation = some (carried, rest) ∧
      storage.Holds rest kept ∧ storage.SlotReady buffer operation ∧
      (storage.takenBy buffer operation).isSome = (putBy operation).isNone ∧
      items ++ (putBy operation).toList =
        (storage.takenBy buffer operation).toList ++ kept := by
  cases operation with
  | release item =>
      have room := room_of_not_full holds unblocked
      obtain ⟨rest, stored, restHolds⟩ := storage.put_holds holds room item
      refine ⟨none, rest, items ++ [item], ?_, restHolds,
        storage.back_eq holds room, rfl, rfl⟩
      rw [apply, stored]
      rfl
  | acquire =>
      obtain ⟨item, kept, rfl⟩ := exists_cons_of_not_empty holds unblocked
      obtain ⟨rest, taken, restHolds⟩ := storage.take_holds holds
      have takenEq : storage.takenBy buffer .acquire = some item := by
        rw [takenBy, taken]
        rfl
      refine ⟨some item, rest, kept, ?_, restHolds, ?_, ?_, ?_⟩
      · rw [apply, taken]
        rfl
      · rw [SlotReady, storage.front_eq holds]
        rfl
      · rw [takenEq]
        rfl
      · rw [takenEq]
        simp [putBy]
  | drop =>
      obtain ⟨item, kept, rfl⟩ := exists_cons_of_not_empty holds unblocked
      obtain ⟨rest, discarded, restHolds⟩ := storage.discard_holds holds
      have takenEq : storage.takenBy buffer .drop = some item := by
        rw [takenBy, storage.front_eq holds]
      refine ⟨none, rest, kept, ?_, restHolds, ?_, ?_, ?_⟩
      · rw [apply, discarded]
        rfl
      · rw [SlotReady, storage.front_eq holds]
        rfl
      · rw [takenEq]
        rfl
      · rw [takenEq]
        simp [putBy]

end Storage

/-- What holds in every state, with the elements that are held. -/
structure Consistent (storage : Storage T Buffer) (s : State Coro T Buffer)
    (items : List T) : Prop where
  holds : storage.Holds s.buffer items
  owner : ∀ coro, (s.pc coro).Holding → s.holder = some coro
  unblocked : ∀ coro operation, s.pc coro = .update operation →
    storage.blocked s.buffer operation = false
  defined : ∀ coro, s.pc coro ≠ .undefined

theorem consistent_new : Consistent storage (State.new Coro storage) [] where
  holds := storage.new_holds
  owner _ holding := holding.elim
  unblocked _ _ position := by simp [State.new] at position
  defined _ := by simp [State.new]

variable [DecidableEq Coro]

/-- Only an update changes the storage. -/
theorem buffer_of_updates_none {s s' : State Coro T Buffer}
    {action : Action Coro T} (stepEq : step storage s action = some s')
    (notUpdate : updates s action = none) : s'.buffer = s.buffer := by
  cases action with
  | call coro operation =>
      simp only [step] at stepEq
      split at stepEq
      · rw [Option.some.injEq] at stepEq
        subst stepEq
        rfl
      · contradiction
  | run coro =>
      cases position : s.pc coro with
      | idle | undefined => simp [step, State.run, position] at stepEq
      | lock operation | sleeping operation =>
          simp only [step, State.run, position, State.lockTo,
            Option.ite_none_right_eq_some, Option.some.injEq] at stepEq
          obtain ⟨-, rfl⟩ := stepEq
          rfl
      | check operation | testPred operation =>
          simp only [step, State.run, position] at stepEq
          split at stepEq <;> rw [Option.some.injEq] at stepEq <;>
            subst stepEq <;> rfl
      | update operation => simp [updates, position] at notUpdate
      | unlock operation carried | notify operation carried =>
          simp only [step, State.run, position, Option.some.injEq] at stepEq
          subst stepEq
          rfl

namespace Consistent

variable {s s' : State Coro T Buffer} {items kept : List T} {coro : Coro}

/-- A coroutine moves; no other coroutine is in its critical section unless
the owner and the storage stay as they are. -/
theorem move (consistent : Consistent storage s items) {buffer : Buffer}
    {holder : Option Coro} {pc : Pc T}
    (holds : storage.Holds buffer kept)
    (others : ∀ other, other ≠ coro → (s.pc other).Holding →
      holder = s.holder ∧ buffer = s.buffer)
    (owner : pc.Holding → holder = some coro)
    (unblocked : ∀ operation, pc = .update operation →
      storage.blocked buffer operation = false)
    (defined : pc ≠ .undefined) :
    Consistent storage ⟨buffer, holder, Function.update s.pc coro pc⟩ kept := by
  refine ⟨holds, ?_, ?_, ?_⟩
  · intro other holding
    by_cases isMover : other = coro
    · subst isMover
      exact owner (by simpa using holding)
    · simp only [Function.update_of_ne isMover] at holding
      change holder = some other
      rw [(others other isMover holding).1]
      exact consistent.owner other holding
  · intro other operation position
    by_cases isMover : other = coro
    · subst isMover
      exact unblocked operation (by simpa using position)
    · simp only [Function.update_of_ne isMover] at position
      have holding : (s.pc other).Holding := by
        rw [position]
        trivial
      change storage.blocked buffer operation = false
      rw [(others other isMover holding).2]
      exact consistent.unblocked other operation position
  · intro other
    by_cases isMover : other = coro
    · subst isMover
      simpa using defined
    · simpa [Function.update_of_ne isMover] using consistent.defined other

omit [DecidableEq Coro] in
/-- The owner of `m_mtx` is alone in the critical section. -/
theorem alone (consistent : Consistent storage s items)
    (holding : (s.pc coro).Holding) (other : Coro) (isOther : other ≠ coro) :
    ¬ (s.pc other).Holding := by
  intro otherHolding
  have same := (consistent.owner other otherHolding).symm.trans
    (consistent.owner coro holding)
  exact isOther (Option.some.inj same)

theorem setPc (consistent : Consistent storage s items) {pc : Pc T}
    (owner : pc.Holding → s.holder = some coro)
    (unblocked : ∀ operation, pc = .update operation →
      storage.blocked s.buffer operation = false)
    (defined : pc ≠ .undefined) :
    Consistent storage (s.setPc coro pc) items :=
  consistent.move consistent.holds (fun _ _ _ => ⟨rfl, rfl⟩) owner unblocked
    defined

theorem lockTo (consistent : Consistent storage s items) {pc : Pc T}
    (unblocked : ∀ operation, pc ≠ .update operation)
    (defined : pc ≠ .undefined) (stepEq : s.lockTo coro pc = some s') :
    Consistent storage s' items := by
  by_cases isFree : s.holder = none
  · rw [State.lockTo, if_pos isFree, Option.some.injEq] at stepEq
    subst stepEq
    apply consistent.move consistent.holds
    · intro other _ holding
      have owned := consistent.owner other holding
      rw [isFree] at owned
      contradiction
    · intro _
      rfl
    · intro operation isUpdate
      exact absurd isUpdate (unblocked operation)
    · exact defined
  · rw [State.lockTo, if_neg isFree] at stepEq
    contradiction

theorem unlockTo (consistent : Consistent storage s items) {pc : Pc T}
    (holding : (s.pc coro).Holding) (outside : ¬ pc.Holding) :
    Consistent storage (s.unlockTo coro pc) items := by
  apply consistent.move consistent.holds
  · intro other isOther otherHolding
    exact absurd otherHolding (consistent.alone holding other isOther)
  · intro pcHolding
    exact absurd pcHolding outside
  · rintro operation rfl
    exact absurd trivial outside
  · rintro rfl
    exact outside trivial

/-- The owner updates the storage. -/
theorem update (consistent : Consistent storage s items)
    {operation : Operation T} (position : s.pc coro = .update operation) :
    storage.SlotReady s.buffer operation ∧
      ∃ s' kept, s.run storage coro = some s' ∧ Consistent storage s' kept ∧
        items ++ (Storage.putBy operation).toList =
          (storage.takenBy s.buffer operation).toList ++ kept := by
  have holding : (s.pc coro).Holding := by
    rw [position]
    trivial
  obtain ⟨carried, rest, kept, applied, restHolds, ready, -, moved⟩ :=
    storage.apply_holds consistent.holds
      (consistent.unblocked coro operation position)
  have runEq : s.run storage coro = some
      ⟨rest, s.holder,
        Function.update s.pc coro (.unlock operation carried)⟩ := by
    rw [State.run, position]
    simp only [applied]
    rfl
  refine ⟨ready, _, kept, runEq, consistent.move restHolds ?_ ?_ ?_ ?_, moved⟩
  · intro other isOther otherHolding
    exact absurd otherHolding (consistent.alone holding other isOther)
  · intro _
    exact consistent.owner coro holding
  · simp
  · simp

/-- A step that is not an update keeps the held elements. -/
theorem run_of_not_update (consistent : Consistent storage s items)
    (notUpdate : ∀ operation, s.pc coro ≠ .update operation)
    (stepEq : s.run storage coro = some s') :
    Consistent storage s' items := by
  have owner := consistent.owner coro
  cases position : s.pc coro with
  | idle | undefined => simp [State.run, position] at stepEq
  | lock operation | sleeping operation =>
      simp only [State.run, position] at stepEq
      exact consistent.lockTo (by simp) (by simp) stepEq
  | check operation =>
      rw [position] at owner
      simp only [State.run, position] at stepEq
      split at stepEq <;> rw [Option.some.injEq] at stepEq <;> subst stepEq
      · exact consistent.setPc (fun _ => owner trivial) (by simp) (by simp)
      · next unblocked =>
          exact consistent.setPc (fun _ => owner trivial)
            (by simpa using unblocked) (by simp)
  | testPred operation =>
      rw [position] at owner
      simp only [State.run, position] at stepEq
      split at stepEq <;> rw [Option.some.injEq] at stepEq <;> subst stepEq
      · exact consistent.unlockTo (by rw [position]; trivial) (fun h => h)
      · next unblocked =>
          exact consistent.setPc (fun _ => owner trivial)
            (by simpa using unblocked) (by simp)
  | update operation => exact absurd position (notUpdate operation)
  | unlock operation carried =>
      simp only [State.run, position, Option.some.injEq] at stepEq
      subst stepEq
      exact consistent.unlockTo (by rw [position]; trivial) (fun h => h)
  | notify operation carried =>
      simp only [State.run, position, Option.some.injEq] at stepEq
      subst stepEq
      exact consistent.setPc (fun h => h.elim) (by simp) (by simp)

/-- An update applies the operation to the storage. -/
theorem apply_of_updates (consistent : Consistent storage s items)
    {action : Action Coro T} {operation : Operation T}
    (updated : updates s action = some operation)
    (stepEq : Channel.step storage s action = some s') :
    ∃ carried, storage.apply s.buffer operation = some (carried, s'.buffer) := by
  cases action with
  | call coro operation => contradiction
  | run coro =>
      simp only [updates] at updated
      split at updated
      · next _ position =>
          obtain rfl := Option.some.inj updated
          obtain ⟨carried, rest, kept, applied, -⟩ :=
            storage.apply_holds consistent.holds
              (consistent.unblocked coro _ position)
          simp only [Channel.step, State.run, position, applied,
            Option.some.injEq] at stepEq
          subst stepEq
          exact ⟨carried, applied⟩
      · contradiction

/-- What one step does to the held elements. -/
theorem step (consistent : Consistent storage s items)
    {action : Action Coro T} (stepEq : step storage s action = some s') :
    ∃ kept, Consistent storage s' kept ∧
      items ++ (observePut s action).toList =
        (observeTaken storage s action).toList ++ kept := by
  cases action with
  | call coro operation =>
      refine ⟨items, ?_, by simp [observePut, observeTaken, updates]⟩
      simp only [Channel.step] at stepEq
      split at stepEq
      · rw [Option.some.injEq] at stepEq
        subst stepEq
        exact consistent.setPc (fun h => h.elim) (by simp) (by simp)
      · contradiction
  | run coro =>
      by_cases isUpdate : ∃ operation, s.pc coro = .update operation
      · obtain ⟨operation, position⟩ := isUpdate
        obtain ⟨-, successor, kept, runEq, after, moved⟩ :=
          consistent.update position
        rw [Channel.step, runEq, Option.some.injEq] at stepEq
        subst stepEq
        refine ⟨kept, after, ?_⟩
        simpa [observePut, observeTaken, updates, position] using moved
      · simp only [not_exists] at isUpdate
        refine ⟨items, consistent.run_of_not_update isUpdate stepEq, ?_⟩
        have noUpdate : updates s (.run coro : Action Coro T) = none := by
          cases position : s.pc coro <;> simp_all [updates]
        simp [observePut, observeTaken, noUpdate]

end Consistent

theorem consistent_of_run (run : (system Coro storage).Run) (time : Nat)
    (timeLe : time ≤ run.length) :
    ∃ items, Consistent storage (run.state time) items ∧
      run.log observePut 0 time =
        run.log (observeTaken storage) 0 time ++ items := by
  induction time with
  | zero =>
      rw [show run.state 0 = State.new Coro storage from run.starts]
      exact ⟨[], consistent_new, by simp⟩
  | succ time ih =>
      obtain ⟨items, consistent, logEq⟩ := ih (by omega)
      obtain ⟨kept, after, moved⟩ := consistent.step (run.steps time (by omega))
      refine ⟨kept, after, ?_⟩
      rw [run.log_append (Nat.zero_le time) (by omega : time ≤ time + 1),
        run.log_append (Nat.zero_le time) (by omega : time ≤ time + 1),
        run.log_single, run.log_single, logEq, List.append_assoc, moved,
        List.append_assoc]

end CoContext.Channel
