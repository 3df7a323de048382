import CoContext.ChannelSafety
import CoContext.Unwinding

/-!
# A buffered channel and constructors that throw

A constructor of the element type runs when an argument of `release` is moved
into the frame of its coroutine, when `release` constructs the element in its
slot, when `acquire` moves the element out of its slot, and when `acquire`
returns it.  `m_mtx` is locked and unlocked by hand, so an exception from the
second and the third leaves it locked.
-/

namespace CoContext.Channel

/-- A throwing constructor; `cleared` says whether the bytes of
`exception_ptr` in the promise of `task<T>` happen to be null. -/
inductive Constructor
  | argument
  | element (cleared : Bool)
  | result (cleared : Bool)
  deriving DecidableEq

variable {Coro T Buffer : Type*}

/-- `unhandled_exception` of the promise of an operation, and `result()` for
its caller.  The promise of `task<T>` leaves its union uninitialized, and the
assignment of `exception_ptr` releases what the bytes point to. -/
def Operation.unhandledException (operation : Operation T) (cleared : Bool) :
    Unwinding.Outcome :=
  match operation with
  | .release _ | .drop => .threw
  | .acquire => if cleared then .threw else .undefined

/-- How a call ends if a constructor throws.  There is no promise yet when an
argument is moved. -/
def thrown (operation : Option (Operation T)) :
    Constructor → Unwinding.Outcome
  | .argument => .threw
  | .element cleared | .result cleared =>
      match operation with
      | some operation => operation.unhandledException cleared
      | none => .undefined

/-- The operation of a coroutine that is not idle. -/
def Pc.operation : Pc T → Option (Operation T)
  | .lock operation | .check operation | .testPred operation
  | .sleeping operation | .update operation | .unlock operation _
  | .notify operation _ => some operation
  | .idle | .undefined => none

def Pc.isIdle : Pc T → Bool
  | .idle => true
  | .lock _ | .check _ | .testPred _ | .sleeping _ | .update _ | .unlock _ _
  | .notify _ _ | .undefined => false

/-- The constructors that run in the next step of a coroutine. -/
def Pc.constructs : Pc T → Constructor → Bool
  | .idle, .argument => true
  | .update (.release _), .element _ | .update .acquire, .element _ => true
  | .notify .acquire (some _), .result _ => true
  | _, _ => false

def Action.coro : Action Coro T → Coro
  | .call coro _ | .run coro => coro

/-- The two storages hold the same values. -/
def Storage.SameValues (storage : Storage T Buffer)
    (before after : Buffer) : Prop :=
  ∀ items, storage.Holds before items ↔ storage.Holds after items

variable [DecidableEq Coro]

namespace State

/-- The state in which an exception leaves the channel: the element is
constructed before anything is updated, and the result after `m_mtx` was
unlocked and `notify_one` called. -/
def unwind (storage : Storage T Buffer) (s : State Coro T Buffer)
    (coro : Coro) (constructor : Constructor) : Option (State Coro T Buffer) :=
  if (s.pc coro).constructs constructor then
    match constructor with
    | .argument | .element _ => some s
    | .result _ => s.run storage coro
  else
    none

end State

/-- A buffered channel whose elements may throw. -/
def unwinding (Coro : Type*) [DecidableEq Coro] (storage : Storage T Buffer) :
    Unwinding (system Coro storage) Coro Constructor Unit where
  agent := Action.coro
  outside s coro := (s.pc coro).isIdle
  unwind := State.unwind storage
  outcome s coro := thrown (s.pc coro).operation
  locked s _ := s.holder.isSome
  owns s coro _ := s.holder = some coro
  sameValues s s' := storage.SameValues s.buffer s'.buffer
  unwind_cases {s s' coro constructor} unwindEq := by
    unfold State.unwind at unwindEq
    rw [Option.ite_none_right_eq_some] at unwindEq
    obtain ⟨-, unwindEq⟩ := unwindEq
    cases constructor with
    | argument | element cleared =>
        exact Or.inl (Option.some.inj unwindEq).symm
    | result cleared => exact Or.inr ⟨.run coro, rfl, unwindEq⟩

section Steps

variable {storage : Storage T Buffer} {s s' : State Coro T Buffer}
variable {coro : Coro}

/-- A step of a coroutine moves no other coroutine. -/
theorem run_pc_of_ne (stepEq : s.run storage coro = some s') {other : Coro}
    (isOther : other ≠ coro) : s'.pc other = s.pc other := by
  have moved : ∃ pc, s'.pc = Function.update s.pc coro pc := by
    cases position : s.pc coro with
    | idle | undefined => simp [State.run, position] at stepEq
    | lock operation | sleeping operation =>
        simp only [State.run, position, State.lockTo,
          Option.ite_none_right_eq_some, Option.some.injEq] at stepEq
        obtain ⟨-, rfl⟩ := stepEq
        exact ⟨_, rfl⟩
    | check operation | testPred operation =>
        simp only [State.run, position] at stepEq
        split at stepEq <;> rw [Option.some.injEq] at stepEq <;>
          subst stepEq <;> exact ⟨_, rfl⟩
    | update operation =>
        simp only [State.run, position] at stepEq
        split at stepEq <;> rw [Option.some.injEq] at stepEq <;>
          subst stepEq <;> exact ⟨_, rfl⟩
    | unlock operation carried | notify operation carried =>
        simp only [State.run, position, Option.some.injEq] at stepEq
        subst stepEq
        exact ⟨_, rfl⟩
  obtain ⟨pc, pcEq⟩ := moved
  rw [pcEq, Function.update_of_ne isOther]

theorem step_pc_of_ne {action : Action Coro T}
    (stepEq : step storage s action = some s') {other : Coro}
    (isOther : other ≠ action.coro) : s'.pc other = s.pc other := by
  cases action with
  | call coro operation =>
      simp only [step] at stepEq
      split at stepEq
      · rw [Option.some.injEq] at stepEq
        subst stepEq
        exact Function.update_of_ne isOther _ _
      · contradiction
  | run coro => exact run_pc_of_ne stepEq isOther

theorem isPrivate (storage : Storage T Buffer) :
    (unwinding Coro storage).Private := by
  intro s action s' coro stepEq isOther inside
  change (s'.pc coro).isIdle = false
  rw [step_pc_of_ne stepEq isOther]
  exact inside

/-- The owner of `m_mtx` is inside its critical section. -/
def Held (s : State Coro T Buffer) : Prop :=
  ∀ coro, s.holder = some coro → (s.pc coro).Holding

theorem Held.move (held : Held s) {buffer : Buffer} {holder : Option Coro}
    {pc : Pc T} (self : holder = some coro → pc.Holding)
    (others : ∀ other, other ≠ coro → holder = some other →
      s.holder = some other) :
    Held (⟨buffer, holder, Function.update s.pc coro pc⟩ :
      State Coro T Buffer) := by
  intro other owned
  by_cases isMover : other = coro
  · subst isMover
    simpa using self owned
  · simpa [Function.update_of_ne isMover] using
      held other (others other isMover owned)

theorem Held.run (held : Held s) (stepEq : s.run storage coro = some s') :
    Held s' := by
  have owned := held coro
  cases position : s.pc coro with
  | idle | undefined => simp [State.run, position] at stepEq
  | lock operation | sleeping operation =>
      simp only [State.run, position, State.lockTo,
        Option.ite_none_right_eq_some, Option.some.injEq] at stepEq
      obtain ⟨-, rfl⟩ := stepEq
      refine held.move (fun _ => trivial) ?_
      intro other isOther isOwner
      exact absurd (Option.some.inj isOwner).symm isOther
  | check operation =>
      simp only [State.run, position] at stepEq
      split at stepEq <;> rw [Option.some.injEq] at stepEq <;> subst stepEq
      · exact held.move (fun _ => trivial) (fun _ _ isOwner => isOwner)
      · exact held.move (fun _ => trivial) (fun _ _ isOwner => isOwner)
  | testPred operation =>
      simp only [State.run, position] at stepEq
      split at stepEq <;> rw [Option.some.injEq] at stepEq <;> subst stepEq
      · exact held.move (fun isNone => by contradiction)
          (fun _ _ isNone => by contradiction)
      · exact held.move (fun _ => trivial) (fun _ _ isOwner => isOwner)
  | update operation =>
      simp only [State.run, position] at stepEq
      split at stepEq <;> rw [Option.some.injEq] at stepEq <;> subst stepEq
      · exact held.move (fun _ => trivial) (fun _ _ isOwner => isOwner)
      · exact held.move (fun _ => trivial) (fun _ _ isOwner => isOwner)
  | unlock operation carried =>
      simp only [State.run, position, Option.some.injEq] at stepEq
      subst stepEq
      exact held.move (fun isNone => by contradiction)
        (fun _ _ isNone => by contradiction)
  | notify operation carried =>
      simp only [State.run, position, Option.some.injEq] at stepEq
      subst stepEq
      rw [position] at owned
      exact held.move owned (fun _ _ isOwner => isOwner)

/-- What holds in every state that the channel reaches. -/
theorem sound_of_reachable (reached : (system Coro storage).Reachable s) :
    Held s ∧ ∃ items, Consistent storage s items := by
  apply reached.invariant
  · rintro s rfl
    exact ⟨fun _ => nofun, [], consistent_new⟩
  · rintro s action s' ⟨held, items, consistent⟩ stepEq
    obtain ⟨kept, after, -⟩ := consistent.step stepEq
    refine ⟨?_, kept, after⟩
    cases action with
    | run coro => exact held.run stepEq
    | call coro operation =>
        have owned := held coro
        simp only [system, step] at stepEq
        split at stepEq
        · next position =>
            rw [Option.some.injEq] at stepEq
            subst stepEq
            rw [position] at owned
            exact held.move owned (fun _ _ isOwner => isOwner)
        · contradiction

/-- The update of `acquire` changes the values. -/
theorem not_sameValues_of_acquire {items : List T}
    (consistent : Consistent storage s items)
    (position : s.pc coro = .update .acquire)
    (stepEq : s.run storage coro = some s') :
    ¬ storage.SameValues s.buffer s'.buffer := by
  intro same
  obtain ⟨-, successor, kept, runEq, after, moved⟩ :=
    consistent.update position
  rw [stepEq, Option.some.injEq] at runEq
  subst runEq
  obtain ⟨-, -, -, -, -, -, isTaken, -⟩ :=
    storage.apply_holds consistent.holds
      (consistent.unblocked coro .acquire position)
  obtain ⟨item, takenEq⟩ :=
    Option.isSome_iff_exists.mp (isTaken.trans (by rfl))
  have lengths := congrArg List.length moved
  simp only [Storage.putBy, Option.toList_none, List.append_nil, takenEq,
    Option.toList_some, List.singleton_append, List.length_cons] at lengths
  have before := storage.size_eq ((same items).mp consistent.holds)
  have behind := storage.size_eq after.holds
  omega

/-- Only the owner of `m_mtx` changes the storage. -/
theorem buffer_of_others {items : List T}
    (consistent : Consistent storage s items) (holding : (s.pc coro).Holding)
    {action : Action Coro T} (isOther : coro ≠ action.coro)
    (stepEq : step storage s action = some s') : s'.buffer = s.buffer := by
  refine buffer_of_updates_none stepEq ?_
  have outside := consistent.alone holding action.coro (Ne.symm isOther)
  cases action with
  | call caller operation => rfl
  | run caller =>
      change ¬ (s.pc caller).Holding at outside
      cases position : s.pc caller <;> simp_all [updates, Pc.Holding]

/-- `acquire` took its element. -/
def Pc.Took : Pc T → Prop
  | .unlock .acquire (some _) | .notify .acquire (some _) => True
  | _ => False

theorem Pc.took_of_constructs {pc : Pc T} {cleared : Bool}
    (permitted : pc.constructs (.result cleared) = true) : pc.Took := by
  unfold Pc.constructs at permitted
  split at permitted <;> simp_all [Pc.Took]

theorem Pc.holding_of_constructs {pc : Pc T} {cleared : Bool}
    (permitted : pc.constructs (.element cleared) = true) : pc.Holding := by
  unfold Pc.constructs at permitted
  split at permitted <;> simp_all [Pc.Holding]

theorem took_run (stepEq : s.run storage coro = some s')
    (took : (s'.pc coro).Took) :
    (s.pc coro).Took ∨ s.pc coro = .update .acquire := by
  cases position : s.pc coro with
  | idle | undefined => simp [State.run, position] at stepEq
  | lock operation | sleeping operation =>
      simp only [State.run, position, State.lockTo,
        Option.ite_none_right_eq_some, Option.some.injEq] at stepEq
      obtain ⟨-, rfl⟩ := stepEq
      simp [State.setPc, Pc.Took] at took
  | check operation | testPred operation =>
      simp only [State.run, position] at stepEq
      split at stepEq <;> rw [Option.some.injEq] at stepEq <;>
        subst stepEq <;>
        simp [State.setPc, State.unlockTo, Pc.Took] at took
  | update operation =>
      simp only [State.run, position] at stepEq
      split at stepEq <;> rw [Option.some.injEq] at stepEq <;> subst stepEq
      · cases operation with
        | acquire => exact Or.inr rfl
        | release item | drop => simp [State.setPc, Pc.Took] at took
      · simp [State.setPc, Pc.Took] at took
  | unlock operation carried =>
      simp only [State.run, position, Option.some.injEq] at stepEq
      subst stepEq
      simp only [State.unlockTo, State.setPc, Function.update_self] at took
      exact Or.inl (by cases operation <;> cases carried <;> exact took)
  | notify operation carried =>
      simp only [State.run, position, Option.some.injEq] at stepEq
      subst stepEq
      simp [State.setPc, Pc.Took] at took

end Steps

section Runs

variable {storage : Storage T Buffer}
variable {run : (unwinding Coro storage).system.Run} {time : Nat}
variable {coro : Coro} {constructor : Constructor}

/-- What a constructor that throws does. -/
theorem throw_update (timeLt : time < run.length)
    (throws : run.action time = .throw coro constructor) :
    ((run.state time).state.pc coro).constructs constructor = true ∧
      (run.state time).state.unwind storage coro constructor =
        some (run.state (time + 1)).state ∧
      (run.state time).outcome coro = none ∧
      (run.state (time + 1)).outcome coro =
        some (thrown ((run.state time).state.pc coro).operation constructor) := by
  have stepEq := run.steps time timeLt
  rw [throws] at stepEq
  obtain ⟨running, successor, outcome, afterEq, moved⟩ :=
    Unwinding.step_cases stepEq
  rcases moved with ⟨action, isProceed, -⟩ |
    ⟨agent, point, isThrow, unwindEq, rfl⟩
  · cases isProceed
  · cases isThrow
    rw [afterEq]
    refine ⟨?_, unwindEq, running, Function.update_self ..⟩
    have permitted := unwindEq
    simp only [unwinding, State.unwind,
      Option.ite_none_right_eq_some] at permitted
    exact permitted.1

/-- A coroutine that took an element updated the storage before. -/
theorem exists_update (timeLe : time ≤ run.length)
    (took : ((run.state time).state.pc coro).Took) :
    ∃ earlier < time, run.action earlier = .proceed (.run coro) ∧
      (run.state earlier).state.pc coro = .update .acquire := by
  induction time with
  | zero =>
      have isNew : (run.state 0).state = State.new Coro storage :=
        run.starts.1
      rw [isNew] at took
      exact took.elim
  | succ time ih =>
      have stepEq := run.steps time (by omega)
      suffices before : ((run.state time).state.pc coro).Took ∨
          run.action time = .proceed (.run coro) ∧
            (run.state time).state.pc coro = .update .acquire by
        rcases before with before | ⟨acts, position⟩
        · obtain ⟨earlier, earlierLt, found⟩ := ih (by omega) before
          exact ⟨earlier, by omega, found⟩
        · exact ⟨time, by omega, acts, position⟩
      obtain ⟨-, successor, outcome, afterEq, moved⟩ :=
        Unwinding.step_cases stepEq
      rw [afterEq] at took
      change (successor.pc coro).Took at took
      rcases moved with ⟨action, isProceed, baseEq, -⟩ |
        ⟨agent, point, isThrow, unwindEq, -⟩
      · by_cases acts : coro = action.coro
        · cases action with
          | call caller operation =>
              obtain rfl : coro = caller := acts
              change Channel.step storage (run.state time).state
                (.call coro operation) = some successor at baseEq
              simp only [Channel.step] at baseEq
              split at baseEq
              · rw [Option.some.injEq] at baseEq
                subst baseEq
                simp [State.setPc, Pc.Took] at took
              · contradiction
          | run caller =>
              obtain rfl : coro = caller := acts
              exact (took_run baseEq took).imp_right fun position =>
                ⟨isProceed, position⟩
        · rw [step_pc_of_ne baseEq acts] at took
          exact Or.inl took
      · left
        simp only [unwinding, State.unwind,
          Option.ite_none_right_eq_some] at unwindEq
        obtain ⟨permitted, unwindEq⟩ := unwindEq
        cases point with
        | argument | element cleared =>
            rw [Option.some.injEq] at unwindEq
            rwa [← unwindEq] at took
        | result cleared =>
            by_cases acts : coro = agent
            · subst acts
              rcases took_run unwindEq took with before | position
              · exact before
              · rw [position] at permitted
                cases permitted
            · rwa [run_pc_of_ne unwindEq acts] at took

/-- An exception of the element's constructor leaves `m_mtx` locked for
ever. -/
theorem wedged_of_throw {cleared : Bool} (timeLt : time < run.length)
    (throws : run.action time = .throw coro (.element cleared)) :
    ∀ later, time < later → later ≤ run.length →
      (run.state later).state.holder = some coro ∧
        (run.state later).state.buffer = (run.state time).state.buffer := by
  intro later timeLt' laterLe
  obtain ⟨permitted, unwindEq, -, isOver⟩ := throw_update timeLt throws
  have holding := Pc.holding_of_constructs permitted
  simp only [State.unwind, permitted, if_true, Option.some.injEq] at unwindEq
  suffices stays : ((run.state later).state.pc coro).Holding ∧
      (run.state later).state.buffer = (run.state time).state.buffer by
    obtain ⟨-, items, consistent⟩ :=
      sound_of_reachable (Unwinding.base_reachable run laterLe)
    exact ⟨consistent.owner coro stays.1, stays.2⟩
  induction later, timeLt' using Nat.le_induction with
  | base =>
      rw [← unwindEq]
      exact ⟨holding, rfl⟩
  | succ later timeLt' ih =>
      obtain ⟨inside, sameBuffer⟩ := ih (by omega)
      obtain ⟨-, items, consistent⟩ := sound_of_reachable
        (Unwinding.base_reachable run (by omega : later ≤ run.length))
      have stillOver := Unwinding.outcome_later run timeLt' (by omega) isOver
      have stepEq := run.steps later (by omega)
      have isOther : coro ≠ (unwinding Coro storage).actor
          (run.action later) := by
        intro acts
        have running := (Unwinding.step_cases stepEq).1
        rw [← acts, stillOver] at running
        contradiction
      rcases Unwinding.step_base stepEq with same | ⟨action, actorEq, baseEq⟩
      · rw [same]
        exact ⟨inside, sameBuffer⟩
      · rw [← actorEq] at isOther
        rw [step_pc_of_ne baseEq isOther]
        refine ⟨inside, Eq.trans ?_ sameBuffer⟩
        exact buffer_of_others consistent inside isOther baseEq

/-- An operation survives an exception exactly if it has not begun. -/
theorem survives_iff (timeLt : time < run.length)
    (throws : run.action time = .throw coro constructor) :
    (unwinding Coro storage).Survives run time coro ↔
      constructor = .argument := by
  obtain ⟨permitted, unwindEq, running, isOver⟩ := throw_update timeLt throws
  obtain ⟨held, items, consistent⟩ :=
    sound_of_reachable (Unwinding.base_reachable run timeLt.le)
  cases constructor with
  | argument =>
      refine iff_of_true ?_ rfl
      simp only [State.unwind, permitted, if_true, Option.some.injEq]
        at unwindEq
      refine Unwinding.survives_of_not_begun (isPrivate storage) run timeLt
        ?_ isOver ?_ ?_
      · rintro (notRunning | inside)
        · exact notRunning running
        · change ((run.state time).state.pc coro).isIdle = false at inside
          cases position : (run.state time).state.pc coro <;>
            simp_all [Pc.constructs, Pc.isIdle]
      · rw [← unwindEq]
        exact fun items => Iff.rfl
      · intro earlier earlierLe outside lock owned
        have reached := Unwinding.base_reachable run
          (by omega : earlier ≤ run.length)
        have holding := (sound_of_reachable reached).1 coro owned
        change ((run.state earlier).state.pc coro).isIdle = true at outside
        cases position : (run.state earlier).state.pc coro <;>
          simp_all [Pc.isIdle, Pc.Holding]
  | element cleared =>
      refine iff_of_false ?_ (by simp)
      intro survives
      have owned := consistent.owner coro (Pc.holding_of_constructs permitted)
      simp only [State.unwind, permitted, if_true, Option.some.injEq]
        at unwindEq
      obtain ⟨other, goesOn, otherOwns⟩ :=
        survives.free () ⟨time, Nat.le_refl _, owned⟩
          (by rw [← unwindEq]; exact Option.isSome_iff_exists.mpr ⟨_, owned⟩)
      rw [← unwindEq] at otherOwns
      obtain rfl := Option.some.inj (owned.symm.trans otherOwns)
      rw [isOver] at goesOn
      contradiction
  | result cleared =>
      refine iff_of_false ?_ (by simp)
      intro survives
      obtain ⟨earlier, earlierLt, acts, position⟩ :=
        exists_update timeLt.le (Pc.took_of_constructs permitted)
      have same := survives.sameValues earlier earlierLt.le (by rw [acts]; rfl)
      have stepEq := run.steps earlier (by omega)
      rw [acts] at stepEq
      obtain ⟨-, successor, outcome, afterEq, moved⟩ :=
        Unwinding.step_cases stepEq
      rcases moved with ⟨action, isProceed, baseEq, -⟩ | ⟨_, _, isThrow, -⟩
      · cases isProceed
        obtain ⟨-, items, consistent⟩ := sound_of_reachable
          (Unwinding.base_reachable run (by omega : earlier ≤ run.length))
        rw [afterEq] at same
        exact not_sameValues_of_acquire consistent position baseEq same
      · cases isThrow

end Runs

end CoContext.Channel
