import CoContext.MutexInvariant

/-!
# The walks of `notify_all` on several contexts

A `cv_wait_awaiter` lives in the frame of the waiting coroutine and exists only
until that coroutine resumes.  `notify_all` takes the list `awaiting` and then
the list `to_resume`.  It registers each waiter on its own mutex, or spawns it
as the owner, and reads the link to the next one afterwards.

The waiters wait with any mutexes, each of which is used by any other
coroutines at the same time.  Every context has one thread, so that nothing
happens on the context of the notifier while `notify_all` runs.
-/

namespace CoContext.NotifyAllWalk

/-- The position of the notifier in `notify_all`. -/
inductive Pc (Coro : Type*)
  | exchange
  /-- The test of the loop over the list taken from `awaiting`, or from
  `to_resume`. -/
  | visit (head : Option Coro) (fromToResume : Bool)
  /-- In `register_awaiting` of this waiter. -/
  | register (head : Coro) (fromToResume : Bool)
  | readNext (head : Coro) (fromToResume : Bool)
  | takeResume
  | done
  /-- It has read a record that does not exist. -/
  | lost
  deriving DecidableEq

structure State (Coro Mtx : Type*) where
  mutex : Mtx → Mutex.State Coro
  /-- The mutex of the `cv_wait_awaiter` of a coroutine, if it exists. -/
  waits : Coro → Option Mtx
  awaiting : Option Coro
  toResumeHead : Option Coro
  next : Coro → Option Coro
  pc : Pc Coro
  /-- The waiters that were registered or spawned, in order. -/
  notified : List Coro

inductive Action (Coro Mtx : Type*)
  /-- The next step of `notify_all`. -/
  | run (spuriousFailure : Bool)
  /-- Another coroutine uses a mutex. -/
  | mutex (mtx : Mtx) (action : Mutex.Action Coro)
  deriving DecidableEq

instance {Coro Mtx : Type*} : Inhabited (Action Coro Mtx) :=
  ⟨.run false⟩

variable {Coro Mtx Ctx : Type*}

/-- The coroutine on whose thread a step of a mutex happens. -/
def agent : Mutex.Action Coro → Coro
  | .lock coro | .tryLock coro | .unlock coro | .runUnlock coro
  | .resume coro => coro
  | .registerFor notifier _ => notifier
  | .runRegister agent _ => agent

namespace State

variable [DecidableEq Coro] [DecidableEq Mtx] [DecidableEq Ctx]
variable (s : State Coro Mtx) (notifier : Coro) (ctx : Coro → Ctx)

/-- `register_awaiting` is called for this waiter. -/
def startRegister (head : Coro) (fromToResume : Bool) : State Coro Mtx :=
  match s.waits head with
  | some mtx =>
      { s with
        pc := .register head fromToResume
        mutex := Function.update s.mutex mtx
          ((s.mutex mtx).startRegister notifier head true) }
  | none => { s with pc := .lost }

/-- The next step of `register_awaiting`; a waiter that has got the lock is
spawned. -/
def runRegister (head : Coro) (fromToResume spuriousFailure : Bool) :
    Option (State Coro Mtx) :=
  match s.waits head with
  | some mtx =>
      ((s.mutex mtx).runRegister notifier spuriousFailure).map fun mutex =>
        let s := { s with mutex := Function.update s.mutex mtx mutex }
        if mutex.registerPc notifier = .idle then
          { s with
            pc := .readNext head fromToResume
            notified := s.notified ++ [head] }
        else s
  | none => some { s with pc := .lost }

def readNext (head : Coro) (fromToResume : Bool) : State Coro Mtx :=
  match s.waits head with
  | some _ => { s with pc := .visit (s.next head) fromToResume }
  | none => { s with pc := .lost }

def run (spuriousFailure : Bool) : Option (State Coro Mtx) :=
  match s.pc with
  | .exchange =>
      some { s with pc := .visit s.awaiting false, awaiting := none }
  | .visit (some head) fromToResume =>
      some (s.startRegister notifier head fromToResume)
  | .visit none false => some { s with pc := .takeResume }
  | .visit none true => some { s with pc := .done }
  | .register head fromToResume =>
      s.runRegister notifier head fromToResume spuriousFailure
  | .readNext head fromToResume => some (s.readNext head fromToResume)
  | .takeResume =>
      some { s with pc := .visit s.toResumeHead true, toResumeHead := none }
  | .done | .lost => none

/-- A coroutine that waits does nothing but the unlock ahead of its
suspension, until it is resumed. -/
def awake : Mutex.Action Coro → Bool
  | .lock coro | .tryLock coro => decide (s.waits coro = none)
  | .registerFor other waiter =>
      decide (s.waits other = none ∧ s.waits waiter = none)
  | .unlock _ | .runUnlock _ | .runRegister _ _ | .resume _ => true

def may (action : Mutex.Action Coro) : Bool :=
  decide (agent action ≠ notifier) && s.awake action &&
    decide (ctx (agent action) ≠ ctx notifier ∨ s.pc = .done)

/-- The awaiter of a coroutine that is resumed is destroyed. -/
def waitsAfter : Mutex.Action Coro → Coro → Option Mtx
  | .resume coro => Function.update s.waits coro none
  | _ => s.waits

/-- Another coroutine has used a mutex. -/
def environment (mtx : Mtx) (action : Mutex.Action Coro)
    (mutex : Mutex.State Coro) : State Coro Mtx :=
  { s with
    mutex := Function.update s.mutex mtx mutex
    waits := s.waitsAfter action }

end State

section System

variable [DecidableEq Coro] [DecidableEq Mtx] [DecidableEq Ctx]

def step (notifier : Coro) (ctx : Coro → Ctx) (s : State Coro Mtx) :
    Action Coro Mtx → Option (State Coro Mtx)
  | .run spuriousFailure => s.run notifier spuriousFailure
  | .mutex mtx action =>
      if s.may notifier ctx action then
        (Mutex.step (s.mutex mtx) action).map (s.environment mtx action)
      else none

/-- `notify_all` is called: the waiters on both lists sleep, and the mutexes
are in states that they can be in. -/
structure Initial (notifier : Coro) (s : State Coro Mtx) : Prop where
  pc : s.pc = .exchange
  notified : s.notified = []
  mutex : ∀ mtx, (Mutex.system Coro).Reachable (s.mutex mtx)
  registerPc : ∀ mtx, (s.mutex mtx).registerPc notifier = .idle
  lists : ∃ stack queue, Chain s.next s.awaiting stack ∧
    Chain s.next s.toResumeHead queue ∧ (stack ++ queue).Nodup
  waits : ∀ coro, LinkedFrom s.next s.awaiting coro ∨
      LinkedFrom s.next s.toResumeHead coro →
    s.waits coro ≠ none ∧ ∀ mtx, (s.mutex mtx).status coro = .idle

/-- One call of `notify_all` and the coroutines that use the mutexes. -/
def system (Mtx : Type*) [DecidableEq Mtx] (notifier : Coro)
    (ctx : Coro → Ctx) :
    TransitionSystem (State Coro Mtx) (Action Coro Mtx) where
  initial := Initial notifier
  step := step notifier ctx

/-- The waiter that was just registered or spawned is resumed, before the walk
has read its `next`. -/
def overtakes (s : State Coro Mtx) : Action Coro Mtx → Bool
  | .mutex _ (.resume coro) =>
      match s.pc with
      | .readNext head _ => decide (head = coro)
      | _ => false
  | _ => false

/-- What is promised of a run, whatever lists `notify_all` finds. -/
structure Walks {notifier : Coro} {ctx : Coro → Ctx}
    (run : (system Mtx notifier ctx).Run) : Prop where
  never_lost : ∀ time ≤ run.length, (run.state time).pc ≠ .lost
  notified_once : ∀ time ≤ run.length, (run.state time).notified.Nodup
  /-- In the end exactly the waiters on both lists are notified. -/
  notified_all : ∀ stack queue,
    Chain (run.state 0).next (run.state 0).awaiting stack →
    Chain (run.state 0).next (run.state 0).toResumeHead queue →
    ∀ time ≤ run.length, (run.state time).pc = .done →
      (run.state time).notified = stack ++ queue
  /-- The walks can go on until they have reached the end of the lists. -/
  goes_on : ∀ time ≤ run.length, (run.state time).pc ≠ .done →
    ∃ successor, step notifier ctx (run.state time) (.run false) =
      some successor

end System

section Mutexes

variable {m m' : Mutex.State Coro}

/-- Only a coroutine that is suspended in its awaiter can be resumed. -/
theorem not_ready (consistent : Mutex.Consistent m) {coro : Coro}
    (notSuspended : m.status coro ≠ .suspended) : ¬ 0 < m.ready coro := by
  intro isReady
  obtain ⟨waiters, owner, represents⟩ := consistent
  have isOwner := represents.owner_of_ready isReady
  exact notSuspended
    ((represents.registered.suspended_iff coro).mpr (.inr isOwner))

theorem status_of_target (consistent : Mutex.Consistent m)
    {agent coro : Coro} (target : (m.registerPc agent).target = some coro) :
    m.status coro = .registering := by
  obtain ⟨waiters, owner, represents⟩ := consistent
  exact represents.registered.target_registering agent coro target

variable [DecidableEq Coro]

theorem consistent_step (consistent : Mutex.Consistent m)
    {action : Mutex.Action Coro} (stepEq : Mutex.step m action = some m') :
    Mutex.Consistent m' := by
  obtain ⟨waiters, owner, represents⟩ := consistent
  obtain ⟨waiters', owner', represents', -⟩ := represents.step stepEq
  exact ⟨waiters', owner', represents'⟩

theorem registerPc_step {action : Mutex.Action Coro}
    (stepEq : Mutex.step m action = some m') {coro : Coro}
    (isOther : coro ≠ agent action) : m'.registerPc coro = m.registerPc coro := by
  cases action with
  | lock locker =>
      simp only [Mutex.step, Option.ite_none_right_eq_some,
        Option.some.injEq] at stepEq
      obtain ⟨-, rfl⟩ := stepEq
      exact Function.update_of_ne isOther ..
  | registerFor notifier waiter =>
      simp only [Mutex.step, Option.ite_none_right_eq_some,
        Option.some.injEq] at stepEq
      obtain ⟨-, rfl⟩ := stepEq
      exact Function.update_of_ne isOther ..
  | tryLock locker =>
      simp only [Mutex.step, Option.some.injEq] at stepEq
      subst stepEq
      unfold Mutex.State.tryLock
      split <;> rfl
  | unlock holder | resume holder =>
      simp only [Mutex.step, Option.ite_none_right_eq_some,
        Option.some.injEq] at stepEq
      obtain ⟨-, rfl⟩ := stepEq
      rfl
  | runRegister registering spuriousFailure =>
      obtain ⟨awaiter, _, ⟨pc, pcEq, _⟩ | ⟨pcEq, _⟩⟩ :=
        Mutex.runRegister_update stepEq
      · rw [pcEq]
        exact Function.update_of_ne isOther ..
      · rw [pcEq]
        exact Function.update_of_ne isOther ..
  | runUnlock holder =>
      obtain ⟨_, _, pcEq, _⟩ := Mutex.runUnlock_update stepEq
      rw [pcEq]

/-- A coroutine that no step locks, registers or resumes keeps the status of
its awaiter. -/
theorem status_step {action : Mutex.Action Coro}
    (stepEq : Mutex.step m action = some m') {coro : Coro}
    (notLock : action ≠ .lock coro)
    (notRegisterFor : ∀ other, action ≠ .registerFor other coro)
    (notTarget : ∀ registering spurious,
      action = .runRegister registering spurious →
        (m.registerPc registering).target ≠ some coro)
    (notResume : action ≠ .resume coro) : m'.status coro = m.status coro := by
  cases action with
  | lock locker =>
      simp only [Mutex.step, Option.ite_none_right_eq_some,
        Option.some.injEq] at stepEq
      obtain ⟨-, rfl⟩ := stepEq
      apply Function.update_of_ne
      rintro rfl
      exact notLock rfl
  | registerFor notifier waiter =>
      simp only [Mutex.step, Option.ite_none_right_eq_some,
        Option.some.injEq] at stepEq
      obtain ⟨-, rfl⟩ := stepEq
      apply Function.update_of_ne
      rintro rfl
      exact notRegisterFor notifier rfl
  | tryLock locker =>
      simp only [Mutex.step, Option.some.injEq] at stepEq
      subst stepEq
      unfold Mutex.State.tryLock
      split <;> rfl
  | unlock holder =>
      simp only [Mutex.step, Option.ite_none_right_eq_some,
        Option.some.injEq] at stepEq
      obtain ⟨-, rfl⟩ := stepEq
      rfl
  | resume holder =>
      simp only [Mutex.step, Option.ite_none_right_eq_some,
        Option.some.injEq] at stepEq
      obtain ⟨-, rfl⟩ := stepEq
      apply Function.update_of_ne
      rintro rfl
      exact notResume rfl
  | runRegister registering spuriousFailure =>
      obtain ⟨awaiter, target, changes⟩ := Mutex.runRegister_update stepEq
      have isOther : coro ≠ awaiter := by
        rintro rfl
        exact notTarget registering spuriousFailure rfl target
      rcases changes with ⟨_, _, _, _, statusEq, _⟩ |
        ⟨_, ⟨statusEq, _⟩ | ⟨_, statusEq, _⟩⟩
      · rw [statusEq]
      · rw [statusEq]
        exact Function.update_of_ne isOther ..
      · rw [statusEq]
        exact Function.update_of_ne isOther ..
  | runUnlock holder =>
      obtain ⟨_, statusEq, _⟩ := Mutex.runUnlock_update stepEq
      rw [statusEq]

end Mutexes

section Invariant

/-- The list that is visited after the one that the notifier visits. -/
def Later (s : State Coro Mtx) (later : List Coro) : Bool → Prop
  | true => later = []
  | false => Chain s.next s.toResumeHead later

/-- Where the walks are: `pending` is the rest of the list that is visited, and
`later` the list that is visited after it. -/
def Position (notifier : Coro) (s : State Coro Mtx)
    (pending later : List Coro) : Pc Coro → Prop
  | .exchange => Chain s.next s.awaiting pending ∧
      Chain s.next s.toResumeHead later
  | .visit head fromToResume =>
      Chain s.next head pending ∧ Later s later fromToResume
  | .register head fromToResume =>
      (∃ rest, pending = head :: rest ∧ Chain s.next (s.next head) rest) ∧
      Later s later fromToResume ∧
      ∃ mtx, s.waits head = some mtx ∧
        ((s.mutex mtx).registerPc notifier).target = some head ∧
        ((s.mutex mtx).registerPc notifier).byNotifier = true
  | .readNext head fromToResume => s.waits head ≠ none ∧
      Chain s.next (s.next head) pending ∧ Later s later fromToResume
  | .takeResume => pending = [] ∧ Chain s.next s.toResumeHead later
  | .done => pending = [] ∧ later = []
  | .lost => False

/-- The waiter sleeps, and at most the notifier registers it. -/
structure Asleep (notifier : Coro) (s : State Coro Mtx) (coro : Coro) :
    Prop where
  waits : s.waits coro ≠ none
  status : ∀ mtx, (s.mutex mtx).status coro = .idle ∨
    ((s.mutex mtx).registerPc notifier).target = some coro

/-- The inductive invariant: `all` are the waiters on both lists. -/
structure Inv (notifier : Coro) (all : List Coro) (s : State Coro Mtx) :
    Prop where
  nodup : all.Nodup
  consistent : ∀ mtx, Mutex.Consistent (s.mutex mtx)
  registering : ∀ mtx, (s.mutex mtx).registerPc notifier = .idle ∨
    ∃ head fromToResume, s.pc = .register head fromToResume ∧
      s.waits head = some mtx
  lists : ∃ pending later, s.notified ++ (pending ++ later) = all ∧
    Position notifier s pending later s.pc ∧
    ∀ coro ∈ pending ++ later, Asleep notifier s coro

variable {notifier : Coro} {all : List Coro} {s s' : State Coro Mtx}

theorem Asleep.not_suspended {coro : Coro} (asleep : Asleep notifier s coro)
    {mtx : Mtx} (consistent : Mutex.Consistent (s.mutex mtx)) :
    (s.mutex mtx).status coro ≠ .suspended := by
  rcases asleep.status mtx with isIdle | target
  · simp [isIdle]
  · simp [status_of_target consistent target]

/-- The waiter in `register_awaiting` is the next one of the list. -/
theorem Inv.registering_waits (inv : Inv notifier all s) {head : Coro}
    {fromToResume : Bool} (atRegister : s.pc = .register head fromToResume) :
    Asleep notifier s head := by
  obtain ⟨pending, later, _, position, asleep⟩ := inv.lists
  rw [atRegister] at position
  obtain ⟨⟨rest, rfl, _⟩, _⟩ := position
  exact asleep head (by simp)

variable [DecidableEq Coro] [DecidableEq Mtx]

omit [DecidableEq Coro] [DecidableEq Mtx] in
theorem Asleep.not_target {coro registering : Coro}
    (asleep : Asleep notifier s coro) {mtx : Mtx}
    (consistent : Mutex.Consistent (s.mutex mtx))
    (isOther : registering ≠ notifier) :
    ((s.mutex mtx).registerPc registering).target ≠ some coro := by
  intro target
  rcases asleep.status mtx with isIdle | byNotifier
  · rw [status_of_target consistent target] at isIdle
    cases isIdle
  · obtain ⟨waiters, owner, represents⟩ := consistent
    exact isOther (represents.registered.target_injective registering notifier
      coro target byNotifier)

omit [DecidableEq Coro] in
theorem Inv.consistent_update (inv : Inv notifier all s) {mtx : Mtx}
    {mutex : Mutex.State Coro} (consistent : Mutex.Consistent mutex) :
    ∀ other, Mutex.Consistent (Function.update s.mutex mtx mutex other) := by
  intro other
  by_cases isMtx : other = mtx
  · subst isMtx
    rw [Function.update_self]
    exact consistent
  · rw [Function.update_of_ne isMtx]
    exact inv.consistent other

section Environment

variable {mtx : Mtx} {action : Mutex.Action Coro} {mutex : Mutex.State Coro}

omit [DecidableEq Mtx] in
theorem Asleep.not_resumed {coro : Coro} (asleep : Asleep notifier s coro)
    (consistent : Mutex.Consistent (s.mutex mtx))
    (stepEq : Mutex.step (s.mutex mtx) action = some mutex) :
    action ≠ .resume coro := by
  rintro rfl
  simp only [Mutex.step, Option.ite_none_right_eq_some] at stepEq
  exact not_ready consistent (asleep.not_suspended consistent) stepEq.1

omit [DecidableEq Mtx] in
theorem waitsAfter_of_ne {coro : Coro} (notResumed : action ≠ .resume coro) :
    s.waitsAfter action coro = s.waits coro := by
  cases action with
  | resume other =>
      apply Function.update_of_ne
      rintro rfl
      exact notResumed rfl
  | lock _ | tryLock _ | unlock _ | runUnlock _ | registerFor _ _
  | runRegister _ _ => rfl

theorem registerPc_environment
    (stepEq : Mutex.step (s.mutex mtx) action = some mutex)
    (isOther : agent action ≠ notifier) (other : Mtx) :
    ((s.environment mtx action mutex).mutex other).registerPc notifier =
      (s.mutex other).registerPc notifier := by
  by_cases isMtx : other = mtx
  · subst isMtx
    simp only [State.environment, Function.update_self]
    exact registerPc_step stepEq isOther.symm
  · simp [State.environment, isMtx]

theorem Asleep.environment {coro : Coro} (asleep : Asleep notifier s coro)
    (consistent : Mutex.Consistent (s.mutex mtx))
    (stepEq : Mutex.step (s.mutex mtx) action = some mutex)
    (isOther : agent action ≠ notifier) (awake : s.awake action = true) :
    Asleep notifier (s.environment mtx action mutex) coro := by
  have notResumed := asleep.not_resumed consistent stepEq
  constructor
  · have waitsEq : (s.environment mtx action mutex).waits coro =
        s.waits coro := waitsAfter_of_ne notResumed
    rw [waitsEq]
    exact asleep.waits
  · intro other
    rw [registerPc_environment stepEq isOther]
    by_cases isMtx : other = mtx
    · subst isMtx
      have statusEq : mutex.status coro = (s.mutex other).status coro := by
        apply status_step stepEq
        · rintro rfl
          exact asleep.waits (by simpa [State.awake] using awake)
        · rintro registering rfl
          simp only [State.awake, decide_eq_true_eq] at awake
          exact asleep.waits awake.2
        · rintro registering spurious rfl
          exact asleep.not_target consistent isOther
        · exact notResumed
      simp only [State.environment, Function.update_self, statusEq]
      exact asleep.status other
    · simp only [State.environment, Function.update_of_ne isMtx]
      exact asleep.status other

/-- The other coroutines leave the walks alone, unless they overtake them. -/
theorem Inv.environment (inv : Inv notifier all s)
    (stepEq : Mutex.step (s.mutex mtx) action = some mutex)
    (isOther : agent action ≠ notifier) (awake : s.awake action = true)
    (keeps : overtakes s (.mutex mtx action) = false) :
    Inv notifier all (s.environment mtx action mutex) := by
  have consistent := inv.consistent mtx
  have registerPc := registerPc_environment stepEq isOther
  have sleeps : ∀ {coro}, Asleep notifier s coro →
      Asleep notifier (s.environment mtx action mutex) coro := fun asleep =>
    asleep.environment consistent stepEq isOther awake
  have waitsEq : ∀ {coro}, Asleep notifier s coro →
      (s.environment mtx action mutex).waits coro = s.waits coro :=
    fun asleep => waitsAfter_of_ne (asleep.not_resumed consistent stepEq)
  constructor
  · exact inv.nodup
  · exact inv.consistent_update (consistent_step consistent stepEq)
  · intro other
    rw [registerPc]
    apply (inv.registering other).imp_right
    rintro ⟨head, fromToResume, atRegister, isMtx⟩
    refine ⟨head, fromToResume, atRegister, ?_⟩
    rw [waitsEq (inv.registering_waits atRegister)]
    exact isMtx
  · obtain ⟨pending, later, allEq, position, asleep⟩ := inv.lists
    refine ⟨pending, later, allEq, ?_, fun coro isMember =>
      sleeps (asleep coro isMember)⟩
    have pcEq : (s.environment mtx action mutex).pc = s.pc := rfl
    rw [pcEq]
    cases pc : s.pc with
    | exchange | visit _ _ | takeResume | done | lost =>
        rw [pc] at position
        exact position
    | register head fromToResume =>
        have headWaits := waitsEq (inv.registering_waits pc)
        rw [pc] at position
        obtain ⟨linked, isLater, own, isOwn, target, byNotifier⟩ := position
        refine ⟨linked, isLater, own, headWaits.trans isOwn, ?_, ?_⟩
        · rw [registerPc]
          exact target
        · rw [registerPc]
          exact byNotifier
    | readNext head fromToResume =>
        rw [pc] at position
        obtain ⟨headWaits, linked⟩ := position
        refine ⟨?_, linked⟩
        have notResumed : action ≠ .resume head := by
          rintro rfl
          simp [overtakes, pc] at keeps
        have headEq : (s.environment mtx action mutex).waits head =
            s.waits head := waitsAfter_of_ne notResumed
        rw [headEq]
        exact headWaits

end Environment

section Notifier

omit [DecidableEq Coro] [DecidableEq Mtx] in
/-- No `register_awaiting` of the notifier is under way elsewhere. -/
theorem Inv.registerPc_idle (inv : Inv notifier all s)
    (notRegister : ∀ head fromToResume, s.pc ≠ .register head fromToResume)
    (mtx : Mtx) : (s.mutex mtx).registerPc notifier = .idle := by
  rcases inv.registering mtx with isIdle | ⟨head, fromToResume, atRegister, _⟩
  · exact isIdle
  · exact absurd atRegister (notRegister head fromToResume)

omit [DecidableEq Coro] [DecidableEq Mtx] in
/-- A step of the notifier that leaves the mutexes alone. -/
theorem Inv.goTo (inv : Inv notifier all s) {pc : Pc Coro}
    {awaiting toResumeHead : Option Coro}
    (notRegister : ∀ head fromToResume, s.pc ≠ .register head fromToResume)
    (moves : ∀ pending later, Position notifier s pending later s.pc →
      Position notifier { s with pc, awaiting, toResumeHead } pending later pc ∨
      pending = [] ∧
        Position notifier { s with pc, awaiting, toResumeHead } later [] pc) :
    Inv notifier all { s with pc, awaiting, toResumeHead } := by
  refine ⟨inv.nodup, inv.consistent,
    fun mtx => .inl (inv.registerPc_idle notRegister mtx), ?_⟩
  obtain ⟨pending, later, allEq, position, asleep⟩ := inv.lists
  rcases moves pending later position with goesOn | ⟨rfl, isNext⟩
  · exact ⟨pending, later, allEq, goesOn, fun coro isMember =>
      ⟨(asleep coro isMember).waits, (asleep coro isMember).status⟩⟩
  · refine ⟨later, [], by simpa using allEq, isNext, fun coro isMember => ?_⟩
    have sleeps := asleep coro (by simpa using isMember)
    exact ⟨sleeps.waits, sleeps.status⟩

theorem Inv.startRegister (inv : Inv notifier all s) {head : Coro}
    {fromToResume : Bool} (atVisit : s.pc = .visit (some head) fromToResume) :
    Inv notifier all (s.startRegister notifier head fromToResume) := by
  have isIdle := inv.registerPc_idle (by simp [atVisit])
  obtain ⟨pending, later, allEq, position, asleep⟩ := inv.lists
  rw [atVisit] at position
  obtain ⟨chain, isLater⟩ := position
  obtain ⟨rest, rfl, restChain⟩ := chain.exists_cons
  have headSleeps := asleep head (by simp)
  obtain ⟨mtx, isMtx⟩ := Option.ne_none_iff_exists'.mp headSleeps.waits
  have statusIdle : (s.mutex mtx).status head = .idle := by
    apply (headSleeps.status mtx).resolve_right
    simp [isIdle, Mutex.RegisterPc.target]
  have stepEq : Mutex.step (s.mutex mtx) (.registerFor notifier head) =
      some ((s.mutex mtx).startRegister notifier head true) :=
    if_pos ⟨isIdle mtx, statusIdle⟩
  simp only [State.startRegister, isMtx]
  constructor
  · exact inv.nodup
  · exact inv.consistent_update (consistent_step (inv.consistent mtx) stepEq)
  · intro other
    by_cases isOwn : other = mtx
    · subst isOwn
      exact .inr ⟨head, fromToResume, rfl, isMtx⟩
    · simp only [Function.update_of_ne isOwn]
      exact .inl (isIdle other)
  · refine ⟨head :: rest, later, allEq, ?_, ?_⟩
    · have registerPc : ((s.mutex mtx).startRegister notifier head
          true).registerPc notifier = .load head true :=
        Function.update_self ..
      refine ⟨⟨rest, rfl, restChain⟩, ?_, mtx, isMtx, ?_, ?_⟩
      · cases fromToResume <;> exact isLater
      · simp [registerPc, Mutex.RegisterPc.target]
      · simp [registerPc, Mutex.RegisterPc.byNotifier]
    · intro coro isMember
      have sleeps := asleep coro isMember
      refine ⟨sleeps.waits, ?_⟩
      intro other
      by_cases isOwn : other = mtx
      · subst isOwn
        simp only [Function.update_self, Mutex.State.startRegister]
        by_cases isHead : coro = head
        · right
          simp [isHead, Mutex.RegisterPc.target]
        · left
          rw [Function.update_of_ne isHead]
          apply (sleeps.status other).resolve_right
          simp [isIdle, Mutex.RegisterPc.target]
      · simp only [Function.update_of_ne isOwn]
        exact sleeps.status other

omit [DecidableEq Coro] in
/-- `register_awaiting` goes on. -/
theorem Inv.keepRegister (inv : Inv notifier all s) {head : Coro}
    {fromToResume : Bool} (atRegister : s.pc = .register head fromToResume)
    {mtx : Mtx} (isMtx : s.waits head = some mtx) {mutex : Mutex.State Coro}
    (consistent : Mutex.Consistent mutex)
    (statusEq : mutex.status = (s.mutex mtx).status)
    (target : (mutex.registerPc notifier).target = some head)
    (byNotifier : (mutex.registerPc notifier).byNotifier = true) :
    Inv notifier all
      { s with mutex := Function.update s.mutex mtx mutex } := by
  obtain ⟨pending, later, allEq, position, asleep⟩ := inv.lists
  rw [atRegister] at position
  obtain ⟨linked, isLater, own, isOwn, oldTarget, _⟩ := position
  obtain rfl : mtx = own := Option.some.inj (isMtx.symm.trans isOwn)
  constructor
  · exact inv.nodup
  · exact inv.consistent_update consistent
  · intro other
    by_cases isOther : other = mtx
    · subst isOther
      exact .inr ⟨head, fromToResume, atRegister, isMtx⟩
    · simp only [Function.update_of_ne isOther]
      exact inv.registering other
  · refine ⟨pending, later, allEq, ?_, ?_⟩
    · rw [atRegister]
      refine ⟨linked, ?_, mtx, isMtx, ?_, ?_⟩
      · cases fromToResume <;> exact isLater
      · simpa using target
      · simpa using byNotifier
    · intro coro isMember
      have sleeps := asleep coro isMember
      refine ⟨sleeps.waits, ?_⟩
      intro other
      by_cases isOther : other = mtx
      · subst isOther
        simp only [Function.update_self, statusEq, target]
        rw [← oldTarget]
        exact sleeps.status other
      · simp only [Function.update_of_ne isOther]
        exact sleeps.status other

/-- `register_awaiting` has returned, and the waiter was registered or
spawned. -/
theorem Inv.endRegister (inv : Inv notifier all s) {head : Coro}
    {fromToResume : Bool} (atRegister : s.pc = .register head fromToResume)
    {mtx : Mtx} (isMtx : s.waits head = some mtx) {mutex : Mutex.State Coro}
    (consistent : Mutex.Consistent mutex)
    (statusEq : mutex.status =
      Function.update (s.mutex mtx).status head .suspended)
    (isIdle : mutex.registerPc notifier = .idle) :
    Inv notifier all
      { s with
        mutex := Function.update s.mutex mtx mutex
        pc := .readNext head fromToResume
        notified := s.notified ++ [head] } := by
  obtain ⟨pending, later, allEq, position, asleep⟩ := inv.lists
  rw [atRegister] at position
  obtain ⟨⟨rest, rfl, linked⟩, isLater, own, isOwn, oldTarget, _⟩ := position
  obtain rfl : mtx = own := Option.some.inj (isMtx.symm.trans isOwn)
  constructor
  · exact inv.nodup
  · exact inv.consistent_update consistent
  · intro other
    left
    by_cases isOther : other = mtx
    · subst isOther
      simp only [Function.update_self]
      exact isIdle
    · simp only [Function.update_of_ne isOther]
      apply (inv.registering other).resolve_right
      rintro ⟨registered, _, pcEq, waitsEq⟩
      obtain ⟨rfl, _⟩ : head = registered ∧ _ := by
        simpa using atRegister.symm.trans pcEq
      exact isOther (Option.some.inj (waitsEq.symm.trans isMtx))
  · refine ⟨rest, later, by simpa using allEq, ?_, ?_⟩
    · refine ⟨by simp [isMtx], linked, ?_⟩
      cases fromToResume <;> exact isLater
    · intro coro isMember
      have isOtherCoro : coro ≠ head := by
        rintro rfl
        have nodup := inv.nodup
        rw [← allEq, List.nodup_append, List.cons_append,
          List.nodup_cons] at nodup
        exact nodup.2.1.1 isMember
      have sleeps := asleep coro
        (List.mem_append.mpr ((List.mem_append.mp isMember).imp_left
          (List.mem_cons_of_mem _)))
      refine ⟨sleeps.waits, ?_⟩
      intro other
      by_cases isOther : other = mtx
      · subst isOther
        left
        simp only [Function.update_self, statusEq,
          Function.update_of_ne isOtherCoro]
        apply (sleeps.status other).resolve_right
        rw [oldTarget]
        simpa using isOtherCoro.symm
      · simp only [Function.update_of_ne isOther]
        exact sleeps.status other

theorem Inv.runRegister (inv : Inv notifier all s) {head : Coro}
    {fromToResume spuriousFailure : Bool}
    (atRegister : s.pc = .register head fromToResume)
    (stepEq : s.runRegister notifier head fromToResume spuriousFailure =
      some s') : Inv notifier all s' := by
  obtain ⟨pending, later, allEq, position, asleep⟩ := inv.lists
  rw [atRegister] at position
  obtain ⟨_, _, mtx, isMtx, target, byNotifier⟩ := position
  simp only [State.runRegister, isMtx, Option.map_eq_some_iff] at stepEq
  obtain ⟨mutex, mutexEq, rfl⟩ := stepEq
  have consistent : Mutex.Consistent mutex :=
    consistent_step (inv.consistent mtx)
      (show Mutex.step _ (.runRegister notifier spuriousFailure) = _
        from mutexEq)
  obtain ⟨awaiter, isAwaiter, changes⟩ := Mutex.runRegister_update mutexEq
  obtain rfl : head = awaiter := by
    simpa using target.symm.trans isAwaiter
  rcases changes with ⟨pc, pcEq, pcTarget, pcBy, statusEq, _⟩ |
    ⟨pcEq, ⟨statusEq, _⟩ | ⟨byItself, _⟩⟩
  · have registerPc : mutex.registerPc notifier = pc := by
      rw [pcEq, Function.update_self]
    have notIdle : mutex.registerPc notifier ≠ .idle := by
      intro isIdle
      rw [registerPc] at isIdle
      simp [isIdle, Mutex.RegisterPc.target] at pcTarget
    rw [if_neg notIdle]
    apply inv.keepRegister atRegister isMtx consistent statusEq
    · rw [registerPc, pcTarget]
    · rw [registerPc, pcBy, byNotifier]
  · have isIdle : mutex.registerPc notifier = .idle := by
      rw [pcEq, Function.update_self]
    rw [if_pos isIdle]
    exact inv.endRegister atRegister isMtx consistent statusEq isIdle
  · rw [byNotifier] at byItself
    cases byItself

omit [DecidableEq Coro] [DecidableEq Mtx] in
theorem Inv.readNext (inv : Inv notifier all s) {head : Coro}
    {fromToResume : Bool} (atRead : s.pc = .readNext head fromToResume) :
    Inv notifier all (s.readNext head fromToResume) := by
  obtain ⟨pending, later, allEq, position, asleep⟩ := inv.lists
  have headWaits : s.waits head ≠ none := by
    rw [atRead] at position
    exact position.1
  obtain ⟨mtx, isMtx⟩ := Option.ne_none_iff_exists'.mp headWaits
  simp only [State.readNext, isMtx]
  apply inv.goTo (by simp [atRead])
  intro pending later position
  rw [atRead] at position
  obtain ⟨_, linked, isLater⟩ := position
  refine .inl ⟨linked, ?_⟩
  cases fromToResume <;> exact isLater

theorem Inv.run (inv : Inv notifier all s) {spuriousFailure : Bool}
    (stepEq : s.run notifier spuriousFailure = some s') :
    Inv notifier all s' := by
  cases pc : s.pc with
  | exchange =>
      simp only [State.run, pc, Option.some.injEq] at stepEq
      subst stepEq
      apply inv.goTo (by simp [pc])
      intro pending later position
      rw [pc] at position
      exact .inl position
  | takeResume =>
      simp only [State.run, pc, Option.some.injEq] at stepEq
      subst stepEq
      apply inv.goTo (by simp [pc])
      intro pending later position
      rw [pc] at position
      exact .inr ⟨position.1, position.2, rfl⟩
  | visit head fromToResume =>
      cases head with
      | some head =>
          simp only [State.run, pc, Option.some.injEq] at stepEq
          subst stepEq
          exact inv.startRegister pc
      | none =>
          cases fromToResume <;>
            simp only [State.run, pc, Option.some.injEq] at stepEq <;>
            subst stepEq
          all_goals
            apply inv.goTo (by simp [pc])
            intro pending later position
            rw [pc] at position
            exact .inl ⟨Chain.null_iff.mp position.1, position.2⟩
  | register head fromToResume =>
      simp only [State.run, pc] at stepEq
      exact inv.runRegister pc stepEq
  | readNext head fromToResume =>
      simp only [State.run, pc, Option.some.injEq] at stepEq
      subst stepEq
      exact inv.readNext pc
  | done | lost => simp [State.run, pc] at stepEq

end Notifier

variable [DecidableEq Ctx] {ctx : Coro → Ctx}

theorem Inv.step (inv : Inv notifier all s) {action : Action Coro Mtx}
    (stepEq : NotifyAllWalk.step notifier ctx s action = some s')
    (keeps : overtakes s action = false) : Inv notifier all s' := by
  cases action with
  | run spuriousFailure => exact inv.run stepEq
  | mutex mtx action =>
      simp only [NotifyAllWalk.step, Option.ite_none_right_eq_some,
        Option.map_eq_some_iff] at stepEq
      obtain ⟨may, mutex, mutexEq, rfl⟩ := stepEq
      simp only [State.may, Bool.and_eq_true, decide_eq_true_eq] at may
      exact inv.environment mutexEq may.1.1 may.1.2 keeps

omit [DecidableEq Mtx] [DecidableEq Ctx] in
theorem Initial.inv {stack queue : List Coro} (initial : Initial notifier s)
    (stackChain : Chain s.next s.awaiting stack)
    (queueChain : Chain s.next s.toResumeHead queue) :
    Inv notifier (stack ++ queue) s := by
  constructor
  · obtain ⟨stack', queue', stackChain', queueChain', nodup⟩ := initial.lists
    rw [stackChain.unique stackChain', queueChain.unique queueChain']
    exact nodup
  · exact fun mtx => Mutex.consistent_of_reachable (initial.mutex mtx)
  · exact fun mtx => .inl (initial.registerPc mtx)
  · refine ⟨stack, queue, by simp [initial.notified], ?_, ?_⟩
    · rw [initial.pc]
      exact ⟨stackChain, queueChain⟩
    · intro coro isMember
      have waits := initial.waits coro
        ((List.mem_append.mp isMember).imp stackChain.linkedFrom_iff.mpr
          queueChain.linkedFrom_iff.mpr)
      exact ⟨waits.1, fun mtx => .inl (waits.2 mtx)⟩

theorem Inv.goes_on (inv : Inv notifier all s) (notDone : s.pc ≠ .done) :
    ∃ successor, NotifyAllWalk.step notifier ctx s (.run false) =
      some successor := by
  obtain ⟨pending, later, _, position, _⟩ := inv.lists
  cases pc : s.pc with
  | exchange | takeResume | readNext _ _ => simp [NotifyAllWalk.step, State.run, pc]
  | visit head fromToResume =>
      cases head <;> cases fromToResume <;>
        simp [NotifyAllWalk.step, State.run, pc]
  | register head fromToResume =>
      rw [pc] at position
      obtain ⟨_, _, mtx, isMtx, target, _⟩ := position
      obtain ⟨mutex, mutexEq⟩ : ∃ mutex,
          (s.mutex mtx).runRegister notifier false = some mutex := by
        unfold Mutex.State.runRegister
        cases registerPc : (s.mutex mtx).registerPc notifier with
        | idle => simp [registerPc, Mutex.RegisterPc.target] at target
        | load _ _ => exact ⟨_, rfl⟩
        | compareExchange _ _ _ =>
            simp only
            split <;> split <;> exact ⟨_, rfl⟩
      simp [NotifyAllWalk.step, State.run, pc, State.runRegister, isMtx,
        mutexEq]
  | done => exact absurd pc notDone
  | lost =>
      rw [pc] at position
      exact position.elim

/-- The walks survive every run in which no waiter overtakes them. -/
theorem run_notifies_all (run : (system Mtx notifier ctx).Run)
    (guarded : run.Guarded fun s action => overtakes s action = false) :
    Walks run := by
  have inv : ∀ {stack queue},
      Chain (run.state 0).next (run.state 0).awaiting stack →
      Chain (run.state 0).next (run.state 0).toResumeHead queue →
      ∀ time ≤ run.length,
        Inv notifier (stack ++ queue) (run.state time) := by
    intro stack queue stackChain queueChain time timeLe
    induction time with
    | zero =>
        have starts : Initial notifier (run.state 0) := run.starts
        exact starts.inv stackChain queueChain
    | succ time ih =>
        exact (ih (Nat.le_of_succ_le timeLe)).step (run.steps time timeLe)
          (guarded time timeLe)
  have starts : Initial notifier (run.state 0) := run.starts
  obtain ⟨stack, queue, stackChain, queueChain, _⟩ := starts.lists
  constructor
  · intro time timeLe isLost
    obtain ⟨_, _, _, position, _⟩ := (inv stackChain queueChain time timeLe).lists
    rw [isLost] at position
    exact position
  · intro time timeLe
    have holds := inv stackChain queueChain time timeLe
    obtain ⟨pending, later, allEq, _⟩ := holds.lists
    have nodup := holds.nodup
    rw [← allEq] at nodup
    exact nodup.of_append_left
  · intro stack queue stackChain queueChain time timeLe isDone
    obtain ⟨pending, later, allEq, position, _⟩ :=
      (inv stackChain queueChain time timeLe).lists
    rw [isDone] at position
    obtain ⟨rfl, rfl⟩ := position
    simpa using allEq
  · exact fun time timeLe => (inv stackChain queueChain time timeLe).goes_on

end Invariant

section Overtaken

def lockActions : List (Mutex.Action (Fin 3)) :=
  [.lock 2, .runRegister 2 false, .runRegister 2 false]

/-- A mutex that a coroutine holds. -/
def heldMutex : Mutex.State (Fin 3) :=
  ((Mutex.system (Fin 3)).exec (.new (Fin 3)) lockActions).get (by decide)

theorem heldMutex_reachable : (Mutex.system (Fin 3)).Reachable heldMutex := by
  have execEq : (Mutex.system (Fin 3)).exec (.new (Fin 3)) lockActions =
      some heldMutex := (Option.some_get _).symm
  exact .exec (.start rfl) execEq

/-- One waiter of the mutex is on `awaiting`. -/
def oneWaiter : State (Fin 3) Unit where
  mutex _ := heldMutex
  waits coro := if coro = 1 then some () else none
  awaiting := some 1
  toResumeHead := none
  next _ := none
  pc := .exchange
  notified := []

theorem oneWaiter_initial : Initial 0 oneWaiter where
  pc := rfl
  notified := rfl
  mutex _ := heldMutex_reachable
  registerPc _ := show heldMutex.registerPc 0 = .idle by decide
  lists := ⟨[1], [], ⟨rfl, rfl⟩, rfl, by decide⟩
  waits coro linked := by
    have chain : Chain oneWaiter.next oneWaiter.awaiting [1] := ⟨rfl, rfl⟩
    rcases linked with onStack | onQueue
    · obtain rfl := List.mem_singleton.mp (chain.linkedFrom_iff.mp onStack)
      have isIdle : heldMutex.status 1 = .idle := by decide
      exact ⟨by decide, fun _ => isIdle⟩
    · cases onQueue

/-- The notifier runs on one context, the others on another one. -/
def contexts (coro : Fin 3) : Bool := decide (coro ≠ 0)

/-- The holder unlocks the mutex to the waiter, which is resumed. -/
def unlockActions : List (Action (Fin 3) Unit) :=
  [.mutex () (.unlock 2), .mutex () (.runUnlock 2), .mutex () (.runUnlock 2),
    .mutex () (.runUnlock 2), .mutex () (.runUnlock 2),
    .mutex () (.runUnlock 2), .mutex () (.runUnlock 2),
    .mutex () (.runUnlock 2), .mutex () (.resume 1)]

/-- The waiter is registered, and resumed after both walks. -/
def notifiedRun : (system Unit (0 : Fin 3) contexts).Run :=
  .ofActions oneWaiter oneWaiter_initial
    (List.replicate 8 (.run false) ++ unlockActions) (by decide)

theorem run_notifies_all_notified : Walks notifiedRun :=
  run_notifies_all notifiedRun
    (by unfold TransitionSystem.Run.Guarded; decide)

/-- The waiter is resumed right after its registration. -/
def overtakenRun : (system Unit (0 : Fin 3) contexts).Run :=
  .ofActions oneWaiter oneWaiter_initial
    (List.replicate 4 (.run false) ++ unlockActions ++ [.run false])
    (by decide)

theorem run_notifies_all_fails :
    ¬ ∀ run : (system Unit (0 : Fin 3) contexts).Run, Walks run := by
  intro law
  have found : (overtakenRun.state 14).pc = .lost := by decide
  exact (law overtakenRun).never_lost 14 (by decide) found

end Overtaken

end CoContext.NotifyAllWalk
