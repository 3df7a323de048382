import CoContext.ChannelUnwinding
import CoContext.RendezvousSafety

/-!
# The unbuffered channel and constructors that throw

`release` constructs the element in the `item` of a receiver while it owns
`m_release_mtx` and `m_match_mtx`, and an exception leaves both of them
locked.  `acquire` moves its `item` into the promise when it has unlocked its
mutexes.
-/

namespace CoContext.Rendezvous

open CoContext.Sequential

open CoContext.Channel (Constructor)

variable {Coro T : Type*}

inductive Lock
  | releaseMtx
  | acquireMtx
  | matchMtx
  deriving DecidableEq

/-- The code at the position runs with the mutex locked. -/
def Pc.Owns : Pc Coro T → Lock → Prop
  | .sender _ _, .releaseMtx => True
  | .receiver _ _, .acquireMtx => True
  | .sender _ pc, .matchMtx => pc.place = .holds
  | .receiver _ pc, .matchMtx => pc.place = .holds
  | _, _ => False

def Pc.operation : Pc Coro T → Option (Channel.Operation T)
  | .awaitRelease item | .sender item _ => some (.release item)
  | .awaitAcquire .acquire | .receiver .acquire _ => some .acquire
  | .awaitAcquire .drop | .receiver .drop _ => some .drop
  | .idle | .undefined => none

def Pc.isIdle : Pc Coro T → Bool
  | .idle => true
  | .awaitRelease _ | .awaitAcquire _ | .sender _ _ | .receiver _ _
  | .undefined => false

theorem Pc.eq_idle {pc : Pc Coro T} (isIdle : pc.isIdle = true) :
    pc = .idle := by
  cases pc <;> simp_all [Pc.isIdle]

/-- What another coroutine may do to the position of a coroutine. -/
inductive Moved (pc : Pc Coro T) : Pc Coro T → Prop
  | same : Moved pc pc
  | resumed : Moved pc pc.resumed
  | relocking : Moved pc pc.relocking

theorem Moved.isIdle {pc pc' : Pc Coro T} (moved : Moved pc pc') :
    pc'.isIdle = pc.isIdle := by
  cases moved with
  | same => rfl
  | resumed => unfold Pc.resumed; split <;> rfl
  | relocking => unfold Pc.relocking; split <;> rfl

theorem Moved.emplace_iff {pc pc' : Pc Coro T} (moved : Moved pc pc')
    (item : T) : pc' = .sender item .emplace ↔ pc = .sender item .emplace := by
  cases moved with
  | same => rfl
  | resumed => unfold Pc.resumed; split <;> simp
  | relocking => unfold Pc.relocking; split <;> simp

def Action.coro : Action Coro T → Coro
  | .release coro _ | .receive coro _ | .run coro => coro

namespace State

def mutex (s : State Coro T) : Lock → Mutex Coro
  | .releaseMtx => s.releaseMtx
  | .acquireMtx => s.acquireMtx
  | .matchMtx => s.matchMtx

/-- An unbuffered channel holds no values. -/
def size (_ : State Coro T) : Nat :=
  0

/-- The constructors that run in the next step of a coroutine. -/
def constructs (s : State Coro T) (coro : Coro) : Constructor → Bool
  | .argument => (s.pc coro).isIdle
  | .element _ =>
      match s.pc coro with
      | .sender _ .emplace => s.receiver.isSome
      | _ => false
  | .result _ =>
      match s.pc coro with
      | .receiver .acquire .unlockAcquire => (s.item coro).isSome
      | _ => false

theorem emplaces {s : State Coro T} {coro : Coro} {cleared : Bool}
    (permitted : s.constructs coro (.element cleared) = true) :
    ∃ item, s.pc coro = .sender item .emplace := by
  unfold constructs at permitted
  dsimp only at permitted
  split at permitted
  · next item position => exact ⟨item, position⟩
  · contradiction

theorem returnsItem {s : State Coro T} {coro : Coro} {cleared : Bool}
    (permitted : s.constructs coro (.result cleared) = true) :
    s.pc coro = .receiver .acquire .unlockAcquire := by
  unfold constructs at permitted
  dsimp only at permitted
  split at permitted
  · next position => exact position
  · contradiction

variable [DecidableEq Coro]

/-- The state in which an exception leaves the channel: `emplace` throws
before `m_receiver` is reset, and the result is moved after `m_acquire_mtx`
was unlocked. -/
def unwind (s : State Coro T) (coro : Coro) (constructor : Constructor) :
    Option (State Coro T) :=
  if s.constructs coro constructor then
    match constructor with
    | .argument | .element _ => some s
    | .result _ => step s (.run coro)
  else
    none

end State

variable [DecidableEq Coro]

/-- An unbuffered channel whose elements may throw. -/
def unwinding (Coro T : Type*) [DecidableEq Coro] :
    Unwinding (system Coro T) Coro Constructor Lock where
  agent := Action.coro
  outside s coro := (s.pc coro).isIdle
  unwind := State.unwind
  outcome s coro := Channel.thrown (s.pc coro).operation
  locked s lock := (s.mutex lock).awaiting.isSome
  owns s coro := (s.pc coro).Owns
  sameValues s s' := s.size = s'.size
  unwind_cases {s s' coro constructor} unwindEq := by
    unfold State.unwind at unwindEq
    rw [Option.ite_none_right_eq_some] at unwindEq
    obtain ⟨-, unwindEq⟩ := unwindEq
    cases constructor with
    | argument | element cleared =>
        exact Or.inl (Option.some.inj unwindEq).symm
    | result cleared => exact Or.inr ⟨.run coro, rfl, unwindEq⟩

section Positions

variable {s s' : State Coro T} {coro other : Coro}

theorem moved_coSpawnOption (s : State Coro T) (spawned : Option Coro)
    (other : Coro) : Moved (s.pc other) ((s.coSpawnOption spawned).pc other) := by
  cases spawned with
  | none => exact .same
  | some head =>
      by_cases isHead : other = head
      · subst isHead
        simpa [State.coSpawnOption, State.coSpawn, State.setPc] using
          Moved.resumed
      · simpa [State.coSpawnOption, State.coSpawn, State.setPc, isHead] using
          Moved.same

theorem moved_lockMatch (isOther : other ≠ coro) (acquired waiting : Pc Coro T) :
    Moved (s.pc other) ((s.lockMatch coro acquired waiting).pc other) := by
  unfold State.lockMatch
  split <;> simpa [State.setPc, isOther] using Moved.same

theorem moved_unlockMatch (isOther : other ≠ coro) (pc : Pc Coro T) :
    Moved (s.pc other) ((s.unlockMatch coro pc).pc other) := by
  unfold State.unlockMatch
  split
  · simpa [State.setPc, isOther] using Moved.same
  · next spawned mutex unlocked =>
      have moved := moved_coSpawnOption
        { s.setPc coro pc with matchMtx := mutex } spawned other
      simpa [State.setPc, isOther] using moved

theorem moved_unlockRelease (isOther : other ≠ coro) :
    Moved (s.pc other) ((s.unlockRelease coro).pc other) := by
  unfold State.unlockRelease
  split
  · simpa [State.setPc, isOther] using Moved.same
  · next spawned mutex unlocked =>
      have moved := moved_coSpawnOption
        { s.setPc coro .idle with releaseMtx := mutex } spawned other
      simpa [State.setPc, isOther] using moved

theorem moved_unlockAcquire (isOther : other ≠ coro) :
    Moved (s.pc other) ((s.unlockAcquire coro).pc other) := by
  unfold State.unlockAcquire
  split
  · simpa [State.setPc, isOther] using Moved.same
  · next spawned mutex unlocked =>
      have moved := moved_coSpawnOption
        { s.setPc coro .idle with acquireMtx := mutex } spawned other
      simpa [State.setPc, isOther] using moved

theorem moved_notify (isOther : other ≠ coro)
    (within : NotifyPc Coro → Pc Coro T) (next : Pc Coro T)
    (pc : NotifyPc Coro) :
    Moved (s.pc other) ((s.notify coro within next pc).pc other) := by
  cases pc with
  | takeResume | exchange | splice taken =>
      unfold State.notify
      dsimp only
      split <;> simpa [State.setPc, isOther] using Moved.same
  | register head =>
      unfold State.notify
      dsimp only
      split
      · next mutex registered =>
          have moved := moved_coSpawnOption
            { s.setPc coro next with matchMtx := mutex } (some head) other
          simpa [State.coSpawnOption, State.setPc, isOther] using moved
      · by_cases isHead : other = head
        · subst isHead
          simpa [State.setPc] using Moved.relocking
        · simpa [State.setPc, isOther, isHead] using Moved.same

theorem moved_runSender {item : T} {pc : SenderPc Coro}
    (isOther : other ≠ coro) (stepEq : s.runSender coro item pc = some s') :
    Moved (s.pc other) (s'.pc other) := by
  cases pc with
  | awaitMatch | sleeping | relock => simp [State.runSender] at stepEq
  | checkReceiver | testPred | emplace =>
      rw [State.runSender] at stepEq
      split at stepEq <;> rw [Option.some.injEq] at stepEq <;>
        subst stepEq <;> simpa [State.setPc, isOther] using Moved.same
  | push =>
      rw [State.runSender, Option.some.injEq] at stepEq
      subst stepEq
      simpa [State.setPc, isOther] using Moved.same
  | lockMatch =>
      rw [State.runSender, Option.some.injEq] at stepEq
      subst stepEq
      exact moved_lockMatch isOther _ _
  | unlockAhead | unlockMatch =>
      rw [State.runSender, Option.some.injEq] at stepEq
      subst stepEq
      exact moved_unlockMatch isOther _
  | notify pc =>
      rw [State.runSender, Option.some.injEq] at stepEq
      subst stepEq
      exact moved_notify isOther _ _ _
  | unlockRelease =>
      rw [State.runSender, Option.some.injEq] at stepEq
      subst stepEq
      exact moved_unlockRelease isOther

theorem moved_runReceiver {receive : Receive} {pc : ReceiverPc Coro}
    (isOther : other ≠ coro)
    (stepEq : s.runReceiver coro receive pc = some s') :
    Moved (s.pc other) (s'.pc other) := by
  cases pc with
  | awaitMatch | sleeping | relock => simp [State.runReceiver] at stepEq
  | checkSender | testPred =>
      rw [State.runReceiver] at stepEq
      split at stepEq <;> rw [Option.some.injEq] at stepEq <;>
        subst stepEq <;> simpa [State.setPc, isOther] using Moved.same
  | publish | push | clearSender =>
      rw [State.runReceiver, Option.some.injEq] at stepEq
      subst stepEq
      simpa [State.setPc, isOther] using Moved.same
  | lockMatch =>
      rw [State.runReceiver, Option.some.injEq] at stepEq
      subst stepEq
      exact moved_lockMatch isOther _ _
  | unlockAhead | unlockMatch =>
      rw [State.runReceiver, Option.some.injEq] at stepEq
      subst stepEq
      exact moved_unlockMatch isOther _
  | notify pc =>
      rw [State.runReceiver, Option.some.injEq] at stepEq
      subst stepEq
      exact moved_notify isOther _ _ _
  | unlockAcquire =>
      rw [State.runReceiver, Option.some.injEq] at stepEq
      subst stepEq
      exact moved_unlockAcquire isOther

theorem moved_step {action : Action Coro T} (isOther : other ≠ action.coro)
    (stepEq : step s action = some s') : Moved (s.pc other) (s'.pc other) := by
  cases action with
  | release caller item | receive caller receive =>
      change other ≠ caller at isOther
      rw [step] at stepEq
      split at stepEq
      · rw [Option.some.injEq] at stepEq
        subst stepEq
        simpa [State.setPc, isOther] using Moved.same
      · rw [Option.some.injEq] at stepEq
        subst stepEq
        simpa [State.setPc, isOther] using Moved.same
      · contradiction
  | run caller =>
      cases position : s.pc caller with
      | sender item pc =>
          simp only [step, position] at stepEq
          exact moved_runSender isOther stepEq
      | receiver receive pc =>
          simp only [step, position] at stepEq
          exact moved_runReceiver isOther stepEq
      | idle | awaitRelease | awaitAcquire | undefined =>
          simp [step, position] at stepEq

end Positions

theorem isPrivate : (unwinding Coro T).Private := by
  intro s action s' coro stepEq isOther inside
  change (s'.pc coro).isIdle = false
  rw [(moved_step isOther stepEq).isIdle]
  exact inside

/-- What holds in every state that the channel reaches. -/
theorem consistent_of_reachable {s : State Coro T}
    (reached : (system Coro T).Reachable s) :
    ∃ sender receiver, Consistent s sender receiver := by
  apply reached.invariant
  · rintro s rfl
    exact ⟨none, none, consistent_new⟩
  · rintro s action s' ⟨sender, receiver, consistent⟩ stepEq
    obtain ⟨sender', receiver', after, -⟩ := consistent.step stepEq
    exact ⟨sender', receiver', after⟩

section Owners

variable {s : State Coro T} {sender : Option (Sending Coro T)}
variable {receiver : Option (Receiving Coro)}

omit [DecidableEq Coro] in
/-- A locked mutex has an owner. -/
theorem exists_owner (consistent : Consistent s sender receiver) {lock : Lock}
    (isLocked : (s.mutex lock).awaiting.isSome) :
    ∃ owner, (s.pc owner).Owns lock := by
  have roster := consistent.roster
  cases lock with
  | releaseMtx =>
      obtain ⟨x, rfl⟩ := Option.isSome_iff_exists.mp
        (roster.release.locked.symm.trans isLocked)
      refine ⟨x.coro, ?_⟩
      rw [(roster.senders x.coro x.item x.pc).mpr rfl]
      trivial
  | acquireMtx =>
      obtain ⟨y, rfl⟩ := Option.isSome_iff_exists.mp
        (roster.acquire.locked.symm.trans isLocked)
      refine ⟨y.coro, ?_⟩
      rw [(roster.receivers y.coro y.receive y.pc).mpr rfl]
      trivial
  | matchMtx =>
      have someHolds := consistent.meeting.locked.symm.trans isLocked
      rw [Bool.or_eq_true] at someHolds
      rcases someHolds with holds | holds
      · rcases sender with _ | x
        · simp [Party.holds] at holds
        · refine ⟨x.coro, ?_⟩
          rw [(roster.senders x.coro x.item x.pc).mpr rfl]
          cases place : x.pc.place <;>
            simp_all [Party.holds, Sending.party, Pc.Owns]
      · rcases receiver with _ | y
        · simp [Party.holds] at holds
        · refine ⟨y.coro, ?_⟩
          rw [(roster.receivers y.coro y.receive y.pc).mpr rfl]
          cases place : y.pc.place <;>
            simp_all [Party.holds, Receiving.party, Pc.Owns]

omit [DecidableEq Coro] in
/-- A sender at `emplace` is the only owner of its two mutexes. -/
theorem emplace_owner (consistent : Consistent s sender receiver) {coro : Coro}
    {item : T} (position : s.pc coro = .sender item .emplace) {lock : Lock}
    (notAcquire : lock ≠ .acquireMtx) :
    (s.mutex lock).awaiting.isSome ∧
      ∀ owner, (s.pc owner).Owns lock → owner = coro := by
  have roster := consistent.roster
  obtain rfl := (roster.senders coro item .emplace).mp position
  have onlySender : ∀ owner other pc,
      s.pc owner = .sender other pc → owner = coro := by
    intro owner other pc otherPosition
    have same := (roster.senders owner other pc).mp otherPosition
    simp only [Option.some.injEq, Sending.mk.injEq] at same
    exact same.1.symm
  cases lock with
  | releaseMtx =>
      refine ⟨roster.release.locked, ?_⟩
      intro owner owns
      cases ownerPosition : s.pc owner with
      | sender other pc => exact onlySender owner other pc ownerPosition
      | idle | awaitRelease | awaitAcquire | receiver | undefined =>
          simp [ownerPosition, Pc.Owns] at owns
  | acquireMtx => contradiction
  | matchMtx =>
      refine ⟨consistent.meeting.locked, ?_⟩
      intro owner owns
      cases ownerPosition : s.pc owner with
      | sender other pc => exact onlySender owner other pc ownerPosition
      | receiver receive pc =>
          obtain rfl := (roster.receivers owner receive pc).mp ownerPosition
          have alone := consistent.meeting.alone rfl
          rw [ownerPosition] at owns
          change pc.place = .holds at owns
          simp [Receiving.party, owns, Party.holds] at alone
      | idle | awaitRelease | awaitAcquire | undefined =>
          simp [ownerPosition, Pc.Owns] at owns

omit [DecidableEq Coro] in
/-- No sender stores an element while a receiver is about to return. -/
theorem not_emplace (consistent : Consistent s sender receiver) {coro : Coro}
    {receive : Receive} (position : s.pc coro = .receiver receive .unlockAcquire)
    (other : Coro) (item : T) : s.pc other ≠ .sender item .emplace := by
  intro otherPosition
  obtain rfl := (consistent.roster.senders other item .emplace).mp otherPosition
  obtain rfl :=
    (consistent.roster.receivers coro receive .unlockAcquire).mp position
  cases consistent.phase <;> simp_all [SenderPc.Away]

end Owners

/-- Coroutines whose operations are over are outside, or they threw while they
stored their element. -/
def Halted (s : Unwinding.Outcomes (State Coro T) Coro) : Prop :=
  ∀ coro, s.outcome coro ≠ none → s.state.pc coro = .idle ∨
    ∃ item, s.state.pc coro = .sender item .emplace

theorem runReceiver_last {s s' : State Coro T} {coro : Coro}
    {receive : Receive}
    (position : s.pc coro = .receiver receive .unlockAcquire)
    (stepEq : step s (.run coro) = some s') :
    s'.pc coro = .idle ∨ s'.pc coro = .undefined := by
  simp only [step, position, State.runReceiver, Option.some.injEq] at stepEq
  subst stepEq
  unfold State.unlockAcquire
  split
  · exact Or.inr (by simp [State.setPc])
  · next spawned mutex unlocked =>
      left
      have moved := moved_coSpawnOption
        { s.setPc coro .idle with acquireMtx := mutex } spawned coro
      refine Pc.eq_idle (moved.isIdle.trans ?_)
      simp [State.setPc, Pc.isIdle]

section Runs

variable {run : (unwinding Coro T).system.Run} {time : Nat} {coro : Coro}
variable {constructor : Constructor}

/-- What a constructor that throws does. -/
theorem throw_update (timeLt : time < run.length)
    (throws : run.action time = .throw coro constructor) :
    (run.state time).state.constructs coro constructor = true ∧
      (run.state time).state.unwind coro constructor =
        some (run.state (time + 1)).state ∧
      (run.state time).outcome coro = none ∧
      (run.state (time + 1)).outcome coro = some
        (Channel.thrown ((run.state time).state.pc coro).operation
          constructor) := by
  have stepEq := run.steps time timeLt
  rw [throws] at stepEq
  obtain ⟨running, successor, outcome, afterEq, moved⟩ :=
    Unwinding.step_cases stepEq
  rcases moved with ⟨action, isProceed, -⟩ |
    ⟨agent, point, isThrow, unwindEq, rfl⟩
  · cases isProceed
  · cases isThrow
    rw [afterEq]
    refine ⟨?_, unwindEq, running, Function.update_self ..⟩
    have permitted := unwindEq
    simp only [unwinding, State.unwind,
      Option.ite_none_right_eq_some] at permitted
    exact permitted.1

theorem halted_of_run (timeLe : time ≤ run.length) :
    Halted (run.state time) := by
  induction time with
  | zero =>
      intro coro isOver
      exact absurd (congrFun run.starts.2 coro) isOver
  | succ time ih =>
      intro coro isOver
      have before := ih (by omega)
      have stepEq := run.steps time (by omega)
      obtain ⟨sender, receiver, after⟩ :=
        consistent_of_reachable (Unwinding.base_reachable run timeLe)
      by_cases acts : coro = (unwinding Coro T).actor (run.action time)
      · obtain ⟨-, successor, outcome, afterEq, moved⟩ :=
          Unwinding.step_cases stepEq
        rcases moved with ⟨action, -, -, returned⟩ |
          ⟨agent, point, isThrow, -⟩
        · left
          rw [afterEq] at isOver ⊢
          subst acts
          simp only [Unwinding.finish, Function.update_self] at isOver
          rw [ne_eq, returned, Bool.not_eq_false] at isOver
          exact Pc.eq_idle isOver
        · rw [isThrow] at acts
          obtain rfl : coro = agent := acts
          obtain ⟨permitted, unwindEq, -⟩ :=
            throw_update (by omega : time < run.length) isThrow
          simp only [State.unwind, permitted, if_true] at unwindEq
          cases point with
          | argument =>
              rw [Option.some.injEq] at unwindEq
              rw [← unwindEq]
              exact Or.inl (Pc.eq_idle permitted)
          | element cleared =>
              rw [Option.some.injEq] at unwindEq
              rw [← unwindEq]
              obtain ⟨item, position⟩ := State.emplaces permitted
              exact Or.inr ⟨item, position⟩
          | result cleared =>
              have position := State.returnsItem permitted
              refine Or.inl ((runReceiver_last position unwindEq).resolve_right
                (after.roster.defined coro))
      · obtain ⟨-, successor, outcome, afterEq, -⟩ :=
          Unwinding.step_cases stepEq
        have wasOver : (run.state time).outcome coro ≠ none := by
          rw [afterEq] at isOver
          simpa [Unwinding.finish, Function.update_of_ne acts] using isOver
        have halted := before coro wasOver
        rcases Unwinding.step_base stepEq with same |
          ⟨action, actorEq, baseEq⟩
        · rw [same]
          exact halted
        · rw [← actorEq] at acts
          have moved := moved_step acts baseEq
          rcases halted with isIdle | ⟨item, position⟩
          · left
            refine Pc.eq_idle (moved.isIdle.trans ?_)
            rw [isIdle]
            rfl
          · exact Or.inr ⟨item, (moved.emplace_iff item).mpr position⟩

/-- An exception of `emplace` leaves `m_release_mtx` and `m_match_mtx` locked
for ever. -/
theorem wedged_of_throw {cleared : Bool} (timeLt : time < run.length)
    (throws : run.action time = .throw coro (.element cleared))
    {lock : Lock} (notAcquire : lock ≠ .acquireMtx) :
    ∀ later, time < later → later ≤ run.length →
      ((run.state later).state.mutex lock).awaiting.isSome ∧
        ∀ owner, ((run.state later).state.pc owner).Owns lock →
          (run.state later).outcome owner ≠ none := by
  intro later timeLt' laterLe
  obtain ⟨permitted, unwindEq, -, isOver⟩ := throw_update timeLt throws
  obtain ⟨item, position⟩ := State.emplaces permitted
  have stillOver := Unwinding.outcome_later run timeLt' laterLe isOver
  have stays : (run.state later).state.pc coro = .sender item .emplace := by
    induction later, timeLt' using Nat.le_induction with
    | base =>
        simp only [State.unwind, permitted, if_true, Option.some.injEq]
          at unwindEq
        rw [← unwindEq]
        exact position
    | succ later timeLt' ih =>
        have wasOver := Unwinding.outcome_later run timeLt'
          (by omega : later ≤ run.length) isOver
        have before := ih (by omega) wasOver
        have stepEq := run.steps later (by omega)
        rcases Unwinding.step_base stepEq with same |
          ⟨action, actorEq, baseEq⟩
        · rw [same]
          exact before
        · refine ((moved_step ?_ baseEq).emplace_iff item).mpr before
          rintro rfl
          have running := (Unwinding.step_cases stepEq).1
          rw [← actorEq] at running
          exact absurd (wasOver.symm.trans running) (by simp)
  obtain ⟨sender, receiver, consistent⟩ :=
    consistent_of_reachable (Unwinding.base_reachable run laterLe)
  obtain ⟨isLocked, onlyOwner⟩ :=
    emplace_owner consistent stays notAcquire
  refine ⟨isLocked, ?_⟩
  intro owner owns
  rw [onlyOwner owner owns, stillOver]
  simp

/-- An operation survives an exception exactly if it has not begun or if it
unlocked its mutexes, and its promise is well. -/
theorem survives_iff (timeLt : time < run.length)
    (throws : run.action time = .throw coro constructor) :
    (unwinding Coro T).Survives run time coro ↔
      constructor = .argument ∨ constructor = .result true := by
  obtain ⟨permitted, unwindEq, running, isOver⟩ := throw_update timeLt throws
  obtain ⟨sender, receiver, consistent⟩ :=
    consistent_of_reachable (Unwinding.base_reachable run timeLt.le)
  simp only [State.unwind, permitted, if_true] at unwindEq
  cases constructor with
  | argument =>
      refine iff_of_true ?_ (Or.inl rfl)
      rw [Option.some.injEq] at unwindEq
      refine Unwinding.survives_of_not_begun isPrivate run timeLt ?_ isOver
        rfl ?_
      · rintro (notRunning | inside)
        · exact notRunning running
        · change ((run.state time).state.pc coro).isIdle = false at inside
          rw [show ((run.state time).state.pc coro).isIdle = true
            from permitted] at inside
          contradiction
      · intro earlier earlierLe outside lock owned
        change ((run.state earlier).state.pc coro).isIdle = true at outside
        change ((run.state earlier).state.pc coro).Owns lock at owned
        rw [Pc.eq_idle outside] at owned
        exact owned
  | element cleared =>
      refine iff_of_false ?_ (by simp)
      intro survives
      obtain ⟨item, position⟩ := State.emplaces permitted
      obtain ⟨isLocked, noOwner⟩ := wedged_of_throw timeLt throws
        (by decide : Lock.releaseMtx ≠ .acquireMtx) (time + 1) (by omega)
        timeLt
      obtain ⟨other, goesOn, owns⟩ := survives.free .releaseMtx
        ⟨time, Nat.le_refl _, by
          change ((run.state time).state.pc coro).Owns _
          rw [position]
          trivial⟩ isLocked
      exact noOwner other owns goesOn
  | result cleared =>
      have position := State.returnsItem permitted
      obtain ⟨sender', receiver', after⟩ :=
        consistent_of_reachable (Unwinding.base_reachable run timeLt)
      have thrownEq : (run.state (time + 1)).outcome coro =
          some (if cleared then .threw else .undefined) := by
        rw [isOver, position]
        rfl
      cases cleared with
      | false =>
          refine iff_of_false ?_ (by simp)
          intro survives
          have propagates := survives.propagates
          rw [thrownEq] at propagates
          cases propagates
      | true =>
          refine iff_of_true ⟨thrownEq, fun _ _ _ => rfl, ?_⟩ (Or.inr rfl)
          intro lock _ isLocked
          obtain ⟨owner, owns⟩ := exists_owner after isLocked
          refine ⟨owner, ?_, owns⟩
          by_contra ended
          have moves : owner = coro ∨
              Moved ((run.state time).state.pc owner)
                ((run.state (time + 1)).state.pc owner) := by
            by_cases isIt : owner = coro
            · exact Or.inl isIt
            · have isOther : owner ≠ (Action.run coro : Action Coro T).coro :=
                isIt
              exact Or.inr (moved_step isOther unwindEq)
          rcases halted_of_run timeLt owner ended with isIdle |
            ⟨item, emplaces⟩
          · change ((run.state (time + 1)).state.pc owner).Owns lock at owns
            rw [isIdle] at owns
            exact owns
          · rcases moves with rfl | moved
            · rcases runReceiver_last position unwindEq with isLast | isLast
              · rw [isLast] at emplaces
                cases emplaces
              · rw [isLast] at emplaces
                cases emplaces
            · exact not_emplace consistent position owner item
                ((moved.emplace_iff item).mp emplaces)

end Runs

end CoContext.Rendezvous

namespace CoContext.Channel

/-- An element type that throws leaves a channel as it was exactly if the
exception comes before the operation has begun, or, without a buffer, when
`acquire` returns. -/
theorem run_survives_iff {Coro T : Type*} [DecidableEq Coro] :
    (∀ (capacity : Nat) (capacityPos : 0 < capacity)
      (run : (unwinding Coro
        (Ring.storage T capacity capacityPos)).system.Run)
      (time : Nat) (coro : Coro) (constructor : Constructor),
      time < run.length → run.action time = .throw coro constructor →
        ((unwinding Coro (Ring.storage T capacity capacityPos)).Survives run
          time coro ↔ constructor = .argument)) ∧
    (∀ (run : (unwinding Coro (Single.storage T)).system.Run)
      (time : Nat) (coro : Coro) (constructor : Constructor),
      time < run.length → run.action time = .throw coro constructor →
        ((unwinding Coro (Single.storage T)).Survives run time coro ↔
          constructor = .argument)) ∧
    ∀ (run : (Rendezvous.unwinding Coro T).system.Run)
      (time : Nat) (coro : Coro) (constructor : Constructor),
      time < run.length → run.action time = .throw coro constructor →
        ((Rendezvous.unwinding Coro T).Survives run time coro ↔
          constructor = .argument ∨ constructor = .result true) :=
  ⟨fun _ _ _ _ _ _ => survives_iff, fun _ _ _ _ => survives_iff,
    fun _ _ _ _ => Rendezvous.survives_iff⟩

/-- `release` throws while it constructs its element. -/
def throwRun : (unwinding Unit (Single.storage Nat)).system.Run :=
  .ofActions ⟨State.new Unit (Single.storage Nat), fun _ => none⟩
    ⟨rfl, rfl⟩
    [.proceed (.call () (.release 7)), .proceed (.run ()), .proceed (.run ()),
      .throw () (.element true)]
    (by decide)

/-- The exception leaves `m_mtx` locked. -/
theorem run_survives_fails :
    ¬ ∀ (run : (unwinding Unit (Single.storage Nat)).system.Run)
      (time : Nat) (coro : Unit) (constructor : Constructor),
      time < run.length → run.action time = .throw coro constructor →
        (unwinding Unit (Single.storage Nat)).Survives run time coro := by
  intro survives
  have lastLt : 3 < throwRun.length := by decide
  have isThrow : throwRun.action 3 = .throw () (.element true) := rfl
  have survived := survives throwRun 3 () (.element true) lastLt isThrow
  exact absurd ((survives_iff lastLt isThrow).mp survived) (by decide)

end CoContext.Channel
