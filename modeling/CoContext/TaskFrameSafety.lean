import CoContext.TaskFrame

/-!
# Destruction of the frames of tasks

At most one task object refers to a frame, and the frame of a `task<void>`
that no object refers to before it ended is marked as detached.  So no frame
is destroyed twice, or while an object refers to it.  A frame outlives its
coroutine for good if the task was detached after the coroutine ended, or if
it is detached and the final awaiter does not destroy it: it does so only for
`task<void>`, and only if the coroutine did not end with an exception.
-/

namespace CoContext.TaskFrame

variable {Object Name Coro : Type*}

/-- No frame was destroyed twice, or while an object refers to it. -/
structure State.NeverTwice (state : State Object Name Coro) : Prop where
  atMostOnce : ∀ name frame, state.frame name = some frame →
    frame.destroyed ≤ 1
  whileReferred : ∀ name frame, state.frame name = some frame →
    state.handle.Referred name → frame.destroyed = 0

/-- Moreover, the frames of the coroutines that ended were destroyed unless an
object refers to them. -/
structure State.DestroyedOnce (state : State Object Name Coro) : Prop
    extends State.NeverTwice state where
  afterEnd : ∀ name frame, state.frame name = some frame →
    frame.done = true → ¬ state.handle.Referred name → frame.destroyed = 1

/-- The steps after which every frame that is given up is going to be
destroyed. -/
def Keeps (kind : ValueKind) (state : State Object Name Coro) :
    Action Object Name Coro → Prop
  | .detach object =>
      ∀ name frame, state.handle.Refers object name →
        state.frame name = some frame → frame.done = false
  | .returns name => kind = .void ∨ state.handle.Referred name
  | .throws name => state.handle.Referred name
  | _ => True

namespace Frame

/-- A frame that is destroyed at most once, by the object that refers to it if
there is one, and otherwise by the final awaiter of a `task<void>`. -/
structure Sound (kind : ValueKind) (referred : Prop) (frame : Frame Coro) :
    Prop where
  atMostOnce : frame.destroyed ≤ 1
  owned : referred → frame.destroyed = 0 ∧ frame.stored ≠ .detached
  marked : kind = .void → ¬ referred → frame.destroyed = 0 →
    frame.done = false → frame.stored = .detached

/-- The frame was destroyed if its coroutine ended and no object refers to
it. -/
def Reclaimed (referred : Prop) (frame : Frame Coro) : Prop :=
  frame.done = true → ¬ referred → frame.destroyed = 1

variable {kind : ValueKind} {referred : Prop} {frame : Frame Coro}

@[simp]
theorem done_destroy : frame.destroy.done = frame.done :=
  rfl

@[simp]
theorem done_resume : frame.resume.done = false :=
  rfl

@[simp]
theorem done_detach : (frame.detach kind).done = frame.done := by
  cases kind <;> rfl

@[simp]
theorem destroyed_detach : (frame.detach kind).destroyed = frame.destroyed := by
  cases kind <;> rfl

theorem done_finalSuspend : (frame.finalSuspend kind).done = true := by
  cases kind with
  | void =>
      simp only [finalSuspend, finalAwaiter]
      split <;> rfl
  | object | reference => rfl

theorem done_returns : (frame.returns kind).done = true :=
  done_finalSuspend

theorem done_throws : (frame.throws kind).done = true := by
  rw [throws]
  split
  · exact done_finalSuspend
  · rfl

theorem finalSuspend_of_not_marked (notMarked : frame.stored ≠ .detached) :
    frame.finalSuspend kind = { frame with progress := .finalSuspend } := by
  cases kind with
  | void => simp [finalSuspend, finalAwaiter, notMarked]
  | object | reference => rfl

theorem returns_of_not_marked (notMarked : frame.stored ≠ .detached) :
    (frame.returns kind).destroyed = frame.destroyed ∧
      (frame.returns kind).stored ≠ .detached := by
  have resultNe : (frame.returnResult kind).stored ≠ .detached := by
    cases kind with
    | void => exact notMarked
    | object | reference => exact nofun
  rw [returns, finalSuspend_of_not_marked resultNe]
  refine ⟨?_, resultNe⟩
  cases kind <;> rfl

theorem throws_of_not_marked (notMarked : frame.stored ≠ .detached) :
    (frame.throws kind).destroyed = frame.destroyed ∧
      (frame.throws kind).stored ≠ .detached := by
  have caught : frame.unhandledException kind =
      some { frame with stored := .exception } := by
    cases kind with
    | void => simp [unhandledException, notMarked]
    | object | reference => rfl
  have exceptionNe :
      ({ frame with stored := .exception } : Frame Coro).stored ≠
        .detached := nofun
  simp only [throws, caught, finalSuspend_of_not_marked exceptionNe]
  exact ⟨trivial, exceptionNe⟩

/-- The final awaiter of a detached `task<void>` destroys the frame. -/
theorem returns_of_marked (isMarked : frame.stored = .detached) :
    (frame.returns .void).destroyed = frame.destroyed + 1 := by
  simp [returns, returnResult, finalSuspend, finalAwaiter, isMarked, destroy]

/-- An exception of a detached `task<void>` passes by the final awaiter. -/
theorem throws_of_marked (isMarked : frame.stored = .detached) :
    (frame.throws .void).destroyed = frame.destroyed := by
  simp [throws, unhandledException, isMarked]

/-- Nothing but a detached `task<void>` has a frame that is destroyed when it
ends. -/
theorem destroyed_of_not_void (notVoid : kind ≠ .void) :
    (frame.returns kind).destroyed = frame.destroyed ∧
      (frame.throws kind).destroyed = frame.destroyed := by
  cases kind with
  | void => exact absurd rfl notVoid
  | object | reference => exact ⟨rfl, rfl⟩

/-- A coroutine ends without writing the mark, and unless an object refers to
its frame it destroys it once at most. -/
theorem Sound.ended {after : Frame Coro} {referredAfter : Prop}
    (sound : frame.Sound kind referred) (same : referredAfter ↔ referred)
    (isDone : after.done = true)
    (unmarked : frame.stored ≠ .detached →
      after.destroyed = frame.destroyed ∧ after.stored ≠ .detached)
    (once : ¬ referred → after.destroyed ≤ 1) :
    after.Sound kind referredAfter := by
  refine ⟨?_, ?_, ?_⟩
  · by_cases refers : referred
    · rw [(unmarked (sound.owned refers).2).1]
      exact sound.atMostOnce
    · exact once refers
  · intro refersAfter
    obtain ⟨isAlive, notMarked⟩ := sound.owned (same.mp refersAfter)
    obtain ⟨destroyedEq, staysUnmarked⟩ := unmarked notMarked
    exact ⟨destroyedEq.trans isAlive, staysUnmarked⟩
  · intro _ _ _ notDone
    rw [isDone] at notDone
    contradiction

end Frame

/-- What a step does to a frame and to the objects that refer to it.  The
frame is going to be destroyed exactly if `kept`. -/
inductive Life (kind : ValueKind) (kept referred referredAfter : Prop)
    (before : Option (Frame Coro)) (after : Frame Coro) : Prop
  | born (isNew : before = none) (refers : referredAfter)
      (afterEq : after = Frame.new Coro) (keeps : kept)
  | dropped (frame : Frame Coro) (beforeEq : before = some frame)
      (refers : referred) (given : ¬ referredAfter)
      (afterEq : after = frame.destroy) (keeps : kept)
  | detached (frame : Frame Coro) (beforeEq : before = some frame)
      (refers : referred) (given : ¬ referredAfter)
      (afterEq : after = frame.detach kind)
      (keeps : kept ↔ frame.done = false)
  | resumed (frame : Frame Coro) (beforeEq : before = some frame)
      (same : referredAfter ↔ referred) (notDone : frame.done = false)
      (runs : after.done = false)
      (destroyedEq : after.destroyed = frame.destroyed)
      (storedEq : after.stored = frame.stored) (keeps : kept)
  | returned (frame : Frame Coro) (beforeEq : before = some frame)
      (same : referredAfter ↔ referred) (isAlive : frame.destroyed = 0)
      (notDone : frame.done = false) (afterEq : after = frame.returns kind)
      (keeps : kept ↔ kind = .void ∨ referred)
  | threw (frame : Frame Coro) (beforeEq : before = some frame)
      (same : referredAfter ↔ referred) (isAlive : frame.destroyed = 0)
      (notDone : frame.done = false) (afterEq : after = frame.throws kind)
      (keeps : kept ↔ referred)

namespace Life

variable {kind : ValueKind} {kept referred referredAfter : Prop}
variable {before : Option (Frame Coro)} {after : Frame Coro}

/-- At the end of a coroutine that no object refers to, its frame is destroyed
only by the mark. -/
theorem destroyed_returns {frame : Frame Coro}
    (sound : frame.Sound kind referred) (given : ¬ referred)
    (isAlive : frame.destroyed = 0) (notDone : frame.done = false) :
    (frame.returns kind).destroyed = if kind = .void then 1 else 0 := by
  by_cases isVoid : kind = .void
  · have isMarked := sound.marked isVoid given isAlive notDone
    subst isVoid
    rw [Frame.returns_of_marked isMarked, isAlive, if_pos rfl]
  · rw [(Frame.destroyed_of_not_void isVoid).1, isAlive, if_neg isVoid]

theorem destroyed_throws {frame : Frame Coro}
    (sound : frame.Sound kind referred) (given : ¬ referred)
    (isAlive : frame.destroyed = 0) (notDone : frame.done = false) :
    (frame.throws kind).destroyed = 0 := by
  by_cases isVoid : kind = .void
  · have isMarked := sound.marked isVoid given isAlive notDone
    subst isVoid
    rw [Frame.throws_of_marked isMarked, isAlive]
  · rw [(Frame.destroyed_of_not_void isVoid).2, isAlive]

theorem sound (life : Life kind kept referred referredAfter before after)
    (soundBefore : ∀ frame, before = some frame → frame.Sound kind referred) :
    after.Sound kind referredAfter := by
  cases life with
  | born isNew refers afterEq keeps =>
      subst afterEq
      exact ⟨Nat.zero_le 1, fun _ => ⟨rfl, nofun⟩,
        fun _ given => absurd refers given⟩
  | dropped frame beforeEq refers given afterEq keeps =>
      subst afterEq
      obtain ⟨isAlive, -⟩ := (soundBefore frame beforeEq).owned refers
      refine ⟨by simp [Frame.destroy, isAlive],
        fun refersAfter => absurd refersAfter given, ?_⟩
      intro _ _ notDestroyed
      exact absurd notDestroyed (Nat.succ_ne_zero _)
  | detached frame beforeEq refers given afterEq keeps =>
      subst afterEq
      refine ⟨?_, fun refersAfter => absurd refersAfter given, ?_⟩
      · rw [Frame.destroyed_detach]
        exact (soundBefore frame beforeEq).atMostOnce
      · rintro rfl _ _ _
        rfl
  | resumed frame beforeEq same notDone runs destroyedEq storedEq keeps =>
      obtain ⟨once, owned, marked⟩ := soundBefore frame beforeEq
      refine ⟨?_, ?_, ?_⟩
      · rw [destroyedEq]
        exact once
      · rw [same, destroyedEq, storedEq]
        exact owned
      · rw [same, destroyedEq, storedEq]
        exact fun isVoid given notDestroyed _ =>
          marked isVoid given notDestroyed notDone
  | returned frame beforeEq same isAlive notDone afterEq keeps =>
      subst afterEq
      have soundFrame := soundBefore frame beforeEq
      refine soundFrame.ended same Frame.done_returns
        Frame.returns_of_not_marked fun given => ?_
      rw [destroyed_returns soundFrame given isAlive notDone]
      split <;> decide
  | threw frame beforeEq same isAlive notDone afterEq keeps =>
      subst afterEq
      have soundFrame := soundBefore frame beforeEq
      refine soundFrame.ended same Frame.done_throws
        Frame.throws_of_not_marked fun given => ?_
      rw [destroyed_throws soundFrame given isAlive notDone]
      exact Nat.zero_le 1

theorem reclaimed_iff
    (life : Life kind kept referred referredAfter before after)
    (soundBefore : ∀ frame, before = some frame → frame.Sound kind referred) :
    after.Reclaimed referredAfter ↔ kept := by
  cases life with
  | born isNew refers afterEq keeps =>
      exact iff_of_true (fun _ given => absurd refers given) keeps
  | dropped frame beforeEq refers given afterEq keeps =>
      subst afterEq
      obtain ⟨isAlive, -⟩ := (soundBefore frame beforeEq).owned refers
      exact iff_of_true (fun _ _ => by simp [Frame.destroy, isAlive]) keeps
  | detached frame beforeEq refers given afterEq keeps =>
      subst afterEq
      obtain ⟨isAlive, -⟩ := (soundBefore frame beforeEq).owned refers
      rw [keeps, Frame.Reclaimed, Frame.done_detach, Frame.destroyed_detach,
        isAlive]
      simp [given]
  | resumed frame beforeEq same notDone runs destroyedEq storedEq keeps =>
      refine iff_of_true ?_ keeps
      intro isDone
      rw [runs] at isDone
      contradiction
  | returned frame beforeEq same isAlive notDone afterEq keeps =>
      subst afterEq
      rw [keeps, Frame.Reclaimed, Frame.done_returns, same]
      by_cases refers : referred
      · simp [refers]
      · rw [destroyed_returns (soundBefore frame beforeEq) refers isAlive
          notDone]
        simp [refers]
  | threw frame beforeEq same isAlive notDone afterEq keeps =>
      subst afterEq
      rw [keeps, Frame.Reclaimed, Frame.done_throws, same]
      by_cases refers : referred
      · simp [refers]
      · rw [destroyed_throws (soundBefore frame beforeEq) refers isAlive
          notDone]
        simp [refers]

end Life

/-- What every step keeps. -/
structure Invariant (kind : ValueKind) (state : State Object Name Coro) :
    Prop where
  exclusive : state.handle.Exclusive
  created : ∀ name, state.handle.Referred name → state.frame name ≠ none
  sound : ∀ name frame, state.frame name = some frame →
    frame.Sound kind (state.handle.Referred name)

/-- The frames of the coroutines that ended were destroyed unless an object
refers to them. -/
def State.Reclaimed (state : State Object Name Coro) : Prop :=
  ∀ name frame, state.frame name = some frame →
    frame.Reclaimed (state.handle.Referred name)

theorem running_spec {state : State Object Name Coro} {name : Name} {frame : Frame Coro}
    (found : state.running name = some frame) :
    state.frame name = some frame ∧ frame.destroyed = 0 ∧
      frame.done = false := by
  obtain ⟨oldEq, isRunning⟩ := Option.filter_eq_some_iff.mp found
  have runs : frame.destroyed = 0 ∧ frame.progress = .running := by
    simpa using isRunning
  refine ⟨oldEq, runs.1, ?_⟩
  simp [Frame.done, runs.2]

theorem Invariant.neverTwice {kind : ValueKind}
    {state : State Object Name Coro} (invariant : Invariant kind state) :
    state.NeverTwice where
  atMostOnce name frame frameEq := (invariant.sound name frame frameEq).atMostOnce
  whileReferred name frame frameEq refers :=
    ((invariant.sound name frame frameEq).owned refers).1

theorem Invariant.new (kind : ValueKind) :
    Invariant kind (State.new Object Name Coro) where
  exclusive _ _ _ refers := nomatch refers
  created := by
    rintro name ⟨object, refers⟩
    contradiction
  sound _ _ frameEq := nomatch frameEq

variable [DecidableEq Name] {kind : ValueKind} {kept : Prop}
variable {state successor : State Object Name Coro}

/-- A step touches one frame at most. -/
inductive Change (kind : ValueKind) (kept : Prop)
    (state successor : State Object Name Coro) : Prop
  | untouched (frameEq : successor.frame = state.frame)
      (same : ∀ name,
        successor.handle.Referred name ↔ state.handle.Referred name)
      (keeps : kept)
  | touched (name : Name) (after : Frame Coro)
      (frameEq : successor.frame =
        Function.update state.frame name (some after))
      (same : ∀ other, other ≠ name →
        (successor.handle.Referred other ↔ state.handle.Referred other))
      (life : Life kind kept (state.handle.Referred name)
        (successor.handle.Referred name) (state.frame name) after)

namespace Change

/-- A property of the frames is kept if it is kept for the one that is
touched. -/
theorem forall_frames (property : Prop → Frame Coro → Prop) {name : Name}
    {after : Frame Coro}
    (frameEq : successor.frame =
      Function.update state.frame name (some after))
    (same : ∀ other, other ≠ name →
      (successor.handle.Referred other ↔ state.handle.Referred other))
    (others : ∀ other frame, state.frame other = some frame →
      property (state.handle.Referred other) frame)
    (holds : property (successor.handle.Referred name) after) :
    ∀ other frame, successor.frame other = some frame →
      property (successor.handle.Referred other) frame := by
  intro other frame
  rw [frameEq]
  by_cases isIt : other = name
  · subst isIt
    rw [Function.update_self]
    rintro ⟨⟩
    exact holds
  · rw [Function.update_of_ne isIt, same other isIt]
    exact others other frame

theorem invariant (change : Change kind kept state successor)
    (before : Invariant kind state)
    (exclusive : successor.handle.Exclusive) : Invariant kind successor := by
  cases change with
  | untouched frameEq same keeps =>
      refine ⟨exclusive, ?_, ?_⟩
      · intro name
        rw [same, frameEq]
        exact before.created name
      · intro name frame
        rw [same, frameEq]
        exact before.sound name frame
  | touched name after frameEq same life =>
      refine ⟨exclusive, ?_, ?_⟩
      · intro other refers
        rw [frameEq]
        by_cases isIt : other = name
        · subst isIt
          rw [Function.update_self]
          exact nofun
        · rw [Function.update_of_ne isIt]
          exact before.created other ((same other isIt).mp refers)
      · exact forall_frames (Frame.Sound kind) frameEq same before.sound
          (life.sound (before.sound name))

theorem reclaimed_iff (change : Change kind kept state successor)
    (before : Invariant kind state) (reclaimed : state.Reclaimed) :
    successor.Reclaimed ↔ kept := by
  cases change with
  | untouched frameEq same keeps =>
      refine iff_of_true ?_ keeps
      intro name frame
      rw [same, frameEq]
      exact reclaimed name frame
  | touched name after frameEq same life =>
      rw [← life.reclaimed_iff (before.sound name)]
      constructor
      · intro all
        exact all name after (by rw [frameEq, Function.update_self])
      · exact forall_frames Frame.Reclaimed frameEq same
          reclaimed

end Change

theorem State.frame_update {name : Name} {frame : Frame Coro}
    (frameEq : state.frame name = some frame)
    (change : Frame Coro → Frame Coro) :
    (state.update name change).frame =
      Function.update state.frame name (some (change frame)) := by
  simp [State.update, frameEq]

section Steps

/-- The object that gave up its handle destroys the frame. -/
theorem change_of_destroy {object : Object} {held : Option Name}
    (before : Invariant kind state)
    (holds : state.handle object = some held)
    (frameEq : successor.frame = (state.destroy held).frame)
    (others : ∀ name, successor.handle.Referred name ↔
      held ≠ some name ∧ state.handle.Referred name) :
    Change kind True state successor := by
  cases held with
  | none => exact .untouched frameEq (fun name => by simp [others]) trivial
  | some name =>
      have refers : state.handle.Referred name := ⟨object, holds⟩
      obtain ⟨frame, oldEq⟩ :=
        Option.ne_none_iff_exists'.mp (before.created name refers)
      refine .touched name frame.destroy
        (frameEq.trans (State.frame_update oldEq _)) ?_
        (.dropped frame oldEq refers ?_ rfl trivial)
      · intro other isOther
        simp [others, Ne.symm isOther]
      · simp [others]

/-- A coroutine is resumed. -/
theorem change_of_suspended {name : Name} {frame : Frame Coro}
    (found : state.suspended name = some frame)
    (change : Frame Coro → Frame Coro)
    (runs : (change frame).done = false)
    (destroyedEq : (change frame).destroyed = frame.destroyed)
    (storedEq : (change frame).stored = frame.stored) :
    Change kind True state (state.update name change) := by
  obtain ⟨oldEq, isSuspended⟩ := Option.filter_eq_some_iff.mp found
  have notDone : frame.destroyed = 0 ∧ frame.done = false := by
    simpa using isSuspended
  exact .touched name (change frame) (State.frame_update oldEq change)
    (fun _ _ => Iff.rfl)
    (.resumed frame oldEq Iff.rfl notDone.2 runs destroyedEq storedEq trivial)

theorem change_of_await {object : Object} {awaitingCoro : Coro}
    (before : Invariant kind state)
    (stepEq : state.await object awaitingCoro = some successor) :
    Change kind True state successor ∧ successor.handle.Exclusive := by
  unfold State.await at stepEq
  split at stepEq
  · rename_i name holds
    split at stepEq
    · rename_i frame frameEq
      split at stepEq
      · obtain rfl := Option.some.inj stepEq
        exact ⟨.untouched rfl (fun _ => Iff.rfl) trivial, before.exclusive⟩
      · obtain ⟨found, foundEq, rfl⟩ := Option.map_eq_some_iff.mp stepEq
        exact ⟨change_of_suspended foundEq _ rfl rfl rfl, before.exclusive⟩
    · contradiction
  · obtain rfl := Option.some.inj stepEq
    exact ⟨.untouched rfl (fun _ => Iff.rfl) trivial, before.exclusive⟩
  · contradiction

variable [DecidableEq Object]

theorem change_of_call {object : Object} {name : Name}
    (before : Invariant kind state)
    (stepEq : state.call object name = some successor) :
    Change kind True state successor ∧ successor.handle.Exclusive := by
  unfold State.call at stepEq
  split at stepEq
  · rename_i isDead isNew
    obtain rfl := Option.some.inj stepEq
    have unreferred : ¬ state.handle.Referred name :=
      fun refers => before.created name refers isNew
    have referred : ∀ target,
        (state.handle.place object (some name)).Referred target ↔
          target = name ∨ state.handle.Referred target :=
      fun _ => Handles.referred_place_fresh isDead
    refine ⟨.touched name (Frame.new Coro) rfl ?_ ?_,
      before.exclusive.place_fresh unreferred⟩
    · intro other isOther
      simp [referred, isOther]
    · exact .born isNew ((referred name).mpr (.inl rfl)) rfl trivial
  · contradiction

theorem change_of_construct {object : Object} (before : Invariant kind state)
    (stepEq : state.construct object = some successor) :
    Change kind True state successor ∧ successor.handle.Exclusive := by
  unfold State.construct at stepEq
  split at stepEq
  · rename_i isDead
    obtain rfl := Option.some.inj stepEq
    exact ⟨.untouched rfl (fun _ => Handles.referred_place_none_of_dead isDead)
      trivial, before.exclusive.place_none⟩
  · contradiction

theorem change_of_moveConstruct {object other : Object}
    (before : Invariant kind state)
    (stepEq : state.moveConstruct object other = some successor) :
    Change kind True state successor ∧ successor.handle.Exclusive := by
  unfold State.moveConstruct at stepEq
  split at stepEq
  · rename_i isDead otherHolds
    obtain rfl := Option.some.inj stepEq
    have distinct : object ≠ other := by
      rintro rfl
      rw [isDead] at otherHolds
      contradiction
    refine ⟨.untouched rfl (fun _ => ?_) trivial,
      before.exclusive.move distinct⟩
    exact (Handles.referred_move distinct).trans
      (Handles.referred_place_none_of_dead isDead)
  · contradiction

theorem change_of_moveAssign {object other : Object}
    (before : Invariant kind state)
    (stepEq : state.moveAssign object other = some successor) :
    Change kind True state successor ∧ successor.handle.Exclusive := by
  unfold State.moveAssign at stepEq
  split at stepEq
  · rename_i held _ holds _
    split at stepEq
    · rename_i distinct
      obtain rfl := Option.some.inj stepEq
      refine ⟨change_of_destroy before holds rfl fun _ => ?_,
        before.exclusive.move distinct⟩
      exact (Handles.referred_move distinct).trans
        (Handles.referred_place_none before.exclusive holds)
    · obtain rfl := Option.some.inj stepEq
      exact ⟨.untouched rfl (fun _ => Iff.rfl) trivial, before.exclusive⟩
  · contradiction

theorem change_of_swap {first second : Object} (before : Invariant kind state)
    (stepEq : state.swap first second = some successor) :
    Change kind True state successor ∧ successor.handle.Exclusive := by
  unfold State.swap at stepEq
  split at stepEq
  · obtain rfl := Option.some.inj stepEq
    exact ⟨.untouched rfl (fun _ => Handles.referred_swap) trivial,
      before.exclusive.swap⟩
  · contradiction

theorem change_of_destruct {object : Object} (before : Invariant kind state)
    (stepEq : state.destruct object = some successor) :
    Change kind True state successor ∧ successor.handle.Exclusive := by
  obtain ⟨held, holds, rfl⟩ := Option.map_eq_some_iff.mp stepEq
  exact ⟨change_of_destroy before holds rfl fun _ =>
    Handles.referred_remove before.exclusive holds, before.exclusive.remove⟩

theorem change_of_detach {object : Object} (before : Invariant kind state)
    (stepEq : state.detach kind object = some successor) :
    Change kind (Keeps kind state (.detach object)) state successor ∧
      successor.handle.Exclusive := by
  unfold State.detach at stepEq
  split at stepEq
  · rename_i name holds
    obtain rfl := Option.some.inj stepEq
    have refers : state.handle.Referred name := ⟨object, holds⟩
    have referred : ∀ target,
        (state.handle.place object none).Referred target ↔
          some name ≠ some target ∧ state.handle.Referred target :=
      fun _ => Handles.referred_place_none before.exclusive holds
    obtain ⟨frame, oldEq⟩ :=
      Option.ne_none_iff_exists'.mp (before.created name refers)
    refine ⟨.touched name (frame.detach kind) (State.frame_update oldEq _) ?_
      (.detached frame oldEq refers ?_ rfl ?_), before.exclusive.place_none⟩
    · intro other isOther
      simp [referred, Ne.symm isOther]
    · simp [referred]
    · constructor
      · intro keeps
        exact keeps name frame holds oldEq
      · intro notDone other found refersOther foundEq
        obtain rfl : name = other :=
          Option.some.inj ((Handles.refers_iff holds other).mp refersOther)
        obtain rfl := Option.some.inj (oldEq.symm.trans foundEq)
        exact notDone
  · rename_i holds
    have keeps : Keeps kind state (.detach object) := by
      intro name frame refers
      rw [Handles.refers_iff holds] at refers
      contradiction
    have same : ∀ name, (state.handle.place object none).Referred name ↔
        state.handle.Referred name := by
      intro name
      rw [Handles.referred_place_none before.exclusive holds]
      simp
    split at stepEq
    · contradiction
    · obtain rfl := Option.some.inj stepEq
      exact ⟨.untouched rfl same keeps, before.exclusive.place_none⟩
    · obtain rfl := Option.some.inj stepEq
      exact ⟨.untouched rfl same keeps, before.exclusive.place_none⟩
  · contradiction

/-- Every step changes the frames so that they are going to be destroyed if it
keeps them. -/
theorem change_of_step {action : Action Object Name Coro}
    (before : Invariant kind state)
    (stepEq : step kind state action = some successor) :
    Change kind (Keeps kind state action) state successor ∧
      successor.handle.Exclusive := by
  cases action with
  | call object name => exact change_of_call before stepEq
  | construct object => exact change_of_construct before stepEq
  | moveConstruct object other => exact change_of_moveConstruct before stepEq
  | moveAssign object other => exact change_of_moveAssign before stepEq
  | swap first second => exact change_of_swap before stepEq
  | await object awaitingCoro => exact change_of_await before stepEq
  | resume name =>
      obtain ⟨frame, found, rfl⟩ := Option.map_eq_some_iff.mp stepEq
      exact ⟨change_of_suspended found _ rfl rfl rfl, before.exclusive⟩
  | returns name =>
      obtain ⟨frame, found, rfl⟩ := Option.map_eq_some_iff.mp stepEq
      obtain ⟨frameEq, isAlive, notDone⟩ := running_spec found
      exact ⟨.touched name _ (State.frame_update frameEq _)
        (fun _ _ => Iff.rfl)
        (.returned frame frameEq Iff.rfl isAlive notDone rfl Iff.rfl),
        before.exclusive⟩
  | throws name =>
      obtain ⟨frame, found, rfl⟩ := Option.map_eq_some_iff.mp stepEq
      obtain ⟨frameEq, isAlive, notDone⟩ := running_spec found
      exact ⟨.touched name _ (State.frame_update frameEq _)
        (fun _ _ => Iff.rfl)
        (.threw frame frameEq Iff.rfl isAlive notDone rfl Iff.rfl),
        before.exclusive⟩
  | detach object => exact change_of_detach before stepEq
  | destruct object => exact change_of_destruct before stepEq

end Steps

section Runs

variable [DecidableEq Object]

theorem invariant_of_run (run : (system Object Name Coro kind).Run)
    {time : Nat} (timeLe : time ≤ run.length) :
    Invariant kind (run.state time) := by
  refine (run.reachable timeLe).invariant ?_ ?_
  · rintro state rfl
    exact .new kind
  · intro state action successor before stepEq
    obtain ⟨change, exclusive⟩ := change_of_step before stepEq
    exact change.invariant before exclusive

/-- A step that keeps the frames is one after which those of the coroutines
that ended have been destroyed, as they were before. -/
theorem reclaimed_succ_iff (run : (system Object Name Coro kind).Run)
    {time : Nat} (timeLt : time < run.length)
    (reclaimed : (run.state time).Reclaimed) :
    (run.state (time + 1)).Reclaimed ↔
      Keeps kind (run.state time) (run.action time) := by
  have before := invariant_of_run run (Nat.le_of_lt timeLt)
  exact (change_of_step before (run.steps time timeLt)).1.reclaimed_iff before
    reclaimed

theorem run_reclaimed_iff (run : (system Object Name Coro kind).Run) :
    (∀ time ≤ run.length, (run.state time).Reclaimed) ↔
      run.Guarded (Keeps kind) := by
  constructor
  · intro reclaimed time timeLt
    exact (reclaimed_succ_iff run timeLt
      (reclaimed time (Nat.le_of_lt timeLt))).mp (reclaimed (time + 1) timeLt)
  · intro guarded time timeLe
    induction time with
    | zero =>
        rw [show run.state 0 = State.new Object Name Coro from run.starts]
        exact fun _ _ frameEq => nomatch frameEq
    | succ time ih =>
        exact (reclaimed_succ_iff run timeLe (ih (by omega))).mpr
          (guarded time timeLe)

/-- No frame is ever destroyed twice or while an object refers to it, and the
frames of the coroutines that ended are all destroyed exactly if every step
keeps the frames. -/
theorem run_destroyedOnce_iff (run : (system Object Name Coro kind).Run) :
    (∀ time ≤ run.length, (run.state time).NeverTwice) ∧
      ((∀ time ≤ run.length, (run.state time).DestroyedOnce) ↔
        run.Guarded (Keeps kind)) := by
  have neverTwice : ∀ time ≤ run.length, (run.state time).NeverTwice :=
    fun time timeLe => (invariant_of_run run timeLe).neverTwice
  refine ⟨neverTwice, ?_⟩
  rw [← run_reclaimed_iff]
  constructor
  · intro destroyedOnce time timeLe name frame
    exact (destroyedOnce time timeLe).afterEnd name frame
  · intro reclaimed time timeLe
    exact ⟨neverTwice time timeLe, reclaimed time timeLe⟩

end Runs

/-- A task is detached after its coroutine ended. -/
def lateRun : (system Unit Unit Unit .void).Run :=
  .ofActions (State.new Unit Unit Unit) rfl
    [.call () (), .await () (), .returns (), .detach ()] (by decide)

theorem run_destroyedOnce_fails :
    ¬ ∀ (kind : ValueKind) (run : (system Unit Unit Unit kind).Run),
      ∀ time ≤ run.length, (run.state time).DestroyedOnce := by
  intro destroyedOnce
  have reclaimed : (lateRun.state 4).Reclaimed := fun name frame =>
    (destroyedOnce .void lateRun 4 (by decide)).afterEnd name frame
  have before : (lateRun.state 3).Reclaimed := fun name frame =>
    (destroyedOnce .void lateRun 3 (by decide)).afterEnd name frame
  have keeps := (reclaimed_succ_iff lateRun (by decide) before).mp reclaimed
  obtain ⟨frame, frameEq, isDone⟩ :
      ∃ frame, (lateRun.state 3).frame () = some frame ∧ frame.done = true :=
    ⟨_, rfl, rfl⟩
  have notDone := keeps () frame rfl frameEq
  rw [isDone] at notDone
  contradiction

end CoContext.TaskFrame
