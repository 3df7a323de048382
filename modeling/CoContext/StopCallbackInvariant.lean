import CoContext.StopCallback

/-!
# The invariant of a stop state with callbacks

A reachable state represents who holds the lock, how far the stop request has
come, which thread constructs or destroys each callback, which callback the
requester has taken off the list and not finished, and what is on the list.

What a thread relies on, at its position and inside of its calls, mentions only
what no other thread may change.  So each step is treated once, for the thread
that takes it; the others are covered by what a step of that thread may do at
most.
-/

namespace CoContext.StopCallback

variable {Thread Cb : Type*}

/-- How far the stop request has come. -/
inductive Phase (Thread : Type*)
  | quiet
  | active (thread : Thread)
  | ended

/-- What a state represents. -/
structure Ghost (Thread Cb : Type*) where
  /-- The thread that holds the lock. -/
  owner : Option Thread
  phase : Phase Thread
  /-- The thread that constructs or destroys a callback. -/
  worker : Cb → Option Thread
  /-- The callback that the requester has taken off the list and not
  finished. -/
  handled : Option Cb
  cbs : List Cb

section Roles

def Pc.holdsLock : Pc Cb → Bool
  | .stopEnter | .stopPop | .stopUnlock .. | .stopEnd | .registerLink _
  | .registerUnlock _ | .removeUnlink _ | .removeUnlock .. => true
  | .user | .stopLoad | .stopTry _ | .stopRun .. | .stopRan .. | .stopLock
  | .stopRelock _ | .registerLoad _ | .registerTry .. | .registerRan _
  | .removeLoad _ | .removeTry .. | .removeRequester _
  | .removeAcquire _ => false

/-- The position is in a `request_stop` that has set the stop bit. -/
def Pc.inLoop : Pc Cb → Bool
  | .stopEnter | .stopPop | .stopUnlock .. | .stopRun .. | .stopRan ..
  | .stopLock | .stopRelock _ | .stopEnd => true
  | .user | .stopLoad | .stopTry _ | .registerLoad _ | .registerTry ..
  | .registerLink _ | .registerUnlock _ | .registerRan _ | .removeLoad _
  | .removeTry .. | .removeUnlink _ | .removeUnlock .. | .removeRequester _
  | .removeAcquire _ => false

/-- The callback that `request_stop` has taken off the list. -/
def Pc.takes : Pc Cb → Option Cb
  | .stopUnlock cb _ | .stopRun cb _ | .stopRan cb _ => some cb
  | .user | .stopLoad | .stopTry _ | .stopEnter | .stopPop | .stopLock
  | .stopRelock _ | .stopEnd | .registerLoad _ | .registerTry ..
  | .registerLink _ | .registerUnlock _ | .registerRan _ | .removeLoad _
  | .removeTry .. | .removeUnlink _ | .removeUnlock .. | .removeRequester _
  | .removeAcquire _ => none

def Pc.constructs : Pc Cb → Option Cb
  | .registerLoad cb | .registerTry cb _ | .registerLink cb
  | .registerUnlock cb | .registerRan cb => some cb
  | .user | .stopLoad | .stopTry _ | .stopEnter | .stopPop | .stopUnlock ..
  | .stopRun .. | .stopRan .. | .stopLock | .stopRelock _ | .stopEnd
  | .removeLoad _ | .removeTry .. | .removeUnlink _ | .removeUnlock ..
  | .removeRequester _ | .removeAcquire _ => none

def Call.takes : Call Cb → Option Cb
  | .stop cb _ => some cb
  | .register _ => none

def Call.constructs : Call Cb → Option Cb
  | .stop .. => none
  | .register cb => some cb

/-- The callbacks that a thread has taken off the list and not finished. -/
def State.taken (s : State Thread Cb) (thread : Thread) : List Cb :=
  (s.pc thread).takes.toList ++ (s.calls thread).filterMap Call.takes

/-- The callbacks that a thread constructs. -/
def State.constructing (s : State Thread Cb) (thread : Thread) : List Cb :=
  (s.pc thread).constructs.toList ++
    (s.calls thread).filterMap Call.constructs

/-- How many calls of `request_stop` that have set the stop bit a thread is
inside of. -/
def State.requests (s : State Thread Cb) (thread : Thread) : Nat :=
  (s.pc thread).inLoop.toNat +
    ((s.calls thread).filterMap Call.takes).length

end Roles

section Invariant

/-- The places that a callback can have in a time of its life. -/
def Place.fits : Place → Life → Bool
  | .never, .absent | .never, .constructing | .never, .alive false
  | .never, .destroyed => true
  | .listed, .constructing | .listed, .alive true | .listed, .destroying => true
  | .popped, .alive true | .popped, .destroying => true
  | .running, .alive true | .running, .destroying
  | .running, .destroyed => true
  | .finished, .alive true | .finished, .destroying
  | .finished, .destroyed => true
  | .unlinked, .destroying | .unlinked, .destroyed => true
  | _, _ => false

/-- How often a callback has run that was ever on the list. -/
def Place.ran : Place → Nat
  | .running | .finished => 1
  | .never | .listed | .popped | .unlinked => 0

/-- What holds of each callback. -/
structure CbSound (s : State Thread Cb) (g : Ghost Thread Cb) (cb : Cb) :
    Prop where
  fits : (s.place cb).fits (s.life cb) = true
  worker : g.worker cb ≠ none →
    s.life cb = .constructing ∨ s.life cb = .destroying
  prev : s.place cb ≠ .listed → s.place cb ≠ .unlinked → s.mPrev cb = none
  late : s.late cb = true → s.place cb = .never ∧ g.phase ≠ .quiet ∧
    s.life cb ≠ .absent
  lateRan : s.late cb = true → s.life cb ≠ .constructing → s.ran cb = 1
  ran : s.place cb ≠ .never → s.ran cb = (s.place cb).ran
  ranLe : s.ran cb ≤ 1
  absent : s.life cb = .absent → s.ran cb = 0
  done : s.place cb ≠ .finished → s.mDone cb = 0
  finished : s.place cb = .finished → s.life cb ≠ .destroyed →
    s.mDone cb = 1 ∧ s.mDestroyed cb = none

/-- What the phase says about the request. -/
def PhaseSound (s : State Thread Cb) (g : Ghost Thread Cb) :
    Phase Thread → Prop
  | .quiet => s.mRequester = none ∧ s.returned = [] ∧ g.handled = none
  | .active thread =>
      (s.mRequester = none ∨ s.mRequester = some thread) ∧
        s.returned.count true = 0
  | .ended => g.handled = none ∧ g.cbs = [] ∧ s.returned.count true = 1

/-- The part of the invariant that is not about the threads. -/
structure Global (s : State Thread Cb) (g : Ghost Thread Cb) : Prop where
  locked_iff : s.mValue.locked = true ↔ g.owner ≠ none
  stop_iff : s.mValue.stopRequested = true ↔ g.phase ≠ .quiet
  chain : DoublyChain s.mNext s.mPrev none s.mHead g.cbs
  nodup : g.cbs.Nodup
  mem_cbs : ∀ cb, cb ∈ g.cbs ↔ s.place cb = .listed
  handled_iff : ∀ cb, g.handled = some cb ↔
    s.place cb = .popped ∨ s.place cb = .running
  phase : PhaseSound s g g.phase
  /-- A callback on the list whose constructor has not returned. -/
  linking : ∀ cb, s.place cb = .listed → s.life cb = .constructing →
    ∃ thread, s.pc thread = .registerUnlock cb
  callback : ∀ cb, CbSound s g cb

/-- The requester has called this callback. -/
structure Handles (s : State Thread Cb) (g : Ghost Thread Cb)
    (thread : Thread) (cb : Cb) (lastCb : Bool) : Prop where
  place : s.place cb = .running
  last : lastCb = true → g.cbs = []
  flag : s.destroyed thread = true ↔ s.life cb = .destroyed
  pointer : s.life cb ≠ .destroyed → s.mDestroyed cb = some thread

/-- The thread destroys this callback. -/
structure Removes (s : State Thread Cb) (g : Ghost Thread Cb)
    (thread : Thread) (cb : Cb) : Prop where
  worker : g.worker cb = some thread
  life : s.life cb = .destroying

/-- What a thread relies on at its position. -/
def PcSound (s : State Thread Cb) (g : Ghost Thread Cb) (thread : Thread) :
    Pc Cb → Prop
  | .user | .stopLoad | .stopEnter | .stopPop | .stopLock | .stopRelock _ =>
      True
  | .stopTry old => old.stopRequested = true → g.phase ≠ .quiet
  | .stopUnlock cb lastCb | .stopRun cb lastCb =>
      s.place cb = .popped ∧ (lastCb = true → g.cbs = [])
  | .stopRan cb lastCb => Handles s g thread cb lastCb
  | .stopEnd => g.cbs = []
  | .registerLoad cb => s.place cb = .never ∧ s.ran cb = 0
  | .registerTry cb old => s.place cb = .never ∧ s.ran cb = 0 ∧
      (old.stopRequested = true → g.phase ≠ .quiet) ∧
      (s.late cb = true → old.stopRequested = true)
  | .registerLink cb => s.place cb = .never ∧ s.ran cb = 0 ∧
      g.phase = .quiet ∧ s.late cb = false
  | .registerUnlock cb => s.place cb = .listed ∧ g.phase = .quiet
  | .registerRan cb => s.place cb = .never ∧ s.ran cb = 1
  | .removeLoad cb | .removeTry cb _ | .removeUnlink cb =>
      Removes s g thread cb ∧ s.place cb ≠ .unlinked
  | .removeUnlock cb true => Removes s g thread cb ∧ s.place cb = .unlinked
  | .removeUnlock cb false | .removeRequester cb | .removeAcquire cb =>
      Removes s g thread cb ∧ s.place cb ≠ .listed ∧ s.place cb ≠ .unlinked

/-- What a thread relies on inside of a call. -/
def CallSound (s : State Thread Cb) (g : Ghost Thread Cb) (thread : Thread) :
    Call Cb → Prop
  | .stop cb lastCb => Handles s g thread cb lastCb
  | .register cb => s.place cb = .never ∧ s.ran cb = 1

/-- The part of the invariant that is about one thread. -/
structure ThreadSound (s : State Thread Cb) (g : Ghost Thread Cb)
    (thread : Thread) : Prop where
  owner_iff : (s.pc thread).holdsLock = true ↔ g.owner = some thread
  active_iff : s.requests thread = 1 ↔ g.phase = .active thread
  requests_le : s.requests thread ≤ 1
  taken : g.phase = .active thread → s.taken thread = g.handled.toList
  requester : g.phase = .active thread →
    s.mRequester = some thread ∨ s.pc thread = .stopEnter
  constructing : ∀ cb ∈ s.constructing thread,
    g.worker cb = some thread ∧ s.life cb = .constructing
  nodup : (s.constructing thread).Nodup
  pc : PcSound s g thread (s.pc thread)
  calls : ∀ call ∈ s.calls thread, CallSound s g thread call

structure Represents (s : State Thread Cb) (g : Ghost Thread Cb) : Prop where
  global : Global s g
  thread : ∀ thread, ThreadSound s g thread

/-- What the list permits a thread to do to the place of a callback. -/
inductive PlaceStep (thread : Thread) (g : Ghost Thread Cb) (cb : Cb) :
    Place → Place → Prop
  | same (place : Place) : PlaceStep thread g cb place place
  | link : g.worker cb = some thread → g.phase = .quiet →
      PlaceStep thread g cb .never .listed
  | pop : g.owner = some thread → g.phase = .active thread →
      PlaceStep thread g cb .listed .popped
  | run : g.phase = .active thread → PlaceStep thread g cb .popped .running
  | finish : g.phase = .active thread →
      PlaceStep thread g cb .running .finished
  | unlink : g.owner = some thread → g.worker cb = some thread →
      PlaceStep thread g cb .listed .unlinked

/-- What a step of a thread may do at most. -/
structure Guarantee (thread : Thread) (s s' : State Thread Cb)
    (g g' : Ghost Thread Cb) : Prop where
  pc : ∀ other, other ≠ thread → s'.pc other = s.pc other
  calls : ∀ other, other ≠ thread → s'.calls other = s.calls other
  destroyed : ∀ other, other ≠ thread →
    s'.destroyed other = s.destroyed other
  owner : ∀ other, other ≠ thread →
    (g'.owner = some other ↔ g.owner = some other)
  phase : g'.phase = g.phase ∨
    (g.phase = .quiet ∧ g'.phase = .active thread ∧ g.owner = none) ∨
    (g.phase = .active thread ∧ g'.phase = .ended)
  worker : ∀ cb other, other ≠ thread → g.worker cb = some other →
    g'.worker cb = some other ∧ s'.life cb = s.life cb ∧
      s'.late cb = s.late cb ∧
      (s.life cb = .constructing → s'.ran cb = s.ran cb)
  place : ∀ cb, PlaceStep thread g cb (s.place cb) (s'.place cb)
  cbs : g.phase ≠ .quiet → g.cbs = [] → g'.cbs = []
  handled : ∀ other, other ≠ thread → g.phase = .active other →
    g'.handled = g.handled ∧ s'.mRequester = s.mRequester ∧
      ∀ cb, g.handled = some cb →
        (s'.life cb = .destroyed ↔ s.life cb = .destroyed) ∧
          s'.mDestroyed cb = s.mDestroyed cb

end Invariant

section Stability

variable {s s' : State Thread Cb} {g g' : Ghost Thread Cb}
variable {thread other : Thread} {cb : Cb} {place : Place}

section Threads

theorem ThreadSound.active_of_inLoop (sound : ThreadSound s g thread)
    (inLoop : (s.pc thread).inLoop = true) : g.phase = .active thread := by
  apply sound.active_iff.mp
  have requestsLe := sound.requests_le
  simp only [State.requests, inLoop, Bool.toNat_true] at requestsLe ⊢
  omega

theorem ThreadSound.active_of_call {lastCb : Bool}
    (sound : ThreadSound s g thread)
    (inside : .stop cb lastCb ∈ s.calls thread) :
    g.phase = .active thread := by
  apply sound.active_iff.mp
  have takes : cb ∈ (s.calls thread).filterMap Call.takes :=
    List.mem_filterMap.mpr ⟨_, inside, rfl⟩
  have requestsLe := sound.requests_le
  have positive := List.length_pos_of_mem takes
  simp only [State.requests] at requestsLe ⊢
  omega

/-- Inside of the loop of `request_stop` no other callback is handled. -/
theorem ThreadSound.no_stop_call {lastCb : Bool}
    (sound : ThreadSound s g thread)
    (inLoop : (s.pc thread).inLoop = true) :
    .stop cb lastCb ∉ s.calls thread := by
  intro inside
  have takes : cb ∈ (s.calls thread).filterMap Call.takes :=
    List.mem_filterMap.mpr ⟨_, inside, rfl⟩
  have requestsLe := sound.requests_le
  have positive := List.length_pos_of_mem takes
  simp only [State.requests, inLoop, Bool.toNat_true] at requestsLe
  omega

theorem ThreadSound.worker_of_pc (sound : ThreadSound s g thread)
    (constructs : (s.pc thread).constructs = some cb) :
    g.worker cb = some thread ∧ s.life cb = .constructing :=
  sound.constructing cb (by simp [State.constructing, constructs])

theorem ThreadSound.worker_of_call (sound : ThreadSound s g thread)
    (inside : .register cb ∈ s.calls thread) :
    g.worker cb = some thread ∧ s.life cb = .constructing := by
  apply sound.constructing
  apply List.mem_append_right
  exact List.mem_filterMap.mpr ⟨_, inside, rfl⟩

end Threads

namespace PlaceStep

theorem never (placeStep : PlaceStep thread g cb .never place)
    (isOther : other ≠ thread) (works : g.worker cb = some other) :
    place = .never := by
  cases placeStep with
  | same => rfl
  | link works' _ =>
      exact absurd (Option.some.inj (works.symm.trans works')) isOther

theorem listed (placeStep : PlaceStep thread g cb .listed place)
    (isOther : other ≠ thread) (owns : g.owner = some other) :
    place = .listed := by
  cases placeStep with
  | same => rfl
  | pop owns' _ | unlink owns' _ =>
      exact absurd (Option.some.inj (owns.symm.trans owns')) isOther

theorem popped (placeStep : PlaceStep thread g cb .popped place)
    (isOther : other ≠ thread) (isActive : g.phase = .active other) :
    place = .popped := by
  cases placeStep with
  | same => rfl
  | run isActive' =>
      exact absurd (Phase.active.inj (isActive.symm.trans isActive')) isOther

theorem running (placeStep : PlaceStep thread g cb .running place)
    (isOther : other ≠ thread) (isActive : g.phase = .active other) :
    place = .running := by
  cases placeStep with
  | same => rfl
  | finish isActive' =>
      exact absurd (Phase.active.inj (isActive.symm.trans isActive')) isOther

theorem unlinked (placeStep : PlaceStep thread g cb .unlinked place) :
    place = .unlinked := by
  cases placeStep
  rfl

/-- Only the destructor of a callback unlinks it. -/
theorem ne_unlinked {before : Place}
    (placeStep : PlaceStep thread g cb before place)
    (isOther : other ≠ thread) (works : g.worker cb = some other)
    (notUnlinked : before ≠ .unlinked) : place ≠ .unlinked := by
  cases placeStep with
  | same => exact notUnlinked
  | unlink _ works' =>
      exact absurd (Option.some.inj (works.symm.trans works')) isOther
  | link | pop | run | finish => simp

/-- Only the constructor of a callback links it. -/
theorem ne_listed {before : Place}
    (placeStep : PlaceStep thread g cb before place)
    (isOther : other ≠ thread) (works : g.worker cb = some other)
    (notListed : before ≠ .listed) : place ≠ .listed := by
  cases placeStep with
  | same => exact notListed
  | link works' _ =>
      exact absurd (Option.some.inj (works.symm.trans works')) isOther
  | pop | run | finish | unlink => simp

end PlaceStep

namespace Guarantee

variable (guarantee : Guarantee thread s s' g g')
include guarantee

theorem requested (isRequested : g.phase ≠ .quiet) : g'.phase ≠ .quiet := by
  rcases guarantee.phase with same | ⟨isQuiet, _⟩ | ⟨_, isOver⟩
  · rwa [same]
  · exact absurd isQuiet isRequested
  · simp [isOver]

theorem active_iff (isOther : other ≠ thread) :
    g'.phase = .active other ↔ g.phase = .active other := by
  rcases guarantee.phase with same | ⟨isQuiet, isActive, _⟩ |
    ⟨isActive, isOver⟩
  · rw [same]
  · simp [isQuiet, isActive, isOther.symm]
  · simp [isActive, isOver, isOther.symm]

/-- Nobody requests a stop while another thread holds the lock. -/
theorem quiet (owns : g.owner = some other) (isQuiet : g.phase = .quiet) :
    g'.phase = .quiet := by
  rcases guarantee.phase with same | ⟨_, _, isFree⟩ | ⟨isActive, _⟩
  · rwa [same]
  · rw [isFree] at owns
    cases owns
  · rw [isQuiet] at isActive
    cases isActive

theorem stays_never (isOther : other ≠ thread)
    (works : g.worker cb = some other) (isNever : s.place cb = .never) :
    s'.place cb = .never := by
  have placeStep := guarantee.place cb
  rw [isNever] at placeStep
  exact placeStep.never isOther works

theorem stays_running (isOther : other ≠ thread)
    (isActive : g.phase = .active other) (isRunning : s.place cb = .running) :
    s'.place cb = .running := by
  have placeStep := guarantee.place cb
  rw [isRunning] at placeStep
  exact placeStep.running isOther isActive

theorem stays_popped (isOther : other ≠ thread)
    (isActive : g.phase = .active other) (isPopped : s.place cb = .popped) :
    s'.place cb = .popped := by
  have placeStep := guarantee.place cb
  rw [isPopped] at placeStep
  exact placeStep.popped isOther isActive

theorem stays_unlinked (isUnlinked : s.place cb = .unlinked) :
    s'.place cb = .unlinked := by
  have placeStep := guarantee.place cb
  rw [isUnlinked] at placeStep
  exact placeStep.unlinked

theorem handles {lastCb : Bool} (isOther : other ≠ thread)
    (isActive : g.phase = .active other) (global : Global s g)
    (handled : Handles s g other cb lastCb) :
    Handles s' g' other cb lastCb := by
  obtain ⟨_, _, frozen⟩ := guarantee.handled other isOther isActive
  obtain ⟨lifeIff, pointerEq⟩ :=
    frozen cb ((global.handled_iff cb).mpr (.inr handled.place))
  refine ⟨guarantee.stays_running isOther isActive handled.place, ?_, ?_, ?_⟩
  · intro isLast
    apply guarantee.cbs
    · simp [isActive]
    · exact handled.last isLast
  · rw [guarantee.destroyed other isOther, lifeIff]
    exact handled.flag
  · rw [pointerEq, Ne, lifeIff]
    exact handled.pointer

theorem removes (isOther : other ≠ thread)
    (removing : Removes s g other cb) : Removes s' g' other cb := by
  obtain ⟨works, lifeEq, _⟩ := guarantee.worker cb other isOther removing.worker
  exact ⟨works, lifeEq.trans removing.life⟩

/-- A callback that is not on the list is never linked again. -/
theorem beyond (isOther : other ≠ thread)
    (removing : Removes s g other cb) (notListed : s.place cb ≠ .listed)
    (notUnlinked : s.place cb ≠ .unlinked) :
    Removes s' g' other cb ∧ s'.place cb ≠ .listed ∧
      s'.place cb ≠ .unlinked :=
  ⟨guarantee.removes isOther removing,
    (guarantee.place cb).ne_listed isOther removing.worker notListed,
    (guarantee.place cb).ne_unlinked isOther removing.worker notUnlinked⟩

theorem call (isOther : other ≠ thread) (global : Global s g)
    (sound : ThreadSound s g other) {call : Call Cb}
    (inside : call ∈ s.calls other) : CallSound s' g' other call := by
  cases call with
  | stop cb lastCb =>
      exact guarantee.handles isOther (sound.active_of_call inside) global
        (sound.calls _ inside)
  | register cb =>
      obtain ⟨works, isConstructing⟩ := sound.worker_of_call inside
      obtain ⟨_, _, _, ranEq⟩ := guarantee.worker cb other isOther works
      obtain ⟨isNever, ranOnce⟩ := sound.calls _ inside
      exact ⟨guarantee.stays_never isOther works isNever,
        (ranEq isConstructing).trans ranOnce⟩

/-- What a thread relies on is stable under the steps of the others. -/
theorem pcSound (isOther : other ≠ thread) (global : Global s g)
    (sound : ThreadSound s g other) :
    PcSound s' g' other (s.pc other) := by
  have relied := sound.pc
  have owns := sound.owner_iff.mp
  have inLoop := sound.active_of_inLoop
  have works (cb : Cb) : (s.pc other).constructs = some cb →
      g.worker cb = some other ∧ s.life cb = .constructing :=
    sound.worker_of_pc
  cases pcEq : s.pc other with
  | user | stopLoad | stopEnter | stopPop | stopLock => trivial
  | stopRelock => trivial
  | stopTry old =>
      rw [pcEq] at relied
      exact fun wasRequested => guarantee.requested (relied wasRequested)
  | stopUnlock cb lastCb | stopRun cb lastCb =>
      rw [pcEq] at relied inLoop
      refine ⟨guarantee.stays_popped isOther (inLoop rfl) relied.1, ?_⟩
      intro isLast
      apply guarantee.cbs
      · simp [inLoop rfl]
      · exact relied.2 isLast
  | stopRan cb lastCb =>
      rw [pcEq] at relied inLoop
      exact guarantee.handles isOther (inLoop rfl) global relied
  | stopEnd =>
      rw [pcEq] at relied inLoop
      apply guarantee.cbs
      · simp [inLoop rfl]
      · exact relied
  | registerLoad cb | registerRan cb =>
      rw [pcEq] at relied works
      obtain ⟨isWorker, isConstructing⟩ := works cb rfl
      obtain ⟨_, _, _, ranEq⟩ := guarantee.worker cb other isOther isWorker
      exact ⟨guarantee.stays_never isOther isWorker relied.1,
        (ranEq isConstructing).trans relied.2⟩
  | registerTry cb old =>
      rw [pcEq] at relied works
      obtain ⟨isNever, notRan, wasRequested, isLate⟩ := relied
      obtain ⟨isWorker, isConstructing⟩ := works cb rfl
      obtain ⟨_, _, lateEq, ranEq⟩ :=
        guarantee.worker cb other isOther isWorker
      refine ⟨guarantee.stays_never isOther isWorker isNever,
        (ranEq isConstructing).trans notRan, ?_, ?_⟩
      · exact fun isRequested => guarantee.requested (wasRequested isRequested)
      · rwa [lateEq]
  | registerLink cb =>
      rw [pcEq] at relied works owns
      obtain ⟨isNever, notRan, isQuiet, notLate⟩ := relied
      obtain ⟨isWorker, isConstructing⟩ := works cb rfl
      obtain ⟨_, _, lateEq, ranEq⟩ :=
        guarantee.worker cb other isOther isWorker
      exact ⟨guarantee.stays_never isOther isWorker isNever,
        (ranEq isConstructing).trans notRan,
        guarantee.quiet (owns rfl) isQuiet, lateEq.trans notLate⟩
  | registerUnlock cb =>
      rw [pcEq] at relied owns
      have placeStep := guarantee.place cb
      rw [relied.1] at placeStep
      exact ⟨placeStep.listed isOther (owns rfl),
        guarantee.quiet (owns rfl) relied.2⟩
  | removeLoad cb | removeTry cb | removeUnlink cb =>
      rw [pcEq] at relied
      obtain ⟨removing, notUnlinked⟩ := relied
      exact ⟨guarantee.removes isOther removing,
        (guarantee.place cb).ne_unlinked isOther removing.worker notUnlinked⟩
  | removeUnlock cb found =>
      rw [pcEq] at relied
      cases found with
      | true =>
          exact ⟨guarantee.removes isOther relied.1,
            guarantee.stays_unlinked relied.2⟩
      | false => exact guarantee.beyond isOther relied.1 relied.2.1 relied.2.2
  | removeRequester cb | removeAcquire cb =>
      rw [pcEq] at relied
      exact guarantee.beyond isOther relied.1 relied.2.1 relied.2.2

theorem threadSound (isOther : other ≠ thread) (global : Global s g)
    (sound : ThreadSound s g other) : ThreadSound s' g' other := by
  have pcEq := guarantee.pc other isOther
  have callsEq := guarantee.calls other isOther
  have activeIff := guarantee.active_iff isOther
  have constructingEq : s'.constructing other = s.constructing other := by
    simp only [State.constructing, pcEq, callsEq]
  constructor
  case owner_iff =>
    rw [pcEq, guarantee.owner other isOther]
    exact sound.owner_iff
  case active_iff =>
    simp only [State.requests, pcEq, callsEq]
    exact sound.active_iff.trans activeIff.symm
  case requests_le =>
    simp only [State.requests, pcEq, callsEq]
    exact sound.requests_le
  case taken =>
    intro isActive
    have wasActive := activeIff.mp isActive
    simp only [State.taken, pcEq, callsEq,
      (guarantee.handled other isOther wasActive).1]
    exact sound.taken wasActive
  case requester =>
    intro isActive
    have wasActive := activeIff.mp isActive
    rw [pcEq, (guarantee.handled other isOther wasActive).2.1]
    exact sound.requester wasActive
  case constructing =>
    rw [constructingEq]
    intro cb isConstructing
    obtain ⟨works, lifeEq⟩ := sound.constructing cb isConstructing
    obtain ⟨works', lifeEq', _⟩ := guarantee.worker cb other isOther works
    exact ⟨works', lifeEq'.trans lifeEq⟩
  case nodup =>
    rw [constructingEq]
    exact sound.nodup
  case pc =>
    rw [pcEq]
    exact guarantee.pcSound isOther global sound
  case calls =>
    rw [callsEq]
    exact fun call inside => guarantee.call isOther global sound inside

end Guarantee

/-- So a step is sound if its own thread relies on the right things. -/
theorem Represents.advance (sound : Represents s g) (actor : Thread)
    (guarantee : Guarantee actor s s' g g') (global : Global s' g')
    (own : ThreadSound s' g' actor) : Represents s' g' := by
  refine ⟨global, fun other => ?_⟩
  by_cases isOwn : other = actor
  · rwa [isOwn]
  · exact guarantee.threadSound isOwn sound.global (sound.thread other)

end Stability

end CoContext.StopCallback
