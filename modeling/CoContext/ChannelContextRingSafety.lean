import CoContext.ChannelContextRing

/-!
# A channel on one context strands no waiter while the ready queue has room

A coroutine that is notified while `m_mtx` is free owns it from that moment on,
although it only stands in the ready queue.  When its handle is overwritten
there, `m_mtx` stays locked for ever.
-/

namespace CoContext.ChannelContextRing

open Channel CoContext.Sequential
open ChannelContext (Frame Unstranded)
open TransitionSystem (ReachableBy Run)

variable {Coro T Buffer : Type*} [DecidableEq Coro]

theorem Holds.quiescent {storage : Storage T Buffer} {s : State Coro T Buffer}
    {lists : ChannelContext.State Coro T Buffer} (holds : Holds storage s lists)
    (quiescent : s.Quiescent) : lists.Quiescent := by
  obtain ⟨notRunning, isEmpty⟩ := quiescent
  rw [holds.context] at notRunning
  have sizeEq := CursorRing.size_eq holds.ready
  rw [SpscCursor.isEmpty, beq_iff_eq] at isEmpty
  rw [isEmpty, UInt32.sub_self, List.length_map] at sizeEq
  exact ⟨notRunning, List.eq_nil_of_length_eq_zero sizeEq.symm⟩

theorem unstranded_of_reachable {storage : Storage T Buffer}
    {s : State Coro T Buffer}
    (reached : (system Coro storage).ReachableBy (HasRoom storage) s)
    (quiescent : s.Quiescent) : Unstranded storage s.context := by
  obtain ⟨lists, holds⟩ := holds_of_reachable reached
  have unstranded := ChannelContext.unstranded_of_reachable holds.reachable
    (holds.quiescent quiescent)
  rw [holds.context]
  exact ⟨unstranded.receivers, unstranded.senders, unstranded.unlocked⟩

/-- While no handle is forwarded to a full ring, neither buffered channel
strands a waiter on a context where nothing is left to run. -/
theorem quiescent_unstranded (capacity : Nat) (capacityPos : 0 < capacity) :
    (∀ s, (system Coro (Ring.storage T capacity capacityPos)).ReachableBy
        (HasRoom (Ring.storage T capacity capacityPos)) s →
      s.Quiescent →
        Unstranded (Ring.storage T capacity capacityPos) s.context) ∧
    (∀ s, (system Coro (Single.storage T)).ReachableBy
        (HasRoom (Single.storage T)) s →
      s.Quiescent → Unstranded (Single.storage T) s.context) :=
  ⟨fun _ => unstranded_of_reachable, fun _ => unstranded_of_reachable⟩

abbrev oneSlot : Storage Nat (Channel.Ring Nat) :=
  Ring.storage Nat 1 Nat.one_pos

/-- Two coroutines wait to drop when an element is released; the first one
gets it, and the second one waits on. -/
def waitingRun : (system (Fin 3) oneSlot).Run :=
  Run.ofActions (State.new (Fin 3) oneSlot) rfl
    [.arrive 0, .arrive 1, .arrive 2, .schedule, .call .drop, .run, .run, .run,
      .schedule, .call .drop, .run, .run, .run,
      .schedule, .call (.release 7), .run, .run, .run, .run, .run, .leave,
      .schedule, .run, .run, .run, .run, .leave]
    (by decide)

theorem quiescent_unstranded_waiting :
    ((waitingRun.state 27).context.cv .notEmpty).queue.length = 1 ∧
      Unstranded oneSlot (waitingRun.state 27).context :=
  ⟨by decide, (quiescent_unstranded 1 Nat.one_pos).1 (waitingRun.state 27)
    (Run.Guarded.reachableBy
      (by unfold TransitionSystem.Run.Guarded; decide) (by decide))
    ⟨by decide, by decide⟩⟩

section Flood

/-- A coroutine waits to acquire, and another one releases.  The first one is
ready then, and owns `m_mtx`. -/
def grantActions : List (ChannelContext.Action Nat Nat) :=
  [.arrive 0, .schedule, .call .acquire, .run, .run, .run,
    .arrive 1, .schedule, .call (.release 7), .run, .run, .run, .run, .run,
    .leave]

def granted : State Nat Nat (Channel.Ring Nat) :=
  ((system Nat oneSlot).exec (State.new Nat oneSlot) grantActions).get
    (by decide)

/-- Coroutines `2`, `3`, … become ready before any of them is scheduled. -/
def flooded : Nat → State Nat Nat (Channel.Ring Nat)
  | 0 => granted
  | count + 1 =>
      { flooded count with
        ready := (flooded count).ready.forwardTask swapCapacity
          (some (count + 2)) }

/-- `length` coroutines became ready, and `count` handles were scheduled. -/
def drained (length count : Nat) : State Nat Nat (Channel.Ring Nat) :=
  { flooded length with
    ready := { (flooded length).ready with
      reapCur := ⟨2 + UInt32.ofNat count, 3 + UInt32.ofNat length⟩ } }

section Steps

variable {storage : Storage T Buffer} {s : State Coro T Buffer} {coro : Coro}

omit [DecidableEq Coro] in
theorem withoutReady_eq {context : ChannelContext.State Coro T Buffer}
    (noList : context.ready = []) : withoutReady context = context := by
  rw [withoutReady, ← noList]

theorem step_arrive (noList : s.context.ready = [])
    (isIdle : s.position coro = .idle)
    (isElsewhere : coro ∉ s.view.frames.map Frame.coro) :
    step storage s (.arrive coro) = some { s with
      ready := s.ready.forwardTask swapCapacity (some coro) } := by
  have positionEq : s.movePosition (s.view.coSpawn ⟨coro, .idle⟩) =
      s.position := by
    have sameRunning :
        (s.view.coSpawn ⟨coro, .idle⟩).running = s.context.running := rfl
    rw [State.movePosition, sameRunning]
    cases s.context.running <;> rfl
  have contextEq : withoutReady (s.view.coSpawn ⟨coro, .idle⟩) = s.context :=
    withoutReady_eq noList
  simp only [step, isIdle, State.move, ChannelContext.step, if_neg isElsewhere,
    Option.map_some, positionEq, contextEq]
  simp [State.moveReady, ChannelContext.State.coSpawn]

/-- A coroutine that does nothing at the channel runs once. -/
theorem schedule_leave (storage : Storage T Buffer)
    (notRunning : s.context.running = none)
    (noList : s.context.ready = []) {rest : List (Frame Coro T)}
    (viewReady : s.view.ready = ⟨coro, .idle⟩ :: rest)
    (isIdle : s.position coro = .idle) :
    ∃ middle, step storage s .schedule = some middle ∧
      step storage middle .leave = some { s with ready := s.ready.pop } := by
  have viewRunning : s.view.running = none := notRunning
  refine ⟨⟨s.context.resume ⟨coro, .idle⟩, s.ready.pop, s.position⟩, ?_, ?_⟩
  · simp only [step, State.move, ChannelContext.step, viewRunning, viewReady,
      Option.map_some, State.moveReady, State.movePosition, notRunning,
      Option.some.injEq, State.mk.injEq, and_true]
    have list : (s.context.resume ⟨coro, .idle⟩).ready = [] := noList
    exact withoutReady_eq list
  · generalize isMiddle : (⟨s.context.resume ⟨coro, .idle⟩, s.ready.pop,
      s.position⟩ : State Coro T Buffer) = middle
    have leaves : ChannelContext.step storage middle.view .leave =
        some { middle.view with running := none } := by
      rw [← isMiddle]
      rfl
    have readyEq : middle.moveReady .leave { middle.view with running := none } =
        s.ready.pop := by
      simp [State.moveReady, ← isMiddle]
    have positionEq : middle.movePosition { middle.view with running := none } =
        s.position := by
      rw [← isMiddle]
      change Function.update s.position coro .idle = s.position
      rw [← isIdle, Function.update_eq_self]
    have contextEq : withoutReady { middle.view with running := none } =
        s.context := by
      rw [← isMiddle]
      change withoutReady { s.context with running := none } = s.context
      rw [← notRunning]
      exact withoutReady_eq noList
    simp only [step, State.move, leaves, Option.map_some, readyEq, positionEq,
      contextEq]

end Steps

theorem flooded_context (count : Nat) :
    (flooded count).context = granted.context ∧
      (flooded count).position = granted.position := by
  induction count with
  | zero => exact ⟨rfl, rfl⟩
  | succ count ih => exact ih

theorem flooded_reapCur (count : Nat) :
    (flooded count).ready.reapCur = ⟨2, 3 + UInt32.ofNat count⟩ := by
  induction count with
  | zero => decide
  | succ count ih =>
      rw [flooded, ReapSwap.forwardTask, ih, SpscCursor.push, UInt32.ofNat_add,
        ← UInt32.add_assoc]
      rfl

/-- The coroutines that became ready are numbered from `2` on. -/
theorem flooded_below {count slot coro : Nat}
    (inSlot : (flooded count).ready.reapSwap slot = some coro) :
    coro < count + 2 := by
  induction count with
  | zero =>
      match slot, inSlot with
      | 0, inSlot | 1, inSlot | 2, inSlot =>
          obtain rfl := Option.some.inj inSlot
          decide
      | slot + 3, inSlot => cases inSlot
  | succ count ih =>
      simp only [flooded, ReapSwap.forwardTask, Function.update_apply]
        at inSlot
      split at inSlot
      next =>
        obtain rfl := Option.some.inj inSlot
        omega
      next => exact Nat.lt_succ_of_lt (ih inSlot)

/-- The slots behind the first one hold coroutines that are idle. -/
theorem flooded_slot {count offset : Nat} (offsetLt : offset < count) :
    ∃ coro, (flooded count).ready.reapSwap
      (swapCapacity.slot (3 + UInt32.ofNat offset)) = some (coro + 2) := by
  induction count with
  | zero => exact absurd offsetLt (Nat.not_lt_zero _)
  | succ count ih =>
      simp only [flooded, ReapSwap.forwardTask, Function.update_apply]
      split
      next => exact ⟨count, rfl⟩
      next isOther =>
        apply ih
        refine Nat.lt_of_le_of_ne (Nat.le_of_lt_succ offsetLt) ?_
        rintro rfl
        exact isOther (by rw [SpscCursor.tail, flooded_reapCur])

omit [DecidableEq Coro] in
theorem mem_view_ready {s : State Coro T Buffer} {frame : Frame Coro T}
    (isReady : frame ∈ s.view.ready) :
    ∃ slot, s.ready.reapSwap slot = some frame.coro := by
  obtain ⟨handle, isPending, isFrame⟩ := List.mem_filterMap.mp isReady
  obtain ⟨offset, _, rfl⟩ := List.mem_map.mp isPending
  obtain ⟨coro, inSlot, rfl⟩ := Option.map_eq_some_iff.mp isFrame
  exact ⟨_, inSlot⟩

/-- Nobody else is at the channel while the ring fills. -/
theorem flooded_frames (count : Nat) :
    (flooded count).view.frames = (flooded count).view.ready := by
  have contextEq := (flooded_context count).1
  have rest : granted.context.running = none ∧
      granted.context.mutex.line = [] ∧
      (granted.context.cv .notEmpty).queue = [] ∧
      (granted.context.cv .notFull).queue = [] := by decide
  obtain ⟨running, line, notEmpty, notFull⟩ := rest
  rw [← contextEq] at running line notEmpty notFull
  rw [frames_eq, suspended]
  simp only [State.view, running, line, notEmpty, notFull, List.append_nil,
    Option.toList_none, List.nil_append]

theorem reachable_flooded (count : Nat) :
    (system Nat oneSlot).Reachable (flooded count) := by
  induction count with
  | zero =>
      have reached : (system Nat oneSlot).Reachable granted :=
        .exec (.start rfl) (Option.some_get _).symm
      exact reached
  | succ count ih =>
      obtain ⟨contextEq, positionEq⟩ := flooded_context count
      have stepEq : (system Nat oneSlot).step (flooded count)
          (.arrive (count + 2)) = some (flooded (count + 1)) := by
        apply step_arrive
        · rw [contextEq]
          rfl
        · rw [positionEq]
          rfl
        · rw [flooded_frames]
          intro isReady
          obtain ⟨frame, inView, isCoro⟩ := List.mem_map.mp isReady
          obtain ⟨slot, inSlot⟩ := mem_view_ready inView
          have below := flooded_below inSlot
          omega
      exact .next ih trivial stepEq

/-- Every slot holds a coroutine that is idle when as many became ready as the
ring has slots: the last of them took the slot of the owner of `m_mtx`. -/
theorem filled_slot {length offset : Nat} (full : length = 16384)
    (offsetLe : offset ≤ length) :
    ∃ coro, (flooded length).ready.reapSwap
      (swapCapacity.slot (2 + UInt32.ofNat offset)) = some (coro + 2) := by
  cases offset with
  | zero =>
      have slotEq : swapCapacity.slot (2 + UInt32.ofNat 0) =
          swapCapacity.slot (3 + UInt32.ofNat 16383) := by decide
      rw [slotEq]
      exact flooded_slot (by omega)
  | succ offset =>
      have cursorEq : 2 + UInt32.ofNat (offset + 1) =
          3 + UInt32.ofNat offset := by
        rw [UInt32.ofNat_add, UInt32.add_comm (UInt32.ofNat offset),
          ← UInt32.add_assoc]
        rfl
      rw [cursorEq]
      exact flooded_slot offsetLe

theorem drained_size {length count : Nat} (full : length = 16384)
    (countLe : count ≤ length) :
    (drained length count).ready.reapCur.size.toNat = length - count + 1 := by
  have two : (2 : UInt32).toNat = 2 := rfl
  have three : (3 : UInt32).toNat = 3 := rfl
  change (3 + UInt32.ofNat length - (2 + UInt32.ofNat count)).toNat = _
  rw [UInt32.toNat_sub, UInt32.toNat_add, UInt32.toNat_add,
    UInt32.toNat_ofNat', UInt32.toNat_ofNat', two, three]
  omega

omit [DecidableEq Coro] in
theorem view_ready_cons {s : State Coro T Buffer} {coro : Coro} {size : Nat}
    (sizeEq : s.ready.reapCur.size.toNat = size + 1)
    (scheduled : s.ready.schedule swapCapacity = some coro) :
    ∃ rest, s.view.ready = ⟨coro, s.position coro⟩ :: rest := by
  have first : s.ready.reapSwap (swapCapacity.slot
      (s.ready.reapCur.mHead + UInt32.ofNat 0)) = some coro := by
    rw [show s.ready.reapCur.mHead + UInt32.ofNat 0 = s.ready.reapCur.mHead from
      UInt32.add_zero _]
    exact scheduled
  simp only [State.view, ReapSwap.pending, sizeEq, List.range_succ_eq_map,
    List.map_cons, List.filterMap_cons, first, Option.map_some]
  exact ⟨_, rfl⟩

/-- The next handle is that of an idle coroutine. -/
theorem drained_view {length count : Nat} (full : length = 16384)
    (countLe : count ≤ length) :
    ∃ coro rest, (drained length count).view.ready = ⟨coro, .idle⟩ :: rest ∧
      (drained length count).position coro = .idle := by
  obtain ⟨coro, inSlot⟩ := filled_slot full countLe
  have isIdle : (drained length count).position (coro + 2) = .idle := by
    change (flooded length).position (coro + 2) = .idle
    rw [(flooded_context length).2]
    rfl
  obtain ⟨rest, viewReady⟩ := view_ready_cons (drained_size full countLe) inSlot
  rw [isIdle] at viewReady
  exact ⟨coro + 2, rest, viewReady, isIdle⟩

theorem reachable_drained {length count : Nat} (full : length = 16384)
    (countLe : count ≤ length + 1) :
    (system Nat oneSlot).Reachable (drained length count) := by
  obtain ⟨contextEq, _⟩ := flooded_context length
  induction count with
  | zero =>
      have same : drained length 0 = flooded length := by
        have readyEq : { (flooded length).ready with
            reapCur := ⟨2 + UInt32.ofNat 0, 3 + UInt32.ofNat length⟩ } =
              (flooded length).ready := by
          rw [show 2 + UInt32.ofNat 0 = 2 from UInt32.add_zero 2,
            ← flooded_reapCur]
        rw [drained, readyEq]
      rw [same]
      exact reachable_flooded length
  | succ count ih =>
      obtain ⟨coro, rest, viewReady, isIdle⟩ :=
        drained_view full (Nat.le_of_succ_le_succ countLe)
      have notRunning : (drained length count).context.running = none := by
        change (flooded length).context.running = none
        rw [contextEq]
        rfl
      have noList : (drained length count).context.ready = [] := by
        change (flooded length).context.ready = []
        rw [contextEq]
        rfl
      obtain ⟨middle, scheduled, left⟩ :=
        schedule_leave oneSlot notRunning noList viewReady isIdle
      have last : drained length (count + 1) = { drained length count with
          ready := (drained length count).ready.pop } := by
        simp only [drained, ReapSwap.pop, SpscCursor.pop, UInt32.ofNat_add,
          ← UInt32.add_assoc]
        rfl
      rw [last]
      have reached := ih (Nat.le_of_succ_le countLe)
      have scheduleStep : (system Nat oneSlot).step (drained length count)
          .schedule = some middle := scheduled
      have leaveStep : (system Nat oneSlot).step middle .leave = some
          { drained length count with
            ready := (drained length count).ready.pop } := left
      exact .next (.next reached trivial scheduleStep) trivial leaveStep

end Flood

/-- After one more coroutine became ready than the ring has slots, the owner
of `m_mtx` is not resumed any more. -/
theorem quiescent_unstranded_fails :
    ¬ ∀ s, (system Nat oneSlot).Reachable s → s.Quiescent →
      Unstranded oneSlot s.context := by
  intro law
  obtain ⟨length, full⟩ : ∃ length, length = 16384 := ⟨_, rfl⟩
  obtain ⟨contextEq, _⟩ := flooded_context length
  have quiescent : (drained length (length + 1)).Quiescent := by
    constructor
    · change (flooded length).context.running = none
      rw [contextEq]
      rfl
    · change (2 + UInt32.ofNat (length + 1) == 3 + UInt32.ofNat length) = true
      rw [full]
      decide
  have unstranded := law _ (reachable_drained full (Nat.le_refl _)) quiescent
  have locked : (flooded length).context.mutex.awaiting = some [] := by
    rw [contextEq]
    decide
  rw [show (flooded length).context.mutex.awaiting = none from
    unstranded.unlocked] at locked
  simp at locked

end CoContext.ChannelContextRing
