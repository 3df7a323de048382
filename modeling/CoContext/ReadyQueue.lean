import CoContext.CursorRing
import CoContext.TransitionSystem

/-!
# The ready queue of a worker

`reap_swap` is a ring of coroutine handles between two 32-bit cursors.
Whatever makes a coroutine ready writes its handle behind the tail, and the
worker takes handles at the head, in passes that resume as many coroutines as
were ready when the pass began.

Nothing checks that the ring has room.  As long as it has, it is a queue that
loses nothing; a handle that is forwarded to a full ring replaces the oldest
one.
-/

namespace CoContext

/-- `spsc_cursor`, without its synchronisation. -/
structure SpscCursor where
  mHead : UInt32
  mTail : UInt32
  deriving DecidableEq

namespace SpscCursor

variable (capacity : RingCapacity) (cur : SpscCursor)

def head : Nat :=
  capacity.slot cur.mHead

def tail : Nat :=
  capacity.slot cur.mTail

def isEmpty : Bool :=
  cur.mHead == cur.mTail

def size : UInt32 :=
  cur.mTail - cur.mHead

def availableNumber : UInt32 :=
  capacity.value - (cur.mTail - cur.mHead)

def push : SpscCursor :=
  { cur with mTail := cur.mTail + 1 }

def pop : SpscCursor :=
  { cur with mHead := cur.mHead + 1 }

end SpscCursor

/-- `config::swap_capacity` -/
def swapCapacity : RingCapacity where
  value := 16384
  bits := 14
  value_eq := rfl

/-- `reap_swap` with its cursor. -/
structure ReapSwap (Coro : Type*) where
  /-- A slot that was never written holds a null handle. -/
  reapSwap : Nat → Option Coro
  reapCur : SpscCursor

namespace ReapSwap

variable {Coro : Type*} (capacity : RingCapacity)

def new (Coro : Type*) : ReapSwap Coro where
  reapSwap _ := none
  reapCur := ⟨0, 0⟩

variable (ready : ReapSwap Coro)

/-- `forward_task` -/
def forwardTask (handle : Option Coro) : ReapSwap Coro where
  reapSwap :=
    Function.update ready.reapSwap (ready.reapCur.tail capacity) handle
  reapCur := ready.reapCur.push

/-- The handle that `schedule` returns. -/
def schedule : Option Coro :=
  ready.reapSwap (ready.reapCur.head capacity)

/-- What `schedule` does to the cursor. -/
def pop : ReapSwap Coro :=
  { ready with reapCur := ready.reapCur.pop }

/-- The handles between the cursors, oldest first. -/
def pending : List (Option Coro) :=
  (List.range ready.reapCur.size.toNat).map fun offset =>
    ready.reapSwap (capacity.slot (ready.reapCur.mHead + UInt32.ofNat offset))

/-- The slots between the cursors hold these handles. -/
def Holds (handles : List (Option Coro)) : Prop :=
  CursorRing capacity (some ∘ ready.reapSwap) ready.reapCur.mHead
    ready.reapCur.mTail handles

section Holds

variable {capacity} {ready} {handle : Option Coro}
variable {handles : List (Option Coro)}

theorem holds_new : (new Coro).Holds capacity [] :=
  .empty _ _

theorem Holds.pending (holds : ready.Holds capacity handles) :
    ready.pending capacity = handles := by
  have contents := holds.contents
  apply List.map_injective_iff.mpr (Option.some_injective _)
  rw [ReapSwap.pending, List.map_map]
  exact contents

theorem Holds.room_iff (holds : ready.Holds capacity handles) :
    ready.reapCur.size < capacity.value ↔ handles.length < capacity.slots := by
  rw [UInt32.lt_iff_toNat_lt, SpscCursor.size, holds.size_eq]
  rfl

theorem Holds.schedule (holds : ready.Holds capacity (handle :: handles)) :
    ready.schedule capacity = handle :=
  Option.some.inj holds.front

theorem Holds.pop (holds : ready.Holds capacity (handle :: handles)) :
    ready.pop.Holds capacity handles :=
  CursorRing.pop holds

theorem Holds.forwardTask (holds : ready.Holds capacity handles)
    (room : handles.length < capacity.slots) (handle : Option Coro) :
    (ready.forwardTask capacity handle).Holds capacity (handles ++ [handle]) := by
  have pushed := CursorRing.push holds room handle
  rwa [← Function.comp_update] at pushed

/-- Forwarding several handles. -/
theorem Holds.forwardAll (holds : ready.Holds capacity handles)
    (forwarded : List (Option Coro))
    (room : handles.length + forwarded.length ≤ capacity.slots) :
    (forwarded.foldl (ReapSwap.forwardTask capacity) ready).Holds capacity
      (handles ++ forwarded) := by
  induction forwarded generalizing ready handles with
  | nil => rwa [List.append_nil]
  | cons handle forwarded ih =>
      rw [List.length_cons] at room
      have pushed := holds.forwardTask (by omega) handle
      have rest := ih pushed (by
        rw [List.length_append, List.length_singleton]
        omega)
      rwa [List.append_assoc] at rest

end Holds

end ReapSwap

namespace ReadyQueue

structure State (Coro : Type*) extends ReapSwap Coro where
  /-- What `do_worker_part` has still to resume. -/
  num : Option Nat

inductive Action (Coro : Type*)
  /-- Something makes a coroutine ready. -/
  | forwardTask (coro : Coro)
  /-- `do_worker_part` begins. -/
  | doWorkerPart
  /-- `work_once` takes a handle and resumes it. -/
  | workOnce
  /-- `do_worker_part` is over. -/
  | done
  deriving DecidableEq

instance {Coro : Type*} : Inhabited (Action Coro) :=
  ⟨.done⟩

variable {Coro : Type*} (capacity : RingCapacity)

def State.new (Coro : Type*) : State Coro :=
  { ReapSwap.new Coro with num := none }

/-- A coroutine, whose handle is not null, becomes ready. -/
def State.forwardTask (s : State Coro) (coro : Coro) : State Coro :=
  { s with toReapSwap := s.toReapSwap.forwardTask capacity (some coro) }

def step (s : State Coro) : Action Coro → Option (State Coro)
  | .forwardTask coro => some (s.forwardTask capacity coro)
  | .doWorkerPart =>
      if s.num = none then some { s with num := some s.reapCur.size.toNat }
      else none
  | .workOnce =>
      match s.num with
      | some (num + 1) =>
          some { s with toReapSwap := s.pop, num := some num }
      | _ => none
  | .done => if s.num = some 0 then some { s with num := none } else none

/-- The ready queue of a worker, with everything that may make coroutines
ready. -/
def system (Coro : Type*) (capacity : RingCapacity) :
    TransitionSystem (State Coro) (Action Coro) where
  initial s := s = State.new Coro
  step := step capacity

/-- What a step forwards. -/
def forwarded (_ : State Coro) : Action Coro → Option Coro
  | .forwardTask coro => some coro
  | .doWorkerPart | .workOnce | .done => none

/-- What a step resumes, which may be a null handle. -/
def scheduled (s : State Coro) : Action Coro → Option (Option Coro)
  | .workOnce => some (s.schedule capacity)
  | .forwardTask _ | .doWorkerPart | .done => none

/-- A handle is forwarded only when a slot is free. -/
def HasRoom (s : State Coro) : Action Coro → Prop
  | .forwardTask _ => s.reapCur.size < capacity.value
  | .doWorkerPart | .workOnce | .done => True

/-- What is promised for a run: whatever was forwarded was scheduled in its
order or is still in the ring, and a pass resumes what was ready when it
began. -/
structure LosesNothing {capacity : RingCapacity}
    (run : (system Coro capacity).Run) : Prop where
  fifo : ∀ time ≤ run.length,
    run.log (scheduled capacity) 0 time ++
      (run.state time).pending capacity =
        (run.log forwarded 0 time).map some
  pass : ∀ first last, first < last → last ≤ run.length →
    run.action first = .doWorkerPart →
    (∀ time, first < time → time < last → run.action time ≠ .doWorkerPart) →
    (run.state last).num = some 0 →
    run.log (scheduled capacity) (first + 1) last =
      (run.state first).pending capacity

section Step

variable {capacity} {s s' : State Coro}

/-- The ring holds `coros`, and a pass has no more to resume than these. -/
structure Holds (capacity : RingCapacity) (s : State Coro)
    (coros : List Coro) : Prop where
  ring : s.toReapSwap.Holds capacity (coros.map some)
  num_le : ∀ num ∈ s.num, num ≤ coros.length

theorem Holds.pending {coros : List Coro} (holds : Holds capacity s coros) :
    s.pending capacity = coros.map some :=
  holds.ring.pending

theorem Holds.hasRoom_iff {coros : List Coro} (holds : Holds capacity s coros)
    (coro : Coro) : HasRoom capacity s (.forwardTask coro) ↔
      coros.length < capacity.slots := by
  rw [HasRoom, holds.ring.room_iff, List.length_map]

theorem holds_new : Holds capacity (State.new Coro) [] where
  ring := ReapSwap.holds_new
  num_le := by simp [State.new]

/-- One step of a queue with room: what is scheduled leaves the queue at the
front, and what is forwarded enters it at the back. -/
theorem Holds.step {action : Action Coro} {coros : List Coro}
    (holds : Holds capacity s coros) (room : HasRoom capacity s action)
    (stepEq : ReadyQueue.step capacity s action = some s') :
    ∃ coros', Holds capacity s' coros' ∧
      coros.map some ++ (forwarded s action).toList.map some =
        (scheduled capacity s action).toList ++ coros'.map some := by
  cases action with
  | forwardTask coro =>
      obtain rfl := Option.some.inj stepEq
      have isRoom := (holds.hasRoom_iff coro).mp room
      have pushed := holds.ring.forwardTask
        (by rwa [List.length_map]) (some coro)
      rw [← List.map_singleton, ← List.map_append] at pushed
      refine ⟨coros ++ [coro], ⟨pushed, ?_⟩, by
        simp [forwarded, scheduled]⟩
      intro num isNum
      have numLe := holds.num_le num isNum
      rw [List.length_append, List.length_singleton]
      omega
  | doWorkerPart =>
      simp only [ReadyQueue.step, Option.ite_none_right_eq_some,
        Option.some.injEq] at stepEq
      obtain ⟨_, rfl⟩ := stepEq
      refine ⟨coros, ⟨holds.ring, ?_⟩, by simp [forwarded, scheduled]⟩
      intro num isNum
      obtain rfl := Option.some.inj isNum
      rw [SpscCursor.size, CursorRing.size_eq holds.ring, List.length_map]
  | workOnce =>
      simp only [ReadyQueue.step] at stepEq
      split at stepEq
      next num isNum =>
        obtain rfl := Option.some.inj stepEq
        have numLe := holds.num_le (num + 1) isNum
        cases coros with
        | nil => simp at numLe
        | cons coro coros =>
            have frontEq : s.schedule capacity = some coro :=
              holds.ring.schedule
            refine ⟨coros, ⟨holds.ring.pop, ?_⟩, by
              simp [forwarded, scheduled, frontEq]⟩
            intro other isOther
            obtain rfl := Option.some.inj isOther
            rw [List.length_cons] at numLe
            omega
      next => simp at stepEq
  | done =>
      simp only [ReadyQueue.step, Option.ite_none_right_eq_some,
        Option.some.injEq] at stepEq
      obtain ⟨_, rfl⟩ := stepEq
      refine ⟨coros, ⟨holds.ring, ?_⟩, by simp [forwarded, scheduled]⟩
      simp

/-- A step of a pass resumes at most the next of those that it has to resume. -/
theorem pass_step {action : Action Coro} {num : Nat}
    (balance : s.pending capacity ++ (forwarded s action).toList.map some =
      (scheduled capacity s action).toList ++ s'.pending capacity)
    (isNum : s.num = some num) (numLe : num ≤ (s.pending capacity).length)
    (notBegin : action ≠ .doWorkerPart)
    (stepEq : ReadyQueue.step capacity s action = some s') :
    s'.num = none ∨ ∃ left, s'.num = some left ∧
      (s.pending capacity).take num = (scheduled capacity s action).toList ++
        (s'.pending capacity).take left := by
  cases action with
  | forwardTask coro =>
      obtain rfl := Option.some.inj stepEq
      right
      refine ⟨num, isNum, ?_⟩
      simp only [forwarded, scheduled, Option.toList_some, Option.toList_none,
        List.map_cons, List.map_nil, List.nil_append] at balance ⊢
      rw [← balance, List.take_append_of_le_length numLe]
  | doWorkerPart => exact absurd rfl notBegin
  | workOnce =>
      cases num with
      | zero => simp [ReadyQueue.step, isNum] at stepEq
      | succ num =>
          simp only [ReadyQueue.step, isNum, Option.some.injEq] at stepEq
          right
          refine ⟨num, by rw [← stepEq], ?_⟩
          simp only [forwarded, scheduled, Option.toList_none, List.map_nil,
            List.append_nil, Option.toList_some, List.singleton_append]
            at balance ⊢
          rw [balance, List.take_succ_cons]
  | done =>
      simp only [ReadyQueue.step, Option.ite_none_right_eq_some,
        Option.some.injEq] at stepEq
      left
      rw [← stepEq.2]

/-- No pass begins by itself. -/
theorem num_none_step {action : Action Coro} (idle : s.num = none)
    (notBegin : action ≠ .doWorkerPart)
    (stepEq : ReadyQueue.step capacity s action = some s') :
    s'.num = none := by
  cases action with
  | forwardTask coro =>
      obtain rfl := Option.some.inj stepEq
      exact idle
  | doWorkerPart => exact absurd rfl notBegin
  | workOnce => simp [ReadyQueue.step, idle] at stepEq
  | done => simp [ReadyQueue.step, idle] at stepEq

end Step

section Runs

variable {capacity} {run : (system Coro capacity).Run}

theorem holds_of_guarded (guarded : run.Guarded (HasRoom capacity))
    {time : Nat} (timeLe : time ≤ run.length) :
    ∃ coros, Holds capacity (run.state time) coros := by
  induction time with
  | zero =>
      have starts : run.state 0 = State.new Coro := run.starts
      rw [starts]
      exact ⟨[], holds_new⟩
  | succ time ih =>
      obtain ⟨coros, holds⟩ := ih (Nat.le_of_succ_le timeLe)
      obtain ⟨coros', holds', _⟩ :=
        holds.step (guarded time timeLe) (run.steps time timeLe)
      exact ⟨coros', holds'⟩

/-- What the steps of a run with room do to the pending handles. -/
theorem balance_of_guarded (guarded : run.Guarded (HasRoom capacity))
    {time : Nat} (timeLt : time < run.length) :
    (run.state time).pending capacity ++
      (forwarded (run.state time) (run.action time)).toList.map some =
        (scheduled capacity (run.state time) (run.action time)).toList ++
          (run.state (time + 1)).pending capacity := by
  obtain ⟨coros, holds⟩ := holds_of_guarded guarded (Nat.le_of_lt timeLt)
  obtain ⟨coros', holds', balance⟩ :=
    holds.step (guarded time timeLt) (run.steps time timeLt)
  rw [holds.pending, holds'.pending]
  exact balance

theorem fifo_of_guarded (guarded : run.Guarded (HasRoom capacity))
    {time : Nat} (timeLe : time ≤ run.length) :
    run.log (scheduled capacity) 0 time ++
      (run.state time).pending capacity =
        (run.log forwarded 0 time).map some := by
  induction time with
  | zero =>
      have starts : run.state 0 = State.new Coro := run.starts
      rw [starts, holds_new.pending]
      simp
  | succ time ih =>
      have before := ih (by omega)
      have balance := balance_of_guarded guarded (by omega : time < run.length)
      rw [run.log_append (Nat.zero_le time) (Nat.le_succ time),
        run.log_append (Nat.zero_le time) (Nat.le_succ time), run.log_single,
        run.log_single, List.append_assoc, ← balance, List.map_append,
        ← before, List.append_assoc]

/-- Since a pass began, it is over, or what it resumed and what it has still
to resume is what was ready. -/
theorem passing_of_guarded (guarded : run.Guarded (HasRoom capacity))
    {first last : Nat} (firstLt : first < last) (lastLe : last ≤ run.length)
    (begins : run.action first = .doWorkerPart)
    (once : ∀ time, first < time → time < last →
      run.action time ≠ .doWorkerPart) :
    (run.state last).num = none ∨ ∃ num, (run.state last).num = some num ∧
      (run.state first).pending capacity =
        run.log (scheduled capacity) (first + 1) last ++
          ((run.state last).pending capacity).take num := by
  induction last, firstLt using Nat.le_induction with
  | base =>
      have balance := balance_of_guarded guarded (by omega : first < run.length)
      have stepEq : ReadyQueue.step capacity (run.state first) .doWorkerPart =
          some (run.state (first + 1)) := by
        rw [← begins]
        exact run.steps first lastLe
      obtain ⟨coros, holds⟩ :=
        holds_of_guarded guarded (by omega : first ≤ run.length)
      simp only [begins, forwarded, scheduled, Option.toList_none,
        List.map_nil, List.append_nil, List.nil_append] at balance
      simp only [ReadyQueue.step, Option.ite_none_right_eq_some,
        Option.some.injEq] at stepEq
      right
      refine ⟨(run.state first).reapCur.size.toNat, by rw [← stepEq.2], ?_⟩
      have lengthEq : ((run.state first).pending capacity).length =
          (run.state first).reapCur.size.toNat := by
        rw [holds.pending]
        exact (CursorRing.size_eq holds.ring).symm
      rw [run.log_self, ← balance, List.nil_append, ← lengthEq,
        List.take_length]
  | succ last firstLe ih =>
      have notBegin := once last firstLe (Nat.lt_succ_self last)
      have stepEq := run.steps last lastLe
      rcases ih (by omega) fun time firstLtTime timeLt =>
        once time firstLtTime (by omega) with finished | ⟨num, isNum, startEq⟩
      · exact .inl (num_none_step finished notBegin stepEq)
      · have balance := balance_of_guarded guarded lastLe
        obtain ⟨coros, holds⟩ :=
          holds_of_guarded guarded (by omega : last ≤ run.length)
        have numLe : num ≤ ((run.state last).pending capacity).length := by
          rw [holds.pending, List.length_map]
          exact holds.num_le num isNum
        rcases pass_step balance isNum numLe notBegin stepEq with
          finished | ⟨left, isLeft, takeEq⟩
        · exact .inl finished
        · right
          refine ⟨left, isLeft, ?_⟩
          rw [run.log_append firstLe (Nat.le_succ last), run.log_single,
            List.append_assoc, ← takeEq]
          exact startEq

/-- A run loses nothing if no handle is forwarded to a full ring. -/
theorem run_loses_nothing (run : (system Coro capacity).Run)
    (guarded : run.Guarded (HasRoom capacity)) : LosesNothing run := by
  refine ⟨fun time timeLe => fifo_of_guarded guarded timeLe, ?_⟩
  intro first last firstLt lastLe begins once isOver
  rcases passing_of_guarded guarded firstLt lastLe begins once with
    finished | ⟨num, isNum, startEq⟩
  · rw [finished] at isOver
    simp at isOver
  · obtain rfl : num = 0 := by
      rw [isNum] at isOver
      exact Option.some.inj isOver
    rw [startEq, List.take_zero, List.append_nil]

end Runs

section Flood

/-- Coroutines `0`, `1`, … become ready before any of them is scheduled. -/
def flooded (capacity : RingCapacity) : Nat → State Nat
  | 0 => State.new Nat
  | count + 1 => (flooded capacity count).forwardTask capacity count

variable {capacity : RingCapacity}

theorem flooded_reapCur (count : Nat) :
    (flooded capacity count).reapCur = ⟨0, UInt32.ofNat count⟩ := by
  induction count with
  | zero => rfl
  | succ count ih =>
      rw [flooded, State.forwardTask, ReapSwap.forwardTask, ih, UInt32.ofNat_add]
      rfl

/-- The run in which `length` coroutines become ready at once. -/
def floodRun (capacity : RingCapacity) (length : Nat) :
    (system Nat capacity).Run where
  length := length
  state := flooded capacity
  action := .forwardTask
  starts := rfl
  steps _ _ := rfl

theorem log_floodRun (length count : Nat) :
    (floodRun capacity length).log forwarded 0 count = List.range count := by
  induction count with
  | zero => rfl
  | succ count ih =>
      rw [TransitionSystem.Run.log_append _ (Nat.zero_le count)
        (Nat.le_succ count), TransitionSystem.Run.log_single, ih,
        List.range_succ]
      rfl

/-- The run satisfies the condition while the ring has room. -/
theorem floodRun_guarded {length : Nat} (lengthLe : length ≤ capacity.slots) :
    (floodRun capacity length).Guarded (HasRoom capacity) := by
  intro time timeLt
  have timeLt : time < length := timeLt
  have slotsLt := capacity.slots_lt
  change (flooded capacity time).reapCur.size < capacity.value
  have sizeEq : (0 : UInt32).toNat = 0 := rfl
  rw [flooded_reapCur, UInt32.lt_iff_toNat_lt, SpscCursor.size,
    UInt32.toNat_sub, UInt32.toNat_ofNat', sizeEq]
  rw [RingCapacity.slots] at lengthLe slotsLt
  omega

/-- The handle that is forwarded to a full ring takes the place of the first
one. -/
theorem pending_flooded : ((flooded capacity (capacity.slots + 1)).pending
    capacity).head? ≠ some (some 0) := by
  have slotsPos := capacity.slots_pos
  have slotsLt := capacity.slots_lt
  have slotZero : capacity.slot (UInt32.ofNat capacity.slots) =
      capacity.slot 0 := by
    have valueEq : UInt32.ofNat capacity.slots = capacity.value := by
      rw [RingCapacity.slots, UInt32.ofNat_toNat]
    rw [valueEq, capacity.slot_eq, capacity.slot_eq]
    exact (Nat.mod_self capacity.slots).trans (Nat.zero_mod _).symm
  have slotEq : (flooded capacity (capacity.slots + 1)).reapSwap
      (capacity.slot 0) = some capacity.slots := by
    rw [flooded, State.forwardTask, ReapSwap.forwardTask, SpscCursor.tail, flooded_reapCur, slotZero]
    exact Function.update_self _ _ _
  intro isFirst
  rw [ReapSwap.pending, List.head?_map, Option.map_eq_some_iff] at isFirst
  obtain ⟨offset, isOffset, entry⟩ := isFirst
  obtain rfl : offset = 0 := by
    rw [List.head?_range] at isOffset
    split at isOffset
    · simp at isOffset
    · exact (Option.some.inj isOffset).symm
  rw [flooded_reapCur] at entry
  have headEq : (0 : UInt32) + UInt32.ofNat 0 = 0 := rfl
  rw [headEq, slotEq, Option.some.injEq] at entry
  omega

/-- As many handles as the ring has slots, and one more. -/
theorem floodRun_loses (capacity : RingCapacity) :
    ¬ LosesNothing (floodRun capacity (capacity.slots + 1)) := by
  intro law
  have fifo := law.fifo (capacity.slots + 1) (Nat.le_refl _)
  have scheduledNone : (floodRun capacity (capacity.slots + 1)).log
      (scheduled capacity) 0 (capacity.slots + 1) = [] := by
    rw [List.eq_nil_iff_forall_not_mem]
    intro handle isScheduled
    obtain ⟨time, _, _, observed⟩ :=
      (TransitionSystem.Run.mem_log _).mp isScheduled
    simp [floodRun, scheduled] at observed
  rw [scheduledNone, log_floodRun, List.nil_append] at fifo
  have firstKept : ((flooded capacity (capacity.slots + 1)).pending
      capacity).head? = some (some 0) := by
    change (((floodRun capacity (capacity.slots + 1)).state
      (capacity.slots + 1)).pending capacity).head? = _
    change ((floodRun capacity _).state _).pending capacity = _ at fifo
    rw [fifo, List.range_succ_eq_map]
    rfl
  exact pending_flooded firstKept

/-- The ready queue of a worker loses a coroutine when one more becomes ready
than it has slots. -/
theorem run_loses_nothing_fails :
    ¬ ∀ run : (system Nat swapCapacity).Run, LosesNothing run := by
  intro law
  exact floodRun_loses swapCapacity (law _)

/-- A ring that is filled to the last slot loses nothing. -/
theorem run_loses_nothing_full :
    LosesNothing (floodRun swapCapacity 16384) :=
  run_loses_nothing (floodRun swapCapacity 16384)
    (floodRun_guarded (Nat.le_refl _))

end Flood

end ReadyQueue

end CoContext
