import CoContext.CursorRing
import CoContext.RequestRings
import CoContext.TransitionSystem

/-!
# The submission ring of a worker

`get_free_sqe` counts a request and takes the next entry of the submission
ring, which returns a null pointer when all its entries are prepared and not
consumed.  The kernel consumes entries only in `poll_submission`; nothing
bounds the number of entries that are taken in between.  A caller fills the
entry at once, so that the entry is real exactly when the ring had room.
-/

namespace CoContext

/-- `config::default_io_uring_entries` -/
def defaultIoUringEntries : RingCapacity where
  value := 32768
  bits := 15
  value_eq := rfl

namespace SubmissionQueue

structure State (Data : Type*) where
  sqeHead : UInt32
  sqeTail : UInt32
  khead : UInt32
  ktail : UInt32
  sqes : Nat → Option Data
  requestsToReap : Int
  requestsToSubmit : Nat
  /-- The entries that were handed out and that the kernel did not consume
  yet. -/
  prepared : List Nat

inductive Action (Data : Type*)
  /-- A caller of `get_free_sqe` takes an entry and fills it. -/
  | getFreeSqe (data : Data)
  /-- `poll_submission`, in which the kernel consumes entries. -/
  | pollSubmission (consumed : Nat)
  /-- A completion is handled, or an entry is flagged to have none. -/
  | discount
  deriving DecidableEq

instance {Data : Type*} : Inhabited (Action Data) :=
  ⟨.discount⟩

variable {Data : Type*} (capacity : RingCapacity)

namespace State

def new (Data : Type*) : State Data where
  sqeHead := 0
  sqeTail := 0
  khead := 0
  ktail := 0
  sqes _ := none
  requestsToReap := 0
  requestsToSubmit := 0
  prepared := []

variable (s : State Data)

/-- The entry that `get_sq_entry` returns. -/
def getSqEntry : Option Nat :=
  if s.sqeTail - s.khead < capacity.value then
    some (capacity.slot s.sqeTail)
  else none

/-- `get_free_sqe`, and its caller, who fills the entry. -/
def getFreeSqe (data : Data) : State Data :=
  let s := { s with
    requestsToReap := s.requestsToReap + 1
    requestsToSubmit := s.requestsToSubmit + 1 }
  match s.getSqEntry capacity with
  | some slot =>
      { s with
        sqeTail := s.sqeTail + 1
        sqes := Function.update s.sqes slot (some data)
        prepared := s.prepared ++ [slot] }
  | none => s

/-- `flush` -/
def flush : State Data :=
  if s.sqeTail ≠ s.sqeHead then
    { s with sqeHead := s.sqeTail, ktail := s.sqeTail }
  else s

/-- The number of entries that `flush` offers to the kernel. -/
def offered : Nat :=
  (s.sqeTail - s.khead).toNat

/-- `submit_and_wait`, and what follows it in `poll_submission`. -/
def submitAndWait (consumed : Nat) : State Data :=
  { s.flush with
    khead := s.khead + UInt32.ofNat consumed
    prepared := s.prepared.drop consumed
    requestsToSubmit := 0 }

end State

def step (s : State Data) : Action Data → Option (State Data)
  | .getFreeSqe data => some (s.getFreeSqe capacity data)
  | .pollSubmission consumed =>
      if s.requestsToSubmit ≠ 0 ∧ consumed ≤ s.offered then
        some (s.submitAndWait consumed)
      else none
  | .discount => some { s with requestsToReap := s.requestsToReap - 1 }

/-- The submission ring of a worker, with any use of it between two
submissions. -/
def system (Data : Type*) (capacity : RingCapacity) :
    TransitionSystem (State Data) (Action Data) where
  initial s := s = State.new Data
  step := step capacity

/-- What is promised for a call of `get_free_sqe`: it returns an entry, which
is none of those that are prepared and not consumed, and what it counts is this
entry. -/
structure CallSound (s s' : State Data) (slot : Nat) : Prop where
  nonNull : s.getSqEntry capacity = some slot
  distinct : slot ∉ s.prepared
  prepared : s'.prepared = s.prepared ++ [slot]
  requestsToReap : s'.requestsToReap = s.requestsToReap + 1
  requestsToSubmit : s'.requestsToSubmit = s.requestsToSubmit + 1

/-- Some entry is consumed or was never prepared. -/
def HasRoom (s : State Data) : Prop :=
  s.prepared.length < capacity.slots

section Entries

variable {capacity} {s s' : State Data}

/-- The entries between the cursors are those that were handed out and not
consumed. -/
def Tracked (capacity : RingCapacity) (s : State Data) : Prop :=
  CursorRing capacity some s.khead s.sqeTail s.prepared

theorem tracked_new : Tracked capacity (State.new Data) :=
  CursorRing.empty _ _

theorem Tracked.getSqEntry_isSome (tracked : Tracked capacity s) :
    (s.getSqEntry capacity).isSome ↔ HasRoom capacity s := by
  have sizeEq := tracked.size_eq
  simp only [State.getSqEntry, UInt32.lt_iff_toNat_lt, sizeEq, HasRoom,
    RingCapacity.slots]
  split
  next room => simp [room]
  next full => simp [full]

theorem getSqEntry_eq {slot : Nat} (entry : s.getSqEntry capacity = some slot) :
    slot = capacity.slot s.sqeTail := by
  unfold State.getSqEntry at entry
  split at entry
  · exact (Option.some.inj entry).symm
  · simp at entry

/-- No entry that is handed out is one of the prepared ones. -/
theorem Tracked.distinct (tracked : Tracked capacity s) {slot : Nat}
    (entry : s.getSqEntry capacity = some slot) : slot ∉ s.prepared := by
  have room : HasRoom capacity s :=
    tracked.getSqEntry_isSome.mp (by rw [entry]; rfl)
  rw [getSqEntry_eq entry]
  intro isPrepared
  obtain ⟨offset, offsetLt, isSlot⟩ := List.mem_iff_getElem.mp isPrepared
  have slotEq := tracked.slot_eq offset offsetLt
  rw [List.getElem?_eq_getElem offsetLt, isSlot] at slotEq
  exact tracked.fresh room offsetLt (Option.some.inj slotEq)

theorem getFreeSqe_of_null (data : Data)
    (null : s.getSqEntry capacity = none) : s.getFreeSqe capacity data =
      { s with
        requestsToReap := s.requestsToReap + 1
        requestsToSubmit := s.requestsToSubmit + 1 } := by
  have same : ({ s with
      requestsToReap := s.requestsToReap + 1
      requestsToSubmit := s.requestsToSubmit + 1 } : State Data).getSqEntry
        capacity = none := null
  simp only [State.getFreeSqe, same]

theorem getFreeSqe_of_entry (data : Data) {slot : Nat}
    (entry : s.getSqEntry capacity = some slot) :
    s.getFreeSqe capacity data =
      { s with
        requestsToReap := s.requestsToReap + 1
        requestsToSubmit := s.requestsToSubmit + 1
        sqeTail := s.sqeTail + 1
        sqes := Function.update s.sqes slot (some data)
        prepared := s.prepared ++ [slot] } := by
  have same : ({ s with
      requestsToReap := s.requestsToReap + 1
      requestsToSubmit := s.requestsToSubmit + 1 } : State Data).getSqEntry
        capacity = some slot := entry
  simp only [State.getFreeSqe, same]

theorem flush_cursors (s : State Data) :
    s.flush.sqeTail = s.sqeTail ∧ s.flush.sqes = s.sqes := by
  unfold State.flush
  split <;> exact ⟨rfl, rfl⟩

theorem Tracked.step {action : Action Data} (tracked : Tracked capacity s)
    (stepEq : SubmissionQueue.step capacity s action = some s') :
    Tracked capacity s' := by
  cases action with
  | getFreeSqe data =>
      obtain rfl := Option.some.inj stepEq
      cases entry : s.getSqEntry capacity with
      | none =>
          rw [getFreeSqe_of_null data entry]
          exact tracked
      | some slot =>
          have room : HasRoom capacity s :=
            tracked.getSqEntry_isSome.mp (by rw [entry]; rfl)
          have pushed := CursorRing.push tracked room slot
          rw [← getSqEntry_eq entry, Function.update_eq_self] at pushed
          rw [getFreeSqe_of_entry data entry]
          exact pushed
  | pollSubmission consumed =>
      simp only [SubmissionQueue.step, Option.ite_none_right_eq_some,
        Option.some.injEq] at stepEq
      obtain ⟨⟨_, consumedLe⟩, rfl⟩ := stepEq
      have lengthEq := tracked.size_eq
      rw [State.offered] at consumedLe
      have dropped := CursorRing.drop tracked (by omega : consumed ≤
        s.prepared.length)
      rw [Tracked, State.submitAndWait, (flush_cursors s).1]
      exact dropped
  | discount =>
      obtain rfl := Option.some.inj stepEq
      exact tracked

/-- A call is sound exactly when an entry is left. -/
theorem Tracked.callSound_iff (tracked : Tracked capacity s) (data : Data) :
    (∃ slot, CallSound capacity s (s.getFreeSqe capacity data) slot) ↔
      HasRoom capacity s := by
  rw [← tracked.getSqEntry_isSome, Option.isSome_iff_exists]
  constructor
  · rintro ⟨slot, sound⟩
    exact ⟨slot, sound.nonNull⟩
  · rintro ⟨slot, entry⟩
    refine ⟨slot, entry, tracked.distinct entry, ?_, ?_, ?_⟩ <;>
      rw [getFreeSqe_of_entry data entry]

/-- While an entry is left, the ring takes requests like the submission ring
of unbounded length that the worker is modelled with. -/
theorem getFreeSqe_refines {rings : Rings Data} {request : Request Data}
    {t : State (Request Data)}
    (ring : CursorRing capacity t.sqes t.khead t.sqeTail rings.sq)
    (room : rings.sq.length < capacity.slots) :
    CursorRing capacity (t.getFreeSqe capacity request).sqes
      (t.getFreeSqe capacity request).khead
      (t.getFreeSqe capacity request).sqeTail (rings.prepare request).sq := by
  have entry : t.getSqEntry capacity = some (capacity.slot t.sqeTail) := by
    apply if_pos
    rw [UInt32.lt_iff_toNat_lt, ring.size_eq]
    exact room
  rw [getFreeSqe_of_entry request entry]
  exact ring.push room request

/-- The kernel consumes the requests that were prepared first. -/
theorem submitAndWait_refines {rings : Rings Data} {t : State (Request Data)}
    (ring : CursorRing capacity t.sqes t.khead t.sqeTail rings.sq)
    {consumed : Nat} (consumedLe : consumed ≤ t.offered) :
    CursorRing capacity (t.submitAndWait consumed).sqes
      (t.submitAndWait consumed).khead (t.submitAndWait consumed).sqeTail
      (rings.enter consumed).sq := by
  rw [State.offered, ring.size_eq] at consumedLe
  simp only [State.submitAndWait, (flush_cursors t).1, (flush_cursors t).2]
  exact ring.drop consumedLe

end Entries

section Runs

variable {capacity} (run : (system Data capacity).Run)

theorem tracked_of_run {time : Nat} (timeLe : time ≤ run.length) :
    Tracked capacity (run.state time) := by
  induction time with
  | zero =>
      have starts : run.state 0 = State.new Data := run.starts
      rw [starts]
      exact tracked_new
  | succ time ih =>
      exact (ih (Nat.le_of_succ_le timeLe)).step (run.steps time timeLe)

/-- Each call of `get_free_sqe` in a run is sound if and only if each is made
while an entry is left. -/
theorem run_entries_sound_iff :
    (∀ time < run.length, ∀ data, run.action time = .getFreeSqe data →
      ∃ slot, CallSound capacity (run.state time) (run.state (time + 1))
        slot) ↔
    ∀ time < run.length, ∀ data, run.action time = .getFreeSqe data →
      HasRoom capacity (run.state time) := by
  have calls : ∀ time < run.length, ∀ data,
      run.action time = .getFreeSqe data →
        run.state (time + 1) = (run.state time).getFreeSqe capacity data := by
    intro time timeLt data isCall
    have stepEq := run.steps time timeLt
    rw [isCall] at stepEq
    exact (Option.some.inj stepEq).symm
  constructor
  · intro sound time timeLt data isCall
    have callSound := sound time timeLt data isCall
    rw [calls time timeLt data isCall] at callSound
    exact ((tracked_of_run run (Nat.le_of_lt timeLt)).callSound_iff data).mp
      callSound
  · intro room time timeLt data isCall
    rw [calls time timeLt data isCall]
    exact ((tracked_of_run run (Nat.le_of_lt timeLt)).callSound_iff data).mpr
      (room time timeLt data isCall)

end Runs

section Flood

/-- Requests `0`, `1`, … are prepared before the first submission. -/
def flooded (capacity : RingCapacity) : Nat → State Nat
  | 0 => State.new Nat
  | count + 1 => (flooded capacity count).getFreeSqe capacity count

/-- The run in which `length` requests are prepared before a submission. -/
def floodRun (capacity : RingCapacity) (length : Nat) :
    (system Nat capacity).Run where
  length := length
  state := flooded capacity
  action := .getFreeSqe
  starts := rfl
  steps _ _ := rfl

theorem prepared_flooded {capacity : RingCapacity} {count : Nat}
    (countLe : count ≤ capacity.slots) :
    (flooded capacity count).prepared.length = count := by
  induction count with
  | zero => rfl
  | succ count ih =>
      have lengthEq := ih (by omega)
      have tracked : Tracked capacity (flooded capacity count) :=
        tracked_of_run (floodRun capacity count) (Nat.le_refl _)
      have room : HasRoom capacity (flooded capacity count) := by
        rw [HasRoom]
        omega
      obtain ⟨slot, sound⟩ := (tracked.callSound_iff count).mpr room
      rw [flooded, sound.prepared, List.length_append, lengthEq,
        List.length_singleton]

/-- One request more than the ring has entries is prepared with a null
entry. -/
theorem run_entries_sound_fails :
    ¬ ∀ run : (system Nat defaultIoUringEntries).Run,
      ∀ time < run.length, ∀ data, run.action time = .getFreeSqe data →
        ∃ slot, CallSound defaultIoUringEntries (run.state time)
          (run.state (time + 1)) slot := by
  intro law
  have sound := law (floodRun defaultIoUringEntries
    (defaultIoUringEntries.slots + 1))
  rw [run_entries_sound_iff] at sound
  have room := sound defaultIoUringEntries.slots (Nat.lt_succ_self _) _ rfl
  have full := prepared_flooded (Nat.le_refl defaultIoUringEntries.slots)
  change (flooded defaultIoUringEntries _).prepared.length < _ at room
  omega

end Flood

end SubmissionQueue

end CoContext
