import CoContext.EntryReorder

/-!
# The kernel takes the entries as they were appended

The indices in the array are always those of all entries: behind `khead` those
that were appended, behind `sqe_free_head` those that are free, and the
application holds the others.  An entry twice as large has an index that is
not its offset, and `append_sq_entry` takes it for one.
-/

namespace CoContext.EntryReorder

variable {Data : Type*} {capacity : RingCapacity} {sqe128 : Bool}

/-- The entries are where their indices say. -/
def Indexed (capacity : RingCapacity) (sqe128 : Bool) : Prop :=
  ∀ index < capacity.slots, entryAt sqe128 index = index

/-- `entries` were appended and not consumed, with what is in them; those that
the kernel was told about come first. -/
structure Tracks (capacity : RingCapacity) (s : State Data)
    (entries : List (Nat × Option Data)) (free : List Nat) : Prop where
  appendedRing : CursorRing capacity (fun slot => some (s.array slot)) s.khead
    s.sqeTail (entries.map Prod.fst)
  freeRing : CursorRing capacity (fun slot => some (s.array slot)) s.sqeFreeHead
    (s.khead + capacity.value) free
  freeHead : s.sqeFreeHead = s.sqeTail + UInt32.ofNat s.held.length
  perm : (entries.map Prod.fst ++ s.held ++ free).Perm
    (List.range capacity.slots)
  contents : ∀ entry ∈ entries, s.sqes entry.1 = entry.2
  told : ∃ count ≤ entries.length, s.ktail = s.khead + UInt32.ofNat count

section Tracks

variable {s t : State Data} {entries : List (Nat × Option Data)}
variable {free : List Nat}

theorem new_tracks : Tracks capacity (State.new Data) []
    (List.range capacity.slots) where
  appendedRing := CursorRing.empty _ _
  freeRing :=
    { length_le := by rw [List.length_range]
      tail_eq := by
        rw [List.length_range, RingCapacity.slots, UInt32.ofNat_toNat]
        rfl
      slot_eq := by
        intro offset offsetLt
        rw [List.length_range] at offsetLt
        rw [List.getElem?_range offsetLt]
        have headEq : (State.new Data).sqeFreeHead.toNat = 0 := rfl
        rw [capacity.slot_add, headEq, Nat.zero_add,
          Nat.mod_eq_of_lt offsetLt]
        rfl }
  freeHead := rfl
  perm := by simp [State.new]
  contents := by simp
  told := ⟨0, Nat.le_refl _, rfl⟩

theorem Tracks.length_eq (tracks : Tracks capacity s entries free) :
    entries.length + s.held.length + free.length = capacity.slots := by
  have lengthEq := tracks.perm.length_eq
  simpa [Nat.add_assoc] using lengthEq

theorem Tracks.nodup (tracks : Tracks capacity s entries free) :
    (entries.map Prod.fst ++ s.held ++ free).Nodup :=
  tracks.perm.nodup_iff.mpr List.nodup_range

/-- What the cursors say is how many entries are not free. -/
theorem Tracks.size_eq (tracks : Tracks capacity s entries free) :
    (s.sqeFreeHead - s.khead).toNat = entries.length + s.held.length := by
  have lengthEq := tracks.length_eq
  have slotsLt := capacity.slots_lt
  have headLt := s.khead.toNat_lt
  have sizeLt : entries.length + s.held.length < 4294967296 := by omega
  have cursorEq : s.sqeFreeHead =
      s.khead + UInt32.ofNat (entries.length + s.held.length) := by
    rw [tracks.freeHead, tracks.appendedRing.tail_eq, UInt32.add_assoc,
      List.length_map, UInt32.ofNat_add]
  rw [cursorEq, UInt32.toNat_sub, UInt32.toNat_add, UInt32.toNat_ofNat']
  omega

theorem Tracks.room_iff (tracks : Tracks capacity s entries free) :
    s.sqeFreeHead - s.khead < capacity.value ↔ free ≠ [] := by
  have sizeEq := tracks.size_eq
  have lengthEq := tracks.length_eq
  rw [UInt32.lt_iff_toNat_lt, sizeEq, ← RingCapacity.slots, ← lengthEq,
    ← List.length_pos_iff]
  omega

/-- The entry that is handed out is the first of the free ones. -/
theorem Tracks.getSqEntry_eq (tracks : Tracks capacity s entries free)
    (indexed : Indexed capacity sqe128) :
    s.getSqEntry capacity sqe128 = free.head? := by
  cases free with
  | nil =>
      have full := tracks.room_iff.not.mpr (by simp)
      rw [State.getSqEntry, if_neg full, List.head?_nil]
  | cons entry free =>
      have room := tracks.room_iff.mpr (by simp)
      have front := Option.some.inj tracks.freeRing.front
      have entryLt : entry < capacity.slots := by
        rw [← List.mem_range, ← tracks.perm.mem_iff]
        simp
      rw [State.getSqEntry, if_pos room, front, indexed entry entryLt,
        List.head?_cons]

theorem Tracks.take {entry : Nat}
    (tracks : Tracks capacity s entries (entry :: free)) :
    Tracks capacity
      { s with
        sqeFreeHead := s.sqeFreeHead + 1
        held := s.held ++ [entry] } entries free where
  appendedRing := tracks.appendedRing
  freeRing := tracks.freeRing.pop
  freeHead := by
    dsimp only
    rw [tracks.freeHead, List.length_append, UInt32.ofNat_add,
      UInt32.add_assoc]
    rfl
  perm := by simpa using tracks.perm
  contents := tracks.contents
  told := tracks.told

theorem Tracks.fill (tracks : Tracks capacity s entries free) {entry : Nat}
    (mem : entry ∈ s.held) (data : Data) :
    Tracks capacity
      { s with sqes := Function.update s.sqes entry (some data) } entries
      free where
  appendedRing := tracks.appendedRing
  freeRing := tracks.freeRing
  freeHead := tracks.freeHead
  perm := tracks.perm
  contents := by
    intro other otherMem
    have ne : other.1 ≠ entry := by
      rintro rfl
      have nodup := (List.nodup_append.mp tracks.nodup).1
      exact (List.nodup_append.mp nodup).2.2 _
        (List.mem_map_of_mem otherMem) _ mem rfl
    exact (Function.update_of_ne ne ..).trans
      (tracks.contents other otherMem)
  told := tracks.told

theorem some_update (array : Nat → Nat) (slot index : Nat) :
    (fun other => some (Function.update array slot index other)) =
      Function.update (fun other => some (array other)) slot (some index) := by
  funext other
  by_cases same : other = slot
  · subst same
    rw [Function.update_self, Function.update_self]
  · rw [Function.update_of_ne same, Function.update_of_ne same]

/-- The array is written between the indices of the other two segments. -/
theorem Tracks.append (tracks : Tracks capacity s entries free) {entry : Nat}
    (mem : entry ∈ s.held) :
    Tracks capacity (s.appendSqEntry capacity entry)
      (entries ++ [(entry, s.sqes entry)]) free := by
  have lengthEq := tracks.length_eq
  have heldPos := List.length_pos_of_mem mem
  have erased := List.perm_cons_erase mem
  refine
    { appendedRing := ?_, freeRing := ?_, freeHead := ?_, perm := ?_
      contents := ?_, told := ?_ }
  · have room : (entries.map Prod.fst).length < capacity.slots := by
      rw [List.length_map]
      omega
    rw [List.map_append, State.appendSqEntry, some_update]
    exact tracks.appendedRing.push room entry
  · refine tracks.freeRing.congr ?_
    intro offset offsetLt
    have apart : capacity.slot (s.sqeFreeHead + UInt32.ofNat offset) ≠
        capacity.slot s.sqeTail := by
      intro same
      have zeroEq : s.sqeTail = s.sqeTail + UInt32.ofNat 0 :=
        (UInt32.add_zero s.sqeTail).symm
      rw [tracks.freeHead, UInt32.add_assoc, ← UInt32.ofNat_add] at same
      nth_rewrite 2 [zeroEq] at same
      have offsetEq := capacity.slot_inj (by omega) (by omega) same
      omega
    exact congrArg some (Function.update_of_ne apart ..)
  · have lengthErase := List.length_erase_of_mem mem
    rw [State.appendSqEntry]
    dsimp only
    rw [tracks.freeHead, UInt32.add_assoc, lengthErase]
    congr 1
    have heldEq : s.held.length = 1 + (s.held.length - 1) := by omega
    nth_rewrite 1 [heldEq]
    rw [UInt32.ofNat_add]
    rfl
  · refine List.Perm.trans ?_ tracks.perm
    rw [List.map_append]
    refine List.Perm.append_right free ?_
    rw [List.append_assoc]
    exact List.Perm.append_left _ erased.symm
  · intro other otherMem
    rcases List.mem_append.mp otherMem with otherMem | otherMem
    · exact tracks.contents other otherMem
    · obtain rfl := List.mem_singleton.mp otherMem
      rfl
  · obtain ⟨count, countLe, ktailEq⟩ := tracks.told
    refine ⟨count, ?_, ktailEq⟩
    rw [List.length_append]
    omega

theorem Tracks.flush (tracks : Tracks capacity s entries free) :
    Tracks capacity s.flush entries free := by
  rw [State.flush]
  split
  · exact
      { appendedRing := tracks.appendedRing, freeRing := tracks.freeRing
        freeHead := tracks.freeHead, perm := tracks.perm
        contents := tracks.contents
        told := ⟨entries.length, Nat.le_refl _, by
          rw [← List.length_map Prod.fst]
          exact tracks.appendedRing.tail_eq⟩ }
  · exact tracks

/-- The kernel takes the first of the appended entries, whose index is then
the last of the free ones. -/
theorem Tracks.consume (tracks : Tracks capacity s entries free)
    (indexed : Indexed capacity sqe128) (more : s.khead ≠ s.ktail) :
    ∃ entry rest, entries = entry :: rest ∧
      s.nextEntry capacity sqe128 = some entry ∧
      Tracks capacity { s with khead := s.khead + 1 } rest
        (free ++ [entry.1]) := by
  obtain ⟨count, countLe, ktailEq⟩ := tracks.told
  cases entries with
  | nil =>
      obtain rfl : count = 0 := by simpa using countLe
      exact absurd (ktailEq.trans (UInt32.add_zero s.khead)).symm more
  | cons entry rest =>
      refine ⟨entry, rest, rfl, ?_, ?_⟩
      · have front := Option.some.inj tracks.appendedRing.front
        have entryLt : entry.1 < capacity.slots := by
          rw [← List.mem_range, ← tracks.perm.mem_iff]
          simp
        simp only [State.nextEntry, front, if_pos entryLt,
          indexed entry.1 entryLt, tracks.contents entry (by simp)]
      · have lengthEq := tracks.length_eq
        rw [List.length_cons] at lengthEq
        have front := tracks.appendedRing.front
        have slotEq : capacity.slot (s.khead + capacity.value) =
            capacity.slot s.khead := by
          have valueEq : capacity.value = UInt32.ofNat capacity.slots := by
            rw [RingCapacity.slots, UInt32.ofNat_toNat]
          rw [valueEq, capacity.slot_add, Nat.add_mod_right,
            capacity.slot_eq]
        have pushed := tracks.freeRing.push (by omega) entry.1
        rw [slotEq, ← front, Function.update_eq_self] at pushed
        refine
          { appendedRing := tracks.appendedRing.pop, freeRing := ?_
            freeHead := tracks.freeHead, perm := ?_
            contents := fun other mem =>
              tracks.contents other (List.mem_cons_of_mem _ mem)
            told := ?_ }
        · have cursorEq : s.khead + capacity.value + 1 =
              s.khead + 1 + capacity.value := by
            rw [UInt32.add_assoc, UInt32.add_comm capacity.value,
              ← UInt32.add_assoc]
          rw [cursorEq] at pushed
          exact pushed
        · refine List.Perm.trans ?_ tracks.perm
          rw [List.map_cons, ← List.append_assoc]
          exact List.perm_append_comm
        · cases count with
          | zero =>
              exact absurd (ktailEq.trans (UInt32.add_zero s.khead)).symm more
          | succ count =>
              refine ⟨count, by simpa using countLe, ?_⟩
              rw [CursorRing.cursor_succ]
              exact ktailEq

/-- What a step does to the entries that were appended and not consumed. -/
theorem Tracks.step {action : Action Data}
    (tracks : Tracks capacity s entries free)
    (indexed : Indexed capacity sqe128)
    (stepEq : step capacity sqe128 s action = some t) :
    ∃ taken rest later,
      entries ++ (appended s action).toList = taken ++ rest ∧
      (consumed capacity sqe128 s action).toList = taken.map some ∧
      Tracks capacity t rest later := by
  cases action with
  | getSqEntry =>
      rw [EntryReorder.step, tracks.getSqEntry_eq indexed] at stepEq
      cases free with
      | nil =>
          obtain rfl := Option.some.inj stepEq
          exact ⟨[], entries, [], by simp [appended], rfl, tracks⟩
      | cons entry free =>
          obtain rfl := Option.some.inj stepEq
          exact ⟨[], entries, free, by simp [appended], rfl, tracks.take⟩
  | fill entry data =>
      simp only [EntryReorder.step, Option.ite_none_right_eq_some,
        Option.some.injEq] at stepEq
      obtain ⟨mem, rfl⟩ := stepEq
      exact ⟨[], entries, free, by simp [appended], rfl, tracks.fill mem data⟩
  | appendSqEntry entry =>
      simp only [EntryReorder.step, Option.ite_none_right_eq_some,
        Option.some.injEq] at stepEq
      obtain ⟨mem, rfl⟩ := stepEq
      exact ⟨[], _, free, rfl, rfl, tracks.append mem⟩
  | flush =>
      obtain rfl := Option.some.inj stepEq
      exact ⟨[], entries, free, by simp [appended], rfl, tracks.flush⟩
  | consume =>
      simp only [EntryReorder.step, Option.ite_none_right_eq_some,
        Option.some.injEq] at stepEq
      obtain ⟨more, rfl⟩ := stepEq
      obtain ⟨entry, rest, rfl, nextEq, later⟩ := tracks.consume indexed more
      refine ⟨[entry], rest, _, by simp [appended], ?_, later⟩
      rw [consumed, nextEq]
      rfl

end Tracks

section Runs

/-- What the application and the kernel rely on. -/
structure Consistent (run : (system Data capacity sqe128).Run) : Prop where
  nonNull : ∀ time ≤ run.length,
    ((run.state time).getSqEntry capacity sqe128).isSome ↔
      (run.log appended 0 time).length + (run.state time).held.length <
        (run.log (consumed capacity sqe128) 0 time).length + capacity.slots
  unused : ∀ time ≤ run.length, ∀ entry,
    (run.state time).getSqEntry capacity sqe128 = some entry →
      entry ∉ (run.state time).held ∧
        ∀ data, (entry, data) ∉ (run.log appended 0 time).drop
          (run.log (consumed capacity sqe128) 0 time).length
  inOrder : ∀ time ≤ run.length,
    run.log (consumed capacity sqe128) 0 time <+:
      (run.log appended 0 time).map some
  pending : ∀ time ≤ run.length,
    (run.log appended 0 time).length =
        (run.log (consumed capacity sqe128) 0 time).length +
          (run.state time).pending.toNat ∧
      (run.state time).pending ≤ capacity.value
  spaceLeft : ∀ time ≤ run.length,
    (run.log appended 0 time).length +
        ((run.state time).spaceLeft capacity).toNat =
      (run.log (consumed capacity sqe128) 0 time).length + capacity.slots

theorem tracks_of_run (indexed : Indexed capacity sqe128)
    (run : (system Data capacity sqe128).Run) {time : Nat}
    (timeLe : time ≤ run.length) :
    ∃ past entries free, run.log appended 0 time = past ++ entries ∧
      run.log (consumed capacity sqe128) 0 time = past.map some ∧
      Tracks capacity (run.state time) entries free := by
  induction time with
  | zero =>
      have starts : run.state 0 = State.new Data := run.starts
      refine ⟨[], [], List.range capacity.slots, run.log_self 0,
        run.log_self 0, ?_⟩
      rw [starts]
      exact new_tracks
  | succ time ih =>
      obtain ⟨past, entries, free, appendedEq, consumedEq, tracks⟩ :=
        ih (Nat.le_of_succ_le timeLe)
      obtain ⟨taken, rest, later, entriesEq, takenEq, next⟩ :=
        tracks.step indexed (run.steps time timeLe)
      refine ⟨past ++ taken, rest, later, ?_, ?_, next⟩
      · rw [run.log_next, appendedEq, List.append_assoc, entriesEq,
          List.append_assoc]
      · rw [run.log_next, consumedEq, takenEq, List.map_append]

theorem pending_of_indexed (indexed : Indexed capacity sqe128)
    (run : (system Data capacity sqe128).Run) {time : Nat}
    (timeLe : time ≤ run.length) :
    (run.log appended 0 time).length =
        (run.log (consumed capacity sqe128) 0 time).length +
          (run.state time).pending.toNat ∧
      (run.state time).pending ≤ capacity.value := by
  obtain ⟨past, entries, free, appendedEq, consumedEq, tracks⟩ :=
    tracks_of_run indexed run timeLe
  have lengthEq := tracks.length_eq
  have sizeEq := tracks.appendedRing.size_eq
  rw [List.length_map] at sizeEq
  rw [appendedEq, consumedEq, State.pending, UInt32.le_iff_toNat_le, sizeEq,
    List.length_append, List.length_map, ← RingCapacity.slots]
  omega

theorem consistent_of_indexed (indexed : Indexed capacity sqe128)
    (run : (system Data capacity sqe128).Run) : Consistent run where
  nonNull time timeLe := by
    obtain ⟨past, entries, free, appendedEq, consumedEq, tracks⟩ :=
      tracks_of_run indexed run timeLe
    have lengthEq := tracks.length_eq
    rw [tracks.getSqEntry_eq indexed, appendedEq, consumedEq,
      List.length_append, List.length_map, List.isSome_head?,
      ← List.length_pos_iff]
    omega
  unused time timeLe entry entryEq := by
    obtain ⟨past, entries, free, appendedEq, consumedEq, tracks⟩ :=
      tracks_of_run indexed run timeLe
    rw [tracks.getSqEntry_eq indexed] at entryEq
    have isFree := List.mem_of_mem_head? entryEq
    have nodup := List.nodup_append.mp tracks.nodup
    rw [appendedEq, consumedEq, List.length_map, List.drop_left]
    constructor
    · intro isHeld
      exact nodup.2.2 entry (List.mem_append_right _ isHeld) entry isFree rfl
    · intro data isAppended
      exact nodup.2.2 entry
        (List.mem_append_left _ (List.mem_map_of_mem isAppended)) entry isFree
        rfl
  inOrder time timeLe := by
    obtain ⟨past, entries, _, appendedEq, consumedEq, _⟩ :=
      tracks_of_run indexed run timeLe
    rw [appendedEq, consumedEq, List.map_append]
    exact List.prefix_append _ _
  pending time timeLe := pending_of_indexed indexed run timeLe
  spaceLeft time timeLe := by
    obtain ⟨lengthEq, pendingLe⟩ := pending_of_indexed indexed run timeLe
    have spaceEq := UInt32.toNat_sub_of_le _ _ pendingLe
    rw [UInt32.le_iff_toNat_le, ← RingCapacity.slots] at pendingLe
    rw [State.spaceLeft, spaceEq, ← RingCapacity.slots]
    omega

end Runs

section Doubled

/-- Two large entries are handed out and the second one is appended. -/
def doubled (Data : Type*) : Nat → State Data
  | 0 => State.new Data
  | 1 => { State.new Data with sqeFreeHead := 1, held := [0] }
  | 2 => { State.new Data with sqeFreeHead := 2, held := [0, 2] }
  | 3 =>
      { State.new Data with
        sqeFreeHead := 2, held := [0], sqeTail := 1
        array := Function.update id 0 2 }
  | 4 =>
      { State.new Data with
        sqeFreeHead := 2, held := [0], sqeTail := 1, sqeHead := 1, ktail := 1
        array := Function.update id 0 2 }
  | _ =>
      { State.new Data with
        sqeFreeHead := 2, held := [0], sqeTail := 1, sqeHead := 1, ktail := 1
        khead := 1, array := Function.update id 0 2 }

def doubledActions (Data : Type*) : Nat → Action Data
  | 0 | 1 => .getSqEntry
  | 2 => .appendSqEntry 2
  | 3 => .flush
  | _ => .consume

theorem doubled_step (several : 1 < capacity.slots) :
    ∀ time < 5, step capacity true (doubled Data time)
      (doubledActions Data time) = some (doubled Data (time + 1)) := by
  have slotZero : capacity.slot 0 = 0 := by
    rw [capacity.slot_eq]
    rfl
  have slotOne : capacity.slot 1 = 1 := by
    rw [capacity.slot_eq]
    exact Nat.mod_eq_of_lt several
  have zeroLt : (0 : UInt32) < capacity.value := by
    rw [UInt32.lt_iff_toNat_lt]
    exact Nat.lt_trans Nat.zero_lt_one several
  have oneLt : (1 : UInt32) < capacity.value := by
    rw [UInt32.lt_iff_toNat_lt]
    exact several
  intro time timeLt
  match time, timeLt with
  | 0, _ =>
      simp [step, doubled, doubledActions, State.getSqEntry, State.new,
        slotZero, zeroLt, entryAt]
  | 1, _ =>
      simp [step, doubled, doubledActions, State.getSqEntry, State.new,
        slotOne, oneLt, entryAt]
  | 2, _ =>
      simp [step, doubled, doubledActions, State.appendSqEntry, State.new,
        slotZero]
  | 3, _ => rfl
  | 4, _ => rfl

def doubledRun (Data : Type*) (several : 1 < capacity.slots) :
    (system Data capacity true).Run where
  length := 5
  state := doubled Data
  action := doubledActions Data
  starts := rfl
  steps := doubled_step several

theorem not_consistent_doubledRun (several : 1 < capacity.slots) :
    ¬ Consistent (doubledRun Data several) := by
  intro consistent
  have slotZero : capacity.slot 0 = 0 := by
    rw [capacity.slot_eq]
    rfl
  have isPrefix := consistent.inOrder 5 (Nat.le_refl 5)
  have appendedEq : (doubledRun Data several).log appended 0 5 =
      [(2, none)] := rfl
  have consumedEq : (doubledRun Data several).log (consumed capacity true) 0 5 =
      [(doubled Data 4).nextEntry capacity true] := rfl
  have nextEq : (doubled Data 4).nextEntry capacity true =
      if 2 < capacity.slots then some (4, none) else none := by
    simp [State.nextEntry, doubled, State.new, slotZero, entryAt]
  rw [appendedEq, consumedEq, nextEq] at isPrefix
  by_cases large : 2 < capacity.slots
  · rw [if_pos large] at isPrefix
    simp at isPrefix
  · rw [if_neg large] at isPrefix
    simp at isPrefix

/-- The ring hands out entries that are not in use, and the kernel takes them
as they were appended, in every run, unless the entries are large ones. -/
theorem runs_consistent_iff (Data : Type*) (capacity : RingCapacity)
    (sqe128 : Bool) :
    (∀ run : (system Data capacity sqe128).Run, Consistent run) ↔
      sqe128 = false ∨ capacity.slots = 1 := by
  constructor
  · intro consistent
    by_contra large
    rw [not_or, Bool.not_eq_false] at large
    obtain ⟨rfl, notOne⟩ := large
    have several : 1 < capacity.slots := by
      have positive := capacity.slots_pos
      omega
    exact not_consistent_doubledRun several (consistent _)
  · intro small run
    apply consistent_of_indexed
    rcases small with rfl | one
    · exact fun _ _ => rfl
    · intro index indexLt
      obtain rfl : index = 0 := by omega
      exact Nat.zero_shiftLeft _

end Doubled

end CoContext.EntryReorder
