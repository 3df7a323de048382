import CoContext.Ranks
import CoContext.WhenSome

/-!
# Ranks and slots

The ranks of the children are dispensed by `idx`, so a slot has at most one
writer, and the position of that child tells what it has written.  When the
awaiting coroutine was spawned every rank below `min_complete` is taken, and
nobody writes any more if every slot was written at that moment.
-/

namespace CoContext.WhenSome

variable {n minComplete : Nat} {Value : Type*} {result : Fin n → Option Value}

/-- What holds of a child at its position. -/
def Sound (s : State n minComplete Value) (child : Fin n)
    (value : Option Value) : ChildPc minComplete → Prop
  | .isCancelled | .awaitNode | .preempt => True
  | .writeIndex rank => s.buffer rank = .initial
  | .writeValue rank => s.buffer rank = ⟨child, none⟩
  | .testRank rank => s.buffer rank = ⟨child, value⟩
  | .spawn rank =>
      s.buffer rank = ⟨child, value⟩ ∧ rank.val + 1 = minComplete
  | .finished rank =>
      s.buffer rank = ⟨child, value⟩ ∧
        (rank.val + 1 = minComplete → s.spawned = 1)
  | .cancelled => minComplete ≤ s.idx
  | .surplus rank => minComplete ≤ rank
  | .outOfBounds => False

/-- The inductive invariant. -/
structure Consistent (result : Fin n → Option Value)
    (s : State n minComplete Value) : Prop where
  dispensed : Dispensed (fun child => (s.child child).rank) s.idx
  sound : ∀ child, Sound s child (result child) (s.child child)
  /-- A slot that is not taken is as constructed. -/
  free : ∀ rank, s.idx ≤ rank.val → s.buffer rank = .initial
  spawned_le : s.spawned ≤ 1
  /-- Only the child with the last rank spawns. -/
  waker : 0 < s.spawned → ∃ child rank, s.child child = .finished rank ∧
    rank.val + 1 = minComplete
  resumed : s.parent = .returned → 0 < s.spawned
  written : 0 < s.spawned → ∀ child, ¬ (s.child child).Writing

theorem consistent_new :
    Consistent result (State.new n minComplete Value) where
  dispensed := Dispensed.none_taken fun _ => rfl
  sound _ := trivial
  free _ _ := rfl
  spawned_le := Nat.zero_le 1
  waker spawned := (Nat.lt_irrefl 0 spawned).elim
  resumed returned := by cases returned
  written spawned := (Nat.lt_irrefl 0 spawned).elim

/-- What holds of a child is kept by the steps of others. -/
theorem Sound.frame {s successor : State n minComplete Value} {child : Fin n}
    {value : Option Value} {pc : ChildPc minComplete}
    (sound : Sound s child value pc) (idxLe : s.idx ≤ successor.idx)
    (slotEq : ∀ rank : Fin minComplete, pc.rank = some rank.val →
      successor.buffer rank = s.buffer rank)
    (spawnedEq : s.spawned = 1 → successor.spawned = 1) :
    Sound successor child value pc := by
  cases pc with
  | isCancelled | awaitNode | preempt => trivial
  | writeIndex rank | writeValue rank | testRank rank =>
      exact (slotEq rank rfl).trans sound
  | spawn rank => exact ⟨(slotEq rank rfl).trans sound.1, sound.2⟩
  | finished rank =>
      exact ⟨(slotEq rank rfl).trans sound.1,
        fun isLast => spawnedEq (sound.2 isLast)⟩
  | cancelled => exact Nat.le_trans sound idxLe
  | surplus rank => exact sound
  | outOfBounds => exact sound

namespace Consistent

variable {s successor : State n minComplete Value} {child : Fin n}
variable {pc : ChildPc minComplete}

/-- Every slot is taken once the awaiting coroutine was spawned. -/
theorem full_of_spawned (consistent : Consistent result s)
    (spawned : 0 < s.spawned) : minComplete ≤ s.idx := by
  obtain ⟨waker, rank, position, isLast⟩ := consistent.waker spawned
  have below : rank.val < s.idx := by
    apply consistent.dispensed.lt
    rw [position]
    rfl
  omega

theorem not_spawned_of_writing (consistent : Consistent result s)
    (writing : (s.child child).Writing) : s.spawned = 0 := by
  by_contra spawnedNe
  exact consistent.written (Nat.pos_of_ne_zero spawnedNe) child writing

/-- The ranks after `child` moved and kept its rank. -/
theorem dispensed_keep (consistent : Consistent result s)
    (childEq : successor.child = Function.update s.child child pc)
    (rankEq : pc.rank = (s.child child).rank)
    (idxEq : successor.idx = s.idx) :
    Dispensed (fun child => (successor.child child).rank) successor.idx := by
  have kept := consistent.dispensed.keep rankEq
  rw [← Function.comp_def ChildPc.rank s.child,
    ← Function.comp_update] at kept
  rwa [childEq, idxEq]

/-- The other children keep what held of them, and slots that nobody took
stay free, when `child` writes its own slot at most. -/
theorem others (consistent : Consistent result s)
    (childEq : successor.child = Function.update s.child child pc)
    (idxLe : s.idx ≤ successor.idx)
    (slotEq : ∀ rank : Fin minComplete, (s.child child).rank ≠ some rank.val →
      successor.buffer rank = s.buffer rank)
    (spawnedEq : s.spawned = 1 → successor.spawned = 1)
    (sound : Sound successor child (result child) pc) :
    (∀ other, Sound successor other (result other) (successor.child other)) ∧
      ∀ rank : Fin minComplete, successor.idx ≤ rank.val →
        successor.buffer rank = .initial := by
  constructor
  · intro other
    rw [childEq]
    by_cases isChild : other = child
    · subst other
      simpa using sound
    · rw [Function.update_of_ne isChild]
      apply (consistent.sound other).frame idxLe _ spawnedEq
      intro rank held
      apply slotEq
      intro heldChild
      exact isChild (consistent.dispensed.holder_unique held heldChild)
  · intro rank isFree
    have notHeld : (s.child child).rank ≠ some rank.val := by
      intro held
      have below := consistent.dispensed.lt held
      omega
    rw [slotEq rank notHeld]
    exact consistent.free rank (by omega)

/-- `child` moves without spawning. -/
theorem move (consistent : Consistent result s)
    (childEq : successor.child = Function.update s.child child pc)
    (dispensed : Dispensed (fun child => (successor.child child).rank)
      successor.idx)
    (idxLe : s.idx ≤ successor.idx)
    (slotEq : ∀ rank : Fin minComplete, (s.child child).rank ≠ some rank.val →
      successor.buffer rank = s.buffer rank)
    (spawnedEq : successor.spawned = s.spawned)
    (parentEq : successor.parent = s.parent)
    (unfinished : ∀ rank, s.child child ≠ .finished rank)
    (sound : Sound successor child (result child) pc)
    (writing : pc.Writing → s.spawned = 0) :
    Consistent result successor where
  dispensed := dispensed
  sound := (consistent.others childEq idxLe slotEq
    (by rw [spawnedEq]; exact id) sound).1
  free := (consistent.others childEq idxLe slotEq
    (by rw [spawnedEq]; exact id) sound).2
  spawned_le := by
    rw [spawnedEq]
    exact consistent.spawned_le
  waker spawned := by
    rw [spawnedEq] at spawned
    obtain ⟨waker, rank, position, isLast⟩ := consistent.waker spawned
    have isOther : waker ≠ child := by
      rintro rfl
      exact unfinished rank position
    refine ⟨waker, rank, ?_, isLast⟩
    rw [childEq, Function.update_of_ne isOther, position]
  resumed returned := by
    rw [parentEq] at returned
    rw [spawnedEq]
    exact consistent.resumed returned
  written spawned other := by
    rw [spawnedEq] at spawned
    rw [childEq]
    by_cases isChild : other = child
    · subst other
      rw [Function.update_self]
      intro isWriting
      exact Nat.ne_of_gt spawned (writing isWriting)
    · rw [Function.update_of_ne isChild]
      exact consistent.written spawned other

/-- `child` moves and accesses no word of the meta object. -/
theorem setChild (consistent : Consistent result s)
    (rankEq : pc.rank = (s.child child).rank)
    (unfinished : ∀ rank, s.child child ≠ .finished rank)
    (sound : Sound s child (result child) pc)
    (writing : ¬ pc.Writing) : Consistent result (s.setChild child pc) := by
  have childEq : (s.setChild child pc).child =
      Function.update s.child child pc := rfl
  have idxLe : s.idx ≤ (s.setChild child pc).idx := Nat.le_refl _
  apply consistent.move childEq (consistent.dispensed_keep childEq rankEq rfl)
    idxLe (fun _ _ => rfl) rfl rfl unfinished
  · exact sound.frame idxLe (fun _ _ => rfl) id
  · exact fun isWriting => (writing isWriting).elim

theorem preempt (consistent : Consistent result s)
    (position : s.child child = .preempt) :
    Consistent result (s.preempt child) := by
  have untaken : (s.child child).rank = none := by
    rw [position]
    rfl
  have taken := consistent.dispensed.take untaken
  rw [← Function.comp_def ChildPc.rank s.child] at taken
  by_cases free : s.idx < minComplete
  · have childEq : (s.preempt child).child =
        Function.update s.child child (.writeIndex ⟨s.idx, free⟩) := by
      simp [State.preempt, free]
    have notSpawned : s.spawned = 0 := by
      by_contra spawnedNe
      have full := consistent.full_of_spawned (Nat.pos_of_ne_zero spawnedNe)
      omega
    apply consistent.move childEq _ (Nat.le_succ _) (fun _ _ => rfl) rfl rfl
      (by simp [position]) _ (fun _ => notSpawned)
    · rw [childEq]
      rwa [show some s.idx =
        (ChildPc.writeIndex (⟨s.idx, free⟩ : Fin minComplete)).rank from rfl,
        ← Function.comp_update] at taken
    · exact consistent.free ⟨s.idx, free⟩ (Nat.le_refl _)
  · have childEq : (s.preempt child).child =
        Function.update s.child child (.surplus s.idx) := by
      simp [State.preempt, free]
    apply consistent.move childEq _ (Nat.le_succ _) (fun _ _ => rfl) rfl rfl
      (by simp [position]) _ False.elim
    · rw [childEq]
      rwa [show some s.idx = (ChildPc.surplus s.idx :
        ChildPc minComplete).rank from rfl, ← Function.comp_update] at taken
    · exact Nat.le_of_not_lt free

/-- `child` writes its slot. -/
theorem write (consistent : Consistent result s) {rank : Fin minComplete}
    {slot : IndexValue Value}
    (rankEq : (s.child child).rank = some rank.val)
    (writing : (s.child child).Writing)
    (rankKept : pc.rank = some rank.val)
    (sound : Sound ((s.setSlot rank slot).setChild child pc) child
      (result child) pc) :
    Consistent result ((s.setSlot rank slot).setChild child pc) := by
  have childEq : ((s.setSlot rank slot).setChild child pc).child =
      Function.update s.child child pc := rfl
  have idxLe : s.idx ≤ ((s.setSlot rank slot).setChild child pc).idx :=
    Nat.le_refl _
  apply consistent.move childEq
    (consistent.dispensed_keep childEq (rankKept.trans rankEq.symm) rfl)
    idxLe _ rfl rfl _ sound
  · exact fun _ => consistent.not_spawned_of_writing writing
  · intro other notHeld
    have isOther : other ≠ rank := by
      rintro rfl
      exact notHeld rankEq
    simp [isOther]
  · intro finishedRank position
    rw [position] at writing
    exact writing

theorem writeIndex (consistent : Consistent result s) {rank : Fin minComplete}
    (position : s.child child = .writeIndex rank) :
    Consistent result (s.writeIndex child rank (result child)) := by
  have sound := consistent.sound child
  rw [position] at sound
  have slotEq : s.buffer rank = .initial := sound
  have writing : (s.child child).Writing := by
    rw [position]
    trivial
  have rankEq : (s.child child).rank = some rank.val := by
    rw [position]
    rfl
  cases parentEq : s.parent with
  | suspended =>
      simp only [State.writeIndex, parentEq]
      cases value : result child with
      | none =>
          apply consistent.write rankEq writing rfl
          simp [Sound, slotEq, IndexValue.initial, value]
      | some _ =>
          apply consistent.write rankEq writing rfl
          simp [Sound, slotEq, IndexValue.initial]
  | returned =>
      have notSpawned := consistent.not_spawned_of_writing writing
      have spawned := consistent.resumed parentEq
      omega

theorem writeValue (consistent : Consistent result s) {rank : Fin minComplete}
    (position : s.child child = .writeValue rank) :
    Consistent result (s.writeValue child rank (result child)) := by
  have sound := consistent.sound child
  rw [position] at sound
  have slotEq : s.buffer rank = ⟨child, none⟩ := sound
  apply consistent.write
  · rw [position]
    rfl
  · rw [position]
    trivial
  · rfl
  · simp [Sound, slotEq]

/-- The child with the last rank spawns the awaiting coroutine. -/
theorem spawn (consistent : Consistent result s) {rank : Fin minComplete}
    (position : s.child child = .spawn rank)
    (done : ∀ other, ¬ (s.child other).Writing) :
    Consistent result
      { s.setChild child (.finished rank) with spawned := s.spawned + 1 } := by
  have soundChild := consistent.sound child
  rw [position] at soundChild
  obtain ⟨slotEq, isLast⟩ := soundChild
  have notSpawned : s.spawned = 0 := by
    by_contra spawnedNe
    obtain ⟨waker, wakerRank, wakerPosition, wakerLast⟩ :=
      consistent.waker (Nat.pos_of_ne_zero spawnedNe)
    -- Both children hold the last rank.
    have held : (s.child child).rank = some rank.val := by
      rw [position]
      rfl
    have heldWaker : (s.child waker).rank = some rank.val := by
      rw [wakerPosition]
      simp only [ChildPc.rank, Option.some.injEq]
      omega
    have isChild := consistent.dispensed.holder_unique heldWaker held
    rw [isChild, position] at wakerPosition
    cases wakerPosition
  have rankEq : (ChildPc.finished rank).rank = (s.child child).rank := by
    rw [position]
    rfl
  have childEq : ({ s.setChild child (.finished rank) with
      spawned := s.spawned + 1 } : State n minComplete Value).child =
      Function.update s.child child (.finished rank) := rfl
  obtain ⟨sound, free⟩ := consistent.others childEq (Nat.le_refl _)
    (fun _ _ => rfl) (by omega)
    ⟨slotEq, fun _ => congrArg Nat.succ notSpawned⟩
  refine ⟨consistent.dispensed_keep rfl rankEq rfl, sound, free, ?_, ?_, ?_, ?_⟩
  · exact Nat.succ_le_succ (Nat.le_of_eq notSpawned)
  · intro _
    exact ⟨child, rank, by simp, isLast⟩
  · exact fun _ => Nat.succ_pos _
  · intro _ other
    by_cases isChild : other = child
    · subst other
      simp [ChildPc.Writing]
    · simpa [isChild] using done other

theorem resume (consistent : Consistent result s) (spawned : 0 < s.spawned) :
    Consistent result { s with parent := .returned } :=
  { consistent with
    sound := fun child => (consistent.sound child).frame (Nat.le_refl _)
      (fun _ _ => rfl) id
    resumed := fun _ => spawned }

theorem runChild (consistent : Consistent result s)
    (done : WritesDone s (.run child))
    (stepEq : s.runChild child (result child) = some successor) :
    Consistent result successor := by
  have sound := consistent.sound child
  cases position : s.child child with
  | isCancelled =>
      have successorEq : s.isCancelled child = successor := by
        simpa [State.runChild, position] using stepEq
      subst successorEq
      by_cases full : minComplete ≤ s.idx
      · rw [State.isCancelled, if_pos full]
        exact consistent.setChild (by rw [position]; rfl) (by simp [position])
          full id
      · rw [State.isCancelled, if_neg full]
        exact consistent.setChild (by rw [position]; rfl) (by simp [position])
          trivial id
  | awaitNode =>
      have successorEq : s.setChild child .preempt = successor := by
        simpa [State.runChild, position] using stepEq
      subst successorEq
      exact consistent.setChild (by rw [position]; rfl) (by simp [position])
        trivial id
  | preempt =>
      have successorEq : s.preempt child = successor := by
        simpa [State.runChild, position] using stepEq
      subst successorEq
      exact consistent.preempt position
  | writeIndex rank =>
      have successorEq : s.writeIndex child rank (result child) =
          successor := by
        simpa [State.runChild, position] using stepEq
      subst successorEq
      exact consistent.writeIndex position
  | writeValue rank =>
      have successorEq : s.writeValue child rank (result child) =
          successor := by
        simpa [State.runChild, position] using stepEq
      subst successorEq
      exact consistent.writeValue position
  | testRank rank =>
      rw [position] at sound
      have slotEq : s.buffer rank = ⟨child, result child⟩ := sound
      have successorEq : s.setChild child
          (if rank.val + 1 = minComplete then .spawn rank
            else .finished rank) = successor := by
        simpa [State.runChild, position] using stepEq
      subst successorEq
      by_cases isLast : rank.val + 1 = minComplete
      · rw [if_pos isLast]
        exact consistent.setChild (by rw [position]; rfl) (by simp [position])
          ⟨slotEq, isLast⟩ id
      · rw [if_neg isLast]
        exact consistent.setChild (by rw [position]; rfl) (by simp [position])
          ⟨slotEq, fun last => (isLast last).elim⟩ id
  | spawn rank =>
      have successorEq : { s.setChild child (.finished rank) with
          spawned := s.spawned + 1 } = successor := by
        simpa [State.runChild, position] using stepEq
      subst successorEq
      exact consistent.spawn position (done rank position)
  | cancelled | surplus _ | finished _ | outOfBounds =>
      simp [State.runChild, position] at stepEq

theorem step (consistent : Consistent result s) {action : Action n}
    (done : WritesDone s action)
    (stepEq : step result s action = some successor) :
    Consistent result successor := by
  cases action with
  | run child => exact consistent.runChild done stepEq
  | resume =>
      obtain ⟨⟨-, spawned⟩, rfl⟩ : (s.parent = .suspended ∧ 0 < s.spawned) ∧
          { s with parent := .returned } = successor := by
        simpa [WhenSome.step, State.resume] using stepEq
      exact consistent.resume spawned

end Consistent

theorem consistent_of_reachableBy {s : State n minComplete Value}
    (reached : (system minComplete result).ReachableBy WritesDone s) :
    Consistent result s := by
  apply reached.invariant
  · intro state isInitial
    rw [show state = State.new n minComplete Value from isInitial]
    exact consistent_new
  · intro state action successor consistent done stepEq
    exact consistent.step done stepEq

/-- What holds of the slots in every run, also in one in which the awaiting
coroutine takes the buffer before all slots are written. -/
structure Slots (result : Fin n → Option Value)
    (s : State n minComplete Value) : Prop where
  below : ∀ child number, (s.child child).rank = some number → number < s.idx
  unique : ∀ first second number, (s.child first).rank = some number →
    (s.child second).rank = some number → first = second
  free : ∀ rank : Fin minComplete, s.idx ≤ rank.val →
    (s.buffer rank).value = none
  empty : ∀ child rank, s.child child = .writeIndex rank →
    (s.buffer rank).value = none
  indexed : ∀ child rank, s.child child = .writeValue rank →
    (s.buffer rank).index = child
  holds : ∀ rank value, (s.buffer rank).value = some value →
    ∃ child : Fin n, (s.buffer rank).index = child ∧
      result child = some value

namespace Slots

variable {result : Fin n → Option Value} {s successor : State n minComplete Value}
variable {child : Fin n}

theorem new : Slots result (State.new n minComplete Value) where
  below _ _ held := by simp [State.new, ChildPc.rank] at held
  unique _ _ _ held := by simp [State.new, ChildPc.rank] at held
  free _ _ := rfl
  empty _ _ position := by simp [State.new] at position
  indexed _ _ position := by simp [State.new] at position
  holds _ _ stored := by simp [State.new, IndexValue.initial] at stored

/-- A child moves on with what it had and does not start to write. -/
theorem setChild (slots : Slots result s) {pc : ChildPc minComplete}
    (kept : ∀ number, pc.rank = some number →
      (s.child child).rank = some number)
    (notIndex : ∀ rank, pc ≠ .writeIndex rank)
    (notValue : ∀ rank, pc ≠ .writeValue rank) :
    Slots result (s.setChild child pc) := by
  have held : ∀ other number, ((s.setChild child pc).child other).rank =
      some number → (s.child other).rank = some number := by
    intro other number isRank
    by_cases isChild : other = child
    · subst other
      exact kept number (by simpa using isRank)
    · simpa [isChild] using isRank
  refine ⟨fun other number isRank => slots.below other number
    (held other number isRank), fun first second number isFirst isSecond =>
      slots.unique first second number (held first number isFirst)
        (held second number isSecond), slots.free, ?_, ?_, slots.holds⟩
  · intro other rank position
    by_cases isChild : other = child
    · subst other
      exact absurd (by simpa using position) (notIndex rank)
    · exact slots.empty other rank (by simpa [isChild] using position)
  · intro other rank position
    by_cases isChild : other = child
    · subst other
      exact absurd (by simpa using position) (notValue rank)
    · exact slots.indexed other rank (by simpa [isChild] using position)

theorem preempt (slots : Slots result s)
    (position : s.child child = .preempt) : Slots result (s.preempt child) := by
  have taken : ∀ other number, ((s.preempt child).child other).rank =
      some number → (other = child ∧ number = s.idx) ∨
        (other ≠ child ∧ (s.child other).rank = some number) := by
    intro other number isRank
    by_cases isChild : other = child
    · subst other
      left
      by_cases isFree : s.idx < minComplete
      · simp only [State.preempt, State.setChild_child, Function.update_self,
          isFree, dif_pos, ChildPc.rank, Option.some.injEq] at isRank
        exact ⟨rfl, isRank.symm⟩
      · simp only [State.preempt, State.setChild_child, Function.update_self,
          isFree, dif_neg, not_false_iff, ChildPc.rank, Option.some.injEq]
          at isRank
        exact ⟨rfl, isRank.symm⟩
    · right
      exact ⟨isChild, by simpa [State.preempt, isChild] using isRank⟩
  refine ⟨?_, ?_, fun rank idxLe => slots.free rank (Nat.le_of_succ_le idxLe),
    ?_, ?_, slots.holds⟩
  · intro other number isRank
    rcases taken other number isRank with ⟨_, rfl⟩ | ⟨_, held⟩
    · exact Nat.lt_succ_self _
    · exact Nat.lt_succ_of_lt (slots.below other number held)
  · intro first second number isFirst isSecond
    rcases taken first number isFirst with ⟨rfl, numberEq⟩ | ⟨_, firstHeld⟩
    · rcases taken second number isSecond with ⟨rfl, _⟩ | ⟨_, secondHeld⟩
      · rfl
      · have below := slots.below second number secondHeld
        omega
    · rcases taken second number isSecond with ⟨_, rfl⟩ | ⟨_, secondHeld⟩
      · have below := slots.below first s.idx firstHeld
        omega
      · exact slots.unique first second number firstHeld secondHeld
  · intro other rank otherPosition
    have isRank : ((s.preempt child).child other).rank = some rank.val := by
      rw [otherPosition]
      rfl
    rcases taken other rank.val isRank with ⟨_, rankEq⟩ | ⟨isOther, _⟩
    · exact slots.free rank (by omega)
    · exact slots.empty other rank
        (by simpa [State.preempt, isOther] using otherPosition)
  · intro other rank otherPosition
    have isRank : ((s.preempt child).child other).rank = some rank.val := by
      rw [otherPosition]
      rfl
    rcases taken other rank.val isRank with ⟨rfl, _⟩ | ⟨isOther, _⟩
    · simp only [State.preempt, State.setChild_child, Function.update_self]
        at otherPosition
      split at otherPosition <;> simp at otherPosition
    · exact slots.indexed other rank
        (by simpa [State.preempt, isOther] using otherPosition)

/-- A child writes the slot that it took. -/
theorem setSlot (slots : Slots result s) {rank : Fin minComplete}
    {slot : IndexValue Value} {pc : ChildPc minComplete}
    (held : (s.child child).rank = some rank.val)
    (rankKept : pc.rank = some rank.val)
    (notIndex : ∀ other, pc ≠ .writeIndex other)
    (indexed : slot.index = child)
    (holds : ∀ value, slot.value = some value → result child = some value) :
    Slots result ((s.setSlot rank slot).setChild child pc) := by
  have alone : ∀ other, (s.child other).rank = some rank.val →
      other = child := fun other isRank =>
    slots.unique other child rank.val isRank held
  have kept : ∀ other number,
      (((s.setSlot rank slot).setChild child pc).child other).rank =
        some number → (s.child other).rank = some number := by
    intro other number isRank
    by_cases isChild : other = child
    · subst other
      rw [held, ← rankKept]
      simpa using isRank
    · simpa [isChild] using isRank
  have otherSlot : ∀ other : Fin n, other ≠ child →
      ∀ place : Fin minComplete, (s.child other).rank = some place.val →
        place ≠ rank := by
    rintro other isOther place isRank rfl
    exact isOther (alone other isRank)
  refine ⟨fun other number isRank => slots.below other number
    (kept other number isRank), fun first second number isFirst isSecond =>
      slots.unique first second number (kept first number isFirst)
        (kept second number isSecond), ?_, ?_, ?_, ?_⟩
  · intro place idxLe
    have below := slots.below child rank.val held
    have isOther : place ≠ rank := by
      rintro rfl
      exact Nat.not_lt.mpr idxLe below
    simpa [isOther] using slots.free place idxLe
  · intro other place position
    by_cases isChild : other = child
    · subst other
      exact absurd (by simpa using position) (notIndex place)
    · have wasThere : s.child other = .writeIndex place := by
        simpa [isChild] using position
      have isOther := otherSlot other isChild place (by rw [wasThere]; rfl)
      simpa [isOther] using slots.empty other place wasThere
  · intro other place position
    by_cases isChild : other = child
    · subst other
      obtain rfl : pc = .writeValue place := by simpa using position
      obtain rfl : place = rank := Fin.ext (Option.some.inj rankKept)
      simpa using indexed
    · have wasThere : s.child other = .writeValue place := by
        simpa [isChild] using position
      have isOther := otherSlot other isChild place (by rw [wasThere]; rfl)
      simpa [isOther] using slots.indexed other place wasThere
  · intro place value stored
    by_cases isRank : place = rank
    · subst place
      refine ⟨child, by simpa using indexed, holds value ?_⟩
      simpa using stored
    · simpa [isRank] using slots.holds place value (by simpa [isRank] using stored)

theorem runChild (slots : Slots result s)
    (stepEq : s.runChild child (result child) = some successor) :
    Slots result successor := by
  cases position : s.child child with
  | isCancelled =>
      obtain rfl : s.isCancelled child = successor := by
        simpa [State.runChild, position] using stepEq
      unfold State.isCancelled
      split <;> exact slots.setChild (by simp [ChildPc.rank]) (by simp) (by simp)
  | awaitNode =>
      obtain rfl : s.setChild child .preempt = successor := by
        simpa [State.runChild, position] using stepEq
      exact slots.setChild (by simp [ChildPc.rank]) (by simp) (by simp)
  | preempt =>
      obtain rfl : s.preempt child = successor := by
        simpa [State.runChild, position] using stepEq
      exact slots.preempt position
  | writeIndex rank =>
      obtain rfl : s.writeIndex child rank (result child) = successor := by
        simpa [State.runChild, position] using stepEq
      have empty := slots.empty child rank position
      unfold State.writeIndex
      cases s.parent with
      | suspended =>
          apply slots.setSlot
          · rw [position]
            rfl
          · split <;> rfl
          · intro other
            split <;> simp
          · rfl
          · simp [empty]
      | returned =>
          exact slots.setChild (by simp [ChildPc.rank]) (by simp) (by simp)
  | writeValue rank =>
      obtain rfl : s.writeValue child rank (result child) = successor := by
        simpa [State.runChild, position] using stepEq
      apply slots.setSlot
      · rw [position]
        rfl
      · rfl
      · simp
      · exact slots.indexed child rank position
      · exact fun value isValue => isValue
  | testRank rank =>
      simp only [State.runChild, position, Option.some.injEq] at stepEq
      subst stepEq
      split <;> exact slots.setChild (by simp [position, ChildPc.rank])
        (by simp) (by simp)
  | spawn rank =>
      simp only [State.runChild, position, Option.some.injEq] at stepEq
      subst stepEq
      have moved : Slots result (s.setChild child (.finished rank)) :=
        slots.setChild (by simp [position, ChildPc.rank]) (by simp) (by simp)
      exact ⟨moved.below, moved.unique, moved.free, moved.empty,
        moved.indexed, moved.holds⟩
  | cancelled | surplus _ | finished _ | outOfBounds =>
      simp [State.runChild, position] at stepEq

theorem step (slots : Slots result s) {action : Action n}
    (stepEq : WhenSome.step result s action = some successor) :
    Slots result successor := by
  cases action with
  | run child => exact slots.runChild stepEq
  | resume =>
      simp only [WhenSome.step, State.resume, Option.ite_none_right_eq_some,
        Option.some.injEq] at stepEq
      obtain ⟨_, rfl⟩ := stepEq
      exact ⟨slots.below, slots.unique, slots.free, slots.empty,
        slots.indexed, slots.holds⟩

end Slots

end CoContext.WhenSome
