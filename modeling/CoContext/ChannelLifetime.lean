import CoContext.ChannelSafety
import CoContext.SlotLifetimes

/-!
# The objects in the storage of a buffered channel

The channel template keeps its elements in an array of raw bytes: `release`
constructs an object in a slot, `acquire` and `drop` destroy one, and the
channel has no destructor of its own, so the objects that are left are never
destroyed.  The `std::optional` of the specialization for one element destroys
its object.
-/

namespace CoContext.Channel

variable {Coro T Buffer Slot : Type*} {storage : Storage T Buffer}

/-- The lifetimes that the update of an operation and the destructor of the
channel begin and end. -/
structure Objects (T Buffer Slot : Type*) where
  update : Buffer → Operation T → List (Slot × Lifetime)
  destructor : Buffer → List (Slot × Lifetime)

/-- `std::construct_at(m_last, ...)` and `std::destroy_at(m_first)`; the
destructor of `m_buf` does nothing. -/
def Ring.objects (T : Type*) : Objects T (Ring T) Nat where
  update ring
    | .release _ => [(ring.last, .construct)]
    | .acquire | .drop => [(ring.first, .destroy)]
  destructor _ := []

/-- What the assignment of `std::nullopt` and the destructor of the optional
do to its object. -/
def Single.reset (buf : Option T) : List (Unit × Lifetime) :=
  if buf.isSome then [((), .destroy)] else []

/-- `m_buf.emplace(...)` replaces an object, too. -/
def Single.objects (T : Type*) : Objects T (Option T) Unit where
  update buf
    | .release _ => reset buf ++ [((), .construct)]
    | .acquire | .drop => reset buf
  destructor := reset

section Storage

variable {capacity : Nat} {ring rest : Ring T} {carried : Option T}
variable {operation : Operation T} {slot : Nat} {item : T}

theorem Ring.pushOne_buf (capacity : Nat) (ring : Ring T) :
    (ring.pushOne capacity).buf = ring.buf := by
  unfold pushOne
  dsimp only
  split <;> rfl

theorem Ring.popOne_buf (capacity : Nat) (ring : Ring T) :
    (ring.popOne capacity).buf = ring.buf := by
  unfold popOne
  dsimp only
  split <;> rfl

theorem Ring.put_update (stored : ring.put capacity item = some rest) :
    ring.buf ring.last = none ∧ ring.last < capacity ∧
      rest.buf = Function.update ring.buf ring.last (some item) := by
  obtain ⟨constructed, constructEq, rfl⟩ := Option.map_eq_some_iff.mp stored
  rw [constructAt] at constructEq
  split at constructEq
  · next vacant =>
      rw [Option.ite_none_right_eq_some, Option.some.injEq] at constructEq
      obtain ⟨lastLt, rfl⟩ := constructEq
      exact ⟨vacant, lastLt, pushOne_buf _ _⟩
  · contradiction

theorem Ring.discard_update (discarded : ring.discard capacity = some rest) :
    (ring.buf ring.first).isSome ∧
      rest.buf = Function.update ring.buf ring.first none := by
  obtain ⟨destroyed, destroyEq, rfl⟩ := Option.map_eq_some_iff.mp discarded
  rw [destroyAt] at destroyEq
  split at destroyEq
  · contradiction
  · next stored isLive =>
      rw [Option.some.injEq] at destroyEq
      subst destroyEq
      exact ⟨by rw [isLive]; rfl, popOne_buf _ _⟩

/-- An update constructs an object in a vacant slot of the array or destroys
one. -/
theorem Ring.apply_update {capacityPos : 0 < capacity}
    (applied : (Ring.storage T capacity capacityPos).apply ring operation =
      some (carried, rest)) :
    (∃ item, operation = .release item ∧ ring.buf ring.last = none ∧
        ring.last < capacity ∧
        rest.buf = Function.update ring.buf ring.last (some item)) ∨
      (operation = .acquire ∨ operation = .drop) ∧
        (ring.buf ring.first).isSome ∧
        rest.buf = Function.update ring.buf ring.first none := by
  cases operation with
  | release item =>
      obtain ⟨stored, putEq, restEq⟩ := Option.map_eq_some_iff.mp applied
      obtain rfl : stored = rest := congrArg Prod.snd restEq
      exact Or.inl ⟨item, rfl, put_update putEq⟩
  | acquire =>
      obtain ⟨taken, takeEq, restEq⟩ := Option.map_eq_some_iff.mp applied
      obtain rfl : taken.2 = rest := congrArg Prod.snd restEq
      obtain ⟨item, -, mapEq⟩ := Option.bind_eq_some_iff.mp takeEq
      obtain ⟨rest, discarded, rfl⟩ := Option.map_eq_some_iff.mp mapEq
      exact Or.inr ⟨Or.inl rfl, discard_update discarded⟩
  | drop =>
      obtain ⟨dropped, discarded, restEq⟩ := Option.map_eq_some_iff.mp applied
      obtain rfl : dropped = rest := congrArg Prod.snd restEq
      exact Or.inr ⟨Or.inr rfl, discard_update discarded⟩

/-- The live slots after an object is constructed or destroyed. -/
theorem isSome_update (buf : Nat → Option T) (slot : Nat)
    (content : Option T) :
    (fun other => (Function.update buf slot content other).isSome) =
      Function.update (fun other => (buf other).isSome) slot
        content.isSome := by
  funext other
  by_cases isIt : other = slot
  · subst isIt
    simp
  · simp [Function.update_of_ne isIt]

theorem Ring.tracks_update {capacityPos : 0 < capacity}
    (applied : (Ring.storage T capacity capacityPos).apply ring operation =
      some (carried, rest)) {events : List (Nat × Lifetime)}
    (tracks : Lifetime.Tracks events fun slot => (ring.buf slot).isSome) :
    Lifetime.Tracks (events ++ (Ring.objects T).update ring operation)
      fun slot => (rest.buf slot).isSome := by
  rcases apply_update applied with ⟨item, rfl, vacant, -, bufEq⟩ |
    ⟨isTaking, isLive, bufEq⟩
  · rw [bufEq, isSome_update]
    exact tracks.construct (by rw [vacant]; rfl)
  · rw [bufEq, isSome_update]
    rcases isTaking with rfl | rfl
    · exact tracks.destroy isLive
    · exact tracks.destroy isLive

theorem update_unit {Value : Type*} (before after : Value) :
    Function.update (fun _ : Unit => before) () after = fun _ => after := by
  funext slot
  rw [Function.update_self]

/-- The optional destroys its object, if it has one. -/
theorem Single.tracks_reset {buf : Option T}
    {events : List (Unit × Lifetime)}
    (tracks : Lifetime.Tracks events fun _ => buf.isSome) :
    Lifetime.Tracks (events ++ reset buf) fun _ => false := by
  cases buf with
  | none => simpa [reset] using tracks
  | some stored =>
      have destroyed : Lifetime.Tracks (events ++ [((), .destroy)])
          (Function.update (fun _ : Unit => true) () false) :=
        tracks.destroy rfl
      rw [update_unit] at destroyed
      exact destroyed

theorem Single.tracks_update {buf rest : Option T}
    (applied : (Single.storage T).apply buf operation = some (carried, rest))
    {events : List (Unit × Lifetime)}
    (tracks : Lifetime.Tracks events fun _ => buf.isSome) :
    Lifetime.Tracks (events ++ (Single.objects T).update buf operation)
      fun _ => rest.isSome := by
  have isReset := tracks_reset tracks
  cases operation with
  | release item =>
      obtain rfl : some item = rest :=
        congrArg Prod.snd (Option.some.inj applied)
      have constructed : Lifetime.Tracks
          ((events ++ reset buf) ++ [((), .construct)])
          (Function.update (fun _ : Unit => false) () true) :=
        isReset.construct rfl
      rw [update_unit, List.append_assoc] at constructed
      exact constructed
  | acquire =>
      obtain ⟨taken, takeEq, restEq⟩ := Option.map_eq_some_iff.mp applied
      obtain ⟨item, -, rfl⟩ := Option.map_eq_some_iff.mp takeEq
      obtain rfl : none = rest := congrArg Prod.snd restEq
      exact isReset
  | drop =>
      obtain rfl : none = rest := congrArg Prod.snd (Option.some.inj applied)
      exact isReset

end Storage

variable [DecidableEq Coro]

/-- The lifetimes that begin and end before a time of a run. -/
def events (objects : Objects T Buffer Slot)
    (run : (system Coro storage).Run) (time : Nat) : List (Slot × Lifetime) :=
  (List.range time).flatMap fun earlier =>
    match updates (run.state earlier) (run.action earlier) with
    | some operation => objects.update (run.state earlier).buffer operation
    | none => []

/-- The same, and those that the destructor of the channel ends if it runs at
that time. -/
def lifetimes (objects : Objects T Buffer Slot)
    (run : (system Coro storage).Run) (time : Nat) : List (Slot × Lifetime) :=
  events objects run time ++ objects.destructor (run.state time).buffer

section Runs

theorem events_succ (objects : Objects T Buffer Slot)
    (run : (system Coro storage).Run) (time : Nat) :
    events objects run (time + 1) = events objects run time ++
      match updates (run.state time) (run.action time) with
      | some operation => objects.update (run.state time).buffer operation
      | none => [] := by
  simp [events, List.range_succ, List.flatMap_append]

/-- What every update keeps holds of the storage at every time of a run; it
may speak of the lifetimes, too. -/
theorem holds_of_run (objects : Objects T Buffer Slot)
    (property : Buffer → List (Slot × Lifetime) → Prop)
    (start : property storage.new [])
    (kept : ∀ buffer operation carried rest events,
      storage.apply buffer operation = some (carried, rest) →
        property buffer events →
          property rest (events ++ objects.update buffer operation))
    (run : (system Coro storage).Run) {time : Nat}
    (timeLe : time ≤ run.length) :
    property (run.state time).buffer (events objects run time) := by
  induction time with
  | zero =>
      rw [show run.state 0 = State.new Coro storage from run.starts]
      exact start
  | succ time ih =>
      have before := ih (by omega)
      have stepEq := run.steps time (by omega)
      have unchanged := buffer_of_updates_none stepEq
      rw [events_succ]
      cases updated : updates (run.state time) (run.action time) with
      | none =>
          rw [unchanged updated, List.append_nil]
          exact before
      | some operation =>
          obtain ⟨items, consistent, -⟩ :=
            consistent_of_run run time (by omega)
          obtain ⟨carried, applied⟩ :=
            consistent.apply_of_updates updated stepEq
          exact kept _ _ _ _ _ applied before

/-- The slots with an object are those of the elements that are held. -/
theorem Ring.buf_eq_none {capacity : Nat} {ring : Ring T} {items : List T}
    (holds : Ring.Holds capacity ring items)
    (beyond : ∀ slot, capacity ≤ slot → ring.buf slot = none) :
    (∀ slot, (ring.buf slot).isSome = false) ↔ ring.size = 0 := by
  rw [holds.size_eq, List.length_eq_zero_iff]
  constructor
  · intro vacant
    cases items with
    | nil => rfl
    | cons item rest =>
        have isVacant := vacant ring.first
        rw [holds.cyclic.front] at isVacant
        contradiction
  · rintro rfl slot
    by_cases slotLt : slot < capacity
    · rw [Bool.eq_false_iff, ne_eq, holds.cyclic.live_iff slotLt]
      simp
    · rw [beyond slot (Nat.le_of_not_lt slotLt)]
      rfl

/-- The objects in the ring buffer are left alive. -/
theorem Ring.balanced_iff {capacity : Nat} {capacityPos : 0 < capacity}
    (run : (system Coro (Ring.storage T capacity capacityPos)).Run)
    {time : Nat} (timeLe : time ≤ run.length) :
    Lifetime.Balanced (lifetimes (Ring.objects T) run time) ↔
      (run.state time).buffer.size = 0 := by
  obtain ⟨tracks, beyond⟩ := holds_of_run (Ring.objects T)
    (fun ring events =>
      Lifetime.Tracks events (fun slot => (ring.buf slot).isSome) ∧
        ∀ slot, capacity ≤ slot → ring.buf slot = none)
    ⟨.start, fun _ _ => rfl⟩
    (by
      rintro ring operation carried rest events applied ⟨tracks, beyond⟩
      refine ⟨Ring.tracks_update applied tracks, ?_⟩
      intro slot slotLe
      rcases Ring.apply_update applied with ⟨item, -, -, lastLt, bufEq⟩ |
        ⟨-, -, bufEq⟩
      · rw [bufEq, Function.update_of_ne (by omega)]
        exact beyond slot slotLe
      · rw [bufEq]
        by_cases isFirst : slot = ring.first
        · rw [isFirst, Function.update_self]
        · rw [Function.update_of_ne isFirst]
          exact beyond slot slotLe) run timeLe
  obtain ⟨items, consistent, -⟩ := consistent_of_run run time timeLe
  rw [lifetimes, show (Ring.objects T).destructor (run.state time).buffer = []
    from rfl, List.append_nil, tracks.balanced_iff]
  exact Ring.buf_eq_none consistent.holds beyond

/-- The optional leaves no object alive. -/
theorem Single.balanced (run : (system Coro (Single.storage T)).Run)
    {time : Nat} (timeLe : time ≤ run.length) :
    Lifetime.Balanced (lifetimes (Single.objects T) run time) := by
  have tracks := holds_of_run (Single.objects T)
    (fun buf events => Lifetime.Tracks events fun _ => buf.isSome) .start
    (fun _ _ _ _ _ applied tracks => Single.tracks_update applied tracks)
    run timeLe
  exact (Single.tracks_reset tracks).balanced_iff.mpr fun _ => rfl

/-- The lifetimes of the elements of a channel balance if the channel keeps
its element in an optional, and otherwise exactly if it is destroyed empty. -/
theorem run_balanced_iff :
    (∀ (capacity : Nat) (capacityPos : 0 < capacity)
      (run : (system Coro (Ring.storage T capacity capacityPos)).Run),
      ∀ time ≤ run.length,
        (Lifetime.Balanced (lifetimes (Ring.objects T) run time) ↔
          (run.state time).buffer.size = 0)) ∧
    ∀ run : (system Coro (Single.storage T)).Run, ∀ time ≤ run.length,
      Lifetime.Balanced (lifetimes (Single.objects T) run time) :=
  ⟨fun _ _ run _ timeLe => Ring.balanced_iff run timeLe,
    fun run _ timeLe => Single.balanced run timeLe⟩

end Runs

/-- A channel with room for two elements is destroyed with one in it. -/
def leftRun :
    (system (Fin 1) (Ring.storage Nat 2 (Nat.succ_pos 1))).Run :=
  .ofActions (State.new (Fin 1) (Ring.storage Nat 2 (Nat.succ_pos 1))) rfl
    [.call 0 (.release 7), .run 0, .run 0, .run 0, .run 0, .run 0]
    (by decide)

theorem run_balanced_fails :
    ¬ ∀ run : (system (Fin 1) (Ring.storage Nat 2 (Nat.succ_pos 1))).Run,
      ∀ time ≤ run.length,
        Lifetime.Balanced (lifetimes (Ring.objects Nat) run time) := by
  intro balanced
  have lastLe : 6 ≤ leftRun.length := by decide
  have isEmpty := (Ring.balanced_iff leftRun lastLe).mp
    (balanced leftRun 6 lastLe)
  exact absurd isEmpty (by decide)

end CoContext.Channel
