import CoContext.TaskAwaitSafety

/-!
# The steps of coroutines

What a coroutine does next is what the machine does that evaluates its body on
demand: a task that is awaited is called if it was not begun, and gives its
result if it is at its end.
-/

namespace CoContext.TaskAwait

variable {Local Event Reply Value Error : Type}

/-- What the coroutines that wait do with the result of the one inside. -/
def callers (moved : Value → Value) : Nat →
    List (Nat × Awaiter × (Option (Outcome Value Error) → Local)) →
      List (Outcome Value Error × Lazy.Store Local (Outcome Value Error) →
        Local × Lazy.Store Local (Outcome Value Error))
  | _, [] => []
  | coro, (parent, awaiter, next) :: parents =>
      Lazy.handOn coro (awaiter.keeps moved)
        (fun outcome => next (awaiter.result outcome)) ::
          callers moved parent parents

/-- The detached task is at its end. -/
structure Ended (s : State Local Event Reply Value Error) : Prop where
  others : ∀ other ≠ 0, ∀ frame, s.frames other = some frame → frame.Parked
  ledger : Ledger s

/-- A task that may be awaited or destroyed. -/
def State.Usable (s : State Local Event Reply Value Error) (task : Nat) :
    Prop :=
  ∃ frame, s.frames task = some frame ∧ frame.Parked

/-- The state after the start is that of the machine. -/
inductive Represents (moved : Value → Value)
    (s : State Local Event Reply Value Error) :
    Activity.Config (Local × Lazy.Store Local (Outcome Value Error)) Event
      Reply (Outcome Value Error × Lazy.Store Local (Outcome Value Error)) →
        Prop
  | runs {coro : Nat} {body : Local}
      {parents :
        List (Nat × Awaiter × (Option (Outcome Value Error) → Local))} :
      Chain s coro parents → s.control = .runs coro body →
      (s.frames coro).map Frame.point = some .running →
      Represents moved s (.runs (body, s.store) (callers moved coro parents))
  | waits {coro : Nat} {event : Event} {next : Reply → Local}
      {parents :
        List (Nat × Awaiter × (Option (Outcome Value Error) → Local))} :
      Chain s coro parents → s.control = .waits coro event →
      (s.frames coro).map Frame.point = some (.suspended event next) →
      Represents moved s (.waits event (fun reply => (next reply, s.store))
        (callers moved coro parents))
  | returned {value : Value} :
      Ended s → s.control = .idle → s.frames 0 = none →
      Represents moved s (.ended (.ok value, s.store))
  | threw {error : Error} :
      Ended s → s.control = .threw error →
      Represents moved s (.ended (.error error, s.store))

section Steps

variable {code : Local → Body Local Event Reply Value Error}
variable {moved : Value → Value}
variable {s : State Local Event Reply Value Error} {coro parent task : Nat}
variable {parents :
  List (Nat × Awaiter × (Option (Outcome Value Error) → Local))}
variable {awaiter : Awaiter} {next : Option (Outcome Value Error) → Local}
variable {point : Point Local Event Reply Value Error} {body : Local}

/-- A coroutine that is in the middle looks the same wherever it is. -/
def Inside (point : Point Local Event Reply Value Error) : Prop :=
  (∀ body, point ≠ .initialSuspend body) ∧ point ≠ .finalSuspend

theorem cell_of_inside {frame : Frame Local Event Reply Value Error}
    (inside : Inside frame.point) : frame.cell = .forcing := by
  obtain ⟨point, parentCoro, stored, isDetached⟩ := frame
  cases point with
  | initialSuspend body => exact absurd rfl (inside.1 body)
  | finalSuspend => exact absurd rfl inside.2
  | awaiting | suspended | running => rfl

theorem inside_running :
    Inside (.running : Point Local Event Reply Value Error) :=
  ⟨by simp, by simp⟩

/-- A coroutine in the middle is suspended or goes on, and others do not
notice. -/
theorem Chain.moveTo (chain : Chain s coro parents)
    (pointEq : (s.frames coro).map Frame.point = some point)
    (inside : Inside point) {later : Point Local Event Reply Value Error}
    (laterInside : Inside later) :
    Chain (s.write coro fun frame => { frame with point := later }) coro
        parents ∧
      (s.write coro fun frame => { frame with point := later }).store =
        s.store ∧
      ((s.write coro fun frame =>
        { frame with point := later }).frames coro).map Frame.point =
          some later := by
  obtain ⟨frame, frameEq, rfl⟩ := Option.map_eq_some_iff.mp pointEq
  refine ⟨chain.write fun _ => rfl, ?_, ?_⟩
  · apply State.store_write_same
    intro other otherEq _
    obtain rfl : frame = other :=
      Option.some.inj (frameEq.symm.trans otherEq)
    rw [cell_of_inside inside]
    exact cell_of_inside laterInside
  · rw [State.frames_write_self frameEq]
    rfl

/-- A coroutine goes on. -/
theorem Chain.enter (moved : Value → Value) (chain : Chain s coro parents)
    (pointEq : (s.frames coro).map Frame.point = some point)
    (inside : Inside point) (body : Local) :
    ∃ t, s.enter coro body = some t ∧
      Represents moved t
        (.runs (body, s.store) (callers moved coro parents)) := by
  obtain ⟨frame, frameEq, _⟩ := Option.map_eq_some_iff.mp pointEq
  obtain ⟨running, storeEq, pointEq⟩ :=
    chain.moveTo pointEq inside inside_running
  have represents : Represents moved _ _ :=
    .runs (running.controlled (.runs coro body)) rfl pointEq
  rw [State.store_controlled, storeEq] at represents
  exact ⟨_, State.enter_eq frameEq body, represents⟩

theorem Chain.notMem (chain : Chain s coro parents)
    (pointEq : (s.frames coro).map Frame.point = some point)
    (inside : Inside point) (usable : s.Usable task) :
    task ∉ coro :: parents.map Prod.fst := by
  obtain ⟨frame, frameEq, _, parked⟩ := usable
  have notParked : ∀ point : Point Local Event Reply Value Error,
      (s.frames task).map Frame.point = some point → ¬ Inside point := by
    intro point taskPoint inside
    rw [frameEq, Option.map_some, Option.some.injEq] at taskPoint
    subst taskPoint
    rcases parked with ⟨body, isInitial⟩ | ⟨isFinal, _⟩
    · exact inside.1 body isInitial
    · exact inside.2 isFinal
  intro mem
  rcases List.mem_cons.mp mem with rfl | mem
  · exact notParked point pointEq inside
  · obtain ⟨_, _, _, awaiting⟩ := chain.nests.point_of_mem mem
    exact notParked _ awaiting ⟨by simp, by simp⟩

theorem Chain.usable (chain : Chain s coro parents)
    {frame : Frame Local Event Reply Value Error}
    (pointEq : (s.frames coro).map Frame.point = some point)
    (inside : Inside point) (frameEq : s.frames task = some frame)
    (atEnd : ¬ Inside frame.point) : s.Usable task := by
  refine ⟨frame, frameEq, chain.others task ?_ frame frameEq⟩
  intro mem
  rcases List.mem_cons.mp mem with rfl | mem
  · rw [frameEq, Option.map_some, Option.some.injEq] at pointEq
    exact atEnd (pointEq ▸ inside)
  · obtain ⟨_, _, _, awaiting⟩ := chain.nests.point_of_mem mem
    rw [frameEq, Option.map_some, Option.some.injEq] at awaiting
    rw [awaiting] at atEnd
    exact atEnd ⟨by simp, by simp⟩

/-- The detached task is never a task that is awaited. -/
theorem Chain.ne_zero (chain : Chain s coro parents)
    (notMem : task ∉ coro :: parents.map Prod.fst) : task ≠ 0 := by
  rintro rfl
  exact notMem chain.nests.root_mem

theorem Chain.call (moved : Value → Value) (chain : Chain s coro parents)
    (pointEq : (s.frames coro).map Frame.point = some .running)
    (callee : Local) (next : Nat → Local) :
    ∃ t, s.call coro callee next = some t ∧
      Represents moved t (.runs (next s.fresh, s.store.alloc callee)
        (callers moved coro parents)) := by
  have freshNe : s.fresh ≠ 0 := by
    have rootSome := chain.nests.isSome chain.nests.root_mem
    exact Nat.ne_of_gt (chain.ledger.below 0 rootSome)
  have coroNe : coro ≠ s.fresh :=
    Nat.ne_of_lt (chain.ledger.below coro (chain.nests.isSome (by simp)))
  have storeEq : ({ s with
      frames := Function.update s.frames s.fresh (some (Frame.new callee))
      fresh := s.fresh + 1 } : State Local Event Reply Value Error).store =
        s.store.alloc callee := by
    ext1
    · rfl
    funext name
    rw [State.cell_store, Lazy.Store.alloc]
    dsimp only
    by_cases same : name = s.fresh
    · subst same
      rw [if_neg freshNe, Function.update_self]
      exact (Function.update_self (f := s.store.cell) ..).symm
    · rw [Function.update_of_ne same]
      exact (Function.update_of_ne (f := s.store.cell) same ..).symm
  have running : (Function.update s.frames s.fresh
      (some (Frame.new callee)) coro).map Frame.point = some .running := by
    rw [Function.update_of_ne coroNe, pointEq]
  have entered := (chain.alloc callee).enter moved running inside_running
    (next s.fresh)
  rw [storeEq] at entered
  exact entered

theorem Chain.destruct (moved : Value → Value)
    (chain : Chain s coro parents)
    (pointEq : (s.frames coro).map Frame.point = some .running)
    (usable : s.Usable task) (next : Local) :
    ∃ t, s.destruct coro task next = some t ∧
      Represents moved t (.runs (next, s.store.set task none)
        (callers moved coro parents)) := by
  have notMem := chain.notMem pointEq inside_running usable
  obtain ⟨frame, frameEq, _, parked⟩ := usable
  have isSome := Option.isSome_of_eq_some frameEq
  have destroyed := chain.destroyOther notMem isSome
  have running : ((s.destroy task).frames coro).map Frame.point =
      some .running := by
    rw [State.frames_destroy, Function.update_of_ne, pointEq]
    rintro rfl
    simp at notMem
  obtain ⟨t, enterEq, represents⟩ := destroyed.enter moved running
    inside_running next
  rw [State.store_destroy (chain.ne_zero notMem)] at represents
  refine ⟨t, ?_, represents⟩
  rw [State.destruct, frameEq, Option.bind_some]
  rcases parked with ⟨body, isInitial⟩ | ⟨isFinal, _⟩
  · rw [isInitial]
    exact enterEq
  · rw [isFinal]
    exact enterEq

theorem Chain.suspend (moved : Value → Value)
    (chain : Chain s coro parents)
    (pointEq : (s.frames coro).map Frame.point = some .running)
    (event : Event) (next : Reply → Local) :
    ∃ t, s.suspend coro event next = some t ∧
      Represents moved t (.waits event (fun reply => (next reply, s.store))
        (callers moved coro parents)) := by
  obtain ⟨frame, frameEq, _⟩ := Option.map_eq_some_iff.mp pointEq
  have laterInside : Inside
      (.suspended event next : Point Local Event Reply Value Error) :=
    ⟨by simp, by simp⟩
  obtain ⟨suspended, storeEq, pointEq⟩ :=
    chain.moveTo pointEq inside_running laterInside
  have represents : Represents moved _ _ :=
    .waits (suspended.controlled (.waits coro event)) rfl pointEq
  rw [State.store_controlled, storeEq] at represents
  refine ⟨_, ?_, represents⟩
  rw [State.suspend, State.modify_eq frameEq]
  rfl

/-- The result of a task is taken out, by a coroutine in the middle. -/
theorem Chain.awaitResume (moved : Value → Value)
    (chain : Chain s coro parents)
    (pointEq : (s.frames coro).map Frame.point = some point)
    (inside : Inside point) {frame : Frame Local Event Reply Value Error}
    {outcome : Outcome Value Error}
    (notMem : task ∉ coro :: parents.map Prod.fst)
    (frameEq : s.frames task = some frame)
    (atEnd : frame.point = .finalSuspend)
    (isAttached : frame.isDetached = false)
    (storedEq : frame.stored = some outcome) (awaiter : Awaiter)
    (next : Option (Outcome Value Error) → Local) :
    ∃ t, s.awaitResume moved coro task awaiter next = some t ∧
      Represents moved t
        (.runs (Lazy.handOn task (awaiter.keeps moved)
          (fun outcome => next (awaiter.result outcome)) (outcome, s.store))
          (callers moved coro parents)) := by
  have written : Chain (s.write task fun frame =>
      { frame with stored := some (awaiter.keeps moved outcome) }) coro
        parents :=
    chain.writeOther notMem frameEq ⟨isAttached, .inr ⟨atEnd, rfl⟩⟩
  have ne : coro ≠ task := by
    rintro rfl
    simp at notMem
  have still : ((s.write task fun frame =>
      { frame with stored := some (awaiter.keeps moved outcome) }).frames
        coro).map Frame.point = some point := by
    rw [State.frames_write_of_ne ne, pointEq]
  have storeEq : (s.write task fun frame =>
      { frame with stored := some (awaiter.keeps moved outcome) }).store =
        s.store.set task (some (.forced (awaiter.keeps moved outcome))) := by
    rw [State.store_write (chain.ne_zero notMem) frameEq, Frame.cell]
    rw [atEnd]
  obtain ⟨t, enterEq, represents⟩ := written.enter moved still inside
    (next (awaiter.result outcome))
  rw [storeEq] at represents
  refine ⟨t, ?_, represents⟩
  rw [State.awaitResume, frameEq]
  simp only [Option.bind_eq_bind, Option.bind_some, storedEq]
  rw [State.modify_eq frameEq, Option.bind_some]
  exact enterEq

/-- A task that was not begun is awaited. -/
theorem Chain.awaitSuspend (moved : Value → Value)
    (chain : Chain s coro parents)
    (pointEq : (s.frames coro).map Frame.point = some .running)
    {frame : Frame Local Event Reply Value Error} {body : Local}
    (notMem : task ∉ coro :: parents.map Prod.fst)
    (frameEq : s.frames task = some frame)
    (notBegun : frame.point = .initialSuspend body)
    (isAttached : frame.isDetached = false) (awaiter : Awaiter)
    (next : Option (Outcome Value Error) → Local) :
    ∃ t, s.awaitSuspend coro task awaiter next = some t ∧
      Represents moved t
        (.runs (body, s.store.set task (some .forcing))
          (callers moved task ((coro, awaiter, next) :: parents))) := by
  obtain ⟨coroFrame, coroEq, _⟩ := Option.map_eq_some_iff.mp pointEq
  have awaitsInside : Inside (.awaiting task awaiter next :
      Point Local Event Reply Value Error) :=
    ⟨by simp, by simp⟩
  obtain ⟨awaits, storeEq, awaitingEq⟩ :=
    chain.moveTo pointEq inside_running awaitsInside
  have ne : task ≠ coro := by
    rintro rfl
    simp at notMem
  have taskEq : (s.write coro fun frame =>
      { frame with point := .awaiting task awaiter next }).frames task =
        some frame := by
    rw [State.frames_write_of_ne ne, frameEq]
  obtain ⟨t, tEq⟩ : ∃ t, t = (s.write coro fun frame =>
      { frame with point := .awaiting task awaiter next }).write task
        fun frame => { frame with parentCoro := some coro } := ⟨_, rfl⟩
  have pushed : Chain t task ((coro, awaiter, next) :: parents) := by
    rw [tEq]
    exact awaits.push awaitingEq notMem taskEq (Prod.ext rfl isAttached)
  have pushedEq : t.frames task =
      some { frame with parentCoro := some coro } := by
    rw [tEq, State.frames_write_self taskEq]
  have taskNe := chain.ne_zero notMem
  have begunStore : (t.write task fun frame =>
      { frame with point := .running }).store =
        s.store.set task (some .forcing) := by
    rw [State.store_write taskNe pushedEq, tEq,
      State.store_write taskNe taskEq, storeEq, Lazy.Store.set_set]
    rfl
  have begun : Chain (t.write task fun frame =>
      { frame with point := .running }) task
        ((coro, awaiter, next) :: parents) :=
    pushed.write fun _ => rfl
  have runningEq : ((t.write task fun frame =>
      { frame with point := .running }).frames task).map Frame.point =
        some .running := by
    rw [State.frames_write_self pushedEq]
    rfl
  have represents : Represents moved _ (.runs (body, _)
      (callers moved task ((coro, awaiter, next) :: parents))) :=
    .runs (begun.controlled (.runs task body)) rfl runningEq
  rw [State.store_controlled, begunStore] at represents
  refine ⟨_, ?_, represents⟩
  rw [State.awaitSuspend, State.modify_eq coroEq]
  simp only [Option.bind_eq_bind, Option.bind_some]
  rw [State.modify_eq taskEq, Option.bind_some, ← tEq, pushedEq,
    Option.bind_some]
  simp only [notBegun]
  exact State.enter_eq pushedEq body

/-- `co_await` on a task that may be awaited. -/
theorem Chain.coAwait (moved : Value → Value) (chain : Chain s coro parents)
    (pointEq : (s.frames coro).map Frame.point = some .running)
    (usable : s.Usable task) (awaiter : Awaiter)
    (next : Option (Outcome Value Error) → Local)
    (codeEq : code body = .coAwait task awaiter next) :
    ∃ t, s.coAwait moved coro task awaiter next = some t ∧
      Represents moved t
        (Activity.advance (Lazy.activity (lazy code moved)) (body, s.store)
          (callers moved coro parents)) := by
  have notMem := chain.notMem pointEq inside_running usable
  have taskNe := chain.ne_zero notMem
  obtain ⟨frame, frameEq, isAttached, parked⟩ := usable
  have cellEq : s.store.cell task = some frame.cell := by
    rw [State.cell_store, if_neg taskNe, frameEq]
    rfl
  rw [Activity.advance, Lazy.activity, lazy, codeEq, State.coAwait, frameEq]
  rcases parked with ⟨callee, notBegun⟩ | ⟨atEnd, isStored⟩
  · have delayed : frame.cell = .delayed callee := by
      rw [Frame.cell, notBegun]
    simp only [cellEq, delayed, Option.bind_some, notBegun]
    exact chain.awaitSuspend moved pointEq notMem frameEq notBegun isAttached
      awaiter next
  · obtain ⟨outcome, storedEq⟩ := Option.isSome_iff_exists.mp isStored
    have forced : frame.cell = .forced outcome := by
      rw [Frame.cell, atEnd, storedEq]
    simp only [cellEq, forced, Option.bind_some, atEnd]
    exact chain.awaitResume moved pointEq inside_running notMem frameEq atEnd
      isAttached storedEq awaiter next

/-- A coroutine that was awaited ends. -/
theorem Chain.finish_nested (moved : Value → Value)
    (chain : Chain s coro ((parent, awaiter, next) :: parents))
    (pointEq : (s.frames coro).map Frame.point = some .running)
    (outcome : Outcome Value Error) :
    ∃ t, (s.write coro fun frame =>
        { frame with stored := some outcome }).finalSuspend moved coro =
          some t ∧
      Represents moved t
        (.runs (Lazy.handOn coro (awaiter.keeps moved)
          (fun outcome => next (awaiter.result outcome)) (outcome, s.store))
          (callers moved parent parents)) := by
  obtain ⟨frame, frameEq, isRunning⟩ := Option.map_eq_some_iff.mp pointEq
  have linkEq : frame.link = (some parent, false) := by
    have linkAt := chain.nests.1
    rw [frameEq, Option.map_some, Option.some.injEq] at linkAt
    exact linkAt
  obtain ⟨parentEq, isAttached⟩ : frame.parentCoro = some parent ∧
      frame.isDetached = false :=
    ⟨congrArg Prod.fst linkEq, congrArg Prod.snd linkEq⟩
  have notMem := (List.nodup_cons.mp chain.nodup).1
  have coroNe : coro ≠ 0 := by
    rintro rfl
    exact notMem chain.nests.2.2.root_mem
  have storedFrame : (s.write coro fun frame =>
      { frame with stored := some outcome }).frames coro =
        some { frame with stored := some outcome } :=
    State.frames_write_self frameEq
  have stored : Chain (s.write coro fun frame =>
      { frame with stored := some outcome }) coro
        ((parent, awaiter, next) :: parents) :=
    chain.write fun _ => rfl
  obtain ⟨t, tEq⟩ : ∃ t, t = (s.write coro fun frame =>
      { frame with stored := some outcome }).write coro
        fun frame => { frame with point := .finalSuspend } := ⟨_, rfl⟩
  have ended : Chain t parent parents := by
    rw [tEq]
    exact stored.pop storedFrame ⟨isAttached, .inr ⟨rfl, rfl⟩⟩
  have endedFrame : t.frames coro = some
      { frame with stored := some outcome, point := .finalSuspend } := by
    rw [tEq, State.frames_write_self storedFrame]
  have awaits : (t.frames parent).map Frame.point =
      some (.awaiting coro awaiter next) := by
    have ne : parent ≠ coro := by
      rintro rfl
      simp at notMem
    rw [tEq, State.frames_write_of_ne ne, State.frames_write_of_ne ne]
    exact chain.nests.2.1
  have storeEq : t.store = s.store.set coro (some (.forced outcome)) := by
    rw [tEq, State.store_write coroNe storedFrame,
      State.store_write coroNe frameEq, Lazy.Store.set_set]
    rfl
  obtain ⟨u, resumeEq, represents⟩ := ended.awaitResume moved awaits
    ⟨by simp, by simp⟩ notMem endedFrame rfl isAttached rfl awaiter next
  rw [storeEq, Lazy.handOn, Lazy.Store.set_set] at represents
  refine ⟨u, ?_, represents⟩
  obtain ⟨parentFrame, parentFrameEq, awaiting⟩ :=
    Option.map_eq_some_iff.mp awaits
  rw [State.finalSuspend, State.modify_eq storedFrame]
  simp only [Option.bind_eq_bind, Option.bind_some]
  rw [← tEq, endedFrame, Option.bind_some]
  simp only [isAttached, Bool.false_eq_true, if_false, parentEq,
    parentFrameEq, Option.bind_some, awaiting]
  exact resumeEq

/-- The detached task ends. -/
theorem Chain.finish_root (moved : Value → Value) (chain : Chain s 0 [])
    (pointEq : (s.frames 0).map Frame.point = some .running) :
    (∀ value, ∃ t, s.coReturn moved 0 value = some t ∧
      Represents moved t (.ended (.ok value, s.store))) ∧
    ∀ error, ∃ t, s.unhandledException moved 0 error = some t ∧
      Represents moved t (.ended (.error error, s.store)) := by
  obtain ⟨frame, frameEq, _⟩ := Option.map_eq_some_iff.mp pointEq
  have linkEq : frame.link = (none, true) := by
    have linkAt := chain.nests.2
    rw [frameEq, Option.map_some, Option.some.injEq] at linkAt
    exact linkAt
  obtain ⟨orphan, isDetached⟩ : frame.parentCoro = none ∧
      frame.isDetached = true :=
    ⟨congrArg Prod.fst linkEq, congrArg Prod.snd linkEq⟩
  have others : ∀ other ≠ 0, ∀ frame, s.frames other = some frame →
      frame.Parked :=
    fun other ne => chain.others other (by simpa using ne)
  constructor
  · intro value
    obtain ⟨t, tEq⟩ : ∃ t, t = (s.write 0 fun frame =>
      { frame with stored := some (.ok value) }).write 0
        fun frame => { frame with point := .finalSuspend } := ⟨_, rfl⟩
    have endedFrame : t.frames 0 = some
        { frame with stored := some (.ok value), point := .finalSuspend } := by
      rw [tEq, State.frames_write_self (State.frames_write_self frameEq)]
    have othersEq : ∀ other ≠ 0, (t.destroy 0).frames other =
        s.frames other := by
      intro other ne
      rw [State.frames_destroy, Function.update_of_ne ne, tEq,
        State.frames_write_of_ne ne, State.frames_write_of_ne ne]
    have storeEq : (t.destroy 0).store = s.store := by
      rw [State.store_destroy_root, tEq, State.store_write_same,
        State.store_write_same]
      · exact fun _ _ ne => absurd rfl ne
      · exact fun _ _ ne => absurd rfl ne
    have ledger : Ledger t := by
      rw [tEq]
      exact chain.ledger.write.write
    have destroyed := ledger.destroy (Option.isSome_of_eq_some endedFrame)
    have ended : Ended ((t.destroy 0).controlled .idle) :=
      ⟨fun other ne frame otherEq =>
          others other ne frame ((othersEq other ne).symm.trans otherEq),
        destroyed.controlled .idle⟩
    have rootGone : ((t.destroy 0).controlled .idle).frames 0 = none := by
      rw [State.frames_controlled, State.frames_destroy, Function.update_self]
    have represents : Represents moved _ (.ended (.ok value, _)) :=
      .returned ended rfl rootGone
    rw [State.store_controlled, storeEq] at represents
    refine ⟨_, ?_, represents⟩
    rw [State.coReturn, State.modify_eq frameEq]
    simp only [Option.bind_eq_bind, Option.bind_some]
    rw [State.finalSuspend, State.modify_eq (State.frames_write_self frameEq)]
    simp only [Option.bind_eq_bind, Option.bind_some]
    rw [← tEq, endedFrame, Option.bind_some]
    simp only [isDetached, if_true, orphan]
    rfl
  · intro error
    have othersEq : ∀ other ≠ 0, (s.write 0 fun frame =>
        { frame with point := .finalSuspend }).frames other =
          s.frames other :=
      fun other ne => State.frames_write_of_ne ne
    have storeEq : (s.write 0 fun frame =>
        { frame with point := .finalSuspend }).store = s.store :=
      State.store_write_same fun _ _ ne => absurd rfl ne
    have ended : Ended ((s.write 0 fun frame =>
        { frame with point := .finalSuspend }).controlled (.threw error)) :=
      ⟨fun other ne frame otherEq =>
          others other ne frame ((othersEq other ne).symm.trans otherEq),
        chain.ledger.write.controlled _⟩
    have represents : Represents moved _ (.ended (.error error, _)) :=
      .threw ended rfl
    rw [State.store_controlled, storeEq] at represents
    refine ⟨_, ?_, represents⟩
    rw [State.unhandledException, frameEq]
    simp only [Option.bind_eq_bind, Option.bind_some, isDetached, if_true]
    rw [State.modify_eq frameEq]
    rfl

end Steps

end CoContext.TaskAwait
