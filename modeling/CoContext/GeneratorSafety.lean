import CoContext.Generator
import Mathlib.Data.List.Nodup

/-!
# Iterating a generator is evaluating its body

While a generator is iterated, the frames that exist are those of the
generators that are inside of each other, from the one that runs or yielded
last to the outermost one.  They are the stack of a machine on which
`elements_of` is a call, so that the consumer gets the elements of the
generator in their order, wherever they come from.
-/

namespace CoContext.Generator

variable {Local Value Error : Type}

/-! ### Views of the frames -/

section Views

variable (frames : Nat → Option (Frame Local Value Error))

def infoAt (coro : Nat) : Option (Option Nat) :=
  (frames coro).map fun frame => frame.promise.info

def topAt (coro : Nat) : Option Nat :=
  (frames coro).map fun frame => frame.promise.top

def pauseAt (coro : Nat) :
    Option (Point Local Error × Option (NestedAwaitable Error)) :=
  (frames coro).map fun frame => (frame.point, frame.awaitable)

/-- The frames after a write to one of them. -/
def writeAt (coro : Nat)
    (change : Frame Local Value Error → Frame Local Value Error) :
    Nat → Option (Frame Local Value Error) :=
  Function.update frames coro ((frames coro).map change)

variable {frames} {coro other : Nat}
variable {change : Frame Local Value Error → Frame Local Value Error}

@[simp]
theorem writeAt_self : writeAt frames coro change coro =
    (frames coro).map change :=
  Function.update_self ..

theorem writeAt_of_ne (ne : other ≠ coro) :
    writeAt frames coro change other = frames other :=
  Function.update_of_ne ne ..

@[simp]
theorem isSome_writeAt : (writeAt frames coro change other).isSome =
    (frames other).isSome := by
  by_cases same : other = coro
  · subst same
    simp
  · rw [writeAt_of_ne same]

/-- A field that is not written has its value. -/
theorem map_writeAt {Field : Type} {field : Frame Local Value Error → Field}
    (kept : ∀ frame, field (change frame) = field frame) :
    (writeAt frames coro change other).map field =
      (frames other).map field := by
  by_cases same : other = coro
  · subst same
    rw [writeAt_self, Option.map_map]
    congr 1
    funext frame
    exact kept frame
  · rw [writeAt_of_ne same]

end Views

namespace State

variable {s : State Local Value Error} {coro : Nat}
variable {change : Frame Local Value Error → Frame Local Value Error}

theorem modify_eq (isSome : (s.frames coro).isSome) :
    s.modify coro change =
      some { s with frames := writeAt s.frames coro change } := by
  obtain ⟨frame, frameEq⟩ := Option.isSome_iff_exists.mp isSome
  rw [modify, writeAt, frameEq]
  rfl

/-- Write to a frame and hand over the control. -/
def write (s : State Local Value Error) (coro : Nat)
    (change : Frame Local Value Error → Frame Local Value Error)
    (control : Control Local Error) : State Local Value Error :=
  { s with frames := writeAt s.frames coro change, control := control }

@[simp]
theorem frames_write (control : Control Local Error) :
    (s.write coro change control).frames = writeAt s.frames coro change :=
  rfl

theorem modify_map_eq (isSome : (s.frames coro).isSome)
    (control : Control Local Error) :
    ((s.modify coro change).map fun s => { s with control := control }) =
      some (s.write coro change control) := by
  rw [modify_eq isSome]
  rfl

theorem enter_eq (isSome : (s.frames coro).isSome) (body : Local) :
    s.enter coro body = some (s.write coro
      (fun frame => { frame with point := .running }) (.runs coro body)) :=
  modify_map_eq isSome _

end State

/-! ### The generators inside of each other -/

/-- The generators that wait for the elements of `coro`, the nearest one
first, each with what it does when it has got them. -/
def Nests (frames : Nat → Option (Frame Local Value Error)) (root : Nat) :
    Nat → List (Nat × (Option Error → Local)) → Prop
  | coro, [] => coro = root ∧ infoAt frames coro = some none
  | coro, (parent, next) :: parents =>
      infoAt frames coro = some (some parent) ∧
        pauseAt frames parent = some (.nesting next,
          some { nested := { except := none, parent := parent, root := root }
                 gen := some coro }) ∧
        Nests frames root parent parents

namespace Nests

variable {frames others : Nat → Option (Frame Local Value Error)}
variable {root coro : Nat} {parents : List (Nat × (Option Error → Local))}

theorem congr (nests : Nests frames root coro parents)
    (info : ∀ other ∈ coro :: parents.map Prod.fst,
      infoAt others other = infoAt frames other)
    (pause : ∀ other ∈ parents.map Prod.fst,
      pauseAt others other = pauseAt frames other) :
    Nests others root coro parents := by
  induction parents generalizing coro with
  | nil => exact ⟨nests.1, by rw [info coro (by simp), nests.2]⟩
  | cons caller parents ih =>
      obtain ⟨infoEq, pauseEq, outer⟩ := nests
      refine ⟨by rw [info coro (by simp), infoEq],
        by rw [pause _ (by simp), pauseEq], ih outer ?_ ?_⟩
      · intro other mem
        exact info other (List.mem_cons_of_mem _ mem)
      · intro other mem
        exact pause other (List.mem_cons_of_mem _ mem)

theorem root_mem (nests : Nests frames root coro parents) :
    root ∈ coro :: parents.map Prod.fst := by
  induction parents generalizing coro with
  | nil => simp [nests.1]
  | cons caller parents ih =>
      exact List.mem_cons_of_mem _ (ih nests.2.2)

theorem pause_of_mem (nests : Nests frames root coro parents) {other : Nat}
    (mem : other ∈ parents.map Prod.fst) :
    ∃ next awaitable,
      pauseAt frames other = some (.nesting next, awaitable) := by
  induction parents generalizing coro with
  | nil => simp at mem
  | cons caller parents ih =>
      rw [List.map_cons, List.mem_cons] at mem
      rcases mem with rfl | mem
      · exact ⟨_, _, nests.2.1⟩
      · exact ih nests.2.2 mem

/-- Every generator finds the root. -/
theorem rootOf_eq {s : State Local Value Error}
    (nests : Nests s.frames root coro parents) :
    s.rootOf coro = some root := by
  cases parents with
  | nil =>
      obtain ⟨rfl, infoEq⟩ := nests
      obtain ⟨frame, frameEq, infoEq⟩ := Option.map_eq_some_iff.mp infoEq
      simp [State.rootOf, frameEq, infoEq]
  | cons caller parents =>
      obtain ⟨infoEq, pauseEq, _⟩ := nests
      obtain ⟨frame, frameEq, infoEq⟩ := Option.map_eq_some_iff.mp infoEq
      obtain ⟨parent, parentEq, pauseEq⟩ := Option.map_eq_some_iff.mp pauseEq
      simp only [Prod.mk.injEq] at pauseEq
      simp [State.rootOf, frameEq, infoEq, parentEq, pauseEq.2]

end Nests

/-! ### Destruction -/

section Destroy

variable {frames : Nat → Option (Frame Local Value Error)} {coro : Nat}
variable {point : Point Local Error} {pending destroyed : List Nat}

/-- A generator that is kept in a frame is destroyed before the frame. -/
theorem destroyNext_nested {awaitable : NestedAwaitable Error} {gen : Nat}
    (pauseEq : pauseAt frames coro = some (point, some awaitable))
    (suspended : point ≠ .running) (genEq : awaitable.gen = some gen) :
    destroyNext (frames, coro :: pending, destroyed) =
      some (.inl (writeAt frames coro fun frame =>
        { frame with awaitable := none }, gen :: coro :: pending,
        destroyed)) := by
  obtain ⟨frame, frameEq, pauseEq⟩ := Option.map_eq_some_iff.mp pauseEq
  simp only [Prod.mk.injEq] at pauseEq
  obtain ⟨rfl, awaitableEq⟩ := pauseEq
  rw [destroyNext, writeAt, frameEq]
  cases pointEq : frame.point with
  | running => contradiction
  | _ => simp [pointEq, awaitableEq, genEq]

theorem destroyNext_bare
    (pauseEq : pauseAt frames coro = some (point, none))
    (suspended : point ≠ .running) :
    destroyNext (frames, coro :: pending, destroyed) =
      some (.inl (Function.update frames coro none, pending,
        destroyed ++ [coro])) := by
  obtain ⟨frame, frameEq, pauseEq⟩ := Option.map_eq_some_iff.mp pauseEq
  simp only [Prod.mk.injEq] at pauseEq
  obtain ⟨rfl, awaitableEq⟩ := pauseEq
  rw [destroyNext, frameEq]
  cases pointEq : frame.point with
  | running => contradiction
  | _ => simp [pointEq, awaitableEq]

/-- Frames that keep no generators are released in their order. -/
theorem destroy_bare (nodup : pending.Nodup)
    (bare : ∀ coro ∈ pending, ∃ point,
      pauseAt frames coro = some (point, none) ∧ point ≠ .running) :
    repeatUntil destroyNext (frames, pending, destroyed) =
      some (fun coro => if coro ∈ pending then none else frames coro,
        destroyed ++ pending) := by
  induction pending generalizing frames destroyed with
  | nil =>
      have done : repeatUntil destroyNext (frames, [], destroyed) =
          some (frames, destroyed) := repeatUntil_done rfl
      simp [done]
  | cons coro pending ih =>
      obtain ⟨notMem, nodup⟩ := List.nodup_cons.mp nodup
      obtain ⟨point, pauseEq, suspended⟩ := bare coro (by simp)
      rw [repeatUntil_next (destroyNext_bare pauseEq suspended), ih nodup]
      · rw [List.append_assoc, List.singleton_append]
        congr 2
        funext other
        by_cases same : other = coro
        · subst same
          simp
        · simp [same]
      · intro other mem
        have ne : other ≠ coro := by
          rintro rfl
          exact notMem mem
        rw [pauseAt, Function.update_of_ne ne]
        exact bare other (List.mem_cons_of_mem _ mem)

/-- The destruction of the outermost generator begins with those inside. -/
theorem destroy_nested {root : Nat}
    {parents : List (Nat × (Option Error → Local))}
    (nests : Nests frames root coro parents)
    (nodup : (coro :: parents.map Prod.fst).Nodup) :
    repeatUntil destroyNext (frames, [root], destroyed) =
      repeatUntil destroyNext
        (fun other =>
          if other ∈ parents.map Prod.fst then
            (frames other).map fun frame => { frame with awaitable := none }
          else frames other,
          coro :: parents.map Prod.fst, destroyed) := by
  induction parents generalizing coro with
  | nil =>
      obtain ⟨rfl, _⟩ := nests
      simp
  | cons caller parents ih =>
      obtain ⟨parent, next⟩ := caller
      obtain ⟨_, pauseEq, outer⟩ := nests
      obtain ⟨_, nodup⟩ := List.nodup_cons.mp nodup
      have notMem := (List.nodup_cons.mp nodup).1
      rw [ih outer nodup]
      have kept : pauseAt (fun other =>
          if other ∈ parents.map Prod.fst then
            (frames other).map fun frame => { frame with awaitable := none }
          else frames other) parent = pauseAt frames parent := by
        rw [pauseAt, if_neg notMem, pauseAt]
      rw [pauseEq] at kept
      rw [List.map_cons, repeatUntil_next (destroyNext_nested kept nofun rfl)]
      congr 2
      funext other
      by_cases same : other = parent
      · subst same
        simp [notMem]
      · rw [writeAt_of_ne same]
        simp only [List.mem_cons, same, false_or]

end Destroy

/-! ### Transfers between coroutines -/

namespace State

variable {s : State Local Value Error} {coro gen root : Nat}

theorem isSome_of_pause {frames : Nat → Option (Frame Local Value Error)}
    {pause : Point Local Error × Option (NestedAwaitable Error)}
    (pauseEq : pauseAt frames coro = some pause) :
    (frames coro).isSome := by
  rw [← Option.isSome_map (f := fun frame =>
    (frame.point, frame.awaitable))]
  exact Option.isSome_of_eq_some pauseEq

theorem resume_initial {body : Local}
    {awaitable : Option (NestedAwaitable Error)}
    (pauseEq : pauseAt s.frames coro =
      some (.initialSuspend body, awaitable)) :
    s.resume coro = s.enter coro body := by
  obtain ⟨frame, frameEq, pauseEq⟩ := Option.map_eq_some_iff.mp pauseEq
  simp only [Prod.mk.injEq] at pauseEq
  simp [resume, frameEq, pauseEq.1]

theorem resume_yielded {next : Local}
    {awaitable : Option (NestedAwaitable Error)}
    (pauseEq : pauseAt s.frames coro = some (.yielded next, awaitable)) :
    s.resume coro = s.enter coro next := by
  obtain ⟨frame, frameEq, pauseEq⟩ := Option.map_eq_some_iff.mp pauseEq
  simp only [Prod.mk.injEq] at pauseEq
  simp [resume, frameEq, pauseEq.1]

theorem resume_nesting {next : Option Error → Local}
    {awaitable : NestedAwaitable Error}
    (pauseEq : pauseAt s.frames coro =
      some (.nesting next, some awaitable)) :
    s.resume coro = s.awaitResume coro awaitable next := by
  obtain ⟨frame, frameEq, pauseEq⟩ := Option.map_eq_some_iff.mp pauseEq
  simp only [Prod.mk.injEq] at pauseEq
  simp [resume, frameEq, pauseEq.1, pauseEq.2]

theorem destroy_eq {point : Point Local Error}
    (pauseEq : pauseAt s.frames gen = some (point, none))
    (suspended : point ≠ .running) :
    s.destroy gen = some
      { s with
        frames := Function.update s.frames gen none
        destroyed := s.destroyed ++ [gen] } := by
  rw [destroy, destroy_bare (by simp)]
  · simp only [Option.map_some, Option.some.injEq]
    congr 1
    funext other
    by_cases same : other = gen
    · subst same
      simp
    · simp [same]
  · intro other mem
    obtain rfl := List.mem_singleton.mp mem
    exact ⟨point, pauseEq, suspended⟩

/-- The frames after the generator that `coro` waits for is destroyed. -/
def handBack (frames : Nat → Option (Frame Local Value Error))
    (coro gen : Nat) : Nat → Option (Frame Local Value Error) :=
  let frames := writeAt frames coro fun frame =>
    { frame with awaitable := none }
  let frames := Function.update frames gen none
  writeAt frames coro fun frame => { frame with point := .running }

theorem resume_parent {nested : NestInfo Error}
    {next : Option Error → Local} {point : Point Local Error}
    (pauseEq : pauseAt s.frames coro = some (.nesting next,
      some { nested := nested, gen := some gen }))
    (bareEq : pauseAt s.frames gen = some (point, none))
    (suspended : point ≠ .running) (ne : coro ≠ gen) :
    s.resume coro = some
      { s with
        frames := handBack s.frames coro gen
        control := .runs coro (next nested.except)
        destroyed := s.destroyed ++ [gen] } := by
  have isSome := isSome_of_pause pauseEq
  have genEq : pauseAt (writeAt s.frames coro fun frame =>
      { frame with awaitable := none }) gen = some (point, none) := by
    rw [pauseAt, writeAt_of_ne ne.symm]
    exact bareEq
  rw [resume_nesting pauseEq, awaitResume, modify_eq isSome]
  simp only [Option.bind_eq_bind, Option.bind_some]
  rw [destroy_eq genEq suspended, Option.bind_some, enter_eq]
  · rfl
  · dsimp only
    rw [Function.update_of_ne ne]
    simpa using isSome

/-- The frames after a nested generator gave up its place to its parent. -/
def stepBack (frames : Nat → Option (Frame Local Value Error))
    (coro parent root : Nat) : Nat → Option (Frame Local Value Error) :=
  let frames := writeAt frames coro fun frame =>
    { frame with point := .finalSuspend }
  let frames := writeAt frames root fun frame =>
    { frame with promise := { frame.promise with top := parent } }
  writeAt frames coro fun frame =>
    { frame with promise := { frame.promise with info := none } }

section StepBack

variable {frames : Nat → Option (Frame Local Value Error)} {parent other : Nat}

theorem isSome_stepBack :
    (stepBack frames coro parent root other).isSome =
      (frames other).isSome := by
  simp [stepBack]

theorem infoAt_stepBack (ne : other ≠ coro) :
    infoAt (stepBack frames coro parent root) other = infoAt frames other := by
  rw [infoAt, stepBack, writeAt_of_ne ne, map_writeAt, writeAt_of_ne ne]
  · rfl
  · exact fun _ => rfl

theorem pauseAt_stepBack (ne : other ≠ coro) :
    pauseAt (stepBack frames coro parent root) other =
      pauseAt frames other := by
  rw [pauseAt, stepBack, writeAt_of_ne ne, map_writeAt, writeAt_of_ne ne]
  · rfl
  · exact fun _ => rfl

theorem pauseAt_stepBack_self {point : Point Local Error}
    (bareEq : pauseAt frames coro = some (point, none)) :
    pauseAt (stepBack frames coro parent root) coro =
      some (.finalSuspend, none) := by
  obtain ⟨frame, frameEq, pauseEq⟩ := Option.map_eq_some_iff.mp bareEq
  simp only [Prod.mk.injEq] at pauseEq
  rw [pauseAt, stepBack, map_writeAt, map_writeAt, writeAt_self, frameEq]
  · simp [pauseEq.2]
  · exact fun _ => rfl
  · exact fun _ => rfl

theorem topAt_stepBack (isSome : (frames root).isSome) :
    topAt (stepBack frames coro parent root) root = some parent := by
  have written : (writeAt frames coro (fun frame =>
      { frame with point := .finalSuspend }) root).isSome := by
    simpa using isSome
  obtain ⟨frame, frameEq⟩ := Option.isSome_iff_exists.mp written
  rw [topAt, stepBack, map_writeAt, writeAt_self, frameEq]
  · rfl
  · exact fun _ => rfl

end StepBack

/-- A nested generator that ends is destroyed, and its parent goes on. -/
theorem finalSuspend_nested {parent : Nat} {except : Option Error}
    {next : Option Error → Local} {point : Point Local Error}
    (infoEq : infoAt s.frames coro = some (some parent))
    (bareEq : pauseAt s.frames coro = some (point, none))
    (pauseEq : pauseAt s.frames parent = some (.nesting next,
      some { nested := { except := except, parent := parent, root := root }
             gen := some coro }))
    (rootSome : (s.frames root).isSome) (ne : parent ≠ coro) :
    s.finalSuspend coro = some
      { s with
        frames := handBack (stepBack s.frames coro parent root) parent coro
        control := .runs parent (next except)
        destroyed := s.destroyed ++ [coro] } := by
  have coroSome := isSome_of_pause bareEq
  have resumed : s.finalSuspend coro =
      ({ s with frames := stepBack s.frames coro parent root }).resume
        parent := by
    obtain ⟨frame, frameEq, infoEq⟩ := Option.map_eq_some_iff.mp infoEq
    obtain ⟨parentFrame, parentEq, parentPause⟩ :=
      Option.map_eq_some_iff.mp pauseEq
    simp only [Prod.mk.injEq] at parentPause
    rw [finalSuspend, modify_eq coroSome]
    simp only [Option.bind_eq_bind, Option.bind_some, writeAt_self, frameEq,
      Option.map_some, infoEq, writeAt_of_ne ne, parentEq, parentPause.2]
    rw [modify_eq (by simpa using rootSome), Option.bind_some,
      modify_eq (by simpa using coroSome), Option.bind_some]
    rfl
  have steppedBack :
      pauseAt (stepBack s.frames coro parent root) parent = _ :=
    (pauseAt_stepBack ne).trans pauseEq
  rw [resumed]
  exact resume_parent (s := { s with
    frames := stepBack s.frames coro parent root }) steppedBack
    (pauseAt_stepBack_self bareEq) (by simp) ne

section HandBack

variable {frames : Nat → Option (Frame Local Value Error)} {other : Nat}

theorem handBack_self (ne : coro ≠ gen) :
    handBack frames coro gen gen = none := by
  rw [handBack, writeAt_of_ne ne.symm, Function.update_self]

/-- What is neither a point nor an awaitable stays. -/
theorem map_handBack {Field : Type} {field : Frame Local Value Error → Field}
    (kept : ∀ frame point awaitable,
      field { frame with point := point, awaitable := awaitable } =
        field frame) (ne : other ≠ gen) :
    (handBack frames coro gen other).map field = (frames other).map field := by
  rw [handBack, map_writeAt, Function.update_of_ne ne, map_writeAt]
  · exact fun frame => kept frame _ _
  · exact fun frame => kept frame _ _

theorem pauseAt_handBack (ne : other ≠ gen) (neCoro : other ≠ coro) :
    pauseAt (handBack frames coro gen) other = pauseAt frames other := by
  rw [pauseAt, handBack, writeAt_of_ne neCoro, Function.update_of_ne ne,
    writeAt_of_ne neCoro]
  rfl

theorem pauseAt_handBack_self (isSome : (frames coro).isSome)
    (ne : coro ≠ gen) :
    pauseAt (handBack frames coro gen) coro = some (.running, none) := by
  obtain ⟨frame, frameEq⟩ := Option.isSome_iff_exists.mp isSome
  rw [pauseAt, handBack, writeAt_self, Function.update_of_ne ne, writeAt_self,
    frameEq]
  rfl

end HandBack

end State

/-! ### The chain of generators -/

/-- The frames that exist are those of `coro`, which nobody else is inside of,
and of the generators that wait for it, up to the root. -/
structure Chain (s : State Local Value Error) (root coro : Nat)
    (parents : List (Nat × (Option Error → Local))) : Prop where
  nests : Nests s.frames root coro parents
  nodup : (coro :: parents.map Prod.fst).Nodup
  isSome_iff : ∀ other,
    (s.frames other).isSome ↔ other ∈ coro :: parents.map Prod.fst
  leads : topAt s.frames root = some coro
  handle : s.coro = some root
  below : ∀ other ∈ coro :: parents.map Prod.fst, other < s.fresh
  releasedOnce : s.destroyed.Nodup
  released_iff : ∀ other,
    other ∈ s.destroyed ↔ other < s.fresh ∧ s.frames other = none

namespace Chain

variable {s t : State Local Value Error} {root coro parent : Nat}
variable {parents : List (Nat × (Option Error → Local))}
variable {next : Option Error → Local}

theorem isSome (chain : Chain s root coro parents) :
    (s.frames coro).isSome :=
  (chain.isSome_iff coro).mpr (by simp)

theorem rootSome (chain : Chain s root coro parents) :
    (s.frames root).isSome :=
  (chain.isSome_iff root).mpr chain.nests.root_mem

theorem isSome_of_infoAt {frames others : Nat → Option (Frame Local Value Error)}
    {other : Nat} (info : infoAt others other = infoAt frames other) :
    (others other).isSome = (frames other).isSome := by
  have same := congrArg Option.isSome info
  rwa [infoAt, infoAt, Option.isSome_map, Option.isSome_map] at same

/-- The generator inside does something that is not a transfer. -/
theorem congr (chain : Chain s root coro parents)
    (info : ∀ other, infoAt t.frames other = infoAt s.frames other)
    (pause : ∀ other ≠ coro, pauseAt t.frames other = pauseAt s.frames other)
    (top : topAt t.frames root = topAt s.frames root)
    (freshEq : t.fresh = s.fresh) (coroEq : t.coro = s.coro)
    (destroyedEq : t.destroyed = s.destroyed) :
    Chain t root coro parents where
  nests := chain.nests.congr (fun other _ => info other) (by
    intro other mem
    apply pause
    rintro rfl
    exact (List.nodup_cons.mp chain.nodup).1 mem)
  nodup := chain.nodup
  isSome_iff other := by
    rw [isSome_of_infoAt (info other), chain.isSome_iff]
  leads := top.trans chain.leads
  handle := coroEq.trans chain.handle
  below := by rw [freshEq]; exact chain.below
  releasedOnce := by rw [destroyedEq]; exact chain.releasedOnce
  released_iff other := by
    rw [destroyedEq, freshEq, chain.released_iff, ← Option.not_isSome_iff_eq_none,
      ← Option.not_isSome_iff_eq_none, isSome_of_infoAt (info other)]

/-- A generator that was just called is inside of its caller. -/
theorem forth (chain : Chain s root coro parents)
    (info : ∀ other ≠ s.fresh,
      infoAt t.frames other = infoAt s.frames other)
    (pause : ∀ other ≠ s.fresh, other ≠ coro →
      pauseAt t.frames other = pauseAt s.frames other)
    (infoEq : infoAt t.frames s.fresh = some (some coro))
    (pauseEq : pauseAt t.frames coro = some (.nesting next,
      some { nested := { except := none, parent := coro, root := root }
             gen := some s.fresh }))
    (top : topAt t.frames root = some s.fresh)
    (freshEq : t.fresh = s.fresh + 1) (coroEq : t.coro = s.coro)
    (destroyedEq : t.destroyed = s.destroyed) :
    Chain t root s.fresh ((coro, next) :: parents) := by
  have isFresh : ∀ other ∈ coro :: parents.map Prod.fst, other ≠ s.fresh :=
    fun other mem => Nat.ne_of_lt (chain.below other mem)
  have notReleased : s.fresh ∉ s.destroyed := by
    rw [chain.released_iff]
    omega
  refine
    { nests := ⟨infoEq, pauseEq, chain.nests.congr ?_ ?_⟩
      nodup := ?_
      isSome_iff := ?_
      leads := top
      handle := coroEq.trans chain.handle
      below := ?_
      releasedOnce := by rw [destroyedEq]; exact chain.releasedOnce
      released_iff := ?_ }
  · intro other mem
    exact info other (isFresh other mem)
  · intro other mem
    apply pause other (isFresh other (List.mem_cons_of_mem _ mem))
    rintro rfl
    exact (List.nodup_cons.mp chain.nodup).1 mem
  · exact List.nodup_cons.mpr
      ⟨fun mem => isFresh _ mem rfl, chain.nodup⟩
  · intro other
    by_cases same : other = s.fresh
    · subst same
      have created := Option.isSome_of_eq_some infoEq
      rw [infoAt, Option.isSome_map] at created
      simp [created]
    · rw [isSome_of_infoAt (info other same), chain.isSome_iff,
        List.mem_cons (a := other) (b := s.fresh)]
      simp [same]
  · intro other mem
    rw [freshEq]
    rcases List.mem_cons.mp mem with rfl | mem
    · exact Nat.lt_succ_self _
    · exact Nat.lt_succ_of_lt (chain.below other mem)
  · intro other
    rw [destroyedEq, freshEq]
    by_cases same : other = s.fresh
    · subst same
      have created := Option.isSome_of_eq_some infoEq
      rw [infoAt, Option.isSome_map] at created
      simp [notReleased, Option.isSome_iff_ne_none.mp created]
    · rw [chain.released_iff, ← Option.not_isSome_iff_eq_none,
        ← Option.not_isSome_iff_eq_none, isSome_of_infoAt (info other same)]
      constructor
      · rintro ⟨below, absent⟩
        exact ⟨by omega, absent⟩
      · rintro ⟨below, absent⟩
        exact ⟨by omega, absent⟩

/-- A generator that ended is released, and its parent is inside. -/
theorem back (chain : Chain s root coro ((parent, next) :: parents))
    (info : ∀ other ≠ coro, infoAt t.frames other = infoAt s.frames other)
    (pause : ∀ other ≠ coro, other ≠ parent →
      pauseAt t.frames other = pauseAt s.frames other)
    (gone : t.frames coro = none) (top : topAt t.frames root = some parent)
    (freshEq : t.fresh = s.fresh) (coroEq : t.coro = s.coro)
    (destroyedEq : t.destroyed = s.destroyed ++ [coro]) :
    Chain t root parent parents := by
  obtain ⟨notMem, nodup⟩ := List.nodup_cons.mp chain.nodup
  have neCoro : ∀ other ∈ parent :: parents.map Prod.fst, other ≠ coro := by
    rintro other mem rfl
    exact notMem mem
  have notReleased : coro ∉ s.destroyed := by
    rw [chain.released_iff]
    rintro ⟨_, absent⟩
    exact Option.isSome_iff_ne_none.mp chain.isSome absent
  refine
    { nests := chain.nests.2.2.congr ?_ ?_
      nodup := nodup
      isSome_iff := ?_
      leads := top
      handle := coroEq.trans chain.handle
      below := ?_
      releasedOnce := ?_
      released_iff := ?_ }
  · intro other mem
    exact info other (neCoro other mem)
  · intro other mem
    apply pause other (neCoro other (List.mem_cons_of_mem _ mem))
    rintro rfl
    exact (List.nodup_cons.mp nodup).1 mem
  · intro other
    by_cases same : other = coro
    · subst same
      simp only [gone, Option.isSome_none, Bool.false_eq_true, false_iff]
      exact notMem
    · rw [isSome_of_infoAt (info other same), chain.isSome_iff]
      simp [same]
  · intro other mem
    rw [freshEq]
    exact chain.below other (List.mem_cons_of_mem _ mem)
  · rw [destroyedEq]
    exact List.nodup_append_comm.mp
      (List.nodup_cons.mpr ⟨notReleased, chain.releasedOnce⟩)
  · intro other
    rw [destroyedEq, freshEq, List.mem_append, List.mem_singleton]
    by_cases same : other = coro
    · subst same
      simp [gone, chain.below]
    · rw [or_iff_left same, chain.released_iff,
        ← Option.not_isSome_iff_eq_none, ← Option.not_isSome_iff_eq_none,
        isSome_of_infoAt (info other same)]

end Chain

/-! ### The stack -/

/-- The state of a generator that was begun is that of the machine. -/
inductive Represents (s : State Local Value Error) :
    Activity.Config Local Value Unit (Option Error) → Prop
  | runs {root coro : Nat} {parents : List (Nat × (Option Error → Local))}
      {body : Local} :
      Chain s root coro parents → s.control = .runs coro body →
      pauseAt s.frames coro = some (.running, none) →
      Represents s (.runs body (parents.map Prod.snd))
  | waits {root coro : Nat} {parents : List (Nat × (Option Error → Local))}
      {value : Value} {next : Local} :
      Chain s root coro parents → s.control = .idle →
      pauseAt s.frames coro = some (.yielded next, none) →
      s.deref = some value →
      Represents s (.waits value (fun _ => next) (parents.map Prod.snd))
  | returned {root : Nat} :
      Chain s root root [] → s.control = .idle →
      pauseAt s.frames root = some (.finalSuspend, none) →
      Represents s (.ended none)
  | threw {root : Nat} {error : Error} :
      Chain s root root [] → s.control = .threw error →
      pauseAt s.frames root = some (.finalSuspend, none) →
      Represents s (.ended (some error))

section Steps

variable {s t : State Local Value Error} {root coro : Nat}
variable {parents : List (Nat × (Option Error → Local))} {body next : Local}

/-- A write to the frame of the generator inside. -/
theorem Chain.write (chain : Chain s root coro parents)
    {change : Frame Local Value Error → Frame Local Value Error}
    {control : Control Local Error}
    (info : ∀ frame, (change frame).promise.info = frame.promise.info)
    (top : ∀ frame, (change frame).promise.top = frame.promise.top) :
    Chain (s.write coro change control) root coro parents := by
  refine chain.congr ?_ ?_ (map_writeAt top) rfl rfl rfl
  · exact fun _ => map_writeAt info
  · intro other ne
    rw [pauseAt, State.frames_write, writeAt_of_ne ne]
    rfl

theorem pauseAt_write {point : Point Local Error}
    {awaitable : Option (NestedAwaitable Error)}
    {change : Frame Local Value Error → Frame Local Value Error}
    {control : Control Local Error} {later : Point Local Error}
    (pauseEq : pauseAt s.frames coro = some (point, awaitable))
    (changes : ∀ frame, (change frame).point = later ∧
      (change frame).awaitable = frame.awaitable) :
    pauseAt (s.write coro change control).frames coro =
      some (later, awaitable) := by
  obtain ⟨frame, frameEq, pauseEq⟩ := Option.map_eq_some_iff.mp pauseEq
  simp only [Prod.mk.injEq] at pauseEq
  rw [pauseAt, State.frames_write, writeAt_self, frameEq]
  simp [changes frame, pauseEq.2]

/-- A coroutine goes on where it is suspended, which is not in
`elements_of`. -/
theorem Chain.enter (chain : Chain s root coro parents)
    {point : Point Local Error}
    (pauseEq : pauseAt s.frames coro = some (point, none)) (body : Local) :
    ∃ t, s.enter coro body = some t ∧
      Represents t (.runs body (parents.map Prod.snd)) :=
  ⟨_, State.enter_eq chain.isSome body,
    .runs (chain.write (fun _ => rfl) fun _ => rfl) rfl
      (pauseAt_write pauseEq fun _ => ⟨rfl, rfl⟩)⟩

theorem Chain.yieldValue (chain : Chain s root coro parents)
    (pauseEq : pauseAt s.frames coro = some (.running, none)) (value : Value)
    (next : Local) :
    ∃ t, s.yieldValue coro value next = some t ∧
      Represents t (.waits value (fun _ => next) (parents.map Prod.snd)) := by
  have written : Chain
      (s.write coro (fun frame =>
        { frame with
          promise := { frame.promise with ptr := some value }
          point := .yielded next }) .idle) root coro parents :=
    chain.write (fun _ => rfl) fun _ => rfl
  refine ⟨_, State.modify_map_eq chain.isSome _, .waits written rfl
    (pauseAt_write pauseEq fun _ => ⟨rfl, rfl⟩) ?_⟩
  obtain ⟨rootFrame, rootEq, topEq⟩ := Option.map_eq_some_iff.mp written.leads
  obtain ⟨frame, frameEq⟩ := Option.isSome_iff_exists.mp chain.isSome
  rw [State.deref, written.handle]
  simp only [Option.bind_eq_bind, Option.bind_some, rootEq, topEq]
  rw [State.frames_write, writeAt_self, frameEq]
  rfl

/-- The frames after `coro` was suspended for a generator that was called. -/
def nestAt (frames : Nat → Option (Frame Local Value Error))
    (coro root gen : Nat) (next : Option Error → Local) :
    Nat → Option (Frame Local Value Error) :=
  let frames := writeAt frames coro fun frame =>
    { frame with
      point := .nesting next
      awaitable := some
        { nested := { except := none, parent := coro, root := root }
          gen := some gen } }
  let frames := writeAt frames root fun frame =>
    { frame with promise := { frame.promise with top := gen } }
  writeAt frames gen fun frame =>
    { frame with promise := { frame.promise with info := some coro } }

section NestAt

variable {frames : Nat → Option (Frame Local Value Error)} {gen other : Nat}
variable {next : Option Error → Local}

theorem infoAt_nestAt (ne : other ≠ gen) :
    infoAt (nestAt frames coro root gen next) other = infoAt frames other := by
  rw [infoAt, nestAt, writeAt_of_ne ne, map_writeAt, map_writeAt]
  · rfl
  · exact fun _ => rfl
  · exact fun _ => rfl

theorem pauseAt_nestAt (ne : other ≠ coro) :
    pauseAt (nestAt frames coro root gen next) other =
      pauseAt frames other := by
  rw [pauseAt, nestAt, map_writeAt, map_writeAt, writeAt_of_ne ne]
  · rfl
  · exact fun _ => rfl
  · exact fun _ => rfl

theorem pauseAt_nestAt_self (isSome : (frames coro).isSome) :
    pauseAt (nestAt frames coro root gen next) coro =
      some (.nesting next,
        some { nested := { except := none, parent := coro, root := root }
               gen := some gen }) := by
  obtain ⟨frame, frameEq⟩ := Option.isSome_iff_exists.mp isSome
  rw [pauseAt, nestAt, map_writeAt, map_writeAt, writeAt_self, frameEq]
  · rfl
  · exact fun _ => rfl
  · exact fun _ => rfl

theorem infoAt_nestAt_self (isSome : (frames gen).isSome) :
    infoAt (nestAt frames coro root gen next) gen = some (some coro) := by
  have written : (writeAt (writeAt frames coro (fun frame =>
      { frame with
        point := .nesting next
        awaitable := some
          { nested := { except := none, parent := coro, root := root }
            gen := some gen } })) root (fun frame =>
      { frame with promise := { frame.promise with top := gen } })
        gen).isSome := by
    simpa using isSome
  obtain ⟨frame, frameEq⟩ := Option.isSome_iff_exists.mp written
  rw [infoAt, nestAt, writeAt_self, frameEq]
  rfl

theorem topAt_nestAt (isSome : (frames root).isSome) :
    topAt (nestAt frames coro root gen next) root = some gen := by
  have written : (writeAt frames coro (fun frame =>
      { frame with
        point := .nesting next
        awaitable := some
          { nested := { except := none, parent := coro, root := root }
            gen := some gen } }) root).isSome := by
    simpa using isSome
  obtain ⟨frame, frameEq⟩ := Option.isSome_iff_exists.mp written
  rw [topAt, nestAt, map_writeAt, writeAt_self, frameEq]
  · rfl
  · exact fun _ => rfl

end NestAt

/-- The call of a nested generator. -/
theorem Chain.call (chain : Chain s root coro parents) (range : Local)
    (next : Option Error → Local) :
    ∃ t, (s.call range).awaitSuspend coro s.fresh next = some t ∧
      Represents t (.runs range (next :: parents.map Prod.snd)) := by
  have isFresh : ∀ other ∈ coro :: parents.map Prod.fst, other ≠ s.fresh :=
    fun other mem => Nat.ne_of_lt (chain.below other mem)
  have coroNe := isFresh coro (by simp)
  have rootNe := isFresh root chain.nests.root_mem
  have called : ∀ other ≠ s.fresh,
      (s.call range).frames other = s.frames other :=
    fun other ne => Function.update_of_ne ne ..
  have created : (s.call range).frames s.fresh =
      some (Frame.new s.fresh range) :=
    Function.update_self ..
  have freshSome := Option.isSome_of_eq_some created
  have coroSome : ((s.call range).frames coro).isSome := by
    rw [called coro coroNe]
    exact chain.isSome
  have rootSome : ((s.call range).frames root).isSome := by
    rw [called root rootNe]
    exact chain.rootSome
  have rootEq : (s.call range).rootOf coro = some root := by
    refine (chain.nests.congr ?_ ?_).rootOf_eq
    · intro other mem
      rw [infoAt, called other (isFresh other mem)]
      rfl
    · intro other mem
      rw [pauseAt, called other (isFresh other (List.mem_cons_of_mem _ mem))]
      rfl
  have suspended : pauseAt
      (nestAt (s.call range).frames coro root s.fresh next) s.fresh =
        some (.initialSuspend range, none) := by
    rw [pauseAt_nestAt coroNe.symm, pauseAt, created]
    rfl
  have nested : Chain
      { s.call range with
        frames := nestAt (s.call range).frames coro root s.fresh next }
      root s.fresh ((coro, next) :: parents) := by
    refine chain.forth ?_ ?_ (infoAt_nestAt_self freshSome)
      (pauseAt_nestAt_self coroSome) (topAt_nestAt rootSome) rfl rfl rfl
    · intro other ne
      rw [infoAt_nestAt ne, infoAt, called other ne]
      rfl
    · intro other ne neCoro
      rw [pauseAt_nestAt neCoro, pauseAt, called other ne]
      rfl
  obtain ⟨t, enterEq, represents⟩ := nested.enter suspended range
  refine ⟨t, ?_, represents⟩
  rw [← enterEq, ← State.resume_initial suspended, State.awaitSuspend, rootEq]
  simp only [Option.bind_eq_bind, Option.bind_some]
  rw [State.modify_eq coroSome, Option.bind_some,
    State.modify_eq (by simpa using rootSome), Option.bind_some,
    State.modify_eq (by simpa using freshSome), Option.bind_some]
  rfl

/-- The outermost generator ends. -/
theorem Chain.finish (chain : Chain s root root [])
    (pauseEq : pauseAt s.frames root = some (.running, none)) :
    (∃ t, s.finalSuspend root = some t ∧ Represents t (.ended none)) ∧
      ∀ error, ∃ t, s.unhandledException root error = some t ∧
        Represents t (.ended (some error)) := by
  obtain ⟨frame, frameEq, infoEq⟩ :=
    Option.map_eq_some_iff.mp chain.nests.2
  have ended : ∀ control, Chain
      (s.write root (fun frame => { frame with point := .finalSuspend })
        control) root root [] :=
    fun control => chain.write (fun _ => rfl) fun _ => rfl
  constructor
  · refine ⟨_, ?_, .returned (ended .idle) rfl
      (pauseAt_write pauseEq fun _ => ⟨rfl, rfl⟩)⟩
    rw [State.finalSuspend, State.modify_eq chain.isSome]
    simp only [Option.bind_eq_bind, Option.bind_some, writeAt_self, frameEq,
      Option.map_some, infoEq]
    rfl
  · intro error
    refine ⟨_, ?_, .threw (ended (.threw error)) rfl
      (pauseAt_write pauseEq fun _ => ⟨rfl, rfl⟩)⟩
    rw [State.unhandledException, frameEq]
    simp only [Option.bind_eq_bind, Option.bind_some, infoEq]
    exact State.modify_map_eq chain.isSome _

/-- The parent of a nested generator goes on, after the generator was
destroyed. -/
theorem Chain.goesOn {parent : Nat} {next : Option Error → Local}
    (chain : Chain s root coro ((parent, next) :: parents))
    (info : ∀ other, infoAt t.frames other = infoAt s.frames other)
    (pause : ∀ other ≠ parent,
      pauseAt t.frames other = pauseAt s.frames other)
    (freshEq : t.fresh = s.fresh) (coroEq : t.coro = s.coro)
    (destroyedEq : t.destroyed = s.destroyed) (body : Local) :
    Represents
      { t with
        frames :=
          State.handBack (State.stepBack t.frames coro parent root) parent coro
        control := .runs parent body
        destroyed := t.destroyed ++ [coro] }
      (.runs body (parents.map Prod.snd)) := by
  have ne : parent ≠ coro := by
    rintro rfl
    exact (List.nodup_cons.mp chain.nodup).1 (by simp)
  have sameSome : ∀ other,
      (t.frames other).isSome = (s.frames other).isSome :=
    fun other => isSome_of_infoAt (info other)
  have parentSome : (t.frames parent).isSome := by
    rw [sameSome, chain.isSome_iff]
    simp
  have rootSome : (t.frames root).isSome := by
    rw [sameSome]
    exact chain.rootSome
  have rootNe : root ≠ coro := by
    rintro rfl
    exact (List.nodup_cons.mp chain.nodup).1 chain.nests.2.2.root_mem
  refine .runs (chain.back ?_ ?_ (State.handBack_self ne) ?_ freshEq coroEq ?_)
    rfl (State.pauseAt_handBack_self ?_ ne)
  · intro other neCoro
    rw [infoAt, State.map_handBack (fun _ _ _ => rfl) neCoro]
    exact (State.infoAt_stepBack neCoro).trans (info other)
  · intro other neCoro neParent
    rw [State.pauseAt_handBack neCoro neParent, State.pauseAt_stepBack neCoro]
    exact pause other neParent
  · rw [topAt, State.map_handBack (fun _ _ _ => rfl) rootNe]
    exact State.topAt_stepBack rootSome
  · dsimp only
    rw [destroyedEq]
  · rw [State.isSome_stepBack]
    exact parentSome

/-- A nested generator ends. -/
theorem Chain.finish_nested {parent : Nat} {next : Option Error → Local}
    (chain : Chain s root coro ((parent, next) :: parents))
    (pauseEq : pauseAt s.frames coro = some (.running, none)) :
    (∃ t, s.finalSuspend coro = some t ∧
      Represents t (.runs (next none) (parents.map Prod.snd))) ∧
      ∀ error, ∃ t, s.unhandledException coro error = some t ∧
        Represents t (.runs (next (some error)) (parents.map Prod.snd)) := by
  obtain ⟨infoEq, parentPause, _⟩ := chain.nests
  have ne : parent ≠ coro := by
    rintro rfl
    exact (List.nodup_cons.mp chain.nodup).1 (by simp)
  have parentSome := State.isSome_of_pause parentPause
  constructor
  · exact ⟨_, State.finalSuspend_nested infoEq pauseEq parentPause
      chain.rootSome ne,
      chain.goesOn (fun _ => rfl) (fun _ _ => rfl) rfl rfl rfl (next none)⟩
  · intro error
    obtain ⟨t, tEq⟩ : ∃ t, t = s.write parent (fun frame =>
        { frame with
          awaitable := some
            { nested :=
                { except := some error, parent := parent, root := root }
              gen := some coro } }) s.control := ⟨_, rfl⟩
    have info : ∀ other, infoAt t.frames other = infoAt s.frames other := by
      rw [tEq]
      exact fun _ => map_writeAt fun _ => rfl
    have pause : ∀ other ≠ parent,
        pauseAt t.frames other = pauseAt s.frames other := by
      intro other neParent
      rw [tEq, pauseAt, State.frames_write, writeAt_of_ne neParent]
      rfl
    have excepted : pauseAt t.frames parent = some (.nesting next,
        some { nested :=
                 { except := some error, parent := parent, root := root }
               gen := some coro }) := by
      obtain ⟨frame, frameEq, framePause⟩ :=
        Option.map_eq_some_iff.mp parentPause
      simp only [Prod.mk.injEq] at framePause
      rw [tEq, pauseAt, State.frames_write, writeAt_self, frameEq]
      simp [framePause.1]
    have caught : s.unhandledException coro error = t.finalSuspend coro := by
      obtain ⟨frame, frameEq, frameInfo⟩ := Option.map_eq_some_iff.mp infoEq
      obtain ⟨parentFrame, parentEq, framePause⟩ :=
        Option.map_eq_some_iff.mp parentPause
      simp only [Prod.mk.injEq] at framePause
      rw [State.unhandledException, frameEq]
      simp only [Option.bind_eq_bind, Option.bind_some, frameInfo, parentEq,
        framePause.2]
      rw [State.modify_eq parentSome, tEq]
      rfl
    have rootSome : (t.frames root).isSome := by
      rw [Chain.isSome_of_infoAt (info root)]
      exact chain.rootSome
    rw [← info] at infoEq
    rw [← pause coro ne.symm] at pauseEq
    rw [caught]
    exact ⟨_, State.finalSuspend_nested infoEq pauseEq excepted rootSome ne,
      chain.goesOn info pause (by rw [tEq]; rfl) (by rw [tEq]; rfl)
        (by rw [tEq]; rfl) (next (some error))⟩

/-- The machine's step is the coroutine's. -/
theorem Represents.run (code : Local → Body Local Value Error)
    {callers : List (Option Error → Local)}
    (represents : Represents s (.runs body callers)) :
    ∃ t, step code s .run = some t ∧
      Represents t (Activity.advance (activity code) body callers) := by
  cases represents with
  | @runs root coro parents _ chain controlEq pauseEq =>
      have stepEq : step code s .run = s.execute code coro body := by
        rw [step, controlEq]
      rw [stepEq, State.execute]
      cases codeEq : code body with
      | coYield value next =>
          rw [Activity.advance, activity, codeEq]
          exact chain.yieldValue pauseEq value next
      | coYieldElements range next =>
          rw [Activity.advance, activity, codeEq]
          cases range with
          | some range => exact chain.call range next
          | none =>
              refine ⟨_, rfl, .runs (chain.congr (fun _ => rfl)
                (fun _ _ => rfl) rfl rfl rfl rfl) rfl pauseEq⟩
      | coReturn =>
          rw [Activity.advance, activity, codeEq]
          cases parents with
          | nil =>
              obtain ⟨rfl, _⟩ := chain.nests
              exact (chain.finish pauseEq).1
          | cons caller parents => exact (chain.finish_nested pauseEq).1
      | throws error =>
          rw [Activity.advance, activity, codeEq]
          cases parents with
          | nil =>
              obtain ⟨rfl, _⟩ := chain.nests
              exact (chain.finish pauseEq).2 error
          | cons caller parents => exact (chain.finish_nested pauseEq).2 error

/-- The root leads to the generator inside, and is that one or waits. -/
theorem Chain.root_frame (chain : Chain s root coro parents)
    {point : Point Local Error}
    (pauseEq : pauseAt s.frames coro = some (point, none)) :
    ∃ frame, s.frames root = some frame ∧ frame.promise.top = coro ∧
      (frame.point = point ∨ ∃ next, frame.point = .nesting next) := by
  obtain ⟨frame, frameEq, topEq⟩ := Option.map_eq_some_iff.mp chain.leads
  refine ⟨frame, frameEq, topEq, ?_⟩
  have pointAt : ∀ {point : Point Local Error} {awaitable},
      pauseAt s.frames root = some (point, awaitable) →
        frame.point = point := by
    intro point awaitable rootPause
    rw [pauseAt, frameEq, Option.map_some, Option.some.injEq,
      Prod.mk.injEq] at rootPause
    exact rootPause.1
  rcases List.mem_cons.mp chain.nests.root_mem with rfl | mem
  · exact .inl (pointAt pauseEq)
  · obtain ⟨next, _, rootPause⟩ := chain.nests.pause_of_mem mem
    exact .inr ⟨next, pointAt rootPause⟩

/-- The innermost generator is resumed, wherever it is. -/
theorem Represents.increment (code : Local → Body Local Value Error)
    {value : Value} {next : Unit → Local}
    {callers : List (Option Error → Local)}
    (represents : Represents s (.waits value next callers)) :
    ∃ t, step code s .increment = some t ∧
      Represents t (.runs (next ()) callers) := by
  cases represents with
  | @waits root coro parents _ next chain controlEq pauseEq _ =>
      obtain ⟨t, enterEq, entered⟩ := chain.enter pauseEq next
      refine ⟨t, ?_, entered⟩
      obtain ⟨frame, frameEq, topEq, points⟩ := chain.root_frame pauseEq
      rw [← enterEq, ← State.resume_yielded pauseEq, step, chain.handle]
      simp only [Option.bind_eq_bind, Option.bind_some, frameEq, controlEq,
        topEq]
      rcases points with pointEq | ⟨_, pointEq⟩
      · rw [pointEq]
      · rw [pointEq]

/-- The frames are all released, the innermost one first. -/
theorem Chain.destroy (chain : Chain s root coro parents)
    {point : Point Local Error}
    (pauseEq : pauseAt s.frames coro = some (point, none))
    (suspended : point ≠ .running) :
    s.destroy root = some
      { s with
        frames := fun _ => none
        destroyed := s.destroyed ++ coro :: parents.map Prod.fst } := by
  obtain ⟨notMem, _⟩ := List.nodup_cons.mp chain.nodup
  rw [State.destroy, destroy_nested chain.nests chain.nodup,
    destroy_bare chain.nodup]
  · simp only [Option.map_some, Option.some.injEq]
    congr 1
    funext other
    by_cases mem : other ∈ coro :: parents.map Prod.fst
    · rw [if_pos mem]
    · rw [if_neg mem, if_neg fun inner => mem (List.mem_cons_of_mem _ inner),
        ← Option.not_isSome_iff_eq_none, chain.isSome_iff]
      exact mem
  · intro other mem
    rcases List.mem_cons.mp mem with rfl | mem
    · refine ⟨point, ?_, suspended⟩
      rw [pauseAt, if_neg notMem]
      exact pauseEq
    · obtain ⟨next, awaitable, otherPause⟩ := chain.nests.pause_of_mem mem
      obtain ⟨frame, frameEq, framePause⟩ :=
        Option.map_eq_some_iff.mp otherPause
      simp only [Prod.mk.injEq] at framePause
      refine ⟨.nesting next, ?_, by simp⟩
      rw [pauseAt, if_pos mem, frameEq]
      simp [framePause.1]

end Steps

end CoContext.Generator
