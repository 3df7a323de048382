import CoContext.TaskAwait
import Mathlib.Data.List.Nodup

/-!
# Awaiting a task is forcing it

The frames of the coroutines that are in the middle are the stack of a machine
that evaluates on demand, from the coroutine that was awaited last to the
detached one.  The other frames are the names that the machine finds: a
coroutine at its initial suspend point is delayed, and one at its final
suspend point has a result.
-/

namespace CoContext.TaskAwait

variable {Local Event Reply Value Error : Type}

/-! ### Views of the frames -/

/-- What a frame is to those who may await it. -/
def Frame.cell (frame : Frame Local Event Reply Value Error) :
    Lazy.Cell Local (Outcome Value Error) :=
  match frame.point, frame.stored with
  | .initialSuspend body, _ => .delayed body
  | .finalSuspend, some outcome => .forced outcome
  | _, _ => .forcing

/-- Who is resumed at the end. -/
def Frame.link (frame : Frame Local Event Reply Value Error) :
    Option Nat × Bool :=
  (frame.parentCoro, frame.isDetached)

/-- A coroutine that is not in the middle. -/
def Frame.Parked (frame : Frame Local Event Reply Value Error) : Prop :=
  frame.isDetached = false ∧
    ((∃ body, frame.point = .initialSuspend body) ∨
      (frame.point = .finalSuspend ∧ frame.stored.isSome))

namespace State

/-- The tasks other than the detached one. -/
def store (s : State Local Event Reply Value Error) :
    Lazy.Store Local (Outcome Value Error) where
  fresh := s.fresh
  cell name := if name = 0 then none else (s.frames name).map Frame.cell

def write (s : State Local Event Reply Value Error) (coro : Nat)
    (change : Frame Local Event Reply Value Error →
      Frame Local Event Reply Value Error) :
    State Local Event Reply Value Error :=
  { s with
    frames := Function.update s.frames coro ((s.frames coro).map change) }

def controlled (s : State Local Event Reply Value Error)
    (control : Control Local Event Error) :
    State Local Event Reply Value Error :=
  { s with control := control }

variable {s : State Local Event Reply Value Error} {coro other : Nat}
variable {change : Frame Local Event Reply Value Error →
  Frame Local Event Reply Value Error}
variable {frame : Frame Local Event Reply Value Error}

theorem frames_write : (s.write coro change).frames =
    Function.update s.frames coro ((s.frames coro).map change) := rfl

theorem frames_destroy :
    (s.destroy coro).frames = Function.update s.frames coro none := rfl

theorem cell_store (name : Nat) : s.store.cell name =
    if name = 0 then none else (s.frames name).map Frame.cell := rfl

theorem frames_write_self (frameEq : s.frames coro = some frame) :
    (s.write coro change).frames coro = some (change frame) := by
  rw [frames_write, Function.update_self, frameEq, Option.map_some]

theorem frames_write_of_ne (ne : other ≠ coro) :
    (s.write coro change).frames other = s.frames other :=
  Function.update_of_ne ne ..

theorem modify_eq (frameEq : s.frames coro = some frame) :
    s.modify coro change = some (s.write coro change) := by
  rw [modify, write, frameEq]
  rfl

theorem enter_eq (frameEq : s.frames coro = some frame) (body : Local) :
    s.enter coro body = some
      ((s.write coro fun frame => { frame with point := .running }).controlled
        (.runs coro body)) := by
  rw [enter, modify_eq frameEq]
  rfl

/-- A write that others do not notice. -/
theorem store_write_same
    (cellEq : ∀ frame, s.frames coro = some frame →
      coro ≠ 0 → (change frame).cell = frame.cell) :
    (s.write coro change).store = s.store := by
  ext1
  · rfl
  funext name
  rw [cell_store, cell_store]
  by_cases root : name = 0
  · rw [if_pos root, if_pos root]
  · rw [if_neg root, if_neg root]
    by_cases same : name = coro
    · subst same
      cases frameEq : s.frames name with
      | none => rw [frames_write, Function.update_self, frameEq]; rfl
      | some frame =>
          rw [frames_write_self frameEq, Option.map_some, Option.map_some,
            cellEq frame frameEq root]
    · rw [frames_write_of_ne same]

theorem store_write (ne : coro ≠ 0) (frameEq : s.frames coro = some frame) :
    (s.write coro change).store =
      s.store.set coro (some (change frame).cell) := by
  ext1
  · rfl
  funext name
  rw [cell_store, Lazy.Store.cell_set]
  by_cases same : name = coro
  · subst same
    rw [if_neg ne, frames_write_self frameEq, Function.update_self]
    rfl
  · rw [frames_write_of_ne same, Function.update_of_ne same, cell_store]

theorem store_destroy (ne : coro ≠ 0) :
    (s.destroy coro).store = s.store.set coro none := by
  ext1
  · rfl
  funext name
  rw [cell_store, Lazy.Store.cell_set, frames_destroy]
  by_cases same : name = coro
  · subst same
    rw [if_neg ne, Function.update_self, Function.update_self]
    rfl
  · rw [Function.update_of_ne same, Function.update_of_ne same, cell_store]

theorem store_destroy_root : (s.destroy 0).store = s.store := by
  ext1
  · rfl
  funext name
  rw [cell_store, cell_store, frames_destroy]
  by_cases root : name = 0
  · rw [if_pos root, if_pos root]
  · rw [if_neg root, if_neg root, Function.update_of_ne root]

@[simp]
theorem store_controlled (control : Control Local Event Error) :
    (s.controlled control).store = s.store := rfl

@[simp]
theorem frames_controlled (control : Control Local Event Error) :
    (s.controlled control).frames = s.frames := rfl

end State

/-! ### The chain of parents -/

/-- The coroutines that wait for `coro`, up to the detached one. -/
def Nests (frames : Nat → Option (Frame Local Event Reply Value Error)) :
    Nat → List (Nat × Awaiter × (Option (Outcome Value Error) → Local)) →
      Prop
  | coro, [] => coro = 0 ∧ (frames 0).map Frame.link = some (none, true)
  | coro, (parent, awaiter, next) :: parents =>
      (frames coro).map Frame.link = some (some parent, false) ∧
        (frames parent).map Frame.point = some (.awaiting coro awaiter next) ∧
          Nests frames parent parents

namespace Nests

variable {frames others : Nat → Option (Frame Local Event Reply Value Error)}
variable {coro : Nat}
variable {parents :
  List (Nat × Awaiter × (Option (Outcome Value Error) → Local))}

theorem congr (nests : Nests frames coro parents)
    (link : ∀ other ∈ coro :: parents.map Prod.fst,
      (others other).map Frame.link = (frames other).map Frame.link)
    (point : ∀ other ∈ parents.map Prod.fst,
      (others other).map Frame.point = (frames other).map Frame.point) :
    Nests others coro parents := by
  induction parents generalizing coro with
  | nil =>
      obtain ⟨rfl, linkEq⟩ := nests
      exact ⟨rfl, (link 0 (by simp)).trans linkEq⟩
  | cons caller parents ih =>
      obtain ⟨linkEq, pointEq, outer⟩ := nests
      refine ⟨(link coro (by simp)).trans linkEq,
        (point _ (by simp)).trans pointEq, ih outer ?_ ?_⟩
      · intro other mem
        exact link other (List.mem_cons_of_mem _ mem)
      · intro other mem
        exact point other (List.mem_cons_of_mem _ mem)

theorem isSome (nests : Nests frames coro parents) {other : Nat}
    (mem : other ∈ coro :: parents.map Prod.fst) :
    (frames other).isSome := by
  have someOf : ∀ {name : Nat} {link : Option Nat × Bool},
      (frames name).map Frame.link = some link → (frames name).isSome := by
    intro name link linkEq
    obtain ⟨frame, frameEq, _⟩ := Option.map_eq_some_iff.mp linkEq
    exact Option.isSome_of_eq_some frameEq
  induction parents generalizing coro with
  | nil =>
      obtain ⟨rfl, linkEq⟩ := nests
      obtain rfl : other = 0 := by simpa using mem
      exact someOf linkEq
  | cons caller parents ih =>
      rcases List.mem_cons.mp mem with rfl | mem
      · exact someOf nests.1
      · exact ih nests.2.2 mem

theorem root_mem (nests : Nests frames coro parents) :
    0 ∈ coro :: parents.map Prod.fst := by
  induction parents generalizing coro with
  | nil => simp [nests.1]
  | cons caller parents ih => exact List.mem_cons_of_mem _ (ih nests.2.2)

/-- The coroutines that wait are not at a suspend point where they could be
awaited. -/
theorem point_of_mem (nests : Nests frames coro parents) {other : Nat}
    (mem : other ∈ parents.map Prod.fst) :
    ∃ task awaiter next,
      (frames other).map Frame.point = some (.awaiting task awaiter next) := by
  induction parents generalizing coro with
  | nil => simp at mem
  | cons caller parents ih =>
      rcases List.mem_cons.mp mem with rfl | mem
      · exact ⟨_, _, _, nests.2.1⟩
      · exact ih nests.2.2 mem

end Nests

/-- The frames that are left, and those that were destroyed. -/
structure Ledger (s : State Local Event Reply Value Error) : Prop where
  below : ∀ other, (s.frames other).isSome → other < s.fresh
  releasedOnce : s.destroyed.Nodup
  released_iff : ∀ other,
    other ∈ s.destroyed ↔ other < s.fresh ∧ s.frames other = none

/-- `coro` is in the middle with those that wait for it, and no other
coroutine is. -/
structure Chain (s : State Local Event Reply Value Error) (coro : Nat)
    (parents : List (Nat × Awaiter × (Option (Outcome Value Error) → Local))) :
    Prop where
  nests : Nests s.frames coro parents
  nodup : (coro :: parents.map Prod.fst).Nodup
  others : ∀ other ∉ coro :: parents.map Prod.fst, ∀ frame,
    s.frames other = some frame → frame.Parked
  ledger : Ledger s

namespace Ledger

variable {s : State Local Event Reply Value Error} {coro : Nat}
variable {change : Frame Local Event Reply Value Error →
  Frame Local Event Reply Value Error}

theorem controlled (ledger : Ledger s) (control : Control Local Event Error) :
    Ledger (s.controlled control) :=
  ⟨ledger.below, ledger.releasedOnce, ledger.released_iff⟩

theorem write (ledger : Ledger s) : Ledger (s.write coro change) := by
  have sameSome : ∀ other, ((s.write coro change).frames other).isSome =
      (s.frames other).isSome := by
    intro other
    by_cases same : other = coro
    · subst same
      rw [State.frames_write, Function.update_self, Option.isSome_map]
    · rw [State.frames_write_of_ne same]
  refine ⟨?_, ledger.releasedOnce, ?_⟩
  · intro other isSome
    rw [sameSome] at isSome
    exact ledger.below other isSome
  · intro other
    rw [← Option.not_isSome_iff_eq_none, sameSome,
      Option.not_isSome_iff_eq_none]
    exact ledger.released_iff other

theorem destroy (ledger : Ledger s) (isSome : (s.frames coro).isSome) :
    Ledger (s.destroy coro) := by
  have notReleased : coro ∉ s.destroyed := by
    rw [ledger.released_iff]
    rintro ⟨_, absent⟩
    rw [absent] at isSome
    contradiction
  refine ⟨?_, ?_, ?_⟩
  · intro other otherSome
    by_cases same : other = coro
    · subst same
      exact ledger.below other isSome
    · rw [State.frames_destroy, Function.update_of_ne same] at otherSome
      exact ledger.below other otherSome
  · exact List.nodup_append_comm.mp
      (List.nodup_cons.mpr ⟨notReleased, ledger.releasedOnce⟩)
  · intro other
    have member : other ∈ (s.destroy coro).destroyed ↔
        other ∈ s.destroyed ∨ other = coro := by
      simp [State.destroy]
    rw [member, State.frames_destroy]
    by_cases same : other = coro
    · subst same
      rw [Function.update_self]
      exact iff_of_true (.inr rfl) ⟨ledger.below other isSome, rfl⟩
    · rw [Function.update_of_ne same, or_iff_left same]
      exact ledger.released_iff other

theorem alloc (ledger : Ledger s)
    (frame : Frame Local Event Reply Value Error) :
    Ledger { s with
      frames := Function.update s.frames s.fresh (some frame)
      fresh := s.fresh + 1 } := by
  have notReleased : s.fresh ∉ s.destroyed := by
    rw [ledger.released_iff]
    omega
  refine ⟨?_, ledger.releasedOnce, ?_⟩
  · intro other isSome
    by_cases same : other = s.fresh
    · subst same
      exact Nat.lt_succ_self _
    · dsimp only at isSome
      rw [Function.update_of_ne same] at isSome
      exact Nat.lt_succ_of_lt (ledger.below other isSome)
  · intro other
    dsimp only
    by_cases same : other = s.fresh
    · subst same
      simp [notReleased]
    · rw [Function.update_of_ne same, ledger.released_iff]
      constructor
      · rintro ⟨below, absent⟩
        exact ⟨Nat.lt_succ_of_lt below, absent⟩
      · rintro ⟨below, absent⟩
        exact ⟨by omega, absent⟩

end Ledger

namespace Chain

variable {s : State Local Event Reply Value Error} {coro parent task : Nat}
variable {parents :
  List (Nat × Awaiter × (Option (Outcome Value Error) → Local))}
variable {awaiter : Awaiter} {next : Option (Outcome Value Error) → Local}
variable {change : Frame Local Event Reply Value Error →
  Frame Local Event Reply Value Error}
variable {frame : Frame Local Event Reply Value Error}

theorem frameEq (chain : Chain s coro parents) :
    ∃ frame, s.frames coro = some frame :=
  Option.isSome_iff_exists.mp (chain.nests.isSome (by simp))

theorem controlled (chain : Chain s coro parents)
    (control : Control Local Event Error) :
    Chain (s.controlled control) coro parents :=
  ⟨chain.nests, chain.nodup, chain.others, chain.ledger.controlled control⟩

/-- What a coroutine does to its own frame. -/
theorem write (chain : Chain s coro parents)
    (link : ∀ frame, (change frame).link = frame.link) :
    Chain (s.write coro change) coro parents := by
  have others : ∀ other ≠ coro,
      (s.write coro change).frames other = s.frames other :=
    fun other ne => State.frames_write_of_ne ne
  obtain ⟨frame, frameEq⟩ := chain.frameEq
  have own : (s.write coro change).frames coro = some (change frame) :=
    State.frames_write_self frameEq
  refine ⟨chain.nests.congr ?_ ?_, chain.nodup, ?_, chain.ledger.write⟩
  · intro other _
    by_cases same : other = coro
    · rw [same, own, frameEq, Option.map_some, Option.map_some, link]
    · rw [others other same]
  · intro other mem
    rw [others other]
    rintro rfl
    exact (List.nodup_cons.mp chain.nodup).1 mem
  · intro other notMem otherFrame otherEq
    rw [others other] at otherEq
    · exact chain.others other notMem otherFrame otherEq
    · rintro rfl
      simp at notMem

/-- The frame of a task is written. -/
theorem writeOther (chain : Chain s coro parents)
    (notMem : task ∉ coro :: parents.map Prod.fst)
    (frameEq : s.frames task = some frame) (parked : (change frame).Parked) :
    Chain (s.write task change) coro parents := by
  have others : ∀ other ∈ coro :: parents.map Prod.fst,
      (s.write task change).frames other = s.frames other := by
    intro other mem
    apply State.frames_write_of_ne
    rintro rfl
    exact notMem mem
  refine ⟨chain.nests.congr ?_ ?_, chain.nodup, ?_, chain.ledger.write⟩
  · intro other mem
    rw [others other mem]
  · intro other mem
    rw [others other (List.mem_cons_of_mem _ mem)]
  · intro other otherNotMem otherFrame otherEq
    by_cases same : other = task
    · subst same
      rw [State.frames_write_self frameEq, Option.some.injEq] at otherEq
      rw [← otherEq]
      exact parked
    · rw [State.frames_write_of_ne same] at otherEq
      exact chain.others other otherNotMem otherFrame otherEq

theorem destroyOther (chain : Chain s coro parents)
    (notMem : task ∉ coro :: parents.map Prod.fst)
    (isSome : (s.frames task).isSome) : Chain (s.destroy task) coro parents := by
  have others : ∀ other ∈ coro :: parents.map Prod.fst,
      (s.destroy task).frames other = s.frames other := by
    intro other mem
    apply Function.update_of_ne
    rintro rfl
    exact notMem mem
  refine ⟨chain.nests.congr ?_ ?_, chain.nodup, ?_, chain.ledger.destroy isSome⟩
  · intro other mem
    rw [others other mem]
  · intro other mem
    rw [others other (List.mem_cons_of_mem _ mem)]
  · intro other otherNotMem otherFrame otherEq
    by_cases same : other = task
    · subst same
      rw [State.frames_destroy, Function.update_self] at otherEq
      contradiction
    · rw [State.frames_destroy, Function.update_of_ne same] at otherEq
      exact chain.others other otherNotMem otherFrame otherEq

theorem alloc (chain : Chain s coro parents) (callee : Local) :
    Chain { s with
      frames := Function.update s.frames s.fresh (some (Frame.new callee))
      fresh := s.fresh + 1 } coro parents := by
  have others : ∀ other ∈ coro :: parents.map Prod.fst, other ≠ s.fresh := by
    intro other mem
    exact Nat.ne_of_lt (chain.ledger.below other (chain.nests.isSome mem))
  refine ⟨chain.nests.congr ?_ ?_, chain.nodup, ?_, chain.ledger.alloc _⟩
  · intro other mem
    dsimp only
    rw [Function.update_of_ne (others other mem)]
  · intro other mem
    dsimp only
    rw [Function.update_of_ne (others other (List.mem_cons_of_mem _ mem))]
  · intro other notMem otherFrame otherEq
    dsimp only at otherEq
    by_cases same : other = s.fresh
    · subst same
      rw [Function.update_self, Option.some.injEq] at otherEq
      rw [← otherEq]
      exact ⟨rfl, .inl ⟨callee, rfl⟩⟩
    · rw [Function.update_of_ne same] at otherEq
      exact chain.others other notMem otherFrame otherEq

/-- A coroutine that awaits a task is its parent. -/
theorem push (chain : Chain s coro parents)
    (pointEq : (s.frames coro).map Frame.point =
      some (.awaiting task awaiter next))
    (notMem : task ∉ coro :: parents.map Prod.fst)
    (frameEq : s.frames task = some frame)
    (link : (change frame).link = (some coro, false)) :
    Chain (s.write task change) task ((coro, awaiter, next) :: parents) := by
  have others : ∀ other ∈ coro :: parents.map Prod.fst,
      (s.write task change).frames other = s.frames other := by
    intro other mem
    apply State.frames_write_of_ne
    rintro rfl
    exact notMem mem
  refine ⟨⟨?_, ?_, chain.nests.congr ?_ ?_⟩,
    List.nodup_cons.mpr ⟨notMem, chain.nodup⟩, ?_, chain.ledger.write⟩
  · rw [State.frames_write_self frameEq, Option.map_some, link]
  · rw [others coro (by simp), pointEq]
  · intro other mem
    rw [others other mem]
  · intro other mem
    rw [others other (List.mem_cons_of_mem _ mem)]
  · intro other otherNotMem otherFrame otherEq
    obtain ⟨ne, otherNotMem⟩ := not_or.mp (mt List.mem_cons.mpr otherNotMem)
    rw [State.frames_write_of_ne ne] at otherEq
    exact chain.others other otherNotMem otherFrame otherEq

/-- A coroutine that ends leaves its parent in the middle. -/
theorem pop (chain : Chain s coro ((parent, awaiter, next) :: parents))
    (frameEq : s.frames coro = some frame) (parked : (change frame).Parked) :
    Chain (s.write coro change) parent parents := by
  obtain ⟨notMem, nodup⟩ := List.nodup_cons.mp chain.nodup
  have others : ∀ other ∈ parent :: parents.map Prod.fst,
      (s.write coro change).frames other = s.frames other := by
    intro other mem
    apply State.frames_write_of_ne
    rintro rfl
    exact notMem mem
  refine ⟨chain.nests.2.2.congr ?_ ?_, nodup, ?_, chain.ledger.write⟩
  · intro other mem
    rw [others other mem]
  · intro other mem
    rw [others other (List.mem_cons_of_mem _ mem)]
  · intro other otherNotMem otherFrame otherEq
    by_cases same : other = coro
    · subst same
      rw [State.frames_write_self frameEq, Option.some.injEq] at otherEq
      rw [← otherEq]
      exact parked
    · rw [State.frames_write_of_ne same] at otherEq
      refine chain.others other ?_ otherFrame otherEq
      intro mem
      rcases List.mem_cons.mp mem with isCoro | mem
      · exact same isCoro
      · exact otherNotMem mem

end Chain

end CoContext.TaskAwait
