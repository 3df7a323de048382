import CoContext.WhenAll
import Mathlib.Data.List.Basic

/-!
# The offsets of the results

The offset of a task that is not void is the number of such tasks before it.
The offsets therefore number these tasks in order, and the type at an offset
is the value type of its task.
-/

namespace CoContext.WhenAll.Tasks

/-- The place of an element among those that are kept. -/
theorem getElem?_filter_countPBefore {Element : Type*}
    {keeps : Element → Bool} {list : List Element} {idx : Nat}
    (lt : idx < list.length) (kept : keeps list[idx]) :
    (list.filter keeps)[list.countPBefore keeps idx]? = some list[idx] := by
  have split : list.filter keeps = (list.take idx).filter keeps ++
      list[idx] :: (list.drop (idx + 1)).filter keeps := by
    rw [← List.filter_cons_of_pos kept, ← List.filter_append,
      ← List.drop_eq_getElem_cons lt, List.take_append_drop]
  rw [List.countPBefore_eq_countP_take, List.countP_eq_length_filter, split,
    List.getElem?_append_right (Nat.le_refl _), Nat.sub_self,
    List.getElem?_cons_zero]

variable {Ty : Type*}

theorem length_eq_countP (types : List (Option Ty)) :
    types.length = types.countP Option.isSome +
      types.countP fun other => decide (none = other) := by
  rw [List.length_eq_countP_add_countP Option.isSome]
  congr 2
  funext type
  cases type <;> simp

/-- The children whose tasks are not void, in order. -/
def valueChildren (tasks : Tasks Ty) : List tasks.Child :=
  (List.finRange tasks.types.length).filter fun child =>
    (tasks.type child).isSome

theorem types_eq_map (tasks : Tasks Ty) :
    (List.finRange tasks.types.length).map tasks.type = tasks.types :=
  List.map_get_finRange tasks.types

/-- As many value types come before a position among the types as among the
children. -/
theorem countPBefore_types (tasks : Tasks Ty) (idx : Nat) :
    tasks.types.countPBefore Option.isSome idx =
      (List.finRange tasks.types.length).countPBefore
        (fun child => (tasks.type child).isSome) idx := by
  rw [List.countPBefore_eq_countP_take, List.countPBefore_eq_countP_take]
  conv_lhs => rw [← tasks.types_eq_map, ← List.map_take, List.countP_map]
  rfl

variable [DecidableEq Ty]

theorem outTypes_eq (tasks : Tasks Ty) :
    tasks.outTypes = tasks.types.filter Option.isSome := by
  rw [outTypes, TypeList.remove_eq]
  congr 1
  funext type
  cases type <;> simp

/-- The number of value types before `idx` is what `bufferOffset` computes at
a value type. -/
theorem bufferOffset_eq (tasks : Tasks Ty) (child : tasks.Child)
    (isValue : (tasks.type child).isSome) :
    tasks.bufferOffset child =
      some (tasks.types.countPBefore Option.isSome child) := by
  have nonempty : tasks.types ≠ [] := List.ne_nil_of_length_pos child.pos
  have idxLt : child.val < tasks.types.length := child.isLt
  have fits := tasks.fits
  have typeEq : tasks.types[child.val] = tasks.type child := rfl
  have prefixFits : (tasks.types.take (child.val + 1)).length < 2 ^ 32 := by
    rw [List.length_take]
    omega
  have split := length_eq_countP (tasks.types.take child)
  rw [List.length_take, Nat.min_eq_left (Nat.le_of_lt idxLt)] at split
  have countEq : TypeList.count (tasks.types.take (child.val + 1)) none =
      (tasks.types.take child).countP fun other => decide (none = other) := by
    rw [TypeList.count_eq prefixFits, List.take_succ_eq_append_getElem idxLt,
      List.countP_append, typeEq]
    cases kind : tasks.type child with
    | none => simp [kind] at isValue
    | some type => simp
  rw [bufferOffset, TypeList.firstN_eq_take nonempty idxLt, Option.map_some,
    countEq, List.countPBefore_eq_countP_take]
  congr 1
  omega

theorem outTypes_eq_map (tasks : Tasks Ty) :
    tasks.outTypes = tasks.valueChildren.map tasks.type := by
  rw [outTypes_eq, valueChildren]
  conv_lhs => rw [← tasks.types_eq_map, List.filter_map]
  rfl

theorem length_outTypes (tasks : Tasks Ty) :
    tasks.outTypes.length = tasks.valueChildren.length := by
  rw [outTypes_eq_map, List.length_map]

/-- The child at the offset of a value type is the child itself. -/
theorem getElem?_valueChildren (tasks : Tasks Ty) {child : tasks.Child}
    {offset : Nat} (isValue : (tasks.type child).isSome)
    (offsetEq : tasks.bufferOffset child = some offset) :
    tasks.valueChildren[offset]? = some child := by
  rw [tasks.bufferOffset_eq child isValue, tasks.countPBefore_types child,
    Option.some.injEq] at offsetEq
  have idxLt : child.val < (List.finRange tasks.types.length).length := by
    rw [List.length_finRange]
    exact child.isLt
  have childEq : (List.finRange tasks.types.length)[child.val] = child :=
    List.getElem_finRange idxLt
  rw [← offsetEq, valueChildren,
    getElem?_filter_countPBefore idxLt (by rw [childEq]; exact isValue),
    childEq]

/-- Every offset belongs to a value type. -/
theorem exists_bufferOffset (tasks : Tasks Ty) {offset : Nat}
    (below : offset < tasks.outTypes.length) :
    ∃ child : tasks.Child, (tasks.type child).isSome ∧
      tasks.bufferOffset child = some offset := by
  have countLt : offset < tasks.types.countP Option.isSome := by
    rwa [outTypes_eq, ← List.countP_eq_length_filter] at below
  have idxLt := List.findIdxNth_lt_length_iff.mpr countLt
  let child : tasks.Child := ⟨_, idxLt⟩
  have isValue : (tasks.type child).isSome := List.pos_findIdxNth_getElem
  refine ⟨child, isValue, ?_⟩
  rw [tasks.bufferOffset_eq child isValue,
    List.countPBefore_findIdxNth_of_lt_countP countLt]

/-- `buffer_offset_v` is an increasing bijection from the positions of the
value types onto the positions of the buffer, and keeps the type. -/
structure OffsetsMatch (tasks : Tasks Ty) : Prop where
  /-- The offset of a value type holds its type. -/
  typed : ∀ child : tasks.Child, (tasks.type child).isSome →
    ∃ offset, tasks.bufferOffset child = some offset ∧
      tasks.outTypes[offset]? = some (tasks.type child)
  increasing : ∀ first second : tasks.Child, ∀ firstOffset secondOffset,
    (tasks.type first).isSome → (tasks.type second).isSome →
    tasks.bufferOffset first = some firstOffset →
    tasks.bufferOffset second = some secondOffset →
      (first < second ↔ firstOffset < secondOffset)
  onto : ∀ offset < tasks.outTypes.length, ∃ child : tasks.Child,
    (tasks.type child).isSome ∧ tasks.bufferOffset child = some offset

/-- A value type is counted before every later position. -/
theorem bufferOffset_lt (tasks : Tasks Ty) {first second : tasks.Child}
    {firstOffset secondOffset : Nat} (isValue : (tasks.type first).isSome)
    (isSecondValue : (tasks.type second).isSome)
    (firstEq : tasks.bufferOffset first = some firstOffset)
    (secondEq : tasks.bufferOffset second = some secondOffset)
    (before : first < second) : firstOffset < secondOffset := by
  rw [tasks.bufferOffset_eq first isValue, Option.some.injEq,
    List.countPBefore_eq_countP_take] at firstEq
  rw [tasks.bufferOffset_eq second isSecondValue, Option.some.injEq,
    List.countPBefore_eq_countP_take] at secondEq
  have idxLt : first.val < tasks.types.length := first.isLt
  have counted : (tasks.types.take (first.val + 1)).countP Option.isSome =
      (tasks.types.take first).countP Option.isSome + 1 := by
    have kept : tasks.types[first.val].isSome := isValue
    rw [List.take_succ_eq_append_getElem idxLt, List.countP_append,
      List.countP_singleton, if_pos kept]
  have mono : (tasks.types.take (first.val + 1)).countP Option.isSome ≤
      (tasks.types.take second).countP Option.isSome :=
    (List.take_sublist_take_left before).countP_le
  omega

theorem offsetsMatch (tasks : Tasks Ty) : tasks.OffsetsMatch where
  typed child isValue := by
    refine ⟨_, tasks.bufferOffset_eq child isValue, ?_⟩
    rw [outTypes_eq]
    exact getElem?_filter_countPBefore child.isLt isValue
  increasing first second firstOffset secondOffset isValue isSecondValue
      firstEq secondEq := by
    constructor
    · exact tasks.bufferOffset_lt isValue isSecondValue firstEq secondEq
    · intro less
      rcases lt_trichotomy first second with before | same | after
      · exact before
      · rw [same, secondEq, Option.some.injEq] at firstEq
        omega
      · have greater := tasks.bufferOffset_lt isSecondValue isValue secondEq
          firstEq after
        omega
  onto offset below := tasks.exists_bufferOffset below

end CoContext.WhenAll.Tasks
