import Mathlib.Algebra.Group.Nat.Defs
import Mathlib.Data.List.Basic

/-!
# Type lists

The templates of `mpl/type_list.hpp` over the lists of an arbitrary set of
types.  A template that is not defined for its arguments is `none`; the value
of `count` is an `unsigned`.
-/

namespace CoContext.TypeList

variable {Ty : Type*}

/-- `filter`, which appends the elements it keeps to `out`. -/
def filter (keeps : Ty → Bool) : List Ty → List Ty → List Ty
  | [], out => out
  | head :: rest, out =>
      if keeps head then filter keeps rest (out ++ [head])
      else filter keeps rest out

/-- `concat`, which is not defined for no list at all. -/
def concat : List (List Ty) → Option (List Ty)
  | [] => none
  | first :: rest => some (rest.foldl (· ++ ·) first)

/-- `first_n`, with its constraint on the number. -/
def firstN (list : List Ty) (n : Nat) : Option (List Ty) :=
  if n ≤ list.length then
    concat (list.mapIdx fun idx type => if idx < n then [type] else [])
  else
    none

section Equality

variable [DecidableEq Ty]

/-- `remove`, the elements that are not the same as `type`. -/
def remove (list : List Ty) (type : Ty) : List Ty :=
  filter (fun other => decide (type ≠ other)) list []

/-- `count`, a fold of unsigned additions. -/
def count (list : List Ty) (type : Ty) : Nat :=
  list.foldl
    (fun sum other => (sum + if type = other then 1 else 0) % 2 ^ 32) 0

end Equality

theorem filter_eq (keeps : Ty → Bool) (list out : List Ty) :
    filter keeps list out = out ++ list.filter keeps := by
  induction list generalizing out with
  | nil => simp [filter]
  | cons head rest ih =>
      cases kept : keeps head with
      | false => simp [filter, kept, ih]
      | true => simp [filter, kept, ih]

/-- The specialization of `concat` for two lists and more joins the first two
of them. -/
theorem concat_rest (first second : List Ty) (rest : List (List Ty)) :
    concat (first :: second :: rest) = concat ((first ++ second) :: rest) :=
  rfl

theorem concat_cons (first : List Ty) (rest : List (List Ty)) :
    concat (first :: rest) = some (first ++ rest.flatten) := by
  induction rest generalizing first with
  | nil => simp [concat]
  | cons second rest ih =>
      rw [concat_rest, ih, List.flatten_cons, List.append_assoc]

theorem concat_eq {lists : List (List Ty)} (nonempty : lists ≠ []) :
    concat lists = some lists.flatten := by
  cases lists with
  | nil => exact (nonempty rfl).elim
  | cons first rest => rw [concat_cons, List.flatten_cons]

theorem flatten_mapIdx_eq_take (list : List Ty) (n : Nat) :
    (list.mapIdx fun idx type =>
      if idx < n then [type] else []).flatten = list.take n := by
  induction list generalizing n with
  | nil => simp
  | cons head rest ih =>
      cases n with
      | zero => simp [List.mapIdx_cons]
      | succ n => simp [List.mapIdx_cons, ih n]

/-- The first types of a list that is not empty. -/
theorem firstN_eq_take {list : List Ty} (nonempty : list ≠ []) {n : Nat}
    (le : n ≤ list.length) : firstN list n = some (list.take n) := by
  rw [firstN, if_pos le, concat_eq, flatten_mapIdx_eq_take]
  simpa using nonempty

/-- No specialization of `concat` is for no lists, and `first_n` has as many of
them as there are types. -/
theorem firstN_nil (n : Nat) : firstN ([] : List Ty) n = none := by
  rw [firstN]
  split
  · rfl
  · rfl

/-- Where its constraint holds, `first_n` is defined and gives the first types
of the list, unless the list is empty. -/
theorem firstN_total_iff {list : List Ty} {n : Nat} (le : n ≤ list.length) :
    firstN list n = some (list.take n) ↔ list ≠ [] := by
  constructor
  · rintro defined rfl
    rw [firstN_nil] at defined
    contradiction
  · intro nonempty
    exact firstN_eq_take nonempty le

theorem firstN_total_iff_two :
    firstN ["char", "int", "float", "double"] 2 = some ["char", "int"] := by
  have two : 2 ≤ ["char", "int", "float", "double"].length := by decide
  exact (firstN_total_iff two).mpr (by decide)

/-- The constraint allows the empty list and `n = 0`. -/
theorem firstN_total_fails :
    ¬ ∀ (list : List String) (n : Nat), n ≤ list.length →
      firstN list n = some (list.take n) := by
  intro total
  have defined := total [] 0 (Nat.le_refl 0)
  rw [firstN_nil] at defined
  contradiction

variable [DecidableEq Ty]

theorem remove_eq (list : List Ty) (type : Ty) :
    remove list type = list.filter fun other => decide (type ≠ other) := by
  rw [remove, filter_eq, List.nil_append]

/-- The additions of `count` do not wrap on a list of fewer than `2 ^ 32`
types. -/
theorem count_eq {list : List Ty} (fits : list.length < 2 ^ 32) (type : Ty) :
    count list type = list.countP fun other => decide (type = other) := by
  have counts : ∀ (rest : List Ty) (sum : Nat), sum + rest.length < 2 ^ 32 →
      rest.foldl
          (fun sum other => (sum + if type = other then 1 else 0) % 2 ^ 32)
          sum =
        sum + rest.countP fun other => decide (type = other) := by
    intro rest
    induction rest with
    | nil => simp
    | cons head rest ih =>
        intro sum below
        rw [List.length_cons] at below
        rw [List.foldl_cons, List.countP_cons]
        by_cases isType : type = head
        · rw [if_pos isType, Nat.mod_eq_of_lt (by omega), ih _ (by omega)]
          simp [isType]
          omega
        · rw [if_neg isType, Nat.mod_eq_of_lt (by omega), ih _ (by omega)]
          simp [isType]
  rw [count, counts list 0 (by omega), Nat.zero_add]

end CoContext.TypeList
