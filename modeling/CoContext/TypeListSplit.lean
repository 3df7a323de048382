import CoContext.MaximalRuns
import CoContext.TypeList

/-!
# Splitting type lists

`split_if` appends the types of its argument to the head of a list of
segments, where every type that satisfies the predicate puts a new segment.
When it is through, it removes the empty segments and reverses the others.
-/

namespace CoContext.TypeList

variable {Ty : Type*}

/-- `reverse`, which appends the head to the reverse of the others. -/
def reverse : List Ty → List Ty
  | [] => []
  | head :: rest => reverse rest ++ [head]

theorem reverse_eq (list : List Ty) : reverse list = list.reverse := by
  induction list with
  | nil => rfl
  | cons head rest ih => rw [reverse, ih, List.reverse_cons]

variable [DecidableEq Ty]

/-- `split_if`, which is not defined for types with no segment to append them
to. -/
def splitIf (satisfies : Ty → Bool) :
    List Ty → List (List Ty) → Option (List (List Ty))
  | [], out => some (reverse (remove out []))
  | head :: rest, headList :: lists =>
      if satisfies head then splitIf satisfies rest ([] :: headList :: lists)
      else splitIf satisfies rest ((headList ++ [head]) :: lists)
  | _ :: _, [] => none

/-- `split_if_t`, with the default of `out`. -/
def splitIfT (satisfies : Ty → Bool) (list : List Ty) :
    Option (List (List Ty)) :=
  splitIf satisfies list [[]]

/-- `split_t` -/
def splitT (list : List Ty) (delimiter : Ty) : Option (List (List Ty)) :=
  splitIfT (fun type => decide (delimiter = type)) list

theorem reverse_remove_nil (out : List (List Ty)) :
    reverse (remove out []) =
      out.reverse.filter fun segment => segment ≠ [] := by
  rw [reverse_eq, remove_eq, ← List.filter_reverse]
  refine List.filter_congr fun segment _ => ?_
  rw [decide_eq_decide]
  exact ne_comm

/-- The segments that are made while the head segment begins at `first` and
the rest of the list at `pos`. -/
theorem splitIf_eq {satisfies : Ty → Bool} {list rest : List Ty}
    {first pos : Nat} (restEq : list.drop pos = rest) (firstLe : first ≤ pos)
    (lists : List (List Ty)) :
    splitIf satisfies rest (slice list (first, pos) :: lists) =
      some ((lists.reverse ++
        (pieces satisfies first pos rest).map (slice list)).filter
          fun segment => segment ≠ []) := by
  induction rest generalizing first pos lists with
  | nil =>
      rw [splitIf, reverse_remove_nil, List.reverse_cons]
      rfl
  | cons head rest ih =>
      have nextEq := drop_succ_of_drop_eq restEq
      cases isCut : satisfies head with
      | true =>
          have nextSplit := ih nextEq (Nat.le_refl _)
            (slice list (first, pos) :: lists)
          rw [slice_self] at nextSplit
          rw [splitIf, if_pos isCut, nextSplit, pieces, if_pos isCut]
          simp only [List.reverse_cons, List.append_assoc, List.map_cons,
            List.singleton_append]
      | false =>
          have notCut : ¬ satisfies head = true := by simp [isCut]
          rw [splitIf, if_neg notCut, slice_append firstLe restEq,
            ih nextEq (by omega), pieces, if_neg notCut]

theorem splitIfT_eq (satisfies : Ty → Bool) (list : List Ty) :
    splitIfT satisfies list =
      some ((maximalRuns satisfies list).map (slice list)) := by
  have splitEq : splitIf satisfies list [slice list (0, 0)] = _ :=
    splitIf_eq list.drop_zero (Nat.le_refl 0) []
  rw [slice_self] at splitEq
  rw [splitIfT, splitEq, List.reverse_nil, List.nil_append, map_maximalRuns]

/-- The segments of `split_if_t` are the maximal runs of types that do not
satisfy the predicate, in their order. -/
theorem splitIfT_splitsInto (satisfies : Ty → Bool) (list : List Ty) :
    ∃ runs segments, splitIfT satisfies list = some segments ∧
      SplitsInto satisfies list runs segments :=
  ⟨maximalRuns satisfies list, _, splitIfT_eq satisfies list,
    splitsInto_maximalRuns⟩

example : splitT ["char", "float", "int", "float", "float"] "float" =
    some [["char"], ["int"]] := by
  decide

end CoContext.TypeList
