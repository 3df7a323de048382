import Mathlib.Data.List.Basic

/-!
# Maximal runs of a list

The elements that satisfy a predicate cut a list.  A run is an interval of
positions, from the first to before the last, without such an element.  This
file computes the maximal runs from left to right, and shows that the elements
that are not cut are those of the maximal runs, two of them in one run exactly
if nothing between them cuts the list.
-/

namespace CoContext

variable {Element : Type*}

/-- The list is cut at a position. -/
def CutAt (cuts : Element → Bool) (list : List Element) (idx : Nat) : Prop :=
  ∃ element, list[idx]? = some element ∧ cuts element = true

structure IsRun (cuts : Element → Bool) (list : List Element)
    (run : Nat × Nat) : Prop where
  nonempty : run.1 < run.2
  bounded : run.2 ≤ list.length
  avoids : ∀ idx, run.1 ≤ idx → idx < run.2 → ¬ CutAt cuts list idx

/-- A run that no other one includes. -/
def IsMaximalRun (cuts : Element → Bool) (list : List Element)
    (run : Nat × Nat) : Prop :=
  IsRun cuts list run ∧ ∀ other, IsRun cuts list other →
    other.1 ≤ run.1 → run.2 ≤ other.2 → other = run

/-- The elements of an interval. -/
def slice (list : List Element) (run : Nat × Nat) : List Element :=
  (list.take run.2).drop run.1

/-- The intervals between the cuts, where the rest of the list begins at
`pos`, and the last interval so far began at `first`. -/
def pieces (cuts : Element → Bool) (first pos : Nat) :
    List Element → List (Nat × Nat)
  | [] => [(first, pos)]
  | head :: rest =>
      if cuts head then (first, pos) :: pieces cuts (pos + 1) (pos + 1) rest
      else pieces cuts first (pos + 1) rest

/-- The pieces that are not empty. -/
def maximalRuns (cuts : Element → Bool) (list : List Element) :
    List (Nat × Nat) :=
  (pieces cuts 0 0 list).filter fun run => run.1 < run.2

/-- The segments of a list are its maximal runs, one after the other. -/
structure SplitsInto (cuts : Element → Bool) (list : List Element)
    (runs : List (Nat × Nat)) (segments : List (List Element)) : Prop where
  segments_eq : segments = runs.map (slice list)
  mem_runs : ∀ run, run ∈ runs ↔ IsMaximalRun cuts list run
  ordered : runs.Pairwise fun run later => run.2 < later.1
  avoids : ∀ segment ∈ segments,
    segment ≠ [] ∧ ∀ element ∈ segment, cuts element = false
  flatten_eq : segments.flatten = list.filter fun element => !cuts element
  together : ∀ idx later, idx < later → later < list.length →
    ¬ CutAt cuts list idx → ¬ CutAt cuts list later →
      ((∃ run ∈ runs, run.1 ≤ idx ∧ later < run.2) ↔
        ∀ between, idx < between → between < later →
          ¬ CutAt cuts list between)

variable {cuts : Element → Bool} {list rest : List Element}
variable {head : Element} {first pos idx : Nat} {run : Nat × Nat}

/-- A run is maximal if it is cut on both sides. -/
theorem isMaximalRun_iff : IsMaximalRun cuts list run ↔
    IsRun cuts list run ∧ (run.1 = 0 ∨ CutAt cuts list (run.1 - 1)) ∧
      (run.2 = list.length ∨ CutAt cuts list run.2) := by
  constructor
  · rintro ⟨isRun, maximal⟩
    refine ⟨isRun, ?_, ?_⟩
    · by_contra isOpen
      obtain ⟨positive, notCut⟩ := not_or.mp isOpen
      have longer : IsRun cuts list (run.1 - 1, run.2) := by
        refine ⟨?_, isRun.bounded, ?_⟩
        · have := isRun.nonempty
          dsimp only
          omega
        · intro idx idxLe idxLt
          by_cases isEnd : idx = run.1 - 1
          · rw [isEnd]
            exact notCut
          · exact isRun.avoids idx (by dsimp only at idxLe; omega) idxLt
      have same := congrArg Prod.fst
        (maximal _ longer (Nat.sub_le _ _) (Nat.le_refl _))
      dsimp only at same
      omega
    · by_contra isOpen
      obtain ⟨notEnd, notCut⟩ := not_or.mp isOpen
      have bounded := isRun.bounded
      have longer : IsRun cuts list (run.1, run.2 + 1) := by
        refine ⟨?_, ?_, ?_⟩
        · exact Nat.lt_succ_of_lt isRun.nonempty
        · dsimp only
          omega
        · intro idx idxLe idxLt
          by_cases isEnd : idx = run.2
          · rw [isEnd]
            exact notCut
          · exact isRun.avoids idx idxLe (by dsimp only at idxLt; omega)
      have same := congrArg Prod.snd
        (maximal _ longer (Nat.le_refl _) (Nat.le_succ _))
      dsimp only at same
      omega
  · rintro ⟨isRun, before, after⟩
    refine ⟨isRun, ?_⟩
    intro other isOther firstLe lastLe
    have nonempty := isRun.nonempty
    have bounded := isOther.bounded
    have firstEq : other.1 = run.1 := by
      rcases before with isZero | isCut
      · omega
      · by_contra isOtherFirst
        exact isOther.avoids (run.1 - 1) (by omega) (by omega) isCut
    have lastEq : other.2 = run.2 := by
      rcases after with isEnd | isCut
      · omega
      · by_contra isOtherLast
        exact isOther.avoids run.2 (by omega) (by omega) isCut
    exact Prod.ext firstEq lastEq

/-- A run that is not maximal can be made longer. -/
theorem IsRun.exists_maximal (isRun : IsRun cuts list run) :
    ∃ longer, IsMaximalRun cuts list longer ∧
      longer.1 ≤ run.1 ∧ run.2 ≤ longer.2 := by
  -- on the number of positions that are not in the run
  induction outside : list.length - (run.2 - run.1) using
    Nat.strongRecOn generalizing run with
  | ind outside ih =>
      by_cases maximal : IsMaximalRun cuts list run
      · exact ⟨run, maximal, Nat.le_refl _, Nat.le_refl _⟩
      · obtain ⟨other, isOther, firstLe, lastLe, different⟩ :
            ∃ other, IsRun cuts list other ∧ other.1 ≤ run.1 ∧
              run.2 ≤ other.2 ∧ other ≠ run := by
          by_contra noOther
          push Not at noOther
          exact maximal ⟨isRun, noOther⟩
        have bounded := isOther.bounded
        have nonempty := isRun.nonempty
        have isLonger : other.1 < run.1 ∨ run.2 < other.2 := by
          by_contra same
          exact different (Prod.ext (by omega) (by omega))
        obtain ⟨longer, maximalLonger, longerFirst, longerLast⟩ :=
          ih _ (by omega) isOther rfl
        exact ⟨longer, maximalLonger, by omega, by omega⟩

section Pieces

/-- An interval between two cuts, or between a cut and an end of the list. -/
structure IsPiece (cuts : Element → Bool) (list : List Element)
    (run : Nat × Nat) : Prop where
  ordered : run.1 ≤ run.2
  bounded : run.2 ≤ list.length
  avoids : ∀ idx, run.1 ≤ idx → idx < run.2 → ¬ CutAt cuts list idx
  before : run.1 = 0 ∨ CutAt cuts list (run.1 - 1)
  after : run.2 = list.length ∨ CutAt cuts list run.2

theorem isMaximalRun_iff_isPiece :
    IsMaximalRun cuts list run ↔ IsPiece cuts list run ∧ run.1 < run.2 := by
  rw [isMaximalRun_iff]
  constructor
  · rintro ⟨⟨nonempty, bounded, avoids⟩, before, after⟩
    exact ⟨⟨Nat.le_of_lt nonempty, bounded, avoids, before, after⟩, nonempty⟩
  · rintro ⟨⟨-, bounded, avoids, before, after⟩, nonempty⟩
    exact ⟨⟨nonempty, bounded, avoids⟩, before, after⟩

theorem getElem?_of_drop_eq (restEq : list.drop pos = head :: rest) :
    list[pos]? = some head := by
  rw [← List.head?_drop, restEq, List.head?_cons]

theorem drop_succ_of_drop_eq (restEq : list.drop pos = head :: rest) :
    list.drop (pos + 1) = rest := by
  rw [← List.tail_drop, restEq, List.tail_cons]

theorem cutAt_of_drop_eq (restEq : list.drop pos = head :: rest) :
    CutAt cuts list pos ↔ cuts head = true := by
  simp [CutAt, getElem?_of_drop_eq restEq]

/-- The pieces are the intervals between the cuts, if the last one so far is
the beginning of one. -/
theorem mem_pieces (restEq : list.drop pos = rest) (firstLe : first ≤ pos)
    (posLe : pos ≤ list.length)
    (avoids : ∀ idx, first ≤ idx → idx < pos → ¬ CutAt cuts list idx)
    (before : first = 0 ∨ CutAt cuts list (first - 1)) :
    run ∈ pieces cuts first pos rest ↔
      first ≤ run.1 ∧ IsPiece cuts list run := by
  induction rest generalizing first pos with
  | nil =>
      have lengthLe : list.length ≤ pos := List.drop_eq_nil_iff.mp restEq
      rw [pieces, List.mem_singleton]
      constructor
      · rintro rfl
        exact ⟨Nat.le_refl _, firstLe, posLe, avoids, before,
          .inl (by dsimp only; omega)⟩
      · rintro ⟨runLe, piece⟩
        have ordered := piece.ordered
        have bounded := piece.bounded
        have firstEq : run.1 = first := by
          rcases piece.before with isZero | isCut
          · omega
          · by_contra isLater
            exact avoids (run.1 - 1) (by omega) (by omega) isCut
        have lastEq : run.2 = pos := by
          rcases piece.after with isEnd | isCut
          · omega
          · by_contra isEarlier
            exact avoids run.2 (by omega) (by omega) isCut
        exact Prod.ext firstEq lastEq
  | cons head rest ih =>
      have posLt : pos < list.length :=
        (List.getElem?_eq_some_iff.mp (getElem?_of_drop_eq restEq)).1
      have isCutIff : CutAt cuts list pos ↔ cuts head = true :=
        cutAt_of_drop_eq restEq
      cases isCut : cuts head with
      | true =>
          have cutAtPos : CutAt cuts list pos := isCutIff.mpr isCut
          rw [pieces, if_pos isCut, List.mem_cons,
            ih (drop_succ_of_drop_eq restEq) (Nat.le_refl _) posLt
              (fun idx idxGe idxLt => by omega) (.inr cutAtPos)]
          constructor
          · rintro (rfl | ⟨runLe, piece⟩)
            · exact ⟨Nat.le_refl _, firstLe, posLe, avoids, before,
                .inr cutAtPos⟩
            · exact ⟨by omega, piece⟩
          · rintro ⟨runLe, piece⟩
            have ordered := piece.ordered
            by_cases isFirst : run.1 = first
            · left
              have lastEq : run.2 = pos := by
                by_contra isOther
                rcases Nat.lt_or_gt_of_ne isOther with isEarlier | isLater
                · rcases piece.after with isEnd | isCutAfter
                  · omega
                  · exact avoids run.2 (by omega) isEarlier isCutAfter
                · exact piece.avoids pos (by omega) isLater cutAtPos
              exact Prod.ext isFirst lastEq
            · refine .inr ⟨?_, piece⟩
              rcases piece.before with isZero | isCutBefore
              · omega
              · by_contra isEarlier
                exact avoids (run.1 - 1) (by omega) (by omega) isCutBefore
      | false =>
          have notCut : ¬ CutAt cuts list pos := by simp [isCutIff, isCut]
          rw [pieces, if_neg (by simp [isCut])]
          refine ih (drop_succ_of_drop_eq restEq) (by omega) posLt ?_ before
          intro idx idxGe idxLt
          by_cases isPos : idx = pos
          · rw [isPos]
            exact notCut
          · exact avoids idx idxGe (by omega)

theorem first_le_of_mem_pieces (firstLe : first ≤ pos)
    (mem : run ∈ pieces cuts first pos rest) : first ≤ run.1 := by
  induction rest generalizing first pos with
  | nil =>
      obtain rfl := List.mem_singleton.mp mem
      exact Nat.le_refl _
  | cons head rest ih =>
      rw [pieces] at mem
      split at mem
      · rcases List.mem_cons.mp mem with rfl | mem
        · exact Nat.le_refl _
        · have := ih (Nat.le_refl _) mem
          omega
      · exact ih (by omega) mem

theorem pieces_ordered (firstLe : first ≤ pos) :
    (pieces cuts first pos rest).Pairwise
      fun run later => run.2 < later.1 := by
  induction rest generalizing first pos with
  | nil => exact List.pairwise_singleton _ _
  | cons head rest ih =>
      rw [pieces]
      split
      · refine List.pairwise_cons.mpr ⟨?_, ih (Nat.le_refl _)⟩
        intro later mem
        exact first_le_of_mem_pieces (Nat.le_refl _) mem
      · exact ih (by omega)

end Pieces

section Slices

@[simp]
theorem slice_self : slice list (pos, pos) = [] := by
  rw [slice, List.drop_eq_nil_iff]
  exact List.length_take_le pos list

theorem slice_append (firstLe : first ≤ pos)
    (restEq : list.drop pos = head :: rest) :
    slice list (first, pos) ++ [head] = slice list (first, pos + 1) := by
  have posLt : pos < list.length :=
    (List.getElem?_eq_some_iff.mp (getElem?_of_drop_eq restEq)).1
  rw [slice, slice, List.take_add_one, getElem?_of_drop_eq restEq,
    List.drop_append_of_le_length]
  · rfl
  · rw [List.length_take]
    dsimp only
    omega

theorem length_slice (bounded : run.2 ≤ list.length) :
    (slice list run).length = run.2 - run.1 := by
  rw [slice, List.length_drop, List.length_take]
  omega

theorem mem_slice {element : Element} (mem : element ∈ slice list run) :
    ∃ idx, run.1 ≤ idx ∧ idx < run.2 ∧ list[idx]? = some element := by
  obtain ⟨offset, elementEq⟩ := List.getElem?_of_mem mem
  rw [slice, List.getElem?_drop, List.getElem?_take] at elementEq
  split at elementEq
  · rename_i inside
    exact ⟨run.1 + offset, by omega, inside, elementEq⟩
  · contradiction

/-- The pieces hold the elements that do not cut the list. -/
theorem flatten_pieces (restEq : list.drop pos = rest)
    (firstLe : first ≤ pos) :
    ((pieces cuts first pos rest).map (slice list)).flatten =
      slice list (first, pos) ++ rest.filter fun element => !cuts element := by
  induction rest generalizing first pos with
  | nil => simp [pieces]
  | cons head rest ih =>
      have nextEq := drop_succ_of_drop_eq restEq
      cases isCut : cuts head with
      | true =>
          rw [pieces, if_pos isCut, List.map_cons, List.flatten_cons,
            ih nextEq (Nat.le_refl _)]
          simp [isCut]
      | false =>
          rw [pieces, if_neg (by simp [isCut]), ih nextEq (by omega),
            ← slice_append firstLe restEq]
          simp [isCut]

end Slices

section Splitting

theorem mem_maximalRuns :
    run ∈ maximalRuns cuts list ↔ IsMaximalRun cuts list run := by
  rw [maximalRuns, List.mem_filter, mem_pieces List.drop_zero (Nat.le_refl 0)
    (Nat.zero_le _) (fun idx _ idxLt => absurd idxLt (Nat.not_lt_zero idx))
    (.inl rfl), isMaximalRun_iff_isPiece]
  simp

/-- The slices of the maximal runs are those of the pieces that are not
empty. -/
theorem map_maximalRuns [DecidableEq Element] :
    (maximalRuns cuts list).map (slice list) =
      ((pieces cuts 0 0 list).map (slice list)).filter
        fun segment => segment ≠ [] := by
  rw [maximalRuns, List.filter_map]
  congr 1
  refine List.filter_congr fun run mem => ?_
  have piece := ((mem_pieces List.drop_zero (Nat.le_refl 0) (Nat.zero_le _)
    (fun idx _ idxLt => absurd idxLt (Nat.not_lt_zero idx))
    (.inl rfl)).mp mem).2
  rw [Function.comp_apply, decide_eq_decide, ← List.length_pos_iff,
    length_slice piece.bounded]
  omega

/-- Two positions that are not cut are in one maximal run exactly if the list
is not cut between them. -/
theorem together_iff {later : Nat} (idxLt : idx < later)
    (laterLt : later < list.length) (notCut : ¬ CutAt cuts list idx)
    (notCutLater : ¬ CutAt cuts list later) :
    (∃ run, IsMaximalRun cuts list run ∧ run.1 ≤ idx ∧ later < run.2) ↔
      ∀ between, idx < between → between < later →
        ¬ CutAt cuts list between := by
  constructor
  · rintro ⟨run, ⟨isRun, -⟩, firstLe, ltLast⟩ between ltBetween betweenLt
    exact isRun.avoids between (by omega) (by omega)
  · intro notCutBetween
    have isRun : IsRun cuts list (idx, later + 1) := by
      refine ⟨Nat.lt_succ_of_lt idxLt, laterLt, ?_⟩
      intro position positionGe positionLt
      dsimp only at positionGe positionLt
      by_cases isFirst : position = idx
      · rw [isFirst]
        exact notCut
      by_cases isLast : position = later
      · rw [isLast]
        exact notCutLater
      · exact notCutBetween position (by omega) (by omega)
    obtain ⟨longer, maximal, firstLe, lastLe⟩ := isRun.exists_maximal
    exact ⟨longer, maximal, firstLe, lastLe⟩

theorem splitsInto_maximalRuns [DecidableEq Element] :
    SplitsInto cuts list (maximalRuns cuts list)
      ((maximalRuns cuts list).map (slice list)) where
  segments_eq := rfl
  mem_runs _ := mem_maximalRuns
  ordered := (pieces_ordered (Nat.le_refl 0)).filter _
  avoids := by
    intro segment mem
    obtain ⟨run, runMem, rfl⟩ := List.mem_map.mp mem
    obtain ⟨isRun, -⟩ := mem_maximalRuns.mp runMem
    refine ⟨?_, ?_⟩
    · rw [← List.length_pos_iff, length_slice isRun.bounded]
      have := isRun.nonempty
      omega
    · intro element elementMem
      obtain ⟨idx, idxGe, idxLt, elementEq⟩ := mem_slice elementMem
      rw [← Bool.not_eq_true]
      intro isCut
      exact isRun.avoids idx idxGe idxLt ⟨element, elementEq, isCut⟩
  flatten_eq := by
    rw [map_maximalRuns, List.flatten_filter_ne_nil,
      flatten_pieces List.drop_zero (Nat.le_refl 0)]
    simp
  together _ _ idxLt laterLt notCut notCutLater := by
    simp only [mem_maximalRuns]
    exact together_iff idxLt laterLt notCut notCutLater

end Splitting

end CoContext
