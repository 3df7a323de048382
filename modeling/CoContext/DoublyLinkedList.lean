import Mathlib.Data.List.Nodup
import Mathlib.Logic.Function.Basic

/-!
# Intrusive doubly linked lists

Every node has a pointer to the next node and one to the previous node.  The
first node of a list, and every node that is in no list, may hold a null
pointer to the previous one; a list of this kind tells its first node from the
others by this pointer.
-/

namespace CoContext

variable {Node : Type*} {next prev : Node → Option Node}

/-- Following `next` from `head` visits exactly `nodes`, and `prev` leads back,
from the first node to `before`. -/
def DoublyChain (next prev : Node → Option Node) :
    Option Node → Option Node → List Node → Prop
  | _, head, [] => head = none
  | before, head, node :: nodes =>
      head = some node ∧ prev node = before ∧
        DoublyChain next prev (some node) (next node) nodes

section Writes

variable [DecidableEq Node]

/-- Write `pointer` into the field of a node, unless there is no node. -/
def setAt (field : Node → Option Node) (target pointer : Option Node) :
    Node → Option Node :=
  match target with
  | some node => Function.update field node pointer
  | none => field

theorem setAt_of_ne {node : Node} {field : Node → Option Node}
    {target pointer : Option Node} (isOther : target ≠ some node) :
    setAt field target pointer node = field node := by
  cases target with
  | none => rfl
  | some other =>
      apply Function.update_of_ne
      rintro rfl
      exact isOther rfl

end Writes

namespace DoublyChain

variable {before head : Option Node} {node : Node} {nodes : List Node}

@[simp]
theorem nil_iff : DoublyChain next prev before head [] ↔ head = none :=
  Iff.rfl

@[simp]
theorem cons_iff : DoublyChain next prev before head (node :: nodes) ↔
    head = some node ∧ prev node = before ∧
      DoublyChain next prev (some node) (next node) nodes :=
  Iff.rfl

theorem exists_cons
    (chain : DoublyChain next prev before (some node) nodes) :
    ∃ rest, nodes = node :: rest := by
  cases nodes with
  | nil => simp at chain
  | cons first rest =>
      obtain ⟨headEq, _⟩ := chain
      obtain rfl := Option.some.inj headEq
      exact ⟨rest, rfl⟩

theorem head_mem (chain : DoublyChain next prev before (some node) nodes) :
    node ∈ nodes := by
  obtain ⟨rest, rfl⟩ := chain.exists_cons
  exact List.mem_cons_self

theorem eq_nil (chain : DoublyChain next prev before none nodes) :
    nodes = [] := by
  cases nodes with
  | nil => rfl
  | cons first rest => cases chain.1

/-- Pointers of other nodes do not matter. -/
theorem congr {next' prev' : Node → Option Node}
    (chain : DoublyChain next prev before head nodes)
    (nextEq : ∀ other ∈ nodes, next' other = next other)
    (prevEq : ∀ other ∈ nodes, prev' other = prev other) :
    DoublyChain next' prev' before head nodes := by
  induction nodes generalizing before head with
  | nil => exact chain
  | cons first rest ih =>
      obtain ⟨headEq, beforeEq, restChain⟩ := chain
      refine ⟨headEq, ?_, ?_⟩
      · rw [prevEq first List.mem_cons_self, beforeEq]
      · rw [nextEq first List.mem_cons_self]
        apply ih restChain
        · exact fun other isMember => nextEq other (List.mem_cons_of_mem _ isMember)
        · exact fun other isMember => prevEq other (List.mem_cons_of_mem _ isMember)

theorem prev_ne_none {first : Node}
    (chain : DoublyChain next prev (some first) head nodes)
    (isMember : node ∈ nodes) : prev node ≠ none := by
  induction nodes generalizing first head with
  | nil => cases isMember
  | cons other rest ih =>
      obtain ⟨_, beforeEq, restChain⟩ := chain
      rcases List.mem_cons.mp isMember with rfl | inRest
      · simp [beforeEq]
      · exact ih restChain inRest

/-- What follows a node of the list. -/
theorem tail {front rest : List Node}
    (chain : DoublyChain next prev before head (front ++ node :: rest)) :
    DoublyChain next prev (some node) (next node) rest := by
  induction front generalizing before head with
  | nil => exact chain.2.2
  | cons first front ih => exact ih chain.2.2

/-- Only the first node has no previous one. -/
theorem prev_eq_none_iff (chain : DoublyChain next prev none head nodes)
    (nodup : nodes.Nodup) (isMember : node ∈ nodes) :
    prev node = none ↔ head = some node := by
  cases nodes with
  | nil => cases isMember
  | cons first rest =>
      obtain ⟨rfl, isFirst, restChain⟩ := chain
      constructor
      · intro isNone
        rcases List.mem_cons.mp isMember with rfl | inRest
        · rfl
        · exact absurd isNone (restChain.prev_ne_none inRest)
      · intro isHead
        obtain rfl := Option.some.inj isHead
        exact isFirst

section Writes

variable [DecidableEq Node]

/-- Replacing what the first node holds as its previous node. -/
theorem setBefore {after : Option Node}
    (chain : DoublyChain next prev before head nodes) (nodup : nodes.Nodup) :
    DoublyChain next (setAt prev head after) after head nodes := by
  cases nodes with
  | nil => exact chain
  | cons first rest =>
      obtain ⟨rfl, _, restChain⟩ := chain
      refine ⟨rfl, Function.update_self .., ?_⟩
      apply restChain.congr (fun _ _ => rfl)
      intro other isMember
      apply Function.update_of_ne
      rintro rfl
      exact (List.nodup_cons.mp nodup).1 isMember

/-- A node without a previous one is linked in front of the list. -/
theorem push (chain : DoublyChain next prev none head nodes)
    (nodup : nodes.Nodup) (fresh : node ∉ nodes)
    (noPrev : prev node = none) :
    DoublyChain (Function.update next node head)
      (setAt prev head (some node)) none (some node) (node :: nodes) := by
  refine ⟨rfl, ?_, ?_⟩
  · rw [setAt_of_ne, noPrev]
    rintro rfl
    exact fresh chain.head_mem
  · rw [Function.update_self]
    apply (chain.setBefore nodup).congr
    · intro other isMember
      apply Function.update_of_ne
      rintro rfl
      exact fresh isMember
    · exact fun _ _ => rfl

/-- The first node leaves the list. -/
theorem pop (chain : DoublyChain next prev none (some node) (node :: nodes))
    (nodup : (node :: nodes).Nodup) :
    DoublyChain next (setAt prev (next node) none) none (next node) nodes :=
  chain.2.2.setBefore (List.nodup_cons.mp nodup).2

/-- A node that has a previous one leaves the list. -/
theorem remove {front rest : List Node} {last : Node}
    (chain : DoublyChain next prev before head
      (front ++ last :: node :: rest))
    (nodup : (front ++ last :: node :: rest).Nodup) :
    prev node = some last ∧
      DoublyChain (Function.update next last (next node))
        (setAt prev (next node) (some last)) before head
        (front ++ last :: rest) := by
  induction front generalizing before head with
  | nil =>
      obtain ⟨headEq, beforeEq, nodeEq, lastEq, restChain⟩ := chain
      simp only [List.nil_append, List.nodup_cons, List.mem_cons,
        not_or] at nodup
      refine ⟨lastEq, headEq, ?_, ?_⟩
      · rw [setAt_of_ne, beforeEq]
        intro nextEq
        rw [nextEq] at restChain
        exact nodup.1.2 restChain.head_mem
      · rw [Function.update_self]
        apply (restChain.setBefore nodup.2.2).congr
        · intro other isMember
          apply Function.update_of_ne
          rintro rfl
          exact nodup.1.2 isMember
        · exact fun _ _ => rfl
  | cons first front ih =>
      obtain ⟨headEq, beforeEq, restChain⟩ := chain
      have distinct := List.nodup_cons.mp nodup
      obtain ⟨prevEq, removed⟩ := ih restChain distinct.2
      have notLast : first ≠ last := by
        rintro rfl
        exact distinct.1 (by simp)
      refine ⟨prevEq, headEq, ?_, ?_⟩
      · rw [setAt_of_ne, beforeEq]
        intro nextEq
        have behind : first ∈ rest := by
          have split : front.append (last :: node :: rest) =
              (front ++ [last]) ++ node :: rest :=
            (List.append_assoc front [last] (node :: rest)).symm
          rw [split] at restChain
          have tailChain := restChain.tail
          rw [nextEq] at tailChain
          exact tailChain.head_mem
        exact distinct.1 (by simp [behind])
      · rw [Function.update_of_ne notLast]
        exact removed

end Writes

end DoublyChain

end CoContext
