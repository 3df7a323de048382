import Mathlib.Logic.Function.Basic
import Mathlib.Data.List.Nodup

/-!
# Intrusive singly linked lists

Waiters are linked through a `next` field of their own, so a list is a head
pointer into a heap of `next` fields.  `Chain next head nodes` says that
following the heap from `head` visits exactly `nodes` and ends in a null
pointer.  The lemmas give the frame rule for a write to one field and the
effect of the pushes, appends and reversal steps performed on such lists.
-/

namespace CoContext

variable {Node : Type*} {next : Node → Option Node}

/-- Following `next` from `head` visits exactly `nodes`, in this order, and
then reads a null pointer. -/
def Chain (next : Node → Option Node) : Option Node → List Node → Prop
  | head, [] => head = none
  | head, node :: nodes => head = some node ∧ Chain next (next node) nodes

/-- A node is met by following `next` from `head`. -/
inductive LinkedFrom (next : Node → Option Node) :
    Option Node → Node → Prop
  | here (node : Node) : LinkedFrom next (some node) node
  | there {node target : Node} : LinkedFrom next (next node) target →
      LinkedFrom next (some node) target

namespace Chain

@[simp]
theorem nil_iff {head : Option Node} : Chain next head [] ↔ head = none :=
  Iff.rfl

@[simp]
theorem cons_iff {head : Option Node} {node : Node} {nodes : List Node} :
    Chain next head (node :: nodes) ↔
      head = some node ∧ Chain next (next node) nodes :=
  Iff.rfl

@[simp]
theorem null_iff {nodes : List Node} : Chain next none nodes ↔ nodes = [] := by
  cases nodes <;> simp

theorem exists_cons {node : Node} {nodes : List Node}
    (chain : Chain next (some node) nodes) :
    ∃ rest, nodes = node :: rest ∧ Chain next (next node) rest := by
  cases nodes with
  | nil => simp at chain
  | cons first rest =>
      simp only [cons_iff, Option.some.injEq] at chain
      obtain ⟨rfl, restChain⟩ := chain
      exact ⟨rest, rfl, restChain⟩

/-- The heap determines what following it visits. -/
theorem unique {head : Option Node} {nodes others : List Node}
    (chain : Chain next head nodes) (other : Chain next head others) :
    nodes = others := by
  induction nodes generalizing head others with
  | nil =>
      rw [nil_iff] at chain
      subst chain
      exact (null_iff.mp other).symm
  | cons node rest ih =>
      obtain ⟨rfl, restChain⟩ := chain
      obtain ⟨otherRest, rfl, otherChain⟩ := other.exists_cons
      rw [ih restChain otherChain]

theorem linkedFrom_iff {head : Option Node} {nodes : List Node}
    (chain : Chain next head nodes) {node : Node} :
    LinkedFrom next head node ↔ node ∈ nodes := by
  induction nodes generalizing head with
  | nil =>
      rw [nil_iff] at chain
      subst head
      simp only [List.not_mem_nil, iff_false]
      rintro ⟨⟩
  | cons first rest ih =>
      obtain ⟨rfl, restChain⟩ := chain
      rw [List.mem_cons, ← ih restChain]
      constructor
      · intro linked
        cases linked with
        | here => exact Or.inl rfl
        | there later => exact Or.inr later
      · rintro (rfl | later)
        · exact .here node
        · exact .there later

section Writes

variable [DecidableEq Node]

/-- Writing the field of a node outside the list does not change the list. -/
theorem write_of_notMem {head : Option Node} {nodes : List Node}
    (chain : Chain next head nodes) {node : Node} (fresh : node ∉ nodes)
    (pointer : Option Node) :
    Chain (Function.update next node pointer) head nodes := by
  induction nodes generalizing head with
  | nil => exact chain
  | cons first rest ih =>
      simp only [List.mem_cons, not_or] at fresh
      obtain ⟨headEq, restChain⟩ := chain
      refine ⟨headEq, ?_⟩
      rw [Function.update_of_ne (Ne.symm fresh.1)]
      exact ih restChain fresh.2

/-- Pushing a node links it in front of the list. -/
theorem push {head : Option Node} {nodes : List Node}
    (chain : Chain next head nodes) {node : Node} (fresh : node ∉ nodes) :
    Chain (Function.update next node head) (some node) (node :: nodes) := by
  refine ⟨rfl, ?_⟩
  rw [Function.update_self]
  exact chain.write_of_notMem fresh head

/-- One iteration of an in-place reversal moves the front node of the
remaining list to the front of the reversed list. -/
theorem reverse_step {node : Node} {reversed : Option Node}
    {remaining done : List Node}
    (remainingChain : Chain next (some node) (node :: remaining))
    (doneChain : Chain next reversed done)
    (notRemaining : node ∉ remaining) (notDone : node ∉ done) :
    Chain (Function.update next node reversed) (next node) remaining ∧
      Chain (Function.update next node reversed) (some node) (node :: done) :=
  ⟨remainingChain.2.write_of_notMem notRemaining reversed,
    doneChain.push notDone⟩

/-- Linking a second list behind the last node of the first one. -/
theorem link_last {head second : Option Node} {nodes more : List Node}
    {last : Node} (chain : Chain next head (nodes ++ [last]))
    (moreChain : Chain next second more) (notNodes : last ∉ nodes)
    (notMore : last ∉ more) :
    Chain (Function.update next last second) head
      (nodes ++ last :: more) := by
  induction nodes generalizing head with
  | nil =>
      refine ⟨chain.1, ?_⟩
      rw [Function.update_self]
      exact moreChain.write_of_notMem notMore second
  | cons first rest ih =>
      simp only [List.mem_cons, not_or] at notNodes
      obtain ⟨headEq, restChain⟩ := chain
      refine ⟨headEq, ?_⟩
      rw [Function.update_of_ne (Ne.symm notNodes.1)]
      exact ih restChain notNodes.2

end Writes

/-- The last node of a chain holds a null pointer. -/
theorem next_last {head : Option Node} {nodes : List Node} {last : Node}
    (chain : Chain next head (nodes ++ [last])) : next last = none := by
  induction nodes generalizing head with
  | nil => exact chain.2
  | cons first rest ih => exact ih chain.2

end Chain

end CoContext
