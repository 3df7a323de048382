import CoContext.RepeatUntil
import Mathlib.Data.List.Nodup

/-!
# A heap of linked records

Records with one link field that exist for a limited time.  Reading or writing
the field of a record that does not exist has no result, so a function on such
a heap that has one never touched a dangling pointer.

`Linked heap head nodes` says that the links lead from `head` through exactly
`nodes`, all of which exist, to a null pointer.
-/

namespace CoContext

/-- The link fields of the records that exist. -/
abbrev RecordHeap (Node : Type*) := Node → Option (Option Node)

namespace RecordHeap

variable {Node : Type*}

/-- The links lead from `head` through `nodes` to a null pointer. -/
def Linked (heap : RecordHeap Node) : Option Node → List Node → Prop
  | head, [] => head = none
  | head, node :: nodes =>
      head = some node ∧ ∃ link, heap node = some link ∧ heap.Linked link nodes

section Linked

variable {heap : RecordHeap Node} {head : Option Node} {nodes : List Node}

@[simp]
theorem linked_nil : heap.Linked head [] ↔ head = none :=
  Iff.rfl

theorem Linked.head_eq (linked : heap.Linked head nodes) :
    head = nodes.head? := by
  cases nodes with
  | nil => exact linked
  | cons first rest => exact linked.1

/-- The records of a list exist. -/
theorem Linked.isSome (linked : heap.Linked head nodes) {node : Node}
    (isNode : node ∈ nodes) : (heap node).isSome := by
  induction nodes generalizing head with
  | nil => exact nomatch isNode
  | cons first rest ih =>
      obtain ⟨-, link, fieldEq, restLinked⟩ := linked
      rcases List.mem_cons.mp isNode with rfl | later
      · rw [fieldEq]
        rfl
      · exact ih restLinked later

theorem Linked.notMem (linked : heap.Linked head nodes) {node : Node}
    (absent : heap node = none) : node ∉ nodes := by
  intro isNode
  have present := linked.isSome isNode
  rw [absent] at present
  exact nomatch present

/-- Heaps that agree on a list link it in the same way. -/
theorem Linked.congr {other : RecordHeap Node}
    (linked : heap.Linked head nodes)
    (agree : ∀ node ∈ nodes, other node = heap node) :
    other.Linked head nodes := by
  induction nodes generalizing head with
  | nil => exact linked
  | cons first rest ih =>
      obtain ⟨headEq, link, fieldEq, restLinked⟩ := linked
      refine ⟨headEq, link, ?_, ih restLinked fun node isNode =>
        agree node (List.mem_cons_of_mem _ isNode)⟩
      rw [agree first List.mem_cons_self, fieldEq]

end Linked

section Write

variable [DecidableEq Node] {heap : RecordHeap Node} {head : Option Node}
variable {nodes : List Node} {node : Node}

/-- A record is constructed with the given link. -/
def create (heap : RecordHeap Node) (node : Node) (link : Option Node) :
    RecordHeap Node :=
  Function.update heap node (some link)

/-- The storage of a record is released. -/
def destroy (heap : RecordHeap Node) (node : Node) : RecordHeap Node :=
  Function.update heap node none

/-- `node->next = link`. -/
def write (heap : RecordHeap Node) (node : Node) (link : Option Node) :
    Option (RecordHeap Node) :=
  if (heap node).isSome then some (heap.create node link) else none

@[simp]
theorem create_self (heap : RecordHeap Node) (node : Node)
    (link : Option Node) : heap.create node link node = some link :=
  Function.update_self ..

theorem create_of_ne {other : Node} (ne : other ≠ node)
    (heap : RecordHeap Node) (link : Option Node) :
    heap.create node link other = heap other :=
  Function.update_of_ne ne ..

@[simp]
theorem destroy_self (heap : RecordHeap Node) (node : Node) :
    heap.destroy node node = none :=
  Function.update_self ..

theorem destroy_of_ne {other : Node} (ne : other ≠ node)
    (heap : RecordHeap Node) : heap.destroy node other = heap other :=
  Function.update_of_ne ne ..

/-- A record that is destroyed at once was never there. -/
theorem destroy_create (absent : heap node = none) (link : Option Node) :
    (heap.create node link).destroy node = heap := by
  rw [destroy, create, Function.update_idem, ← absent, Function.update_eq_self]

/-- The first link of a record is lost when it is linked again. -/
theorem create_create (heap : RecordHeap Node) (node : Node)
    (link other : Option Node) :
    (heap.create node link).create node other = heap.create node other :=
  Function.update_idem ..

theorem write_of_eq {field : Option Node} (fieldEq : heap node = some field)
    (link : Option Node) : heap.write node link = some (heap.create node link) := by
  rw [write, fieldEq]
  rfl

/-- A record that was just constructed can be linked. -/
theorem write_create (heap : RecordHeap Node) (node : Node)
    (link other : Option Node) :
    (heap.create node link).write node other = some (heap.create node other) := by
  rw [write_of_eq (create_self ..), create_create]

theorem Linked.create_of_notMem (linked : heap.Linked head nodes)
    (fresh : node ∉ nodes) (link : Option Node) :
    (heap.create node link).Linked head nodes :=
  linked.congr fun _ isNode =>
    create_of_ne (ne_of_mem_of_not_mem isNode fresh) heap link

theorem Linked.destroy_of_notMem (linked : heap.Linked head nodes)
    (fresh : node ∉ nodes) : (heap.destroy node).Linked head nodes :=
  linked.congr fun _ isNode =>
    destroy_of_ne (ne_of_mem_of_not_mem isNode fresh) heap

/-- A record linked to the head of a list becomes its new head. -/
theorem Linked.create_cons (linked : heap.Linked head nodes)
    (fresh : node ∉ nodes) :
    (heap.create node head).Linked (some node) (node :: nodes) :=
  ⟨rfl, head, create_self .., linked.create_of_notMem fresh head⟩

end Write

/-- Only links of `nodes` were written, and the same records exist. -/
structure Relinks (nodes : List Node) (heap other : RecordHeap Node) :
    Prop where
  outside : ∀ node, node ∉ nodes → other node = heap node
  isSome : ∀ node, (heap node).isSome → (other node).isSome

theorem Relinks.refl (nodes : List Node) (heap : RecordHeap Node) :
    Relinks nodes heap heap :=
  ⟨fun _ _ => rfl, fun _ => id⟩

theorem Relinks.trans {nodes later : List Node}
    {heap middle other : RecordHeap Node} (first : Relinks nodes heap middle)
    (second : Relinks later middle other) (subset : later ⊆ nodes) :
    Relinks nodes heap other where
  outside node notNode := by
    rw [second.outside node (fun isLater => notNode (subset isLater)),
      first.outside node notNode]
  isSome node isSome := second.isSome node (first.isSome node isSome)

/-- The records that exist belong to the `queue` or are `pending`, each of
them once. -/
structure Tracks (heap : RecordHeap Node) (queue pending : List Node) :
    Prop where
  isSome_iff : ∀ node, (heap node).isSome ↔ node ∈ queue ∨ node ∈ pending
  nodup : (queue ++ pending).Nodup

namespace Tracks

variable {heap : RecordHeap Node} {queue pending : List Node} {node : Node}

theorem empty : Tracks (fun _ : Node => none) [] [] where
  isSome_iff node := by simp
  nodup := List.nodup_nil

theorem queue_nodup (tracks : heap.Tracks queue pending) : queue.Nodup :=
  (List.nodup_append.mp tracks.nodup).1

theorem notMem_queue (tracks : heap.Tracks queue pending)
    (isPending : node ∈ pending) : node ∉ queue := fun isQueued =>
  (List.nodup_append.mp tracks.nodup).2.2 node isQueued node isPending rfl

theorem mem_queue_iff (tracks : heap.Tracks queue pending) :
    node ∈ queue ↔ (heap node).isSome ∧ node ∉ pending := by
  rw [tracks.isSome_iff]
  constructor
  · intro isQueued
    exact ⟨Or.inl isQueued, fun isPending =>
      tracks.notMem_queue isPending isQueued⟩
  · rintro ⟨isQueued | isPending, notPending⟩
    · exact isQueued
    · exact absurd isPending notPending

/-- Records move from the queue to those that are pending. -/
theorem serve (tracks : heap.Tracks queue pending) {other : RecordHeap Node}
    {served rest : List Node} (perm : (served ++ rest).Perm queue)
    (relinks : Relinks queue heap other) :
    other.Tracks rest (pending ++ served) where
  isSome_iff node := by
    have sameExist : (other node).isSome ↔ (heap node).isSome := by
      by_cases isQueued : node ∈ queue
      · have isSome := (tracks.isSome_iff node).mpr (Or.inl isQueued)
        simp [isSome, relinks.isSome node isSome]
      · rw [relinks.outside node isQueued]
    rw [sameExist, tracks.isSome_iff, ← perm.mem_iff, List.mem_append,
      List.mem_append]
    tauto
  nodup := by
    have nodup := tracks.nodup
    rw [← (perm.append_right pending).nodup_iff, List.append_assoc] at nodup
    refine (List.Perm.nodup_iff ?_).mp nodup
    rw [← List.append_assoc rest]
    exact List.perm_append_comm

variable [DecidableEq Node]

/-- A new record joins the queue. -/
theorem join (tracks : heap.Tracks queue pending) (absent : heap node = none)
    (link : Option Node) :
    (heap.create node link).Tracks (queue ++ [node]) pending where
  isSome_iff other := by
    by_cases isNode : other = node
    · subst isNode
      simp
    · simp [create_of_ne isNode, isNode, tracks.isSome_iff other]
  nodup := by
    have notKnown : ¬ (node ∈ queue ∨ node ∈ pending) := by
      rw [← tracks.isSome_iff, absent]
      simp
    rw [List.append_assoc]
    refine List.perm_middle.nodup_iff.mpr
      (List.nodup_cons.mpr ⟨?_, tracks.nodup⟩)
    rwa [List.mem_append]

/-- A pending record is destroyed. -/
theorem resume (tracks : heap.Tracks queue pending)
    (isPending : node ∈ pending) :
    (heap.destroy node).Tracks queue (pending.erase node) where
  isSome_iff other := by
    have pendingNodup := (List.nodup_append.mp tracks.nodup).2.1
    by_cases isNode : other = node
    · subst isNode
      simp [tracks.notMem_queue isPending, pendingNodup.not_mem_erase]
    · simp [destroy_of_ne isNode, List.mem_erase_of_ne isNode,
        tracks.isSome_iff other]
  nodup := tracks.nodup.sublist (List.erase_sublist.append_left _)

end Tracks

section Reversal

variable [DecidableEq Node] {heap : RecordHeap Node}

/-- `do { tmp = node->next; node->next = done; done = node; node = tmp; }
while (node != nullptr)`, with the last value of `done`. -/
def reverseNext : RecordHeap Node × Node × Option Node →
    Option ((RecordHeap Node × Node × Option Node) ⊕ (RecordHeap Node × Node))
  | (heap, node, done) => do
      let tmp ← heap node
      let linked ← heap.write node done
      match tmp with
      | none => some (.inr (linked, node))
      | some tmp => some (.inl (linked, tmp, some node))

def reverseOnto (heap : RecordHeap Node) (node : Node) (done : Option Node) :
    Option (RecordHeap Node × Node) :=
  repeatUntil reverseNext (heap, node, done)

/-- The loop ends, and its result is the list in reverse order. -/
theorem reverseOnto_eq {node : Node} {rest done : List Node}
    {doneHead : Option Node}
    (linked : heap.Linked (some node) (node :: rest))
    (doneLinked : heap.Linked doneHead done)
    (nodup : (node :: rest ++ done).Nodup) :
    ∃ reversed last, heap.reverseOnto node doneHead = some (reversed, last) ∧
      reversed.Linked (some last) ((node :: rest).reverse ++ done) ∧
      Relinks (node :: rest) heap reversed := by
  induction rest generalizing heap node done doneHead with
  | nil =>
      obtain ⟨-, link, fieldEq, linkNull⟩ := linked
      obtain rfl : link = none := linkNull
      have fresh : node ∉ done := (List.nodup_cons.mp nodup).1
      refine ⟨heap.create node doneHead, node, ?_,
        doneLinked.create_cons fresh, ?_, ?_⟩
      · apply repeatUntil_done
        simp [reverseNext, fieldEq, write_of_eq fieldEq]
      · intro other notNode
        exact create_of_ne (by simpa using notNode) _ _
      · intro other isSome
        by_cases same : other = node
        · subst same
          simp
        · rwa [create_of_ne same]
  | cons next rest ih =>
      obtain ⟨-, link, fieldEq, restLinked⟩ := linked
      obtain rfl : link = some next := restLinked.1
      have fresh : node ∉ next :: rest ++ done := (List.nodup_cons.mp nodup).1
      have restNodup : (next :: rest ++ node :: done).Nodup :=
        (List.perm_middle.nodup_iff).mpr nodup
      have notRest : node ∉ next :: rest := fun isRest =>
        fresh (List.mem_append_left _ isRest)
      have notDone : node ∉ done := fun isDone =>
        fresh (List.mem_append_right _ isDone)
      obtain ⟨reversed, last, loopEq, lastLinked, relinks⟩ :=
        ih (restLinked.create_of_notMem notRest doneHead)
          (doneLinked.create_cons notDone) restNodup
      refine ⟨reversed, last, ?_, ?_, ?_, ?_⟩
      · rw [← loopEq]
        apply repeatUntil_next
        simp [reverseNext, fieldEq, write_of_eq fieldEq]
      · simpa using lastLinked
      · intro other notNode
        simp only [List.mem_cons, not_or] at notNode
        rw [relinks.outside other (by simp [notNode]),
          create_of_ne notNode.1]
      · intro other isSome
        apply relinks.isSome
        by_cases isNode : other = node
        · subst isNode
          simp
        · rwa [create_of_ne isNode]

end Reversal

end RecordHeap

end CoContext
