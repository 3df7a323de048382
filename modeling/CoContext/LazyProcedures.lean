import CoContext.Procedures
import Mathlib.Logic.Function.Basic

/-!
# Procedures that are evaluated on demand

A procedure may delay another one under a name, and force it later.  The first
one that forces it calls it, and the name keeps the result for the others, or
what is left of it.  A name that is not delayed or evaluated cannot be forced;
then the procedure has no result.
-/

namespace CoContext

/-- What a procedure does next; `keeps` is what is left of a result that is
handed on. -/
inductive Lazy (Local Event Reply Result : Type*)
  | delay (body : Local) (next : Nat → Local)
  | force (name : Nat) (keeps : Result → Result) (next : Result → Local)
  | release (name : Nat) (next : Local)
  | report (event : Event) (next : Reply → Local)
  | finish (result : Result)

namespace Lazy

/-- What a name stands for. -/
inductive Cell (Local Result : Type*)
  | delayed (body : Local)
  | forcing
  | forced (result : Result)

/-- The names that are in use, and the first one that was not used yet. -/
@[ext]
structure Store (Local Result : Type*) where
  fresh : Nat
  cell : Nat → Option (Cell Local Result)

variable {Local Event Reply Result : Type*}

namespace Store

def empty (fresh : Nat) : Store Local Result where
  fresh := fresh
  cell _ := none

def set (store : Store Local Result) (name : Nat)
    (content : Option (Cell Local Result)) : Store Local Result :=
  { store with cell := Function.update store.cell name content }

theorem cell_set (store : Store Local Result) (name : Nat)
    (content : Option (Cell Local Result)) :
    (store.set name content).cell = Function.update store.cell name content :=
  rfl

/-- The last content of a name counts. -/
@[simp]
theorem set_set (store : Store Local Result) (name : Nat)
    (content other : Option (Cell Local Result)) :
    (store.set name content).set name other = store.set name other := by
  simp [set]

def alloc (store : Store Local Result) (body : Local) : Store Local Result :=
  { fresh := store.fresh + 1
    cell := Function.update store.cell store.fresh (some (.delayed body)) }

end Store

/-- A procedure that forced a name gets the result, and the name keeps it. -/
def handOn (name : Nat) (keeps : Result → Result) (next : Result → Local)
    (returned : Result × Store Local Result) : Local × Store Local Result :=
  (next returned.1, returned.2.set name (some (.forced (keeps returned.1))))

/-- A procedure with the names that it finds, as one with calls only, which
hands the names on. -/
def activity (code : Local → Lazy Local Event Reply Result)
    (state : Local × Store Local Result) :
    Activity (Local × Store Local Result) Event Reply
      (Result × Store Local Result) :=
  let (current, store) := state
  match code current with
  | .delay body next => .goOn (next store.fresh, store.alloc body)
  | .force name keeps next =>
      match store.cell name with
      | some (.delayed body) =>
          .call (body, store.set name (some .forcing))
            (handOn name keeps next)
      | some (.forced result) => .goOn (handOn name keeps next (result, store))
      | _ => .goOn (current, store)
  | .release name next =>
      match store.cell name with
      | some (.delayed _) | some (.forced _) =>
          .goOn (next, store.set name none)
      | _ => .goOn (current, store)
  | .report event next => .report event fun reply => (next reply, store)
  | .finish result => .finish (result, store)

end Lazy

end CoContext
