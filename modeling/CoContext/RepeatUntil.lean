import Mathlib.Logic.Function.Basic

/-!
# Loops that may not end

The body of a loop fails, goes on with another state or ends the loop with a
result.  A loop that goes on for ever has no result, as one that fails.
-/

namespace CoContext

universe u

variable {State Result : Type u}

/-- Repeat `body` until it has a result. -/
def repeatUntil (body : State → Option (State ⊕ Result)) (start : State) :
    Option Result :=
  (repeatM (fun state => (body state).map (Sum.map id some)) start).join

variable {body : State → Option (State ⊕ Result)} {state next : State}

theorem repeatUntil_next (bodyEq : body state = some (.inl next)) :
    repeatUntil body state = repeatUntil body next := by
  rw [repeatUntil, repeatM_eq_of_monadTail]
  simp [repeatM.body, bodyEq, repeatUntil]

theorem repeatUntil_done {result : Result}
    (bodyEq : body state = some (.inr result)) :
    repeatUntil body state = some result := by
  rw [repeatUntil, repeatM_eq_of_monadTail]
  simp [repeatM.body, bodyEq]

end CoContext
