import Mathlib.Data.List.Basic

/-!
# Submission and completion rings

A program prepares requests in a submission ring, and the kernel takes the
front of that ring when it is entered.  Linked requests form chains: the
requests of a chain complete in their order, those of different chains in any
order.  The kernel posts one completion for each request, except that a
request flagged to skip its success posts only when it fails.

The data that a request carries comes back in its completion.  `outstanding`
lists the data that is still to come back, and `Follows` says that one datum
comes back after another.
-/

namespace CoContext

/-- An entry of the submission ring. -/
structure Request (Data : Type*) where
  userData : Data
  /-- The next entry belongs to the same chain. -/
  link : Bool
  /-- No completion is posted unless the request fails. -/
  skipSuccess : Bool
  deriving DecidableEq

/-- An entry of the completion ring. -/
structure Completion (Data : Type*) where
  userData : Data
  res : Int
  /-- It was sent by another ring. -/
  foreign : Bool
  deriving DecidableEq

/-- How the kernel ends a request. -/
inductive Outcome
  | succeeded (res : Int)
  | failed (res : Int)
  deriving DecidableEq

def Outcome.res : Outcome → Int
  | succeeded res | failed res => res

namespace Request

variable {Data : Type*}

/-- The kernel posts a completion for this outcome. -/
def posts (request : Request Data) : Outcome → Bool
  | .succeeded _ => !request.skipSuccess
  | .failed _ => true

/-- The requests split behind each entry that is not linked to the next. -/
def chains : List (Request Data) → List (List (Request Data))
  | [] => []
  | request :: rest =>
      match request.link, chains rest with
      | true, chain :: more => (request :: chain) :: more
      | _, more => [request] :: more

/-- The data of the requests that post a completion when they succeed. -/
def awaited (requests : List (Request Data)) : List Data :=
  (requests.filter fun request => !request.skipSuccess).map userData

/-- No entry is linked to what is prepared next. -/
def Closed (requests : List (Request Data)) : Prop :=
  ∀ last ∈ requests.getLast?, last.link = false

@[simp]
theorem awaited_nil : awaited ([] : List (Request Data)) = [] :=
  rfl

theorem awaited_cons (request : Request Data) (rest : List (Request Data)) :
    awaited (request :: rest) = awaited [request] ++ awaited rest := by
  cases skips : request.skipSuccess <;> simp [awaited, skips]

theorem awaited_of_skips {request : Request Data}
    (skips : request.skipSuccess = true) : awaited [request] = [] := by
  simp [awaited, skips]

theorem awaited_of_not_skips {request : Request Data}
    (posts : request.skipSuccess = false) :
    awaited [request] = [request.userData] := by
  simp [awaited, posts]

@[simp]
theorem awaited_append (first second : List (Request Data)) :
    awaited (first ++ second) = awaited first ++ awaited second := by
  simp [awaited]

theorem chains_cons_linked {request : Request Data}
    {rest : List (Request Data)} {chain : List (Request Data)}
    {more : List (List (Request Data))} (linked : request.link = true)
    (restEq : chains rest = chain :: more) :
    chains (request :: rest) = (request :: chain) :: more := by
  simp [chains, linked, restEq]

theorem chains_cons_unlinked {request : Request Data}
    (unlinked : request.link = false) (rest : List (Request Data)) :
    chains (request :: rest) = [request] :: chains rest := by
  simp [chains, unlinked]

@[simp]
theorem flatten_chains (requests : List (Request Data)) :
    (chains requests).flatten = requests := by
  induction requests with
  | nil => rfl
  | cons request rest ih =>
      cases linked : request.link with
      | false => simp [chains_cons_unlinked linked, ih]
      | true =>
          cases restEq : chains rest with
          | nil =>
              have restNil : rest = [] := by rw [← ih, restEq]; rfl
              simp [restNil, chains]
          | cons chain more =>
              rw [chains_cons_linked linked restEq, List.flatten_cons,
                List.cons_append, ← List.flatten_cons, ← restEq, ih]

theorem Closed.of_cons {request : Request Data} {rest : List (Request Data)}
    (closed : Closed (request :: rest)) : Closed rest := by
  intro last isLast
  apply closed last
  rw [List.getLast?_cons, Option.mem_def.mp isLast]
  rfl

theorem Closed.append {first second : List (Request Data)}
    (firstClosed : Closed first) (secondClosed : Closed second) :
    Closed (first ++ second) := by
  intro last isLast
  rw [List.getLast?_append] at isLast
  cases found : second.getLast? with
  | none => exact firstClosed last (by simpa [found] using isLast)
  | some final => exact secondClosed last (by simpa [found] using isLast)

theorem Closed.drop {requests : List (Request Data)}
    (closed : Closed requests) (count : Nat) : Closed (requests.drop count) := by
  intro last isLast
  rw [List.getLast?_drop] at isLast
  split at isLast
  next => simp at isLast
  next => exact closed last isLast

/-- Chains do not reach over the end of a closed list. -/
theorem chains_append {first : List (Request Data)} (closed : Closed first)
    (second : List (Request Data)) :
    chains (first ++ second) = chains first ++ chains second := by
  induction first with
  | nil => rfl
  | cons request rest ih =>
      have restEq := ih closed.of_cons
      rw [List.cons_append]
      cases linked : request.link with
      | false =>
          rw [chains_cons_unlinked linked, chains_cons_unlinked linked, restEq,
            List.cons_append]
      | true =>
          cases chainsEq : chains rest with
          | nil =>
              have restNil : rest = [] := by
                rw [← flatten_chains rest, chainsEq]
                rfl
              have unlinked := closed request (by simp [restNil])
              simp [linked] at unlinked
          | cons chain more =>
              rw [chainsEq, List.cons_append] at restEq
              rw [chains_cons_linked linked restEq,
                chains_cons_linked linked chainsEq, List.cons_append]

/-- Entries that are all linked to the next one but the last are one chain. -/
theorem chains_of_linked {linked : List (Request Data)} {last : Request Data}
    (areLinked : ∀ request ∈ linked, request.link = true)
    (isLast : last.link = false) :
    chains (linked ++ [last]) = [linked ++ [last]] := by
  induction linked with
  | nil => exact chains_cons_unlinked isLast []
  | cons request rest ih =>
      have restEq := ih fun other inRest => areLinked other (by simp [inRest])
      exact chains_cons_linked (areLinked request (by simp)) restEq

end Request

/-- The entries prepared and not taken by the kernel, the chains in flight and
the completions not handled. -/
structure Rings (Data : Type*) where
  sq : List (Request Data)
  inFlight : List (List (Request Data))
  cq : List (Completion Data)
  deriving DecidableEq

namespace Rings

open Request

variable {Data : Type*}

def empty (Data : Type*) : Rings Data where
  sq := []
  inFlight := []
  cq := []

/-- The program takes the next entry of the submission ring. -/
def prepare (rings : Rings Data) (request : Request Data) : Rings Data :=
  { rings with sq := rings.sq ++ [request] }

/-- The kernel takes `consumed` entries. -/
def enter (rings : Rings Data) (consumed : Nat) : Rings Data :=
  { rings with
    sq := rings.sq.drop consumed
    inFlight := rings.inFlight ++ chains (rings.sq.take consumed) }

/-- The kernel ends the first request of a chain in flight. -/
def complete (rings : Rings Data) (chain : Nat) (outcome : Outcome) :
    Option (Request Data × Rings Data) :=
  match rings.inFlight[chain]? with
  | some (request :: rest) =>
      some (request,
        { rings with
          inFlight := rings.inFlight.set chain rest
          cq := rings.cq ++
            if request.posts outcome then
              [⟨request.userData, outcome.res, false⟩]
            else [] })
  | _ => none

/-- Another ring sends a completion. -/
def receive (rings : Rings Data) (userData : Data) (res : Int) :
    Rings Data :=
  { rings with cq := rings.cq ++ [⟨userData, res, true⟩] }

/-- The program releases the front of the completion ring. -/
def seen (rings : Rings Data) : Rings Data :=
  { rings with cq := rings.cq.tail }

/-- The data that comes back if every request succeeds. -/
def outstanding (rings : Rings Data) : List Data :=
  rings.cq.map Completion.userData ++
    (awaited rings.inFlight.flatten ++ awaited rings.sq)

/-- The number of completions that the requests of this ring still have, if
every request succeeds. -/
def expected (rings : Rings Data) : Nat :=
  (rings.cq.filter fun completion => !completion.foreign).length +
    (awaited rings.inFlight.flatten).length + (awaited rings.sq).length

section Steps

variable {rings : Rings Data}

theorem complete_eq_some {chain : Nat} {outcome : Outcome}
    {request : Request Data} {completed : Rings Data}
    (completeEq :
      rings.complete chain outcome = some (request, completed)) :
    ∃ before rest after,
      rings.inFlight = before ++ (request :: rest) :: after ∧
      completed = { rings with
        inFlight := before ++ rest :: after
        cq := rings.cq ++
          if request.posts outcome then
            [⟨request.userData, outcome.res, false⟩]
          else [] } := by
  unfold complete at completeEq
  split at completeEq
  next first rest found =>
    obtain ⟨chainLt, chainEq⟩ := List.getElem?_eq_some_iff.mp found
    obtain ⟨rfl, rfl⟩ : first = request ∧ _ := by simpa using completeEq
    refine ⟨rings.inFlight.take chain, rest, rings.inFlight.drop (chain + 1),
      ?_, ?_⟩
    · rw [← chainEq, ← List.drop_eq_getElem_cons chainLt,
        List.take_append_drop]
    · rw [List.set_eq_take_append_cons_drop, if_pos chainLt]
  next => simp at completeEq

theorem outstanding_append (requests : List (Request Data)) :
    outstanding { rings with sq := rings.sq ++ requests } =
      rings.outstanding ++ awaited requests := by
  simp [outstanding]

@[simp]
theorem outstanding_enter (consumed : Nat) :
    (rings.enter consumed).outstanding = rings.outstanding := by
  unfold outstanding enter
  congr 1
  rw [List.flatten_append, flatten_chains, awaited_append, List.append_assoc,
    ← awaited_append, List.take_append_drop]

theorem outstanding_receive (userData : Data) (res : Int) :
    (rings.receive userData res).outstanding.Perm
      (userData :: rings.outstanding) := by
  simp only [outstanding, receive, List.map_append, List.map_singleton,
    List.append_assoc, List.singleton_append]
  exact List.perm_middle

theorem outstanding_seen {completion : Completion Data}
    {rest : List (Completion Data)} (front : rings.cq = completion :: rest) :
    rings.outstanding = completion.userData :: rings.seen.outstanding := by
  simp [outstanding, seen, front]

/-- A completion is expected unless the request was to skip it. -/
theorem outstanding_complete {chain : Nat} {outcome : Outcome}
    {request : Request Data} {completed : Rings Data}
    (completeEq :
      rings.complete chain outcome = some (request, completed)) :
    completed.outstanding.Perm
      ((if request.skipSuccess && request.posts outcome then
          [request.userData]
        else []) ++ rings.outstanding) := by
  obtain ⟨before, rest, after, flightEq, rfl⟩ := complete_eq_some completeEq
  have moved : ∀ posted : List Data,
      ((rings.cq.map Completion.userData ++ posted) ++
        (awaited before.flatten ++ (awaited rest ++ awaited after.flatten) ++
          awaited rings.sq)).Perm
      (rings.cq.map Completion.userData ++
        (awaited before.flatten ++
          (posted ++ awaited rest ++ awaited after.flatten) ++
            awaited rings.sq)) := by
    intro posted
    simp only [List.append_assoc]
    apply List.Perm.append_left
    exact List.perm_append_comm_assoc _ _ _
  simp only [outstanding, flightEq, List.flatten_append, List.flatten_cons,
    awaited_append, List.map_append]
  rw [awaited_cons request rest]
  cases skips : request.skipSuccess with
  | false =>
      have posts : request.posts outcome = true := by
        cases outcome <;> simp [Request.posts, skips]
      rw [awaited_of_not_skips skips]
      simpa [posts] using moved [request.userData]
  | true =>
      rw [awaited_of_skips skips]
      cases posts : request.posts outcome with
      | false => simp
      | true =>
          simp only [Bool.and_self, if_true, List.map_singleton,
            List.append_assoc, List.singleton_append, List.nil_append]
          exact List.perm_middle

@[simp]
theorem expected_empty : (empty Data).expected = 0 :=
  rfl

theorem expected_append (requests : List (Request Data)) :
    expected { rings with sq := rings.sq ++ requests } =
      rings.expected + (awaited requests).length := by
  simp only [expected, awaited_append, List.length_append]
  omega

@[simp]
theorem expected_enter (consumed : Nat) :
    (rings.enter consumed).expected = rings.expected := by
  have taken : (awaited (rings.sq.take consumed)).length +
      (awaited (rings.sq.drop consumed)).length =
        (awaited rings.sq).length := by
    rw [← List.length_append, ← awaited_append, List.take_append_drop]
  simp only [expected, enter, List.flatten_append, flatten_chains,
    awaited_append, List.length_append]
  omega

@[simp]
theorem expected_receive (userData : Data) (res : Int) :
    (rings.receive userData res).expected = rings.expected := by
  simp [expected, receive]

theorem expected_seen {completion : Completion Data}
    {rest : List (Completion Data)} (front : rings.cq = completion :: rest) :
    rings.expected =
      rings.seen.expected + if completion.foreign then 0 else 1 := by
  cases foreign : completion.foreign with
  | true => simp [expected, seen, front, foreign]
  | false =>
      simp [expected, seen, front, foreign]
      omega

/-- Only a request that was to skip its completion makes more of them. -/
theorem expected_complete {chain : Nat} {outcome : Outcome}
    {request : Request Data} {completed : Rings Data}
    (completeEq :
      rings.complete chain outcome = some (request, completed)) :
    completed.expected = rings.expected +
      if request.skipSuccess && request.posts outcome then 1 else 0 := by
  obtain ⟨before, rest, after, flightEq, rfl⟩ := complete_eq_some completeEq
  simp only [expected, flightEq, List.flatten_append, List.flatten_cons,
    awaited_append, List.length_append, List.filter_append]
  rw [awaited_cons request rest]
  cases skips : request.skipSuccess with
  | false =>
      have posts : request.posts outcome = true := by
        cases outcome <;> simp [Request.posts, skips]
      simp only [awaited_of_not_skips skips, posts, if_true,
        List.length_append, List.length_singleton, Bool.false_and,
        Bool.false_eq_true, if_false, List.filter_cons, Bool.not_false,
        List.filter_nil]
      omega
  | true =>
      cases posts : request.posts outcome <;>
        simp only [awaited_of_skips skips, if_true, if_false,
          Bool.and_self, Bool.and_false, Bool.false_eq_true, List.filter_cons,
          Bool.not_false, List.filter_nil, List.length_append,
          List.length_nil, List.length_singleton] <;> omega

end Steps

/-- A completion is available or will be posted, however the requests in
flight end. -/
def Coming (rings : Rings Data) : Prop :=
  rings.cq ≠ [] ∨ awaited rings.inFlight.flatten ≠ []

theorem coming_of_expected {rings : Rings Data} (some : 0 < rings.expected) :
    rings.Coming ∨ awaited rings.sq ≠ [] := by
  by_contra none
  simp only [Coming, not_or, Ne, Decidable.not_not] at none
  simp [expected, none.1.1, none.1.2, none.2] at some

theorem Coming.complete {rings : Rings Data} {chain : Nat}
    {outcome : Outcome} {request : Request Data} {completed : Rings Data}
    (completeEq :
      rings.complete chain outcome = some (request, completed))
    (coming : rings.Coming) : completed.Coming := by
  obtain ⟨before, rest, after, flightEq, rfl⟩ := complete_eq_some completeEq
  rcases coming with available | inFlight
  · exact .inl (by simp [available])
  · cases skips : request.skipSuccess with
    | false =>
        have posts : request.posts outcome = true := by
          cases outcome <;> simp [Request.posts, skips]
        exact .inl (by simp [posts])
    | true =>
        right
        have same : awaited (before ++ (request :: rest) :: after).flatten =
            awaited (before ++ rest :: after).flatten := by
          simp only [List.flatten_append, List.flatten_cons, awaited_append]
          rw [awaited_cons request rest, awaited_of_skips skips,
            List.nil_append]
        rwa [flightEq, same] at inFlight

theorem Coming.receive {rings : Rings Data} (userData : Data) (res : Int) :
    (rings.receive userData res).Coming :=
  .inl (by simp [Rings.receive])

theorem Coming.enter {rings : Rings Data} {consumed : Nat}
    (consumesAll : consumed = rings.sq.length)
    (soon : rings.Coming ∨ awaited rings.sq ≠ []) :
    (rings.enter consumed).Coming := by
  subst consumesAll
  rcases soon with (available | inFlight) | prepared
  · exact .inl available
  · exact .inr (by simp [Rings.enter, inFlight])
  · exact .inr (by simp [Rings.enter, prepared])

/-- The requests that no other request of the same list waits for, as far as
the kernel knows: the chains in flight and those still to be taken. -/
def threads (rings : Rings Data) : List (List (Request Data)) :=
  [] :: (rings.inFlight ++ chains rings.sq)

/-- `second` comes back after `first`: both are in one chain, or `first` has
come back already. -/
def Follows (rings : Rings Data) (first second : Data) : Prop :=
  ∃ thread ∈ rings.threads,
    List.Sublist [first, second]
      (rings.cq.map Completion.userData ++ awaited thread)

namespace Follows

variable {rings : Rings Data} {first second : Data}

theorem sublist_outstanding {thread : List (Request Data)}
    (isThread : thread ∈ rings.threads) :
    List.Sublist (rings.cq.map Completion.userData ++ awaited thread)
      rings.outstanding := by
  apply List.Sublist.append_left
  rw [← awaited_append]
  apply List.Sublist.map
  apply List.Sublist.filter
  rcases List.mem_cons.mp isThread with rfl | inChains
  · exact List.nil_sublist _
  · have sublist := List.sublist_flatten_of_mem inChains
    rwa [List.flatten_append, flatten_chains] at sublist

/-- Nothing that is still to come back precedes the front of the ring. -/
theorem not_front {completion : Completion Data}
    {rest : List (Completion Data)} (front : rings.cq = completion :: rest)
    (once : completion.userData ∉ rings.seen.outstanding) :
    ¬ rings.Follows first completion.userData := by
  rintro ⟨thread, isThread, ordered⟩
  have isSeen : List.Sublist
      (rest.map Completion.userData ++ awaited thread)
      rings.seen.outstanding := by
    have sublist := sublist_outstanding isThread
    rw [outstanding_seen front, front] at sublist
    exact List.cons_sublist_cons.mp sublist
  rw [front, List.map_cons, List.cons_append] at ordered
  apply once
  apply isSeen.subset
  cases ordered with
  | cons _ later => exact later.subset (by simp)
  | cons_cons _ later => exact later.subset (by simp)

theorem seen {completion : Completion Data}
    {rest : List (Completion Data)} (front : rings.cq = completion :: rest)
    (notFront : first ≠ completion.userData)
    (follows : rings.Follows first second) :
    rings.seen.Follows first second := by
  obtain ⟨thread, isThread, ordered⟩ := follows
  refine ⟨thread, isThread, ?_⟩
  rw [front, List.map_cons, List.cons_append] at ordered
  simp only [Rings.seen, front, List.tail_cons]
  cases ordered with
  | cons _ later => exact later
  | cons_cons _ later => exact absurd rfl notFront

theorem receive (userData : Data) (res : Int)
    (follows : rings.Follows first second) :
    (rings.receive userData res).Follows first second := by
  obtain ⟨thread, isThread, ordered⟩ := follows
  refine ⟨thread, isThread, ordered.trans ?_⟩
  simp only [Rings.receive, List.map_append, List.append_assoc]
  exact (List.sublist_append_right _ _).append_left _

/-- The kernel takes whole chains. -/
theorem enter {consumed : Nat} (closed : Closed (rings.sq.take consumed))
    (follows : rings.Follows first second) :
    (rings.enter consumed).Follows first second := by
  obtain ⟨thread, isThread, ordered⟩ := follows
  refine ⟨thread, ?_, ordered⟩
  have chainsEq := chains_append closed (rings.sq.drop consumed)
  rw [List.take_append_drop] at chainsEq
  simpa [threads, Rings.enter, chainsEq] using isThread

theorem complete {chain : Nat} {outcome : Outcome}
    {request : Request Data} {completed : Rings Data}
    (completeEq :
      rings.complete chain outcome = some (request, completed))
    (follows : rings.Follows first second) :
    completed.Follows first second := by
  obtain ⟨before, rest, after, flightEq, rfl⟩ := complete_eq_some completeEq
  obtain ⟨thread, isThread, ordered⟩ := follows
  by_cases isChain : thread = request :: rest
  · refine ⟨rest, by simp [threads], ordered.trans ?_⟩
    rw [isChain, awaited_cons]
    cases skips : request.skipSuccess with
    | true =>
        rw [awaited_of_skips skips, List.nil_append, List.map_append]
        exact (List.sublist_append_left _ _).append_right _
    | false =>
        have posts : request.posts outcome = true := by
          cases outcome <;> simp [Request.posts, skips]
        simp [awaited_of_not_skips skips, posts]
  · refine ⟨thread, ?_, ordered.trans ?_⟩
    · simp only [threads, flightEq, List.mem_cons, List.mem_append, isChain,
        false_or] at isThread ⊢
      tauto
    · rw [List.map_append]
      exact (List.sublist_append_left _ _).append_right _

/-- Preparing behind a closed ring leaves the chains as they are. -/
theorem prepare (closed : Closed rings.sq) (requests : List (Request Data))
    (follows : rings.Follows first second) :
    Follows { rings with sq := rings.sq ++ requests } first second := by
  obtain ⟨thread, isThread, ordered⟩ := follows
  refine ⟨thread, ?_, ordered⟩
  simp only [threads, chains_append closed, List.mem_cons,
    List.mem_append] at isThread ⊢
  tauto

/-- A chain that is prepared completes in its order. -/
theorem of_chain (closed : Closed rings.sq) {chain : List (Request Data)}
    (isChain : chains chain = [chain])
    (ordered : List.Sublist [first, second] (awaited chain)) :
    Follows { rings with sq := rings.sq ++ chain } first second := by
  refine ⟨chain, ?_, ordered.trans (List.sublist_append_right _ _)⟩
  simp [threads, chains_append closed, isChain]

end Follows

end Rings

end CoContext
