import Mathlib.Data.List.Basic
import Mathlib.Data.Nat.Init
import Mathlib.Tactic.Common

/-!
# Procedures with calls and events

A procedure reports events and gets a reply to each, calls other procedures
and ends with a result, which its caller gets.  What procedures do is stated
twice: by the evaluation of a procedure with all its calls, and by a machine
that keeps a stack of the callers.  The machine reports the events of the
evaluation in their order, and a beginning of them where there is no end.
-/

namespace CoContext

/-- What a procedure does next. -/
inductive Activity (Local Event Reply Result : Type*)
  | goOn (next : Local)
  | report (event : Event) (next : Reply → Local)
  | call (callee : Local) (next : Result → Local)
  | finish (result : Result)

namespace Activity

variable {Local Event Reply Result : Type*}

/-- A procedure ends with a result, after the events of itself and of the
procedures it called. -/
inductive Evaluates (code : Local → Activity Local Event Reply Result) :
    Local → List (Event × Reply) → Result → Prop
  | goOn {current next : Local} {trace : List (Event × Reply)}
      {result : Result} :
      code current = .goOn next → Evaluates code next trace result →
      Evaluates code current trace result
  | report {current : Local} {event : Event} {reply : Reply}
      {next : Reply → Local} {trace : List (Event × Reply)}
      {result : Result} :
      code current = .report event next →
      Evaluates code (next reply) trace result →
      Evaluates code current ((event, reply) :: trace) result
  | call {current callee : Local} {next : Result → Local}
      {inner trace : List (Event × Reply)} {returned result : Result} :
      code current = .call callee next →
      Evaluates code callee inner returned →
      Evaluates code (next returned) trace result →
      Evaluates code current (inner ++ trace) result
  | finish {current : Local} {result : Result} :
      code current = .finish result → Evaluates code current [] result

/-- The events of a procedure up to some point, whether it ends or goes on
forever. -/
inductive Begins (code : Local → Activity Local Event Reply Result) :
    Local → List (Event × Reply) → Prop
  | stop {current : Local} : Begins code current []
  | goOn {current next : Local} {trace : List (Event × Reply)} :
      code current = .goOn next → Begins code next trace →
      Begins code current trace
  | report {current : Local} {event : Event} {reply : Reply}
      {next : Reply → Local} {trace : List (Event × Reply)} :
      code current = .report event next → Begins code (next reply) trace →
      Begins code current ((event, reply) :: trace)
  | within {current callee : Local} {next : Result → Local}
      {trace : List (Event × Reply)} :
      code current = .call callee next → Begins code callee trace →
      Begins code current trace
  | call {current callee : Local} {next : Result → Local}
      {inner trace : List (Event × Reply)} {returned : Result} :
      code current = .call callee next →
      Evaluates code callee inner returned →
      Begins code (next returned) trace →
      Begins code current (inner ++ trace)

/-- A state of the machine.  The callers are told by what they do with the
result of their call, the last one first. -/
inductive Config (Local Event Reply Result : Type*)
  | runs (current : Local) (callers : List (Result → Local))
  | waits (event : Event) (next : Reply → Local)
      (callers : List (Result → Local))
  | ended (result : Result)

/-- A result goes to the last caller. -/
def Config.return (result : Result) :
    List (Result → Local) → Config Local Event Reply Result
  | [] => .ended result
  | next :: callers => .runs (next result) callers

/-- The event that was reported and has no reply yet. -/
def Config.pending : Config Local Event Reply Result → List Event
  | .waits event _ _ => [event]
  | _ => []

@[simp]
theorem Config.pending_return (result : Result)
    (callers : List (Result → Local)) :
    (Config.return result callers : Config Local Event Reply Result).pending =
      [] := by
  cases callers with
  | nil => rfl
  | cons next callers => rfl

variable (code : Local → Activity Local Event Reply Result)

/-- A step of the machine that does not depend on a reply. -/
def advance (current : Local) (callers : List (Result → Local)) :
    Config Local Event Reply Result :=
  match code current with
  | .goOn next => .runs next callers
  | .report event next => .waits event next callers
  | .call callee next => .runs callee (next :: callers)
  | .finish result => .return result callers

/-- The machine gets from a procedure to a configuration, in so many steps
that do not depend on a reply and with the replies to some events. -/
inductive Reaches (start : Local) :
    Nat → List (Event × Reply) → Config Local Event Reply Result → Prop
  | start : Reaches start 0 [] (.runs start [])
  | advance {steps : Nat} {trace : List (Event × Reply)} {current : Local}
      {callers : List (Result → Local)} :
      Reaches start steps trace (.runs current callers) →
      Reaches start (steps + 1) trace (advance code current callers)
  | reply {steps : Nat} {trace : List (Event × Reply)} {event : Event}
      {next : Reply → Local} {callers : List (Result → Local)}
      (reply : Reply) :
      Reaches start steps trace (.waits event next callers) →
      Reaches start steps (trace ++ [(event, reply)])
        (.runs (next reply) callers)

/-- The machine ends with a result, after so many steps that do not depend on
a reply and the replies to some events. -/
inductive Completes : Config Local Event Reply Result → Nat →
    List (Event × Reply) → Result → Prop
  | ended {result : Result} : Completes (.ended result) 0 [] result
  | advance {current : Local} {callers : List (Result → Local)} {steps : Nat}
      {trace : List (Event × Reply)} {result : Result} :
      Completes (advance code current callers) steps trace result →
      Completes (.runs current callers) (steps + 1) trace result
  | reply {event : Event} {next : Reply → Local}
      {callers : List (Result → Local)} {steps : Nat} {reply : Reply}
      {trace : List (Event × Reply)} {result : Result} :
      Completes (.runs (next reply) callers) steps trace result →
      Completes (.waits event next callers) steps ((event, reply) :: trace)
        result

/-- The evaluation of a procedure and of its callers, one after the other. -/
inductive EvaluatesAll : Local → List (Result → Local) →
    List (Event × Reply) → Result → Prop
  | last {current : Local} {trace : List (Event × Reply)} {result : Result} :
      Evaluates code current trace result →
      EvaluatesAll current [] trace result
  | caller {current : Local} {next : Result → Local}
      {callers : List (Result → Local)} {inner trace : List (Event × Reply)}
      {returned result : Result} :
      Evaluates code current inner returned →
      EvaluatesAll (next returned) callers trace result →
      EvaluatesAll current (next :: callers) (inner ++ trace) result

/-- The events of a procedure up to some point, or all of them and those of
its callers up to some point. -/
inductive BeginsAll : Local → List (Result → Local) →
    List (Event × Reply) → Prop
  | within {current : Local} {callers : List (Result → Local)}
      {trace : List (Event × Reply)} :
      Begins code current trace → BeginsAll current callers trace
  | caller {current : Local} {next : Result → Local}
      {callers : List (Result → Local)} {inner trace : List (Event × Reply)}
      {returned : Result} :
      Evaluates code current inner returned →
      BeginsAll (next returned) callers trace →
      BeginsAll current (next :: callers) (inner ++ trace)

/-- How the machine may go on from a configuration, up to some point. -/
inductive Config.Begins : Config Local Event Reply Result →
    List (Event × Reply) → Prop
  | stop {config : Config Local Event Reply Result} : Config.Begins config []
  | runs {current : Local} {callers : List (Result → Local)}
      {trace : List (Event × Reply)} :
      BeginsAll code current callers trace →
      Config.Begins (.runs current callers) trace
  | waits {event : Event} {next : Reply → Local}
      {callers : List (Result → Local)} {reply : Reply}
      {trace : List (Event × Reply)} :
      BeginsAll code (next reply) callers trace →
      Config.Begins (.waits event next callers) ((event, reply) :: trace)

variable {code}
variable {start current : Local} {callers : List (Result → Local)}
variable {trace : List (Event × Reply)} {result : Result}

/-- The events of the first procedure may be put off to the procedure that it
goes on as. -/
theorem EvaluatesAll.extend {other : Local} {before : List (Event × Reply)}
    (extend : ∀ inner returned, Evaluates code other inner returned →
      Evaluates code current (before ++ inner) returned)
    (all : EvaluatesAll code other callers trace result) :
    EvaluatesAll code current callers (before ++ trace) result := by
  cases all with
  | last evaluates => exact .last (extend _ _ evaluates)
  | caller evaluates rest =>
      rw [← List.append_assoc]
      exact .caller (extend _ _ evaluates) rest

theorem BeginsAll.extend {other : Local} {before : List (Event × Reply)}
    (begins : ∀ inner, Begins code other inner →
      Begins code current (before ++ inner))
    (evaluates : ∀ inner returned, Evaluates code other inner returned →
      Evaluates code current (before ++ inner) returned)
    (all : BeginsAll code other callers trace) :
    BeginsAll code current callers (before ++ trace) := by
  cases all with
  | within inner => exact .within (begins _ inner)
  | caller inner rest =>
      rw [← List.append_assoc]
      exact .caller (evaluates _ _ inner) rest

/-- What may follow a step of the machine may follow the configuration before
it. -/
theorem BeginsAll.advance
    (begins : Config.Begins code (Activity.advance code current callers)
      trace) :
    BeginsAll code current callers trace := by
  cases codeEq : code current with
  | goOn next =>
      rw [Activity.advance, codeEq] at begins
      cases begins with
      | stop => exact .within .stop
      | runs all =>
          have extended : BeginsAll code current callers ([] ++ _) :=
            all.extend (fun _ => .goOn codeEq) fun _ _ => .goOn codeEq
          exact extended
  | report event next =>
      rw [Activity.advance, codeEq] at begins
      cases begins with
      | stop => exact .within .stop
      | @waits _ _ _ reply _ all =>
          have extended :
              BeginsAll code current callers ([(event, reply)] ++ _) :=
            all.extend (fun _ => .report codeEq) fun _ _ => .report codeEq
          exact extended
  | call callee next =>
      rw [Activity.advance, codeEq] at begins
      cases begins with
      | stop => exact .within .stop
      | runs all =>
          cases all with
          | within inner => exact .within (.within codeEq inner)
          | caller inner rest =>
              exact rest.extend (fun _ => .call codeEq inner)
                fun _ _ => .call codeEq inner
  | finish returned =>
      rw [Activity.advance, codeEq] at begins
      cases callers with
      | nil =>
          cases begins with
          | stop => exact .within .stop
      | cons next callers =>
          cases begins with
          | stop => exact .within .stop
          | runs rest => exact .caller (.finish codeEq) rest

/-- What the machine completes is an evaluation, of the procedure that runs
and then of its callers. -/
theorem Completes.evaluatesAll {config : Config Local Event Reply Result}
    {steps : Nat} (completes : Completes code config steps trace result) :
    (∀ current callers, config = .runs current callers →
      EvaluatesAll code current callers trace result) ∧
    (∀ event next callers, config = .waits event next callers →
      ∃ reply rest, trace = (event, reply) :: rest ∧
        EvaluatesAll code (next reply) callers rest result) ∧
    (∀ returned, config = .ended returned →
      trace = [] ∧ result = returned) := by
  induction completes with
  | ended =>
      refine ⟨by simp, by simp, ?_⟩
      rintro returned ⟨rfl⟩
      exact ⟨rfl, rfl⟩
  | reply _ ih =>
      refine ⟨by simp, ?_, by simp⟩
      rintro _ _ _ ⟨rfl, rfl, rfl⟩
      exact ⟨_, _, rfl, ih.1 _ _ rfl⟩
  | @advance current callers steps trace result _ ih =>
      refine ⟨?_, by simp, by simp⟩
      rintro _ _ ⟨rfl, rfl⟩
      obtain ⟨runs, waits, ended⟩ := ih
      cases codeEq : code current with
      | goOn next =>
          have rest := runs next callers (by rw [Activity.advance, codeEq])
          have extended : EvaluatesAll code current callers ([] ++ _) _ :=
            rest.extend fun _ _ evaluates => .goOn codeEq evaluates
          exact extended
      | report event next =>
          obtain ⟨reply, rest, rfl, all⟩ :=
            waits event next callers (by rw [Activity.advance, codeEq])
          have extended :
              EvaluatesAll code current callers ([(event, reply)] ++ _) _ :=
            all.extend fun _ _ evaluates => .report codeEq evaluates
          exact extended
      | call callee next =>
          have all := runs callee (next :: callers)
            (by rw [Activity.advance, codeEq])
          cases all with
          | caller inner rest =>
              exact rest.extend fun _ _ evaluates =>
                .call codeEq inner evaluates
      | finish returned =>
          cases callers with
          | nil =>
              obtain ⟨rfl, rfl⟩ :=
                ended returned (by rw [Activity.advance, codeEq]; rfl)
              exact .last (.finish codeEq)
          | cons next callers =>
              have rest := runs (next returned) callers
                (by rw [Activity.advance, codeEq]; rfl)
              exact .caller (.finish codeEq) rest

/-- The machine runs through an evaluation, whoever called the procedure. -/
theorem Evaluates.completes {inner : List (Event × Reply)} {returned : Result}
    (evaluates : Evaluates code current inner returned) {steps : Nat}
    (rest : Completes code (.return returned callers) steps trace result) :
    ∃ more, Completes code (.runs current callers) more (inner ++ trace)
      result := by
  induction evaluates generalizing callers steps trace with
  | goOn codeEq _ ih =>
      obtain ⟨more, completes⟩ := ih rest
      refine ⟨more + 1, .advance ?_⟩
      rw [Activity.advance, codeEq]
      exact completes
  | report codeEq _ ih =>
      obtain ⟨more, completes⟩ := ih rest
      refine ⟨more + 1, .advance ?_⟩
      rw [Activity.advance, codeEq]
      exact .reply completes
  | @call _ _ next _ _ returned _ codeEq _ _ ihCallee ih =>
      obtain ⟨_, caller⟩ := ih rest
      have pending : Completes code (.return returned (next :: callers)) _ _ _ :=
        caller
      obtain ⟨more, completes⟩ := ihCallee pending
      refine ⟨more + 1, .advance ?_⟩
      rw [Activity.advance, codeEq, List.append_assoc]
      exact completes
  | finish codeEq =>
      refine ⟨steps + 1, .advance ?_⟩
      rw [Activity.advance, codeEq]
      exact rest

/-- The machine completes a procedure that nobody called exactly with what it
evaluates to. -/
theorem completes_iff :
    (∃ steps, Completes code (.runs start []) steps trace result) ↔
      Evaluates code start trace result := by
  constructor
  · rintro ⟨_, completes⟩
    cases completes.evaluatesAll.1 start [] rfl with
    | last evaluates => exact evaluates
  · intro evaluates
    have rest : Completes code (.return result []) 0 [] result := .ended
    obtain ⟨steps, completes⟩ := evaluates.completes rest
    exact ⟨steps, by simpa using completes⟩

section Reaches

variable {config : Config Local Event Reply Result} {steps : Nat}

theorem Reaches.completes (reaches : Reaches code start steps trace config)
    {more : Nat} {rest : List (Event × Reply)}
    (completes : Completes code config more rest result) :
    Completes code (.runs start []) (steps + more) (trace ++ rest) result := by
  induction reaches generalizing more rest with
  | start => simpa using completes
  | advance _ ih =>
      rw [Nat.add_assoc, Nat.add_comm 1]
      exact ih (.advance completes)
  | reply reply _ ih =>
      rw [List.append_assoc]
      exact ih (.reply completes)

theorem Completes.pending {more : Nat} {rest : List (Event × Reply)}
    (completes : Completes code config more rest result) :
    config.pending <+: rest.map Prod.fst := by
  cases completes with
  | ended | advance => exact List.nil_prefix
  | reply => exact ⟨_, rfl⟩

/-- A procedure that the machine ends evaluates to what the machine says. -/
theorem Reaches.evaluates
    (reaches : Reaches code start steps trace (.ended result)) :
    Evaluates code start trace result := by
  have completes := reaches.completes .ended
  rw [List.append_nil] at completes
  exact completes_iff.mp ⟨_, completes⟩

theorem Reaches.begins_append
    (reaches : Reaches code start steps trace config)
    {more : List (Event × Reply)} (begins : config.Begins code more) :
    Begins code start (trace ++ more) := by
  induction reaches generalizing more with
  | start =>
      cases begins with
      | stop => exact .stop
      | runs all =>
          cases all with
          | within begins => exact begins
  | advance _ ih => exact ih (.runs (.advance begins))
  | reply reply _ ih =>
      rw [List.append_assoc]
      cases begins with
      | stop => exact ih (.waits (.within .stop))
      | runs all => exact ih (.waits all)

/-- The machine reports a beginning of the events of the procedure. -/
theorem Reaches.begins (reaches : Reaches code start steps trace config) :
    Begins code start trace := by
  simpa using reaches.begins_append .stop

/-- Where the replies tell nothing, the machine is always on the way to what
the procedure evaluates to. -/
theorem Reaches.on_way [Subsingleton Reply]
    (reaches : Reaches code start steps trace config) {total : Nat}
    {whole : List (Event × Reply)}
    (completes : Completes code (.runs start []) total whole result) :
    ∃ more rest, total = steps + more ∧ whole = trace ++ rest ∧
      Completes code config more rest result := by
  induction reaches with
  | start => exact ⟨total, whole, by simp, rfl, completes⟩
  | advance _ ih =>
      obtain ⟨_, rest, rfl, rfl, running⟩ := ih
      cases running with
      | advance completes => exact ⟨_, rest, by omega, rfl, completes⟩
  | reply reply _ ih =>
      obtain ⟨more, _, rfl, rfl, waiting⟩ := ih
      cases waiting with
      | @reply _ _ _ _ given rest _ completes =>
          obtain rfl := Subsingleton.elim given reply
          exact ⟨more, rest, rfl, by simp, completes⟩

end Reaches

end Activity

end CoContext
