import CoContext.TaskAwaitEvaluation

/-!
# What a detached task does

The events for which the coroutines of a detached task are suspended, in their
order, are those of an evaluation on demand of its body, which ends as the
task does.  No coroutine is begun twice.
-/

namespace CoContext.TaskAwait

variable {Local Event Reply Value Error : Type}

/-- A task is awaited or destroyed that was not called, was destroyed or is in
the middle. -/
def Misuses (code : Local → Body Local Event Reply Value Error)
    (s : State Local Event Reply Value Error) (body : Local) : Prop :=
  match code body with
  | .coAwait task _ _ | .destruct task _ => ¬ s.Usable task
  | _ => False

section Steps

variable {code : Local → Body Local Event Reply Value Error}
variable {moved : Value → Value}
variable {s t : State Local Event Reply Value Error} {coro task : Nat}
variable {parents :
  List (Nat × Awaiter × (Option (Outcome Value Error) → Local))}
variable {body : Local}

/-- A coroutine that is in the middle cannot be resumed by an awaiter. -/
theorem awaitSuspend_of_inside {frame : Frame Local Event Reply Value Error}
    (pointEq : (s.frames coro).map Frame.point = some .running)
    (frameEq : s.frames task = some frame) (inside : Inside frame.point)
    (awaiter : Awaiter) (next : Option (Outcome Value Error) → Local) :
    s.awaitSuspend coro task awaiter next = none := by
  obtain ⟨coroFrame, coroEq, _⟩ := Option.map_eq_some_iff.mp pointEq
  obtain ⟨t, tEq⟩ : ∃ t, t = s.write coro fun frame =>
      { frame with point := .awaiting task awaiter next } := ⟨_, rfl⟩
  obtain ⟨later, laterEq, laterInside⟩ : ∃ later,
      t.frames task = some later ∧ Inside later.point := by
    by_cases same : task = coro
    · subst same
      rw [tEq, State.frames_write_self coroEq]
      exact ⟨_, rfl, by simp, by simp⟩
    · rw [tEq, State.frames_write_of_ne same]
      exact ⟨frame, frameEq, inside⟩
  rw [State.awaitSuspend, State.modify_eq coroEq]
  simp only [Option.bind_eq_bind, Option.bind_some]
  rw [← tEq, State.modify_eq laterEq, Option.bind_some,
    State.frames_write_self laterEq, Option.bind_some]
  cases pointOf : later.point with
  | initialSuspend body => exact absurd pointOf (laterInside.1 body)
  | _ => rfl

theorem Chain.inside_of_unusable (chain : Chain s coro parents)
    {frame : Frame Local Event Reply Value Error}
    (pointEq : (s.frames coro).map Frame.point = some .running)
    (frameEq : s.frames task = some frame) (unusable : ¬ s.Usable task) :
    Inside frame.point := by
  by_contra atEnd
  exact unusable (chain.usable pointEq inside_running frameEq atEnd)

/-- A task that may not be awaited or destroyed is neither. -/
theorem Chain.misuse (moved : Value → Value) (chain : Chain s coro parents)
    (pointEq : (s.frames coro).map Frame.point = some .running)
    (unusable : ¬ s.Usable task) :
    (∀ awaiter next, s.coAwait moved coro task awaiter next = none) ∧
      (∀ next, s.destruct coro task next = none) ∧
      (s.store.cell task = none ∨ s.store.cell task = some .forcing) := by
  cases frameEq : s.frames task with
  | none =>
      simp [State.coAwait, State.destruct, State.cell_store, frameEq]
  | some frame =>
      have inside := chain.inside_of_unusable pointEq frameEq unusable
      refine ⟨?_, ?_, ?_⟩
      · intro awaiter next
        have awaits := awaitSuspend_of_inside pointEq frameEq inside awaiter
          next
        rw [State.coAwait, frameEq, Option.bind_some]
        cases pointOf : frame.point with
        | finalSuspend => exact absurd pointOf inside.2
        | _ => exact awaits
      · intro next
        rw [State.destruct, frameEq, Option.bind_some]
        cases pointOf : frame.point with
        | initialSuspend body => exact absurd pointOf (inside.1 body)
        | finalSuspend => exact absurd pointOf inside.2
        | _ => rfl
      · rw [State.cell_store, frameEq, Option.map_some, cell_of_inside inside]
        by_cases root : task = 0
        · exact .inl (if_pos root)
        · exact .inr (if_neg root)

/-- The step of a coroutine is the machine's, unless a task is misused. -/
theorem Represents.run
    {config : Local × Lazy.Store Local (Outcome Value Error)}
    {callers : List (Outcome Value Error ×
      Lazy.Store Local (Outcome Value Error) →
        Local × Lazy.Store Local (Outcome Value Error))}
    (code : Local → Body Local Event Reply Value Error)
    (represents : Represents moved s (.runs config callers)) :
    ∃ coro body, s.control = .runs coro body ∧
      ((∃ t, step code moved s .run = some t ∧
        Represents moved t
          (Activity.advance (Lazy.activity (lazy code moved)) config
            callers)) ∨
        (step code moved s .run = none ∧ Misuses code s body ∧
          Activity.advance (Lazy.activity (lazy code moved)) config callers =
            .runs config callers)) := by
  cases represents with
  | @runs coro body parents chain controlEq pointEq =>
      refine ⟨coro, body, controlEq, ?_⟩
      have stepEq : step code moved s .run =
          s.execute code moved coro body := by
        rw [step, controlEq]
      rw [stepEq, State.execute, Misuses]
      cases codeEq : code body with
      | call callee next =>
          left
          rw [Activity.advance, Lazy.activity, lazy, codeEq]
          exact chain.call moved pointEq callee next
      | coAwait task awaiter next =>
          by_cases usable : s.Usable task
          · exact .inl
              (chain.coAwait moved pointEq usable awaiter next codeEq)
          · obtain ⟨awaits, _, cells⟩ := chain.misuse moved pointEq usable
            refine .inr ⟨awaits awaiter next, usable, ?_⟩
            rcases cells with cellEq | cellEq
            · rw [Activity.advance, Lazy.activity, lazy, codeEq]
              simp only [cellEq]
            · rw [Activity.advance, Lazy.activity, lazy, codeEq]
              simp only [cellEq]
      | destruct task next =>
          by_cases usable : s.Usable task
          · have notMem := chain.notMem pointEq inside_running usable
            have cellEq : ∃ cell, s.store.cell task = some cell ∧
                ((∃ body, cell = .delayed body) ∨
                  ∃ outcome, cell = .forced outcome) := by
              obtain ⟨frame, frameEq, _, parked⟩ := usable
              refine ⟨frame.cell, ?_, ?_⟩
              · rw [State.cell_store, if_neg (chain.ne_zero notMem), frameEq]
                rfl
              · rcases parked with ⟨body, isInitial⟩ | ⟨isFinal, isStored⟩
                · exact .inl ⟨body, by rw [Frame.cell, isInitial]⟩
                · obtain ⟨outcome, storedEq⟩ :=
                    Option.isSome_iff_exists.mp isStored
                  exact .inr ⟨outcome, by rw [Frame.cell, isFinal, storedEq]⟩
            left
            obtain ⟨_, cellEq, ⟨callee, rfl⟩ | ⟨outcome, rfl⟩⟩ := cellEq
            · rw [Activity.advance, Lazy.activity, lazy, codeEq]
              simp only [cellEq]
              exact chain.destruct moved pointEq usable next
            · rw [Activity.advance, Lazy.activity, lazy, codeEq]
              simp only [cellEq]
              exact chain.destruct moved pointEq usable next
          · obtain ⟨_, destructs, cells⟩ :=
              chain.misuse moved pointEq usable
            refine .inr ⟨destructs next, usable, ?_⟩
            rcases cells with cellEq | cellEq
            · rw [Activity.advance, Lazy.activity, lazy, codeEq]
              simp only [cellEq]
            · rw [Activity.advance, Lazy.activity, lazy, codeEq]
              simp only [cellEq]
      | suspend event next =>
          left
          rw [Activity.advance, Lazy.activity, lazy, codeEq]
          exact chain.suspend moved pointEq event next
      | coReturn value =>
          left
          rw [Activity.advance, Lazy.activity, lazy, codeEq]
          cases parents with
          | nil =>
              obtain ⟨rfl, _⟩ := chain.nests
              exact (chain.finish_root moved pointEq).1 value
          | cons caller parents =>
              obtain ⟨frame, frameEq⟩ := chain.frameEq
              have coReturnEq : s.coReturn moved coro value =
                  (s.write coro fun frame =>
                    { frame with stored := some (.ok value) }).finalSuspend
                      moved coro := by
                rw [State.coReturn, State.modify_eq frameEq]
                rfl
              have nested := chain.finish_nested moved pointEq (.ok value)
              rw [← coReturnEq] at nested
              exact nested
      | throws error =>
          left
          rw [Activity.advance, Lazy.activity, lazy, codeEq]
          cases parents with
          | nil =>
              obtain ⟨rfl, _⟩ := chain.nests
              exact (chain.finish_root moved pointEq).2 error
          | cons caller parents =>
              obtain ⟨frame, frameEq⟩ := chain.frameEq
              have isAttached : frame.isDetached = false := by
                have linkAt := chain.nests.1
                rw [frameEq, Option.map_some, Option.some.injEq] at linkAt
                exact congrArg Prod.snd linkAt
              have caughtEq : s.unhandledException moved coro error =
                  (s.write coro fun frame =>
                    { frame with stored := some (.error error) }).finalSuspend
                      moved coro := by
                rw [State.unhandledException, frameEq]
                simp only [Option.bind_eq_bind, Option.bind_some, isAttached,
                  Bool.false_eq_true, if_false]
                rw [State.modify_eq frameEq]
                rfl
              have nested := chain.finish_nested moved pointEq (.error error)
              rw [← caughtEq] at nested
              exact nested

end Steps

/-! ### No coroutine is begun twice -/

/-- Nothing gets to its initial suspend point again. -/
structure Follows (s t : State Local Event Reply Value Error) : Prop where
  fresh : s.fresh ≤ t.fresh
  initial : ∀ name < s.fresh, ∀ body,
    (t.frames name).map Frame.point = some (.initialSuspend body) →
      (s.frames name).map Frame.point = some (.initialSuspend body)

section Follows

variable {moved : Value → Value}
variable {s t u : State Local Event Reply Value Error} {coro task : Nat}
variable {body : Local}

theorem Follows.refl (s : State Local Event Reply Value Error) :
    Follows s s :=
  ⟨Nat.le_refl _, fun _ _ _ pointEq => pointEq⟩

theorem Follows.trans (first : Follows s t) (second : Follows t u) :
    Follows s u where
  fresh := Nat.le_trans first.fresh second.fresh
  initial name nameLt body pointEq :=
    first.initial name nameLt body
      (second.initial name (Nat.lt_of_lt_of_le nameLt first.fresh) body
        pointEq)

theorem Follows.modify
    {change : Frame Local Event Reply Value Error →
      Frame Local Event Reply Value Error}
    (point : ∀ frame body, (change frame).point = .initialSuspend body →
      frame.point = .initialSuspend body)
    (modifyEq : s.modify coro change = some t) : Follows s t := by
  obtain ⟨frame, frameEq, rfl⟩ := Option.map_eq_some_iff.mp modifyEq
  refine ⟨Nat.le_refl _, ?_⟩
  intro name _ body pointEq
  by_cases same : name = coro
  · subst same
    dsimp only at pointEq
    rw [Function.update_self, Option.map_some, Option.some.injEq] at pointEq
    rw [frameEq, Option.map_some, point frame body pointEq]
  · dsimp only at pointEq
    rw [Function.update_of_ne same] at pointEq
    exact pointEq

theorem Follows.enter (enterEq : s.enter coro body = some t) :
    Follows s t := by
  obtain ⟨u, modifyEq, rfl⟩ := Option.map_eq_some_iff.mp enterEq
  have follows : Follows s u := Follows.modify (by simp) modifyEq
  exact ⟨follows.fresh, follows.initial⟩

theorem point_of_enter (enterEq : s.enter coro body = some t) :
    (t.frames coro).map Frame.point = some .running := by
  obtain ⟨u, modifyEq, rfl⟩ := Option.map_eq_some_iff.mp enterEq
  obtain ⟨frame, _, rfl⟩ := Option.map_eq_some_iff.mp modifyEq
  dsimp only
  rw [Function.update_self]
  rfl

theorem Follows.destroy (coro : Nat) : Follows s (s.destroy coro) := by
  refine ⟨Nat.le_refl _, ?_⟩
  intro name _ body pointEq
  by_cases same : name = coro
  · subst same
    rw [State.frames_destroy, Function.update_self] at pointEq
    contradiction
  · rw [State.frames_destroy, Function.update_of_ne same] at pointEq
    exact pointEq

theorem Follows.awaitResume {awaiter : Awaiter}
    {next : Option (Outcome Value Error) → Local}
    (resumeEq : s.awaitResume moved coro task awaiter next = some t) :
    Follows s t := by
  simp only [State.awaitResume, Option.bind_eq_bind,
    Option.bind_eq_some_iff] at resumeEq
  obtain ⟨_, _, _, _, u, modifyEq, enterEq⟩ := resumeEq
  have first : Follows s u := Follows.modify (by simp) modifyEq
  exact first.trans (.enter enterEq)

/-- The task that is resumed is begun. -/
theorem Follows.awaitSuspend {awaiter : Awaiter}
    {next : Option (Outcome Value Error) → Local}
    (suspendEq : s.awaitSuspend coro task awaiter next = some t) :
    Follows s t ∧ (t.frames task).map Frame.point = some .running := by
  simp only [State.awaitSuspend, Option.bind_eq_bind,
    Option.bind_eq_some_iff] at suspendEq
  obtain ⟨u, awaitEq, v, parentEq, frame, _, resumeEq⟩ := suspendEq
  have first : Follows s u := Follows.modify (by simp) awaitEq
  have second : Follows u v := Follows.modify (by simp) parentEq
  cases pointEq : frame.point with
  | initialSuspend body =>
      rw [pointEq] at resumeEq
      exact ⟨(first.trans second).trans (.enter resumeEq),
        point_of_enter resumeEq⟩
  | _ => simp [pointEq] at resumeEq

theorem Follows.finalSuspend
    (suspendEq : s.finalSuspend moved coro = some t) : Follows s t := by
  simp only [State.finalSuspend, Option.bind_eq_bind,
    Option.bind_eq_some_iff] at suspendEq
  obtain ⟨u, modifyEq, frame, _, resumeEq⟩ := suspendEq
  have first : Follows s u := Follows.modify (by simp) modifyEq
  obtain ⟨v, vEq⟩ : ∃ v, v = if frame.isDetached then u.destroy coro else u :=
    ⟨_, rfl⟩
  have second : Follows u v := by
    rw [vEq]
    split
    · exact .destroy coro
    · exact .refl u
  rw [← vEq] at resumeEq
  cases parentEq : frame.parentCoro with
  | none =>
      simp only [parentEq, Option.some.injEq] at resumeEq
      subst resumeEq
      have whole := first.trans second
      exact ⟨whole.fresh, whole.initial⟩
  | some parent =>
      simp only [parentEq, Option.bind_eq_some_iff] at resumeEq
      obtain ⟨parentFrame, _, resumeEq⟩ := resumeEq
      cases pointEq : parentFrame.point with
      | awaiting task awaiter next =>
          rw [pointEq] at resumeEq
          exact (first.trans second).trans (.awaitResume resumeEq)
      | _ => simp [pointEq] at resumeEq

theorem Follows.execute {code : Local → Body Local Event Reply Value Error}
    (executeEq : s.execute code moved coro body = some t) : Follows s t := by
  rw [State.execute] at executeEq
  cases codeEq : code body with
  | call callee next =>
      simp only [codeEq] at executeEq
      have allocated : Follows s { s with
          frames := Function.update s.frames s.fresh (some (Frame.new callee))
          fresh := s.fresh + 1 } := by
        refine ⟨Nat.le_succ _, ?_⟩
        intro name nameLt body pointEq
        dsimp only at pointEq
        rw [Function.update_of_ne (Nat.ne_of_lt nameLt)] at pointEq
        exact pointEq
      exact allocated.trans (.enter executeEq)
  | coAwait task awaiter next =>
      simp only [codeEq, State.coAwait, Option.bind_eq_some_iff] at executeEq
      obtain ⟨frame, _, awaitEq⟩ := executeEq
      cases pointEq : frame.point with
      | finalSuspend =>
          rw [pointEq] at awaitEq
          exact .awaitResume awaitEq
      | _ =>
          rw [pointEq] at awaitEq
          exact (Follows.awaitSuspend awaitEq).1
  | destruct task next =>
      simp only [codeEq, State.destruct, Option.bind_eq_some_iff] at executeEq
      obtain ⟨frame, _, destructEq⟩ := executeEq
      have destroyed : Follows s (s.destroy task) := .destroy task
      cases pointEq : frame.point with
      | initialSuspend | finalSuspend =>
          rw [pointEq] at destructEq
          exact destroyed.trans (.enter destructEq)
      | _ => simp [pointEq] at destructEq
  | suspend event next =>
      simp only [codeEq] at executeEq
      obtain ⟨u, modifyEq, rfl⟩ := Option.map_eq_some_iff.mp executeEq
      have follows : Follows s u := Follows.modify (by simp) modifyEq
      exact ⟨follows.fresh, follows.initial⟩
  | coReturn value =>
      simp only [codeEq, State.coReturn, Option.bind_eq_bind,
        Option.bind_eq_some_iff] at executeEq
      obtain ⟨u, modifyEq, finalEq⟩ := executeEq
      have first : Follows s u := Follows.modify (by simp) modifyEq
      exact first.trans (.finalSuspend finalEq)
  | throws error =>
      simp only [codeEq, State.unhandledException, Option.bind_eq_bind,
        Option.bind_eq_some_iff] at executeEq
      obtain ⟨frame, _, caughtEq⟩ := executeEq
      cases isDetached : frame.isDetached with
      | true =>
          simp only [isDetached, if_true, Option.bind_eq_some_iff,
            Option.some.injEq] at caughtEq
          obtain ⟨u, modifyEq, rfl⟩ := caughtEq
          have follows : Follows s u := Follows.modify (by simp) modifyEq
          exact ⟨follows.fresh, follows.initial⟩
      | false =>
          simp only [isDetached, Bool.false_eq_true, if_false,
            Option.bind_eq_some_iff] at caughtEq
          obtain ⟨u, modifyEq, finalEq⟩ := caughtEq
          have first : Follows s u := Follows.modify (by simp) modifyEq
          exact first.trans (.finalSuspend finalEq)

end Follows

/-! ### Runs -/

/-- How the detached task ended, if it did. -/
def State.outcome (s : State Local Event Reply Value Error) :
    Option (Outcome Unit Error) :=
  match s.control with
  | .idle => if (s.frames 0).isNone then some (.ok ()) else none
  | .threw error => some (.error error)
  | _ => none

/-- The state after these events were replied to. -/
inductive Tracks (code : Local → Body Local Event Reply Value Error)
    (moved : Value → Value) (body : Local)
    (s : State Local Event Reply Value Error) : List (Event × Reply) → Prop
  | unstarted : s = State.new body → Tracks code moved body s []
  | started {steps : Nat} {trace : List (Event × Reply)}
      {config : Activity.Config
        (Local × Lazy.Store Local (Outcome Value Error)) Event Reply
          (Outcome Value Error × Lazy.Store Local (Outcome Value Error))} :
      Activity.Reaches (Lazy.activity (lazy code moved))
        (body, Lazy.Store.empty 1) steps trace config →
      Represents moved s config → Tracks code moved body s trace

section Tracks

variable {code : Local → Body Local Event Reply Value Error}
variable {moved : Value → Value} {body : Local}
variable {s t : State Local Event Reply Value Error}
variable {trace : List (Event × Reply)}

/-- The first body is begun with no task. -/
theorem start_new (moved : Value → Value) (body : Local) :
    ∃ t, (State.new body : State Local Event Reply Value Error).start =
        some t ∧
      Represents moved t (.runs (body, Lazy.Store.empty 1) []) := by
  have rootEq : (State.new body : State Local Event Reply Value Error).frames
      0 = some { Frame.new body with isDetached := true } := rfl
  have chain : Chain (State.new body : State Local Event Reply Value Error) 0
      [] := by
    refine ⟨⟨rfl, rfl⟩, by simp, ?_, ?_, List.nodup_nil, ?_⟩
    · intro other notMem frame frameEq
      have ne : other ≠ 0 := by simpa using notMem
      simp [State.new, ne] at frameEq
    · intro other isSome
      by_cases root : other = 0
      · rw [root]
        exact Nat.zero_lt_one
      · simp [State.new, root] at isSome
    · intro other
      by_cases root : other = 0 <;> simp [State.new, root]
  have begun : Chain ((State.new body :
      State Local Event Reply Value Error).write 0 fun frame =>
        { frame with point := .running }) 0 [] :=
    chain.write fun _ => rfl
  have storeEq : ((State.new body :
      State Local Event Reply Value Error).write 0 fun frame =>
        { frame with point := .running }).store = Lazy.Store.empty 1 := by
    rw [State.store_write_same fun _ _ ne => absurd rfl ne]
    ext1
    · rfl
    funext name
    rw [State.cell_store]
    by_cases root : name = 0
    · rw [if_pos root]
      rfl
    · rw [if_neg root]
      simp [State.new, root, Lazy.Store.empty]
  have represents : Represents moved _ (.runs (body, _)
      (callers moved 0 [])) :=
    .runs (begun.controlled (.runs 0 body)) rfl
      (by rw [State.frames_controlled, State.frames_write_self rootEq]; rfl)
  rw [State.store_controlled, storeEq] at represents
  exact ⟨_, State.enter_eq rootEq body, represents⟩

/-- What was started is not started again. -/
theorem Represents.start
    {config : Activity.Config
      (Local × Lazy.Store Local (Outcome Value Error)) Event Reply
        (Outcome Value Error × Lazy.Store Local (Outcome Value Error))}
    (represents : Represents moved s config) : s.start = none := by
  cases represents with
  | runs _ control | waits _ control | threw _ control =>
      simp [State.start, control]
  | returned _ control rootGone => simp [State.start, control, rootGone]

theorem Represents.waits_resume
    {event : Event} {next : Reply → Local ×
      Lazy.Store Local (Outcome Value Error)}
    {callers : List (Outcome Value Error ×
      Lazy.Store Local (Outcome Value Error) →
        Local × Lazy.Store Local (Outcome Value Error))}
    (represents : Represents moved s (.waits event next callers))
    (reply : Reply) :
    (∃ coro, s.control = .waits coro event) ∧
      ∃ t, s.resume reply = some t ∧
        Represents moved t (.runs (next reply) callers) := by
  cases represents with
  | @waits coro _ next _ chain control pointEq =>
      refine ⟨⟨coro, control⟩, ?_⟩
      have inside : Inside
          (.suspended event next : Point Local Event Reply Value Error) :=
        ⟨by simp, by simp⟩
      obtain ⟨t, enterEq, entered⟩ :=
        chain.enter moved pointEq inside (next reply)
      refine ⟨t, ?_, entered⟩
      rw [State.resume, control]
      simp only [pointEq]
      exact enterEq

theorem Tracks.step {action : Action Reply}
    (tracks : Tracks code moved body s trace)
    (stepEq : step code moved s action = some t) :
    Tracks code moved body t (trace ++ (replied s action).toList) := by
  cases tracks with
  | unstarted isNew =>
      subst isNew
      cases action with
      | start =>
          obtain ⟨_, startEq, represents⟩ := start_new moved body
          obtain rfl := Option.some.inj (stepEq.symm.trans startEq)
          exact .started .start represents
      | run | resume => simp [TaskAwait.step, State.new, State.resume] at stepEq
  | @started _ _ config reaches represents =>
      cases action with
      | start =>
          rw [TaskAwait.step, represents.start] at stepEq
          contradiction
      | run =>
          cases config with
          | runs current callers =>
              obtain ⟨_, _, _, ⟨_, runEq, next⟩ | ⟨runEq, _⟩⟩ :=
                represents.run code
              · obtain rfl := Option.some.inj (stepEq.symm.trans runEq)
                simpa [replied] using Tracks.started reaches.advance next
              · rw [runEq] at stepEq
                contradiction
          | waits event next callers =>
              cases represents with
              | waits _ control => simp [TaskAwait.step, control] at stepEq
          | ended result =>
              cases represents with
              | returned _ control | threw _ control =>
                  simp [TaskAwait.step, control] at stepEq
      | resume reply =>
          cases config with
          | waits event next callers =>
              obtain ⟨⟨coro, control⟩, _, resumeEq, resumed⟩ :=
                represents.waits_resume reply
              obtain rfl := Option.some.inj (stepEq.symm.trans resumeEq)
              have repliedEq : (replied s (.resume reply)).toList =
                  [(event, reply)] := by
                rw [replied, control]
                rfl
              rw [repliedEq]
              exact .started (reaches.reply reply) resumed
          | runs current callers =>
              cases represents with
              | runs _ control =>
                  simp [TaskAwait.step, State.resume, control] at stepEq
          | ended result =>
              cases represents with
              | returned _ control | threw _ control =>
                  simp [TaskAwait.step, State.resume, control] at stepEq

theorem tracks_of_run (run : (system code moved body).Run) {time : Nat}
    (timeLe : time ≤ run.length) :
    Tracks code moved body (run.state time) (run.log replied 0 time) := by
  induction time with
  | zero =>
      rw [run.log_self]
      exact .unstarted run.starts
  | succ time ih =>
      rw [run.log_next]
      exact (ih (Nat.le_of_succ_le timeLe)).step (run.steps time timeLe)

theorem Tracks.ledger (tracks : Tracks code moved body s trace) :
    Ledger s := by
  cases tracks with
  | unstarted isNew =>
      subst isNew
      refine ⟨?_, List.nodup_nil, ?_⟩
      · intro other isSome
        by_cases root : other = 0
        · rw [root]
          exact Nat.zero_lt_one
        · simp [State.new, root] at isSome
      · intro other
        by_cases root : other = 0 <;> simp [State.new, root]
  | started _ represents =>
      cases represents with
      | runs chain | waits chain => exact chain.ledger
      | returned ended | threw ended => exact ended.ledger

/-- The coroutines that were begun are not at their initial suspend point. -/
structure Begun (s : State Local Event Reply Value Error) (names : List Nat) :
    Prop where
  once : names.Nodup
  below : ∀ name ∈ names, name < s.fresh
  later : ∀ name ∈ names, ∀ body,
    (s.frames name).map Frame.point ≠ some (.initialSuspend body)

theorem Begun.follows {names : List Nat} (begun : Begun s names)
    (follows : Follows s t) : Begun t names where
  once := begun.once
  below name mem := Nat.lt_of_lt_of_le (begun.below name mem) follows.fresh
  later name mem body pointEq :=
    begun.later name mem body
      (follows.initial name (begun.below name mem) body pointEq)

theorem Begun.append {names : List Nat} {name : Nat} (begun : Begun s names)
    (follows : Follows s t) (ledger : Ledger s)
    (notBegun : ∃ body,
      (s.frames name).map Frame.point = some (.initialSuspend body))
    (running : (t.frames name).map Frame.point = some .running) :
    Begun t (names ++ [name]) := by
  obtain ⟨body, pointEq⟩ := notBegun
  have fresh : name ∉ names := fun mem => begun.later name mem body pointEq
  have isSome : (s.frames name).isSome := by
    obtain ⟨frame, frameEq, _⟩ := Option.map_eq_some_iff.mp pointEq
    exact Option.isSome_of_eq_some frameEq
  have after := begun.follows follows
  refine ⟨?_, ?_, ?_⟩
  · exact List.nodup_append_comm.mp
      (List.nodup_cons.mpr ⟨fresh, begun.once⟩)
  · intro other mem
    rcases List.mem_append.mp mem with mem | mem
    · exact after.below other mem
    · rw [List.mem_singleton.mp mem]
      exact Nat.lt_of_lt_of_le (ledger.below name isSome) follows.fresh
  · intro other mem other_body
    rcases List.mem_append.mp mem with mem | mem
    · exact after.later other mem other_body
    · rw [List.mem_singleton.mp mem, running]
      simp

/-- What a step begins. -/
theorem Begun.step {action : Action Reply} {names : List Nat}
    (begun : Begun s names) (ledger : Ledger s)
    (stepEq : step code moved s action = some t) :
    Begun t (names ++ (TaskAwait.begun code s action).toList) := by
  cases action with
  | start =>
      rw [TaskAwait.step, State.start] at stepEq
      split at stepEq
      next body _ pointEq =>
        exact begun.append (.enter stepEq) ledger ⟨body, pointEq⟩
          (point_of_enter stepEq)
      next => contradiction
  | resume reply =>
      rw [TaskAwait.step, State.resume] at stepEq
      have nothing : (TaskAwait.begun code s (.resume reply)).toList = [] :=
        rfl
      rw [nothing, List.append_nil]
      split at stepEq
      next =>
        split at stepEq
        next => exact begun.follows (.enter stepEq)
        next => contradiction
      next => contradiction
  | run =>
      cases control : s.control with
      | runs coro current =>
          simp only [TaskAwait.step, control] at stepEq
          have follows : Follows s t := .execute stepEq
          cases codeEq : code current with
          | coAwait task awaiter next =>
              simp only [State.execute, codeEq, State.coAwait,
                Option.bind_eq_some_iff] at stepEq
              obtain ⟨frame, frameEq, awaitEq⟩ := stepEq
              cases pointEq : frame.point with
              | initialSuspend body =>
                  have begunEq : (TaskAwait.begun code s .run).toList =
                      [task] := by
                    simp [TaskAwait.begun, control, codeEq, frameEq, pointEq]
                  rw [pointEq] at awaitEq
                  rw [begunEq]
                  exact begun.append follows ledger
                    ⟨body, by rw [frameEq, Option.map_some, pointEq]⟩
                    (Follows.awaitSuspend awaitEq).2
              | _ =>
                  simpa [TaskAwait.begun, control, codeEq, frameEq, pointEq]
                    using begun.follows follows
          | _ =>
              simpa [TaskAwait.begun, control, codeEq] using
                begun.follows follows
      | _ => simp [TaskAwait.step, control] at stepEq

theorem Represents.ends
    {config : Activity.Config
      (Local × Lazy.Store Local (Outcome Value Error)) Event Reply
        (Outcome Value Error × Lazy.Store Local (Outcome Value Error))}
    (represents : Represents moved s config) {outcome : Outcome Unit Error}
    (outcomeEq : s.outcome = some outcome) :
    ∃ result : Outcome Value Error, result.map (fun _ => ()) = outcome ∧
      config = .ended (result, s.store) := by
  cases represents with
  | runs _ control => simp [State.outcome, control] at outcomeEq
  | waits _ control => simp [State.outcome, control] at outcomeEq
  | @returned value _ control rootGone =>
      simp only [State.outcome, control, rootGone, Option.isNone_none,
        if_true, Option.some.injEq] at outcomeEq
      exact ⟨.ok value, outcomeEq, rfl⟩
  | @threw error _ control =>
      simp only [State.outcome, control, Option.some.injEq] at outcomeEq
      exact ⟨.error error, outcomeEq, rfl⟩

theorem Tracks.goesOn (tracks : Tracks code moved body s trace) {coro : Nat}
    {current : Local} (control : s.control = .runs coro current) :
    (TaskAwait.step code moved s .run).isSome ∨ Misuses code s current := by
  cases tracks with
  | unstarted isNew => simp [isNew, State.new] at control
  | @started _ _ config _ represents =>
      cases config with
      | runs start callers =>
          obtain ⟨_, _, controlEq, ⟨t, stepEq, _⟩ | ⟨_, misuses, _⟩⟩ :=
            represents.run code
          · exact .inl (Option.isSome_of_eq_some stepEq)
          · rw [controlEq] at control
            obtain ⟨rfl, rfl⟩ := Control.runs.inj control
            exact .inr misuses
      | waits event next callers =>
          cases represents with
          | waits _ controlEq => simp [controlEq] at control
      | ended result =>
          cases represents with
          | returned _ controlEq | threw _ controlEq =>
              simp [controlEq] at control

theorem Tracks.resumes (tracks : Tracks code moved body s trace) {coro : Nat}
    {event : Event} (control : s.control = .waits coro event)
    (reply : Reply) :
    (TaskAwait.step code moved s (.resume reply)).isSome := by
  cases tracks with
  | unstarted isNew => simp [isNew, State.new] at control
  | @started _ _ config _ represents =>
      cases config with
      | waits event next callers =>
          obtain ⟨_, t, resumeEq, _⟩ := represents.waits_resume reply
          exact Option.isSome_of_eq_some resumeEq
      | runs start callers =>
          cases represents with
          | runs _ controlEq => simp [controlEq] at control
      | ended result =>
          cases represents with
          | returned _ controlEq | threw _ controlEq =>
              simp [controlEq] at control

theorem Tracks.begins (tracks : Tracks code moved body s trace) :
    Activity.Begins (Lazy.activity (lazy code moved))
      (body, Lazy.Store.empty 1) trace := by
  cases tracks with
  | unstarted => exact .stop
  | started reaches _ => exact reaches.begins

/-- The event that a coroutine waits for is the next one of the evaluation. -/
theorem Tracks.awaits (tracks : Tracks code moved body s trace) {coro : Nat}
    {event : Event} (control : s.control = .waits coro event)
    (reply : Reply) :
    Activity.Begins (Lazy.activity (lazy code moved))
      (body, Lazy.Store.empty 1) (trace ++ [(event, reply)]) := by
  cases tracks with
  | unstarted isNew => simp [isNew, State.new] at control
  | started reaches represents =>
      cases represents with
      | waits _ controlEq _ =>
          obtain ⟨rfl, rfl⟩ := Control.waits.inj (controlEq.symm.trans control)
          exact (reaches.reply reply).begins
      | runs _ controlEq _ | returned _ controlEq _ | threw _ controlEq =>
          simp [controlEq] at control

theorem Tracks.ends (tracks : Tracks code moved body s trace)
    {outcome : Outcome Unit Error} (outcomeEq : s.outcome = some outcome) :
    ∃ result : Outcome Value Error, result.map (fun _ => ()) = outcome ∧
      Activity.Evaluates (Lazy.activity (lazy code moved))
        (body, Lazy.Store.empty 1) trace (result, s.store) := by
  cases tracks with
  | unstarted isNew => simp [isNew, State.outcome, State.new] at outcomeEq
  | started reaches represents =>
      obtain ⟨result, resultEq, rfl⟩ := represents.ends outcomeEq
      exact ⟨result, resultEq, reaches.evaluates⟩

/-- The end of an evaluation, in the task's state. -/
theorem Represents.outcome {result : Outcome Value Error}
    {store : Lazy.Store Local (Outcome Value Error)}
    (represents : Represents moved s (.ended (result, store))) :
    s.outcome = some (result.map fun _ => ()) ∧ s.store = store := by
  cases represents with
  | returned _ control rootGone =>
      refine ⟨?_, rfl⟩
      simp only [State.outcome, control, rootGone, Option.isNone_none,
        if_true]
      rfl
  | threw _ control =>
      refine ⟨?_, rfl⟩
      simp only [State.outcome, control]
      rfl

end Tracks

end CoContext.TaskAwait
