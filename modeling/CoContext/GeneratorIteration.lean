import CoContext.GeneratorSafety

/-!
# What the consumer of a generator gets

In every run the consumer has got a beginning of the elements of the
generator, in their order, and it gets all of them before the generator is
done or throws.  Each frame is released once.
-/

namespace CoContext.Generator

variable {Local Value Error : Type}

/-- A generator that was called and not begun. -/
structure Unbegun (s : State Local Value Error) (root : Nat) (body : Local) :
    Prop where
  chain : Chain s root root []
  control : s.control = .idle
  suspended : pauseAt s.frames root = some (.initialSuspend body, none)

/-- A generator that was destroyed. -/
structure Gone (s : State Local Value Error) : Prop where
  handle : s.coro = none
  control : s.control = .idle
  released : ∀ coro, s.frames coro = none
  releasedOnce : s.destroyed.Nodup
  released_iff : ∀ coro, coro ∈ s.destroyed ↔ coro < s.fresh

/-- The state after so many steps of bodies in which these values were
yielded. -/
inductive Tracks (code : Local → Body Local Value Error) (body : Local)
    (s : State Local Value Error) : Nat → List Value → Prop
  | unbegun {root : Nat} : Unbegun s root body → Tracks code body s 0 []
  | begun {steps : Nat} {trace : List (Value × Unit)}
      {config : Activity.Config Local Value Unit (Option Error)} :
      Activity.Reaches (activity code) body steps trace config →
      Represents s config →
      Tracks code body s steps (trace.map Prod.fst ++ config.pending)
  | gone {steps : Nat} {trace : List (Value × Unit)}
      {config : Activity.Config Local Value Unit (Option Error)} :
      Activity.Reaches (activity code) body steps trace config → Gone s →
      Tracks code body s steps (trace.map Prod.fst ++ config.pending)

section Steps

variable {code : Local → Body Local Value Error} {body : Local}
variable {s t : State Local Value Error} {root coro : Nat}
variable {parents : List (Nat × (Option Error → Local))}

theorem unbegun_new (body : Local) :
    Unbegun (State.new body : State Local Value Error) 0 body where
  chain :=
    { nests := ⟨rfl, rfl⟩
      nodup := by simp
      isSome_iff := by
        intro other
        by_cases same : other = 0 <;> simp [State.new, same]
      leads := rfl
      handle := rfl
      below := by simp [State.new]
      releasedOnce := List.nodup_nil
      released_iff := by
        intro other
        by_cases same : other = 0 <;> simp [State.new, same] }
  control := rfl
  suspended := rfl

/-- A generator that is suspended somewhere is destroyed at once. -/
theorem Chain.gone (chain : Chain s root coro parents)
    {point : Point Local Error}
    (pauseEq : pauseAt s.frames coro = some (point, none))
    (suspended : point ≠ .running) (stepEq : step code s .destroy = some t) :
    Gone t := by
  rw [step, chain.handle] at stepEq
  simp only [Option.bind_eq_bind, Option.bind_some] at stepEq
  rw [chain.destroy pauseEq suspended] at stepEq
  obtain rfl : _ = t := by
    cases control : s.control with
    | runs => simp [control] at stepEq
    | _ => simpa [control] using stepEq
  refine ⟨rfl, rfl, fun _ => rfl, ?_, ?_⟩
  · refine List.nodup_append.mpr ⟨chain.releasedOnce, chain.nodup, ?_⟩
    rintro released releasedMem other otherMem rfl
    exact Option.isSome_iff_ne_none.mp ((chain.isSome_iff _).mpr otherMem)
      ((chain.released_iff _).mp releasedMem).2
  · intro other
    rw [List.mem_append, chain.released_iff, ← chain.isSome_iff,
      Option.isSome_iff_ne_none]
    constructor
    · rintro (⟨below, _⟩ | isSome)
      · exact below
      · exact chain.below other
          ((chain.isSome_iff other).mp (Option.isSome_iff_ne_none.mpr isSome))
    · intro below
      by_cases absent : s.frames other = none
      · exact .inl ⟨below, absent⟩
      · exact .inr absent

theorem Unbegun.step (unbegun : Unbegun s root body) {action : Action}
    (stepEq : step code s action = some t) :
    (action = .begin ∧ Represents t (.runs body [])) ∨
      (action = .destroy ∧ Gone t) := by
  obtain ⟨chain, control, suspended⟩ := unbegun
  obtain ⟨frame, frameEq, pauseEq⟩ := Option.map_eq_some_iff.mp suspended
  simp only [Prod.mk.injEq] at pauseEq
  cases action with
  | begin =>
      obtain ⟨_, enterEq, represents⟩ := chain.enter suspended body
      have resumed : Generator.step code s .begin = s.enter root body := by
        rw [← State.resume_initial suspended, Generator.step, chain.handle]
        simp [frameEq, control, pauseEq.1]
      rw [stepEq, enterEq, Option.some.injEq] at resumed
      subst resumed
      exact .inl ⟨rfl, represents⟩
  | increment =>
      rw [Generator.step, chain.handle] at stepEq
      simp [frameEq, control, pauseEq.1] at stepEq
  | run => simp [Generator.step, control] at stepEq
  | destroy =>
      exact .inr ⟨rfl, chain.gone suspended (by simp) stepEq⟩

/-- The generator has been begun, so that the root is not at its initial
suspend point. -/
theorem Chain.not_begin (chain : Chain s root coro parents)
    {point : Point Local Error}
    (pauseEq : pauseAt s.frames coro =
      some (point, (none : Option (NestedAwaitable Error))))
    (begun : ∀ body, point ≠ .initialSuspend body) :
    step code s .begin = none := by
  obtain ⟨frame, frameEq, _, points⟩ := chain.root_frame pauseEq
  rw [step, chain.handle]
  simp only [Option.bind_eq_bind, Option.bind_some, frameEq]
  cases pointEq : frame.point with
  | initialSuspend body =>
      rw [pointEq] at points
      rcases points with same | ⟨_, nesting⟩
      · exact absurd same.symm (begun body)
      · contradiction
  | _ => cases s.control <;> rfl

theorem Chain.not_increment (chain : Chain s root root [])
    (pauseEq : pauseAt s.frames root = some (.finalSuspend, none)) :
    step code s .increment = none := by
  obtain ⟨frame, frameEq, framePause⟩ := Option.map_eq_some_iff.mp pauseEq
  simp only [Prod.mk.injEq] at framePause
  rw [step, chain.handle]
  simp only [Option.bind_eq_bind, Option.bind_some, frameEq, framePause.1]
  cases s.control <;> rfl

/-- Nothing but the bodies goes on while they run. -/
theorem step_of_runs {body : Local} (control : s.control = .runs coro body)
    {action : Action} (stepEq : step code s action = some t) :
    action = .run := by
  cases action with
  | run => rfl
  | begin | increment | destroy =>
      exfalso
      cases handle : s.coro with
      | none => simp [step, handle] at stepEq
      | some root => simp [step, handle, control] at stepEq

/-- What a coroutine yields is what the machine reports. -/
theorem yielded_run {body : Local} {callers : List (Option Error → Local)}
    (represents : Represents s (.runs body callers)) :
    (yielded code s .run).toList =
      (Activity.advance (activity code) body callers).pending := by
  cases represents with
  | runs _ controlEq _ =>
      rw [yielded, controlEq, Activity.advance, activity]
      cases codeEq : code body with
      | coYield value next => simp [codeEq, Activity.Config.pending]
      | coYieldElements range next =>
          cases range <;> simp [codeEq, Activity.Config.pending]
      | coReturn | throws => simp [codeEq]

/-- A generator in which no body runs may be destroyed, and does nothing else
that is not an increment. -/
theorem Chain.step (chain : Chain s root coro parents)
    {point : Point Local Error}
    (pauseEq : pauseAt s.frames coro = some (point, none))
    (suspended : point ≠ .running)
    (begun : ∀ body, point ≠ .initialSuspend body)
    (rests : ∀ coro body, s.control ≠ .runs coro body) {action : Action}
    (stepEq : step code s action = some t) :
    action = .increment ∨ (action = .destroy ∧ Gone t) := by
  cases action with
  | begin =>
      rw [chain.not_begin pauseEq begun] at stepEq
      contradiction
  | increment => exact .inl rfl
  | run =>
      rw [Generator.step] at stepEq
      cases control : s.control with
      | runs coro body => exact absurd control (rests coro body)
      | _ => simp [control] at stepEq
  | destroy => exact .inr ⟨rfl, chain.gone pauseEq suspended stepEq⟩

theorem Represents.step {action : Action} {steps : Nat}
    {trace : List (Value × Unit)}
    {config : Activity.Config Local Value Unit (Option Error)}
    (reaches : Activity.Reaches (activity code) body steps trace config)
    (represents : Represents s config)
    (stepEq : step code s action = some t) :
    Tracks code body t (steps + if action = .run then 1 else 0)
      (trace.map Prod.fst ++ config.pending ++
        (yielded code s action).toList) := by
  cases config with
  | runs current callers =>
      have isRun : action = .run := by
        cases represents with
        | runs _ control _ => exact step_of_runs control stepEq
      subst isRun
      obtain ⟨_, runEq, next⟩ := represents.run code
      rw [stepEq, Option.some.injEq] at runEq
      subst runEq
      rw [yielded_run represents]
      have tracks := Tracks.begun reaches.advance next
      simpa [Activity.Config.pending] using tracks
  | waits value next callers =>
      obtain ⟨_, incrementEq, resumed⟩ := represents.increment code
      have rests : action = .increment ∨ (action = .destroy ∧ Gone t) := by
        cases represents with
        | waits chain control pauseEq _ =>
            exact chain.step pauseEq (by simp) (by simp) (by simp [control])
              stepEq
      rcases rests with rfl | ⟨rfl, gone⟩
      · rw [stepEq, Option.some.injEq] at incrementEq
        subst incrementEq
        have tracks := Tracks.begun (reaches.reply ()) resumed
        simpa [Activity.Config.pending, yielded] using tracks
      · simpa [yielded] using Tracks.gone reaches gone
  | ended result =>
      have rests : action = .destroy ∧ Gone t := by
        have rests : action = .increment ∨ (action = .destroy ∧ Gone t) := by
          cases represents with
          | returned chain control pauseEq | threw chain control pauseEq =>
              exact chain.step pauseEq (by simp) (by simp) (by simp [control])
                stepEq
        refine rests.resolve_left ?_
        rintro rfl
        cases represents with
        | returned chain _ pauseEq | threw chain _ pauseEq =>
            rw [chain.not_increment pauseEq] at stepEq
            contradiction
      obtain ⟨rfl, gone⟩ := rests
      simpa [yielded] using Tracks.gone reaches gone

theorem Gone.step (gone : Gone s) (action : Action) :
    step code s action = none := by
  cases action with
  | run => simp [Generator.step, gone.control]
  | begin | increment | destroy => simp [Generator.step, gone.handle]

theorem Tracks.step {action : Action} {steps : Nat} {values : List Value}
    (tracks : Tracks code body s steps values)
    (stepEq : step code s action = some t) :
    Tracks code body t (steps + if action = .run then 1 else 0)
      (values ++ (yielded code s action).toList) := by
  cases tracks with
  | unbegun unbegun =>
      rcases unbegun.step stepEq with ⟨rfl, represents⟩ | ⟨rfl, gone⟩
      · exact .begun .start represents
      · exact .gone .start gone
  | begun reaches represents => exact represents.step reaches stepEq
  | gone _ gone =>
      rw [gone.step] at stepEq
      contradiction

/-- How the iteration ended, if it did. -/
def outcome (s : State Local Value Error) : Option (Option Error) :=
  match s.control with
  | .idle => if s.done then some none else none
  | .threw error => some (some error)
  | .runs _ _ => none

theorem Chain.not_done (chain : Chain s root coro parents)
    {point : Point Local Error}
    (pauseEq : pauseAt s.frames coro = some (point, none))
    (goesOn : point ≠ .finalSuspend) : s.done = false := by
  obtain ⟨⟨promise, framePoint, awaitable⟩, frameEq, _, points⟩ :=
    chain.root_frame pauseEq
  have notFinal : framePoint ≠ .finalSuspend := by
    rcases points with rfl | ⟨_, rfl⟩
    · exact goesOn
    · exact nofun
  rw [State.done, chain.handle, Option.bind_some, frameEq]
  cases framePoint with
  | finalSuspend => exact absurd rfl notFinal
  | _ => rfl

theorem Represents.outcome_eq
    {config : Activity.Config Local Value Unit (Option Error)}
    (represents : Represents s config) {ends : Option Error}
    (outcomeEq : outcome s = some ends) : config = .ended ends := by
  cases represents with
  | runs _ control _ => simp [outcome, control] at outcomeEq
  | waits chain control pauseEq _ =>
      simp [outcome, control, chain.not_done pauseEq] at outcomeEq
  | returned chain control _ =>
      simp only [outcome, control] at outcomeEq
      split at outcomeEq
      · rw [Option.some.injEq] at outcomeEq
        rw [outcomeEq]
      · contradiction
  | threw chain control _ =>
      simp only [outcome, control, Option.some.injEq] at outcomeEq
      rw [outcomeEq]

theorem Chain.done (chain : Chain s root root [])
    (pauseEq : pauseAt s.frames root = some (.finalSuspend, none)) :
    s.done = true := by
  obtain ⟨⟨promise, point, awaitable⟩, frameEq, framePause⟩ :=
    Option.map_eq_some_iff.mp pauseEq
  simp only [Prod.mk.injEq] at framePause
  obtain ⟨rfl, _⟩ := framePause
  rw [State.done, chain.handle, Option.bind_some, frameEq]

end Steps

/-- The steps of the bodies. -/
def ran (_ : State Local Value Error) : Action → Option Unit
  | .run => some ()
  | _ => none

section Runs

variable {code : Local → Body Local Value Error} {body : Local}

theorem tracks_of_run (run : (system code body).Run) {time : Nat}
    (timeLe : time ≤ run.length) :
    Tracks code body (run.state time) (run.log ran 0 time).length
      (run.log (yielded code) 0 time) := by
  induction time with
  | zero =>
      rw [run.log_self, run.log_self, run.starts]
      exact .unbegun (unbegun_new body)
  | succ time ih =>
      have tracks := (ih (by omega)).step (run.steps time (by omega))
      rw [run.log_append (Nat.zero_le time) (Nat.le_succ time),
        run.log_append (Nat.zero_le time) (Nat.le_succ time), run.log_single,
        run.log_single, List.length_append]
      have count : ((ran (run.state time) (run.action time)).toList).length =
          if run.action time = .run then 1 else 0 := by
        cases run.action time <;> rfl
      rw [count]
      exact tracks

/-- What the consumer of a generator with the body `body` gets in a run. -/
structure Enumerates (code : Local → Body Local Value Error) (body : Local)
    (run : (system code body).Run) : Prop where
  goesOn : ∀ time ≤ run.length, ∀ coro current,
    (run.state time).control = .runs coro current →
      (step code (run.state time) .run).isSome
  resumes : ∀ time ≤ run.length, (run.state time).control = .idle →
    (run.state time).coro.isSome → (run.state time).done = false →
      (step code (run.state time) .begin).isSome ∨
        (step code (run.state time) .increment).isSome
  deref : ∀ time ≤ run.length, (run.state time).control = .idle →
    (run.state time).coro.isSome → (run.state time).done = false →
      run.log (yielded code) 0 time ≠ [] →
        (run.state time).deref = (run.log (yielded code) 0 time).getLast?
  begins : ∀ time ≤ run.length,
    BeginsToYield code body (run.log (yielded code) 0 time)
  ended : ∀ time ≤ run.length, ∀ ends,
    outcome (run.state time) = some ends →
      Yields code body (run.log (yielded code) 0 time) ends
  inOrder : ∀ values ends, Yields code body values ends →
    ∀ time ≤ run.length, run.log (yielded code) 0 time <+: values ∧
      ∀ other, outcome (run.state time) = some other →
        run.log (yielded code) 0 time = values ∧ other = ends

section Tracks

variable {s : State Local Value Error} {steps : Nat} {values : List Value}

theorem Tracks.goesOn (tracks : Tracks code body s steps values) {coro : Nat}
    {current : Local} (control : s.control = .runs coro current) :
    (Generator.step code s .run).isSome := by
  cases tracks with
  | unbegun unbegun =>
      rw [unbegun.control] at control
      contradiction
  | begun _ represents =>
      cases represents with
      | runs chain control pauseEq =>
          obtain ⟨_, runEq, _⟩ :=
            (Represents.runs chain control pauseEq).run code
          exact Option.isSome_of_eq_some runEq
      | waits _ idle | returned _ idle | threw _ idle =>
          rw [idle] at control
          contradiction
  | gone _ gone =>
      rw [gone.control] at control
      contradiction

theorem Tracks.resumes (tracks : Tracks code body s steps values)
    (control : s.control = .idle) (handle : s.coro.isSome)
    (notDone : s.done = false) :
    (Generator.step code s .begin).isSome ∨ (Generator.step code s .increment).isSome := by
  cases tracks with
  | @unbegun root unbegun =>
      obtain ⟨chain, _, suspended⟩ := unbegun
      obtain ⟨_, enterEq, _⟩ := chain.enter suspended body
      obtain ⟨frame, frameEq, pauseEq⟩ := Option.map_eq_some_iff.mp suspended
      simp only [Prod.mk.injEq] at pauseEq
      have begun : Generator.step code s .begin = s.enter root body := by
        rw [← State.resume_initial suspended, Generator.step, chain.handle]
        simp only [Option.bind_eq_bind, Option.bind_some, frameEq, control,
          pauseEq.1]
      rw [begun, enterEq]
      exact .inl rfl
  | begun _ represents =>
      cases represents with
      | runs _ running => simp [running] at control
      | waits chain idle pauseEq derefEq =>
          obtain ⟨_, incrementEq, _⟩ :=
            (Represents.waits chain idle pauseEq derefEq).increment code
          exact .inr (Option.isSome_of_eq_some incrementEq)
      | returned chain _ pauseEq => simp [chain.done pauseEq] at notDone
      | threw _ threw => simp [threw] at control
  | gone _ gone => simp [gone.handle] at handle

theorem Tracks.deref (tracks : Tracks code body s steps values)
    (control : s.control = .idle) (handle : s.coro.isSome)
    (notDone : s.done = false) (nonempty : values ≠ []) :
    s.deref = values.getLast? := by
  cases tracks with
  | unbegun => contradiction
  | begun _ represents =>
      cases represents with
      | runs _ running => simp [running] at control
      | waits _ _ _ derefEq => simp [derefEq, Activity.Config.pending]
      | returned chain _ pauseEq => simp [chain.done pauseEq] at notDone
      | threw _ threw => simp [threw] at control
  | gone _ gone => simp [gone.handle] at handle

theorem map_fst_map (trace : List (Value × Unit)) :
    (trace.map Prod.fst).map (fun value => (value, ())) = trace := by
  simp [Function.comp_def]

/-- The value that the consumer has got is one that the body has yielded,
before the consumer increments the iterator. -/
theorem reaches_begins {trace : List (Value × Unit)}
    {config : Activity.Config Local Value Unit (Option Error)}
    (reaches : Activity.Reaches (activity code) body steps trace config) :
    BeginsToYield code body (trace.map Prod.fst ++ config.pending) := by
  rw [BeginsToYield, List.map_append, map_fst_map]
  cases config with
  | waits value next callers => exact (reaches.reply ()).begins
  | runs | ended =>
      simp only [Activity.Config.pending, List.map_nil, List.append_nil]
      exact reaches.begins

theorem Tracks.begins (tracks : Tracks code body s steps values) :
    BeginsToYield code body values := by
  cases tracks with
  | unbegun => exact .stop
  | begun reaches | gone reaches => exact reaches_begins reaches

theorem Tracks.ended (tracks : Tracks code body s steps values)
    {ends : Option Error} (outcomeEq : outcome s = some ends) :
    Yields code body values ends := by
  cases tracks with
  | unbegun unbegun =>
      obtain ⟨chain, control, suspended⟩ := unbegun
      simp [outcome, control, chain.not_done suspended] at outcomeEq
  | @begun _ trace _ reaches represents =>
      obtain rfl := represents.outcome_eq outcomeEq
      have evaluates := reaches.evaluates
      rw [← map_fst_map trace] at evaluates
      simp only [Activity.Config.pending, List.append_nil]
      exact evaluates
  | gone _ gone =>
      simp [outcome, gone.control, State.done, gone.handle] at outcomeEq

/-- On the way to the end of the elements. -/
theorem Tracks.on_way (tracks : Tracks code body s steps values)
    {total : Nat} {whole : List (Value × Unit)} {ends : Option Error}
    (completes : Activity.Completes (activity code) (.runs body []) total
      whole ends) :
    steps ≤ total ∧ values <+: whole.map Prod.fst ∧
      ∀ other, outcome s = some other →
        values = whole.map Prod.fst ∧ other = ends := by
  have reached : ∀ {trace config},
      Activity.Reaches (activity code) body steps trace config →
        steps ≤ total ∧
          trace.map Prod.fst ++ config.pending <+: whole.map Prod.fst ∧
          ∀ other, config = .ended other →
            trace.map Prod.fst ++ config.pending = whole.map Prod.fst ∧
              other = ends := by
    intro trace config reaches
    obtain ⟨more, rest, rfl, rfl, later⟩ := reaches.on_way completes
    refine ⟨Nat.le_add_right steps more, ?_, ?_⟩
    · rw [List.map_append, List.prefix_append_right_inj]
      exact later.pending
    · rintro other rfl
      cases later with
      | ended => simp [Activity.Config.pending]
  cases tracks with
  | unbegun unbegun =>
      refine ⟨Nat.zero_le _, List.nil_prefix, ?_⟩
      intro other outcomeEq
      obtain ⟨chain, control, suspended⟩ := unbegun
      simp [outcome, control, chain.not_done suspended] at outcomeEq
  | begun reaches represents =>
      obtain ⟨below, isPrefix, whole⟩ := reached reaches
      exact ⟨below, isPrefix, fun other outcomeEq =>
        whole other (represents.outcome_eq outcomeEq)⟩
  | gone reaches gone =>
      obtain ⟨below, isPrefix, _⟩ := reached reaches
      refine ⟨below, isPrefix, ?_⟩
      intro other outcomeEq
      simp [outcome, gone.control, State.done, gone.handle] at outcomeEq

end Tracks

/-- The iteration of a generator enumerates its elements, in every run; and if
there is an end of the elements, every run gets there in a bounded number of
steps of the bodies. -/
theorem run_enumerates (code : Local → Body Local Value Error) (body : Local) :
    (∀ run : (system code body).Run, Enumerates code body run) ∧
      ∀ values ends, Yields code body values ends →
        ∃ bound, ∀ run : (system code body).Run, ∀ time ≤ run.length,
          (run.log ran 0 time).length ≤ bound := by
  constructor
  · intro run
    refine
      { goesOn := ?_, resumes := ?_, deref := ?_, begins := ?_, ended := ?_
        inOrder := ?_ }
    · intro time timeLe coro current control
      exact (tracks_of_run run timeLe).goesOn control
    · intro time timeLe control handle notDone
      exact (tracks_of_run run timeLe).resumes control handle notDone
    · intro time timeLe control handle notDone nonempty
      exact (tracks_of_run run timeLe).deref control handle notDone nonempty
    · intro time timeLe
      exact (tracks_of_run run timeLe).begins
    · intro time timeLe ends outcomeEq
      exact (tracks_of_run run timeLe).ended outcomeEq
    · intro values ends yields time timeLe
      obtain ⟨total, completes⟩ := Activity.completes_iff.mpr yields
      have later := ((tracks_of_run run timeLe).on_way completes).2
      simpa [Function.comp_def] using later
  · intro values ends yields
    obtain ⟨total, completes⟩ := Activity.completes_iff.mpr yields
    exact ⟨total, fun run time timeLe =>
      ((tracks_of_run run timeLe).on_way completes).1⟩

end Runs

/-! ### The frames -/

/-- The generator `coro` and those inside of it, each of which is kept by the
awaitable in the frame of the one before it. -/
inductive Keeps (frames : Nat → Option (Frame Local Value Error)) :
    Nat → List Nat → Prop
  | inside {coro : Nat} {frame : Frame Local Value Error} :
      frames coro = some frame → frame.awaitable = none → Keeps frames coro [coro]
  | nested {coro gen : Nat} {inner : List Nat}
      {frame : Frame Local Value Error} {awaitable : NestedAwaitable Error} :
      frames coro = some frame → frame.awaitable = some awaitable →
      awaitable.gen = some gen → awaitable.nested.parent = coro →
      infoAt frames gen = some (some coro) →
      Keeps frames gen inner → Keeps frames coro (coro :: inner)

/-- The frames that exist are kept by the handle of the generator, and the
others were destroyed once. -/
structure Owned (code : Local → Body Local Value Error)
    (s : State Local Value Error) : Prop where
  kept : ∀ root, s.coro = some root → ∃ held, Keeps s.frames root held ∧
    held.Nodup ∧ (∀ coro, coro ∈ held ↔ (s.frames coro).isSome) ∧
      topAt s.frames root = held.getLast?
  released : s.coro = none → ∀ coro, s.frames coro = none
  releasedOnce : s.destroyed.Nodup
  released_iff : ∀ coro,
    coro ∈ s.destroyed ↔ coro < s.fresh ∧ s.frames coro = none
  below : ∀ coro, (s.frames coro).isSome → coro < s.fresh
  destroys : s.coro.isSome → (∀ coro body, s.control ≠ .runs coro body) →
    ∃ t, step code s .destroy = some t ∧ t.coro = none ∧
      ∀ coro, t.frames coro = none

section Owned

variable {code : Local → Body Local Value Error} {body : Local}
variable {s : State Local Value Error} {root coro : Nat}
variable {parents : List (Nat × (Option Error → Local))}

/-- The generators that wait keep the one inside. -/
theorem Nests.keeps (nests : Nests s.frames root coro parents)
    {inner : List Nat} (keeps : Keeps s.frames coro inner) :
    ∃ held, Keeps s.frames root held ∧
      held = (parents.map Prod.fst).reverse ++ inner := by
  induction parents generalizing coro inner with
  | nil =>
      obtain ⟨rfl, _⟩ := nests
      exact ⟨inner, keeps, rfl⟩
  | cons caller parents ih =>
      obtain ⟨infoEq, pauseEq, outer⟩ := nests
      obtain ⟨frame, frameEq, pauseEq⟩ := Option.map_eq_some_iff.mp pauseEq
      simp only [Prod.mk.injEq] at pauseEq
      obtain ⟨held, rootKeeps, rfl⟩ :=
        ih outer (.nested frameEq pauseEq.2 rfl rfl infoEq keeps)
      exact ⟨_, rootKeeps, by simp⟩

theorem Chain.owned (chain : Chain s root coro parents)
    {point : Point Local Error}
    (pauseEq : pauseAt s.frames coro = some (point, none))
    (suspended : (∀ coro body, s.control ≠ .runs coro body) →
      point ≠ .running) : Owned code s where
  kept other otherEq := by
    obtain rfl : root = other :=
      Option.some.inj (chain.handle.symm.trans otherEq)
    obtain ⟨frame, frameEq, framePause⟩ := Option.map_eq_some_iff.mp pauseEq
    simp only [Prod.mk.injEq] at framePause
    obtain ⟨held, keeps, heldEq⟩ :=
      chain.nests.keeps (.inside frameEq framePause.2)
    have reversed : held = (coro :: parents.map Prod.fst).reverse := by
      rw [heldEq, List.reverse_cons]
    refine ⟨held, keeps, ?_, ?_, ?_⟩
    · rw [reversed]
      exact List.nodup_reverse.mpr chain.nodup
    · intro other
      rw [reversed, List.mem_reverse, chain.isSome_iff]
    · rw [heldEq, chain.leads, List.getLast?_concat]
  released gone := by
    rw [chain.handle] at gone
    contradiction
  releasedOnce := chain.releasedOnce
  released_iff := chain.released_iff
  below other isSome := chain.below other ((chain.isSome_iff other).mp isSome)
  destroys _ rests := by
    have stepEq : (Generator.step code s .destroy).isSome := by
      rw [Generator.step, chain.handle]
      simp only [Option.bind_eq_bind, Option.bind_some]
      rw [chain.destroy pauseEq (suspended rests)]
      cases control : s.control with
      | runs coro body => exact absurd control (rests coro body)
      | _ => rfl
    obtain ⟨t, stepEq⟩ := Option.isSome_iff_exists.mp stepEq
    have gone := chain.gone pauseEq (suspended rests) stepEq
    exact ⟨t, stepEq, gone.handle, gone.released⟩

theorem Tracks.owned {steps : Nat} {values : List Value}
    (tracks : Tracks code body s steps values) : Owned code s := by
  cases tracks with
  | unbegun unbegun =>
      exact unbegun.chain.owned unbegun.suspended fun _ => by simp
  | begun _ represents =>
      cases represents with
      | runs chain control pauseEq =>
          exact chain.owned pauseEq fun rests => absurd control (rests _ _)
      | waits chain _ pauseEq => exact chain.owned pauseEq fun _ => by simp
      | returned chain _ pauseEq => exact chain.owned pauseEq fun _ => by simp
      | threw chain _ pauseEq => exact chain.owned pauseEq fun _ => by simp
  | gone _ gone =>
      refine
        { kept := ?_, released := fun _ => gone.released
          releasedOnce := gone.releasedOnce, released_iff := ?_, below := ?_
          destroys := ?_ }
      · intro root handle
        rw [gone.handle] at handle
        contradiction
      · intro coro
        simp [gone.released_iff, gone.released]
      · intro coro isSome
        simp [gone.released] at isSome
      · intro handle
        simp [gone.handle] at handle

end Owned

/-- Whatever was iterated and nested, the frames that exist are those of the
generators that are inside of each other, every other one was destroyed once,
and a generator may be destroyed with all of them while no body runs. -/
theorem reachable_owned {code : Local → Body Local Value Error} {body : Local}
    {s : State Local Value Error} (reached : (system code body).Reachable s) :
    Owned code s := by
  have tracks : ∃ steps values, Tracks code body s steps values := by
    induction reached with
    | start isInitial =>
        obtain rfl : _ = State.new body := isInitial
        exact ⟨_, _, .unbegun (unbegun_new body)⟩
    | next _ _ stepEq ih =>
        obtain ⟨_, _, tracks⟩ := ih
        exact ⟨_, _, tracks.step stepEq⟩
  obtain ⟨_, _, tracks⟩ := tracks
  exact tracks.owned

/-- A generator with so many ones inside of each other. -/
def deep : Nat → Body Nat Unit Unit
  | 0 => .coReturn
  | depth + 1 => .coYieldElements (some depth) fun _ => 0

theorem reachable_owned_nested :
    ∃ s, (system deep 2).exec (State.new 2) [.begin, .run, .run] = some s ∧
      s.control = .runs 2 0 ∧
      ∃ held, Keeps s.frames 0 held ∧ topAt s.frames 0 = held.getLast? := by
  have execSome : ((system deep 2).exec (State.new 2)
      [.begin, .run, .run]).isSome := rfl
  obtain ⟨s, execEq⟩ := Option.isSome_iff_exists.mp execSome
  have reached : (system deep 2).Reachable s :=
    TransitionSystem.Reachable.exec (.start rfl) execEq
  have view : ((system deep 2).exec (State.new 2)
      [.begin, .run, .run]).map (fun s => (s.control, s.coro)) =
        some (.runs 2 0, some 0) := rfl
  rw [execEq, Option.map_some, Option.some.injEq, Prod.mk.injEq] at view
  obtain ⟨held, keeps, _, _, leads⟩ :=
    (reachable_owned reached).kept 0 view.2
  exact ⟨s, execEq, view.1, held, keeps, leads⟩

end CoContext.Generator
