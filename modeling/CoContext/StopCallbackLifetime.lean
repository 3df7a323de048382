import CoContext.StopCallbackTransition

/-!
# Construction and destruction of stop callbacks

The remaining steps: those of the constructor and the destructor of a callback,
with the sections that link and unlink it.
-/

namespace CoContext.StopCallback

variable {Thread Cb : Type*}
variable {s s' : State Thread Cb} {g g' : Ghost Thread Cb}
variable {thread : Thread} {cb : Cb} {before : Pc Cb}

/-- The life of a callback goes on. -/
theorem CbSound.relive (sound : CbSound s g cb) (life : Life)
    (lifeEq : s'.life cb = life) (placeEq : s'.place cb = s.place cb)
    (fits : (s.place cb).fits life = true) (notAbsent : life ≠ .absent)
    (lateEq : s'.late cb = s.late cb) (ranEq : s'.ran cb = s.ran cb)
    (lateRan : s.late cb = true → life ≠ .constructing → s.ran cb = 1)
    (prev : s'.mPrev cb = s.mPrev cb)
    (done : s.place cb ≠ .finished → s'.mDone cb = s.mDone cb)
    (finished : s.place cb = .finished → life ≠ .destroyed →
      s'.mDone cb = 1 ∧ s'.mDestroyed cb = none)
    (worker : g'.worker cb ≠ none → life = .constructing ∨ life = .destroying)
    (phase : g'.phase = g.phase) : CbSound s' g' cb := by
  constructor
  case fits => rwa [placeEq, lifeEq]
  case worker => rwa [lifeEq]
  case prev =>
    rw [placeEq, prev]
    exact sound.prev
  case late =>
    rw [lateEq, placeEq, lifeEq, phase]
    intro isLate
    obtain ⟨isNever, isRequested, _⟩ := sound.late isLate
    exact ⟨isNever, isRequested, notAbsent⟩
  case lateRan => rwa [lateEq, lifeEq, ranEq]
  case ran =>
    rw [placeEq, ranEq]
    exact sound.ran
  case ranLe =>
    rw [ranEq]
    exact sound.ranLe
  case absent => exact fun isAbsent => absurd (lifeEq.symm.trans isAbsent) notAbsent
  case done =>
    rw [placeEq]
    exact fun notFinished => (done notFinished).trans (sound.done notFinished)
  case finished => rwa [placeEq, lifeEq]

theorem destroyed_update_iff [DecidableEq Cb] {life : Life}
    (lives : s.life cb ≠ .destroyed) (stillLives : life ≠ .destroyed)
    (other : Cb) : Function.update s.life cb life other = .destroyed ↔
      s.life other = .destroyed := by
  by_cases isCb : other = cb
  · simp [isCb, lives, stillLives]
  · rw [Function.update_of_ne isCb]

/-- A thread that constructs a callback is not inside of it. -/
theorem ThreadSound.ne_constructed {call : Call Cb}
    (sound : ThreadSound s g thread)
    (constructs : (s.pc thread).constructs = some cb)
    (isNever : s.place cb = .never) (inside : call ∈ s.calls thread) :
    call.cb ≠ cb := by
  rintro rfl
  cases call with
  | stop cb lastCb =>
      exact absurd (isNever.symm.trans (sound.calls _ inside).place) (by simp)
  | register cb =>
      have nodup := sound.nodup
      rw [State.constructing, constructs] at nodup
      apply (List.nodup_cons.mp nodup).1
      exact List.mem_filterMap.mpr ⟨_, inside, rfl⟩

variable [DecidableEq Thread] [DecidableEq Cb]

section Construction

/-- A constructor begins. -/
theorem Represents.construct (sound : Represents s g)
    (pcEq : s.pc thread = .user) (isAbsent : s.life cb = .absent) :
    Represents
      { (s.setLife cb .constructing).setPc thread (.registerLoad cb) with
        late := Function.update s.late cb s.mValue.stopRequested }
      { g with worker := Function.update g.worker cb (some thread) } := by
  have threadSound := sound.thread thread
  have global := sound.global
  have cbSound := global.callback cb
  have isNever : s.place cb = .never := by
    have fits := cbSound.fits
    rw [isAbsent] at fits
    cases placeEq : s.place cb <;> simp_all [Place.fits]
  have notRan := cbSound.absent isAbsent
  have noWorker : g.worker cb = none := by
    by_contra works
    have life := cbSound.worker works
    simp [isAbsent] at life
  have destroyedIff (other : Cb) :
      Function.update s.life cb .constructing other = .destroyed ↔
        s.life other = .destroyed :=
    destroyed_update_iff (by simp [isAbsent]) (by simp) other
  apply sound.advance thread
  case guarantee =>
    constructor
    case pc => exact fun other isOther => Function.update_of_ne isOther ..
    case phase => exact .inl rfl
    case worker =>
      intro other worker _ works
      have notCb : other ≠ cb := by
        rintro rfl
        simp [noWorker] at works
      exact ⟨(Function.update_of_ne notCb ..).trans works,
        Function.update_of_ne notCb .., Function.update_of_ne notCb ..,
        fun _ => rfl⟩
    case place => exact fun cb => .same _
    case handled =>
      exact fun other _ _ =>
        ⟨rfl, rfl, fun handled _ => ⟨destroyedIff handled, rfl⟩⟩
    all_goals intros; first | rfl | assumption
  case global =>
    refine ⟨global.locked_iff, global.stop_iff, global.chain, global.nodup,
      global.mem_cbs, global.handled_iff, global.phase, ?_, ?_⟩
    · intro other isListed isConstructing
      apply global.linking_update (by simp [pcEq]) isListed
      have notCb : other ≠ cb := by
        rintro rfl
        exact absurd (isListed.symm.trans isNever) (by simp)
      simpa [State.setPc, State.setLife, notCb] using isConstructing
    · intro other
      by_cases isCb : other = cb
      · subst isCb
        have lateIff : (Function.update s.late other s.mValue.stopRequested)
            other = true ↔ g.phase ≠ .quiet := by
          rw [Function.update_self]
          exact global.stop_iff
        have isConstructing : (Function.update s.life other .constructing)
            other = .constructing := Function.update_self ..
        constructor
        case fits =>
          simp [State.setPc, State.setLife, isNever, Place.fits]
        case worker => exact fun _ => .inl isConstructing
        case prev => exact cbSound.prev
        case late =>
          intro isLate
          refine ⟨isNever, lateIff.mp isLate, ?_⟩
          simp [State.setPc, State.setLife]
        case lateRan =>
          exact fun _ notConstructing => absurd isConstructing notConstructing
        case ran => exact cbSound.ran
        case ranLe => exact cbSound.ranLe
        case absent => exact fun _ => notRan
        case done => exact cbSound.done
        case finished =>
          exact fun isFinished =>
            absurd (isNever.symm.trans isFinished) (by simp)
      · apply (global.callback other).congr
        case life => exact Function.update_of_ne isCb ..
        case late => exact Function.update_of_ne isCb ..
        case worker => simp [isCb]
        case prev => exact fun _ _ => rfl
        case phase => exact id
        all_goals rfl
  case own =>
    have notConstructing : cb ∉ s.constructing thread := by
      intro isConstructing
      have life := (threadSound.constructing cb isConstructing).2
      simp [isAbsent] at life
    have constructingEq : s.constructing thread =
        (s.calls thread).filterMap Call.constructs := by
      rw [State.constructing, pcEq]
      rfl
    apply threadSound.change (.registerLoad cb) (s.calls thread)
    case pcEq => exact Function.update_self ..
    case callsEq => rfl
    case requests =>
      rw [State.requests, pcEq]
      rfl
    case taken =>
      have taken := threadSound.taken_at pcEq
      exact taken
    case owner =>
      have owner := threadSound.owner_at pcEq
      exact owner
    case phase => rfl
    case requester =>
      exact fun isActive => threadSound.isRequester isActive (by simp [pcEq])
    case constructing =>
      rw [← constructingEq]
      intro other isMember
      rcases List.mem_append.mp isMember with isNew | isOld
      · obtain rfl : other = cb := by simpa [Pc.constructs] using isNew
        exact ⟨Function.update_self .., Function.update_self ..⟩
      · have notCb : other ≠ cb := by
          rintro rfl
          exact notConstructing isOld
        obtain ⟨works, isConstructing⟩ := threadSound.constructing other isOld
        exact ⟨(Function.update_of_ne notCb ..).trans works,
          (Function.update_of_ne notCb ..).trans isConstructing⟩
    case nodup =>
      rw [← constructingEq]
      simpa [Pc.constructs, notConstructing] using threadSound.nodup
    case relies => exact ⟨isNever, notRan⟩
    case inside =>
      exact fun call inside => (threadSound.calls call inside).congr rfl rfl
        (destroyedIff call.cb) rfl rfl id

/-- The section of `register_callback`. -/
theorem Represents.link (sound : Represents s g)
    (pcEq : s.pc thread = .registerLink cb) :
    Represents (s.link thread cb) { g with cbs := cb :: g.cbs } := by
  have threadSound := sound.thread thread
  have global := sound.global
  have cbSound := global.callback cb
  have constructs : (s.pc thread).constructs = some cb := pcEq ▸ rfl
  obtain ⟨works, isConstructing⟩ := threadSound.worker_of_pc constructs
  have relied := threadSound.pc
  rw [pcEq] at relied
  obtain ⟨isNever, notRan, isQuiet, notLate⟩ := relied
  have notIn : cb ∉ g.cbs := by
    intro isMember
    have isListed := (global.mem_cbs cb).mp isMember
    exact absurd (isNever.symm.trans isListed) (by simp)
  apply sound.advance thread
  case guarantee =>
    constructor
    case pc => exact fun other isOther => Function.update_of_ne isOther ..
    case phase => exact .inl rfl
    case worker =>
      exact fun cb other _ works => ⟨works, rfl, rfl, fun _ => rfl⟩
    case place => exact placeStep_update (isNever ▸ .link works isQuiet)
    case cbs => exact fun isRequested => absurd isQuiet isRequested
    case handled => exact fun other _ _ => ⟨rfl, rfl, fun _ _ => ⟨Iff.rfl, rfl⟩⟩
    all_goals intros; rfl
  case global =>
    constructor
    case locked_iff => exact global.locked_iff
    case stop_iff => exact global.stop_iff
    case chain =>
      exact global.chain.push global.nodup notIn
        (cbSound.prev (by simp [isNever]) (by simp [isNever]))
    case nodup => exact List.nodup_cons.mpr ⟨notIn, global.nodup⟩
    case mem_cbs =>
      intro other
      by_cases isCb : other = cb
      · simp [State.link, State.setPc, State.setPlace, isCb]
      · simp [State.link, State.setPc, State.setPlace, isCb, global.mem_cbs]
    case handled_iff => exact global.handled_iff_setPlace (by simp [isNever])
    case phase =>
      have phase := global.phase
      rw [isQuiet] at phase
      simp only [isQuiet]
      exact phase
    case linking =>
      intro other isListed isConstructing'
      by_cases isCb : other = cb
      · rw [isCb]
        exact ⟨thread, Function.update_self ..⟩
      · apply global.linking_update (by simp [pcEq]) _ isConstructing'
        simpa [State.link, State.setPc, State.setPlace, isCb] using isListed
    case callback =>
      intro other
      by_cases isCb : other = cb
      · subst isCb
        have placeEq : (s.link thread other).place other = .listed :=
          Function.update_self ..
        constructor
        case fits =>
          rw [placeEq]
          exact isConstructing ▸ rfl
        case worker => exact fun _ => .inl isConstructing
        case prev => simp [placeEq]
        case late => exact fun isLate => absurd (notLate.symm.trans isLate) (by simp)
        case lateRan =>
          exact fun isLate => absurd (notLate.symm.trans isLate) (by simp)
        case ran =>
          rw [placeEq]
          exact fun _ => notRan
        case ranLe => exact cbSound.ranLe
        case absent => exact cbSound.absent
        case done => exact fun _ => cbSound.done (by simp [isNever])
        case finished => simp [placeEq]
      · apply (global.callback other).congr
        case place => exact Function.update_of_ne isCb ..
        case prev =>
          intro notListed _
          apply setAt_of_ne
          intro headEq
          have chain := global.chain
          rw [headEq] at chain
          exact notListed ((global.mem_cbs other).mp chain.head_mem)
        case worker => exact id
        case phase => exact id
        all_goals rfl
  case own =>
    have alike : Pc.Alike (.registerLink cb) (.registerUnlock cb) :=
      ⟨rfl, rfl, rfl, by simp⟩
    apply threadSound.stay pcEq alike
    case movedEq => exact Function.update_self ..
    case owner =>
      have owner := threadSound.owner_at pcEq
      exact owner
    case requester =>
      exact fun isActive => threadSound.isRequester isActive (by simp [pcEq])
    case worker => exact fun _ _ => ⟨rfl, rfl⟩
    case relies => exact ⟨Function.update_self .., isQuiet⟩
    case inside =>
      intro call inside
      have callSound := threadSound.calls call inside
      have notCb := threadSound.ne_constructed constructs isNever inside
      cases call with
      | stop other lastCb =>
          have isActive := threadSound.active_of_call inside
          exact absurd (isQuiet.symm.trans isActive) (by simp)
      | register other =>
          exact ⟨(Function.update_of_ne notCb ..).trans callSound.1,
            callSound.2⟩
    all_goals rfl

/-- A constructor that comes too late calls its callback. -/
theorem Represents.callLate {old : Value} (sound : Represents s g)
    (pcEq : s.pc thread = .registerTry cb old) :
    Represents (s.call thread (.register cb)) g := by
  have threadSound := sound.thread thread
  have global := sound.global
  have cbSound := global.callback cb
  have constructs : (s.pc thread).constructs = some cb := pcEq ▸ rfl
  obtain ⟨works, isConstructing⟩ := threadSound.worker_of_pc constructs
  have relied := threadSound.pc
  rw [pcEq] at relied
  obtain ⟨isNever, notRan, _⟩ := relied
  have ranOnce : (s.call thread (.register cb)).ran cb = 1 := by
    simp [State.call, Call.cb, State.setPc, notRan]
  apply sound.advance thread
  case guarantee =>
    constructor
    case pc => exact fun other isOther => Function.update_of_ne isOther ..
    case calls => exact fun other isOther => Function.update_of_ne isOther ..
    case phase => exact .inl rfl
    case worker =>
      intro other worker isOther works'
      refine ⟨works', rfl, rfl, fun _ => ?_⟩
      apply Function.update_of_ne
      rintro rfl
      exact isOther (Option.some.inj (works'.symm.trans works))
    case place => exact fun cb => .same _
    case handled => exact fun other _ _ => ⟨rfl, rfl, fun _ _ => ⟨Iff.rfl, rfl⟩⟩
    all_goals intros; first | rfl | assumption
  case global =>
    refine ⟨global.locked_iff, global.stop_iff, global.chain, global.nodup,
      global.mem_cbs, global.handled_iff, global.phase, ?_, ?_⟩
    · intro other
      apply global.linking_update
      simp [pcEq]
    · intro other
      by_cases isCb : other = cb
      · subst isCb
        constructor
        case fits => exact cbSound.fits
        case worker => exact cbSound.worker
        case prev => exact cbSound.prev
        case late => exact cbSound.late
        case lateRan => exact fun _ _ => ranOnce
        case ran => exact fun notNever => absurd isNever notNever
        case ranLe => exact Nat.le_of_eq ranOnce
        case absent =>
          exact fun isAbsent =>
            absurd (isConstructing.symm.trans isAbsent) (by simp)
        case done => exact cbSound.done
        case finished => exact cbSound.finished
      · apply (global.callback other).congr
        case ran => exact Function.update_of_ne isCb ..
        case prev => exact fun _ _ => rfl
        case worker => exact id
        case phase => exact id
        all_goals rfl
  case own =>
    apply threadSound.move .user (.register cb :: s.calls thread)
    case pcEq => exact Function.update_self ..
    case callsEq => exact Function.update_self ..
    case requests =>
      rw [State.requests, pcEq]
      rfl
    case taken =>
      have taken := threadSound.taken_at pcEq
      exact taken
    case owner =>
      have owner := threadSound.owner_at pcEq
      exact owner
    case phase => rfl
    case requester =>
      exact fun isActive => threadSound.isRequester isActive (by simp [pcEq])
    case constructing =>
      rw [State.constructing, pcEq]
      rfl
    case worker => exact fun _ _ => ⟨rfl, rfl⟩
    case relies => trivial
    case inside =>
      intro call inside
      rcases List.mem_cons.mp inside with rfl | inside
      · exact ⟨isNever, ranOnce⟩
      · have notCb := threadSound.ne_constructed constructs isNever inside
        exact (threadSound.calls call inside).congr rfl
          (Function.update_of_ne notCb ..) Iff.rfl rfl rfl id

/-- The constructor returns; it may unlock. -/
theorem Represents.constructed {hasState : Bool} {mValue : Value}
    (sound : Represents s g) (owner : Option Thread)
    (pcEq : s.pc thread = before)
    (notInLoop : before.inLoop = false) (takesNone : before.takes = none)
    (constructs : before.constructs = some cb)
    (fits : (s.place cb).fits (.alive hasState) = true)
    (lateRan : s.late cb = true → s.ran cb = 1)
    (others : ∀ other, other ≠ thread →
      (owner = some other ↔ g.owner = some other))
    (own : owner ≠ some thread)
    (locked : mValue.locked = true ↔ owner ≠ none)
    (stop : mValue.stopRequested = s.mValue.stopRequested) :
    Represents { s.constructed thread cb hasState with mValue := mValue }
      { g with owner := owner, worker := Function.update g.worker cb none } := by
  have threadSound := sound.thread thread
  have global := sound.global
  have cbSound := global.callback cb
  obtain ⟨works, isConstructing⟩ :=
    threadSound.worker_of_pc (pcEq ▸ constructs)
  have destroyedIff (other : Cb) :
      Function.update s.life cb (.alive hasState) other = .destroyed ↔
        s.life other = .destroyed :=
    destroyed_update_iff (by simp [isConstructing]) (by simp) other
  apply sound.advance thread
  case guarantee =>
    constructor
    case pc => exact fun other isOther => Function.update_of_ne isOther ..
    case owner => exact others
    case phase => exact .inl rfl
    case worker =>
      intro other worker isOther works'
      have notCb : other ≠ cb := by
        rintro rfl
        exact isOther (Option.some.inj (works'.symm.trans works))
      exact ⟨(Function.update_of_ne notCb ..).trans works',
        Function.update_of_ne notCb .., rfl, fun _ => rfl⟩
    case place => exact fun cb => .same _
    case handled =>
      exact fun other _ _ =>
        ⟨rfl, rfl, fun handled _ => ⟨destroyedIff handled, rfl⟩⟩
    all_goals intros; first | rfl | assumption
  case global =>
    constructor
    case locked_iff => exact locked
    case stop_iff =>
      simp only [stop]
      exact global.stop_iff
    case chain => exact global.chain
    case nodup => exact global.nodup
    case mem_cbs => exact global.mem_cbs
    case handled_iff => exact global.handled_iff
    case phase => exact global.phase
    case linking =>
      intro other isListed isConstructing'
      have notCb : other ≠ cb := by
        rintro rfl
        simp [State.constructed, State.setPc, State.setLife] at isConstructing'
      obtain ⟨linker, linkerPc⟩ := global.linking other isListed (by
        simpa [State.constructed, State.setPc, State.setLife, notCb]
          using isConstructing')
      refine ⟨linker, (Function.update_of_ne ?_ ..).trans linkerPc⟩
      rintro rfl
      rw [pcEq] at linkerPc
      rw [linkerPc] at constructs
      exact notCb (Option.some.inj constructs)
    case callback =>
      intro other
      by_cases isCb : other = cb
      · subst isCb
        apply cbSound.relive (.alive hasState)
        case lifeEq => exact Function.update_self ..
        case fits => exact fits
        case finished =>
          exact fun isFinished _ =>
            cbSound.finished isFinished (by simp [isConstructing])
        case lateRan => exact fun isLate _ => lateRan isLate
        case worker => simp
        case done => exact fun _ => rfl
        case notAbsent => simp
        all_goals rfl
      · apply (global.callback other).congr
        case life => exact Function.update_of_ne isCb ..
        case worker => simp [isCb]
        case prev => exact fun _ _ => rfl
        case phase => exact id
        all_goals rfl
  case own =>
    have nodup := threadSound.nodup_at pcEq
    have constructing := threadSound.constructing_at pcEq
    rw [constructs] at nodup constructing
    apply threadSound.change .user (s.calls thread)
    case pcEq => exact Function.update_self ..
    case callsEq => rfl
    case requests =>
      rw [State.requests, pcEq, notInLoop]
      rfl
    case taken =>
      have taken := threadSound.taken_at pcEq
      rw [takesNone] at taken
      exact taken
    case owner => simp [Pc.holdsLock, own]
    case phase => rfl
    case requester =>
      intro isActive
      apply threadSound.isRequester isActive
      rintro isEnter
      rw [← pcEq, isEnter] at constructs
      cases constructs
    case constructing =>
      intro other isMember
      have notCb : other ≠ cb := by
        rintro rfl
        exact (List.nodup_cons.mp nodup).1 isMember
      obtain ⟨works', isConstructing'⟩ :=
        constructing other (List.mem_cons_of_mem _ isMember)
      exact ⟨(Function.update_of_ne notCb ..).trans works',
        (Function.update_of_ne notCb ..).trans isConstructing'⟩
    case nodup => exact (List.nodup_cons.mp nodup).2
    case relies => trivial
    case inside =>
      exact fun call inside => (threadSound.calls call inside).congr rfl rfl
        (destroyedIff call.cb) rfl rfl id

end Construction

section Destruction

/-- A destructor begins. -/
theorem Represents.beginDestroy (sound : Represents s g)
    (pcEq : s.pc thread = .user) (isAlive : s.life cb = .alive true) :
    Represents ((s.setLife cb .destroying).setPc thread (.removeLoad cb))
      { g with worker := Function.update g.worker cb (some thread) } := by
  have threadSound := sound.thread thread
  have global := sound.global
  have cbSound := global.callback cb
  have fits := cbSound.fits
  rw [isAlive] at fits
  have noWorker : g.worker cb = none := by
    by_contra works
    have life := cbSound.worker works
    simp [isAlive] at life
  have destroyedIff (other : Cb) :
      Function.update s.life cb .destroying other = .destroyed ↔
        s.life other = .destroyed :=
    destroyed_update_iff (by simp [isAlive]) (by simp) other
  have constructingNe (other : Cb) (isConstructing : s.life other = .constructing) :
      other ≠ cb := by
    rintro rfl
    simp [isAlive] at isConstructing
  apply sound.advance thread
  case guarantee =>
    constructor
    case pc => exact fun other isOther => Function.update_of_ne isOther ..
    case phase => exact .inl rfl
    case worker =>
      intro other worker _ works
      have notCb : other ≠ cb := by
        rintro rfl
        simp [noWorker] at works
      exact ⟨(Function.update_of_ne notCb ..).trans works,
        Function.update_of_ne notCb .., rfl, fun _ => rfl⟩
    case place => exact fun cb => .same _
    case handled =>
      exact fun other _ _ =>
        ⟨rfl, rfl, fun handled _ => ⟨destroyedIff handled, rfl⟩⟩
    all_goals intros; first | rfl | assumption
  case global =>
    refine ⟨global.locked_iff, global.stop_iff, global.chain, global.nodup,
      global.mem_cbs, global.handled_iff, global.phase, ?_, ?_⟩
    · intro other isListed isConstructing
      apply global.linking_update (by simp [pcEq]) isListed
      have notCb : other ≠ cb := by
        rintro rfl
        simp [State.setPc, State.setLife] at isConstructing
      simpa [State.setPc, State.setLife, notCb] using isConstructing
    · intro other
      by_cases isCb : other = cb
      · subst isCb
        apply cbSound.relive .destroying
        case lifeEq => exact Function.update_self ..
        case fits => cases placeEq : s.place other <;> simp_all [Place.fits]
        case finished =>
          exact fun isFinished _ =>
            cbSound.finished isFinished (by simp [isAlive])
        case lateRan =>
          exact fun isLate _ => cbSound.lateRan isLate (by simp [isAlive])
        case worker => simp
        case done => exact fun _ => rfl
        case notAbsent => simp
        all_goals rfl
      · apply (global.callback other).congr
        case life => exact Function.update_of_ne isCb ..
        case worker => simp [isCb]
        case prev => exact fun _ _ => rfl
        case phase => exact id
        all_goals rfl
  case own =>
    have alike : Pc.Alike (.user) (.removeLoad cb) :=
      ⟨rfl, rfl, rfl, by simp⟩
    apply threadSound.stay pcEq alike
    case movedEq => exact Function.update_self ..
    case owner =>
      have owner := threadSound.owner_at pcEq
      exact owner
    case requester =>
      exact fun isActive => threadSound.isRequester isActive (by simp [pcEq])
    case worker =>
      intro other isConstructing
      have notCb :=
        constructingNe other (threadSound.constructing other isConstructing).2
      exact ⟨Function.update_of_ne notCb .., Function.update_of_ne notCb ..⟩
    case relies =>
      refine ⟨⟨Function.update_self .., Function.update_self ..⟩, ?_⟩
      intro isUnlinked
      have isUnlinked : s.place cb = .unlinked := isUnlinked
      simp [isUnlinked, Place.fits] at fits
    case inside =>
      exact fun call inside => (threadSound.calls call inside).congr rfl rfl
        (destroyedIff call.cb) rfl rfl id
    all_goals rfl

/-- The destructor returns; it may unlock, write `*m_destroyed` or take a token
of `m_done`. -/
theorem Represents.destroy {mValue : Value} {flags : Thread → Bool}
    {dones : Cb → Nat} (sound : Represents s g) (owner : Option Thread)
    (pcEq : s.pc thread = before) (notInLoop : before.inLoop = false)
    (takesNone : before.takes = none) (constructsNone : before.constructs = none)
    (works : ∀ other, g.worker cb = some other → other = thread)
    (life : s.life cb = .destroying ∨ s.life cb = .alive false)
    (fits : (s.place cb).fits .destroyed = true)
    (unhandled : ∀ other, other ≠ thread → g.phase = .active other →
      g.handled ≠ some cb)
    (flagsEq : ∀ other, other ≠ thread → flags other = s.destroyed other)
    (flagged : ∀ lastCb, .stop cb lastCb ∈ s.calls thread →
      flags thread = true)
    (unflagged : ∀ other lastCb, .stop other lastCb ∈ s.calls thread →
      other ≠ cb → flags thread = s.destroyed thread)
    (donesEq : ∀ other, other ≠ cb ∨ s.place cb ≠ .finished →
      dones other = s.mDone other)
    (others : ∀ other, other ≠ thread →
      (owner = some other ↔ g.owner = some other))
    (own : owner ≠ some thread)
    (locked : mValue.locked = true ↔ owner ≠ none)
    (stop : mValue.stopRequested = s.mValue.stopRequested) :
    Represents
      { s.destroy thread cb with
        mValue := mValue, destroyed := flags, mDone := dones }
      { g with owner := owner, worker := Function.update g.worker cb none } := by
  have threadSound := sound.thread thread
  have global := sound.global
  have cbSound := global.callback cb
  have settled (other : Cb) : s.pc thread ≠ .registerUnlock other := by
    intro isLinking
    rw [← pcEq, isLinking] at constructsNone
    cases constructsNone
  have lifeEq (other : Cb) (isOther : other ≠ cb) :
      Function.update s.life cb .destroyed other = s.life other :=
    Function.update_of_ne isOther ..
  have constructingNe (other : Cb)
      (isConstructing : s.life other = .constructing) : other ≠ cb := by
    rintro rfl
    simp [isConstructing] at life
  apply sound.advance thread
  case guarantee =>
    constructor
    case pc => exact fun other isOther => Function.update_of_ne isOther ..
    case destroyed => exact flagsEq
    case owner => exact others
    case phase => exact .inl rfl
    case worker =>
      intro other worker isOther works'
      have notCb : other ≠ cb := by
        rintro rfl
        exact isOther (works worker works')
      exact ⟨(Function.update_of_ne notCb ..).trans works', lifeEq other notCb,
        rfl, fun _ => rfl⟩
    case place => exact fun cb => .same _
    case handled =>
      intro other isOther isActive
      refine ⟨rfl, rfl, fun handled isHandled => ⟨?_, rfl⟩⟩
      have notCb : handled ≠ cb := by
        rintro rfl
        exact unhandled other isOther isActive isHandled
      simp [State.destroy, State.setPc, State.setLife, notCb]
    all_goals intros; first | rfl | assumption
  case global =>
    constructor
    case locked_iff => exact locked
    case stop_iff =>
      simp only [stop]
      exact global.stop_iff
    case chain => exact global.chain
    case nodup => exact global.nodup
    case mem_cbs => exact global.mem_cbs
    case handled_iff => exact global.handled_iff
    case phase => exact global.phase
    case linking =>
      intro other isListed isConstructing
      apply global.linking_update settled isListed
      have notCb : other ≠ cb := by
        rintro rfl
        simp [State.destroy, State.setPc, State.setLife] at isConstructing
      simpa [State.destroy, State.setPc, State.setLife, notCb]
        using isConstructing
    case callback =>
      intro other
      by_cases isCb : other = cb
      · subst isCb
        apply cbSound.relive .destroyed
        case lifeEq => exact Function.update_self ..
        case fits => exact fits
        case finished => simp
        case lateRan =>
          intro isLate _
          apply cbSound.lateRan isLate
          rcases life with life | life <;> simp [life]
        case worker => simp
        case done => exact fun notFinished => donesEq other (.inr notFinished)
        case notAbsent => simp
        all_goals rfl
      · apply (global.callback other).congr
        case life => exact lifeEq other isCb
        case worker => simp [isCb]
        case done => exact donesEq other (.inl isCb)
        case prev => exact fun _ _ => rfl
        case phase => exact id
        all_goals rfl
  case own =>
    have constructingEq : s.constructing thread =
        (s.calls thread).filterMap Call.constructs := by
      rw [State.constructing, pcEq, constructsNone]
      rfl
    apply threadSound.move .user (s.calls thread)
    case pcEq => exact Function.update_self ..
    case callsEq => rfl
    case requests =>
      rw [State.requests, pcEq, notInLoop]
      rfl
    case taken =>
      have taken := threadSound.taken_at pcEq
      rw [takesNone] at taken
      exact taken
    case owner => simp [Pc.holdsLock, own]
    case phase => rfl
    case requester =>
      intro isActive
      apply threadSound.isRequester isActive
      intro isEnter
      rw [← pcEq, isEnter] at notInLoop
      cases notInLoop
    case constructing => exact constructingEq.symm
    case worker =>
      intro other isConstructing
      have notCb :=
        constructingNe other (threadSound.constructing other isConstructing).2
      exact ⟨Function.update_of_ne notCb .., lifeEq other notCb⟩
    case relies => trivial
    case inside =>
      intro call inside
      have callSound := threadSound.calls call inside
      cases call with
      | register other => exact callSound
      | stop other lastCb =>
          by_cases isCb : other = cb
          · subst isCb
            refine ⟨callSound.place, callSound.last, ?_, ?_⟩
            · simp [State.destroy, State.setPc, State.setLife,
                flagged lastCb inside]
            · simp [State.destroy, State.setPc, State.setLife]
          · refine callSound.congr rfl rfl ?_ rfl
              (unflagged other lastCb inside isCb) id
            simp [State.destroy, State.setPc, State.setLife, Call.cb, isCb]

/-- A callback is taken out of the list, wherever it is. -/
theorem Represents.unlinked {head : Option Cb} {nexts prevs : Cb → Option Cb}
    {cbs : List Cb} (sound : Represents s g)
    (pcEq : s.pc thread = .removeUnlink cb) (isListed : s.place cb = .listed)
    (chain : DoublyChain nexts prevs none head cbs) (nodup : cbs.Nodup)
    (memCbs : ∀ other, other ∈ cbs ↔ other ∈ g.cbs ∧ other ≠ cb)
    (prevsEq : ∀ other, s.place other ≠ .listed →
      prevs other = s.mPrev other) :
    Represents
      { (s.setPlace cb .unlinked).setPc thread (.removeUnlock cb true) with
        mHead := head, mNext := nexts, mPrev := prevs }
      { g with cbs := cbs } := by
  have threadSound := sound.thread thread
  have global := sound.global
  have owns := threadSound.owner_iff.mp (pcEq ▸ rfl)
  have relied := threadSound.pc
  rw [pcEq] at relied
  obtain ⟨removing, _⟩ := relied
  have keepsNil : g.cbs = [] → cbs = [] := by
    intro isNil
    apply List.eq_nil_iff_forall_not_mem.mpr
    simp [memCbs, isNil]
  apply sound.advance thread
  case guarantee =>
    constructor
    case pc => exact fun other isOther => Function.update_of_ne isOther ..
    case phase => exact .inl rfl
    case worker =>
      exact fun cb other _ works => ⟨works, rfl, rfl, fun _ => rfl⟩
    case place =>
      exact placeStep_update (isListed ▸ .unlink owns removing.worker)
    case cbs => exact fun _ => keepsNil
    case handled => exact fun other _ _ => ⟨rfl, rfl, fun _ _ => ⟨Iff.rfl, rfl⟩⟩
    all_goals intros; rfl
  case global =>
    constructor
    case locked_iff => exact global.locked_iff
    case stop_iff => exact global.stop_iff
    case chain => exact chain
    case nodup => exact nodup
    case mem_cbs =>
      intro other
      by_cases isCb : other = cb
      · simp [State.setPc, State.setPlace, isCb, memCbs]
      · simp [State.setPc, State.setPlace, isCb, memCbs, global.mem_cbs]
    case handled_iff => exact global.handled_iff_setPlace (by simp [isListed])
    case phase =>
      have phase := global.phase
      cases phaseEq : g.phase with
      | quiet | active =>
          rw [phaseEq] at phase
          exact phase
      | ended =>
          rw [phaseEq] at phase
          exact ⟨phase.1, keepsNil phase.2.1, phase.2.2⟩
    case linking => exact global.linking_setPlace (by simp [pcEq]) (by simp)
    case callback =>
      intro other
      by_cases isCb : other = cb
      · subst isCb
        apply (global.callback other).leave isListed (Function.update_self ..)
        case fits =>
          rw [removing.life]
          rfl
        case isTaken => exact .inr rfl
        case prev => simp
        all_goals rfl
      · apply (global.callback other).congr
        case place => exact Function.update_of_ne isCb ..
        case prev => exact fun notListed _ => prevsEq other notListed
        case worker => exact id
        case phase => exact id
        all_goals rfl
  case own =>
    have alike : Pc.Alike (.removeUnlink cb) (.removeUnlock cb true) :=
      ⟨rfl, rfl, rfl, by simp⟩
    apply threadSound.stay pcEq alike
    case movedEq => exact Function.update_self ..
    case owner => simp [Pc.holdsLock, owns]
    case requester =>
      exact fun isActive => threadSound.isRequester isActive (by simp [pcEq])
    case worker => exact fun _ _ => ⟨rfl, rfl⟩
    case relies => exact ⟨⟨removing.worker, removing.life⟩, Function.update_self ..⟩
    case inside =>
      intro call inside
      have callSound := threadSound.calls call inside
      exact callSound.congr
        (Function.update_of_ne (callSound.ne_of_listed isListed) ..)
        rfl Iff.rfl rfl rfl keepsNil
    all_goals rfl

/-- The section of `remove_callback`. -/
theorem Represents.unlink (sound : Represents s g)
    (pcEq : s.pc thread = .removeUnlink cb) :
    ∃ g', Represents (s.unlink thread cb) g' := by
  have global := sound.global
  have chain := global.chain
  have nodup := global.nodup
  have relied := (sound.thread thread).pc
  rw [pcEq] at relied
  obtain ⟨removing, notUnlinked⟩ := relied
  have nextListed (node other : Cb) (rest : List Cb)
      (restChain : DoublyChain s.mNext s.mPrev (some node) (s.mNext node) rest)
      (isSuffix : ∀ other ∈ rest, other ∈ g.cbs)
      (notListed : s.place other ≠ .listed) : s.mNext node ≠ some other := by
    intro nextEq
    rw [nextEq] at restChain
    exact notListed
      ((global.mem_cbs other).mp (isSuffix other restChain.head_mem))
  unfold State.unlink
  split_ifs with isHead
  · rw [isHead] at chain
    obtain ⟨rest, cbsEq⟩ := chain.exists_cons
    rw [cbsEq] at chain nodup
    have isListed : s.place cb = .listed :=
      (global.mem_cbs cb).mp (by simp [cbsEq])
    refine ⟨_, sound.unlinked pcEq isListed (chain.pop nodup)
      (List.nodup_cons.mp nodup).2 ?_ ?_⟩
    · intro other
      rw [cbsEq, List.mem_cons]
      constructor
      · intro inRest
        refine ⟨.inr inRest, ?_⟩
        rintro rfl
        exact (List.nodup_cons.mp nodup).1 inRest
      · rintro ⟨isMember, notCb⟩
        exact isMember.resolve_left notCb
    · intro other notListed
      apply setAt_of_ne
      apply nextListed cb other rest chain.2.2 _ notListed
      simp +contextual [cbsEq]
  · have cbSound := global.callback cb
    cases prevEq : s.mPrev cb with
    | none =>
        have notListed : s.place cb ≠ .listed := by
          intro isListed
          have isMember := (global.mem_cbs cb).mpr isListed
          exact isHead ((chain.prev_eq_none_iff nodup isMember).mp prevEq)
        exact ⟨g, sound.setPc pcEq ⟨rfl, rfl, rfl, by simp⟩ (by simp) rfl
          ⟨⟨removing.worker, removing.life⟩, notListed, notUnlinked⟩⟩
    | some last =>
        have isListed : s.place cb = .listed := by
          by_contra notListed
          rw [cbSound.prev notListed notUnlinked] at prevEq
          cases prevEq
        obtain ⟨front, rest, cbsEq⟩ :=
          List.append_of_mem ((global.mem_cbs cb).mpr isListed)
        rcases List.eq_nil_or_concat front with rfl | ⟨front, previous, rfl⟩
        · rw [cbsEq] at chain
          exact absurd chain.1 isHead
        · have cbsEq : g.cbs = front ++ previous :: cb :: rest := by
            simp [cbsEq]
          rw [cbsEq] at chain nodup
          obtain ⟨previousEq, removed⟩ := chain.remove nodup
          obtain rfl : last = previous :=
            Option.some.inj (prevEq.symm.trans previousEq)
          have splitEq : front ++ last :: cb :: rest =
              (front ++ [last]) ++ cb :: rest := by simp
          rw [splitEq] at chain nodup
          have distinct := List.nodup_cons.mp (List.nodup_middle.mp nodup)
          have keptEq : front ++ last :: rest = (front ++ [last]) ++ rest := by
            simp
          rw [keptEq] at removed
          refine ⟨_, sound.unlinked pcEq isListed removed distinct.2 ?_ ?_⟩
          · intro other
            rw [cbsEq, splitEq]
            constructor
            · intro isKept
              refine ⟨?_, ?_⟩
              · rcases List.mem_append.mp isKept with inFront | inRest
                · exact List.mem_append_left _ inFront
                · exact List.mem_append_right _ (List.mem_cons_of_mem _ inRest)
              · rintro rfl
                exact distinct.1 isKept
            · rintro ⟨isMember, notCb⟩
              rcases List.mem_append.mp isMember with inFront | inRest
              · exact List.mem_append_left _ inFront
              · apply List.mem_append_right
                exact (List.mem_cons.mp inRest).resolve_left notCb
          · intro other notListed
            apply setAt_of_ne
            apply nextListed cb other rest chain.tail _ notListed
            simp +contextual [cbsEq]

end Destruction

end CoContext.StopCallback
