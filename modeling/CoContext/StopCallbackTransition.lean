import CoContext.StopCallbackInvariant

/-!
# The steps of a stop state with callbacks

Every step takes a state that represents something to a state that represents
something.  The steps are grouped by what they do to the lock and to the list.
-/

namespace CoContext.StopCallback

variable {Thread Cb : Type*}
variable {s s' : State Thread Cb} {g g' : Ghost Thread Cb}
variable {thread : Thread} {cb : Cb}

section Frame

theorem Ghost.active_inj {other : Thread} (isActive : g.phase = .active thread)
    (isActive' : g.phase = .active other) : other = thread :=
  (Phase.active.inj (isActive.symm.trans isActive')).symm

/-- Nothing has happened to a callback. -/
theorem CbSound.congr (sound : CbSound s g cb)
    (place : s'.place cb = s.place cb) (life : s'.life cb = s.life cb)
    (late : s'.late cb = s.late cb) (ran : s'.ran cb = s.ran cb)
    (done : s'.mDone cb = s.mDone cb)
    (pointer : s'.mDestroyed cb = s.mDestroyed cb)
    (prev : s.place cb ≠ .listed → s.place cb ≠ .unlinked →
      s'.mPrev cb = s.mPrev cb)
    (worker : g'.worker cb ≠ none → g.worker cb ≠ none)
    (phase : g.phase ≠ .quiet → g'.phase ≠ .quiet) : CbSound s' g' cb := by
  constructor
  case fits =>
    rw [place, life]
    exact sound.fits
  case worker =>
    rw [life]
    exact fun works => sound.worker (worker works)
  case prev =>
    rw [place]
    intro notListed notUnlinked
    rw [prev notListed notUnlinked]
    exact sound.prev notListed notUnlinked
  case late =>
    rw [place, life, late]
    intro isLate
    obtain ⟨isNever, isRequested, notAbsent⟩ := sound.late isLate
    exact ⟨isNever, phase isRequested, notAbsent⟩
  case lateRan =>
    rw [life, late, ran]
    exact sound.lateRan
  case ran =>
    rw [place, ran]
    exact sound.ran
  case ranLe =>
    rw [ran]
    exact sound.ranLe
  case absent =>
    rw [life, ran]
    exact sound.absent
  case done =>
    rw [place, done]
    exact sound.done
  case finished =>
    rw [place, life, done, pointer]
    exact sound.finished

theorem Place.fits_running {life : Life} (fits : Place.popped.fits life = true) :
    Place.running.fits life = true := by
  rcases life with _ | _ | (_ | _) | _ | _ <;> simp_all [Place.fits]

theorem Place.fits_finished {life : Life}
    (fits : Place.running.fits life = true) :
    Place.finished.fits life = true := by
  rcases life with _ | _ | (_ | _) | _ | _ <;> simp_all [Place.fits]

theorem Place.fits_popped {life : Life} (fits : Place.listed.fits life = true)
    (notConstructing : life ≠ .constructing) :
    Place.popped.fits life = true := by
  rcases life with _ | _ | (_ | _) | _ | _ <;> simp_all [Place.fits]

/-- A callback that was on the list moves on. -/
theorem CbSound.displace {place : Place} (sound : CbSound s g cb)
    (wasLinked : s.place cb ≠ .never) (placeEq : s'.place cb = place)
    (isLinked : place ≠ .never) (fits : place.fits (s.life cb) = true)
    (life : s'.life cb = s.life cb) (late : s'.late cb = s.late cb)
    (ran : s'.ran cb = place.ran)
    (prev : place ≠ .listed → place ≠ .unlinked → s'.mPrev cb = none)
    (done : place ≠ .finished → s'.mDone cb = 0)
    (finished : place = .finished → s.life cb ≠ .destroyed →
      s'.mDone cb = 1 ∧ s'.mDestroyed cb = none)
    (worker : g'.worker cb = g.worker cb) : CbSound s' g' cb := by
  have notLate : s.late cb ≠ true := fun isLate =>
    wasLinked (sound.late isLate).1
  constructor
  case fits => rwa [placeEq, life]
  case worker =>
    rw [life, worker]
    exact sound.worker
  case prev => rwa [placeEq]
  case late => simp [late, notLate]
  case lateRan => simp [late, notLate]
  case ran => rw [placeEq, ran]; simp
  case ranLe => cases place <;> simp [ran, Place.ran]
  case absent =>
    rw [life]
    intro isAbsent
    cases place <;> simp_all [Place.fits]
  case done => rwa [placeEq]
  case finished => rwa [placeEq, life]

/-- A callback leaves the list. -/
theorem CbSound.leave {place : Place} (sound : CbSound s g cb)
    (isListed : s.place cb = .listed) (placeEq : s'.place cb = place)
    (fits : place.fits (s.life cb) = true)
    (isTaken : place = .popped ∨ place = .unlinked)
    (life : s'.life cb = s.life cb) (late : s'.late cb = s.late cb)
    (ran : s'.ran cb = s.ran cb) (done : s'.mDone cb = s.mDone cb)
    (prev : place ≠ .unlinked → s'.mPrev cb = none)
    (worker : g'.worker cb = g.worker cb) : CbSound s' g' cb := by
  apply sound.displace (by simp [isListed]) placeEq _ fits life late _
    (fun _ => prev) _ _ worker
  · rcases isTaken with rfl | rfl <;> simp
  · rw [ran, sound.ran (by simp [isListed]), isListed]
    rcases isTaken with rfl | rfl <;> rfl
  · exact fun _ => done.trans (sound.done (by simp [isListed]))
  · rcases isTaken with rfl | rfl <;> simp

theorem CallSound.ne_of_listed {call : Call Cb}
    (sound : CallSound s g thread call) (isListed : s.place cb = .listed) :
    call.cb ≠ cb := by
  rintro rfl
  cases call with
  | stop cb lastCb => exact absurd (isListed.symm.trans sound.place) (by simp)
  | register cb => exact absurd (isListed.symm.trans sound.1) (by simp)

/-- Nothing has happened to the callback of a call. -/
theorem CallSound.congr {call : Call Cb} (sound : CallSound s g thread call)
    (place : s'.place call.cb = s.place call.cb)
    (ran : s'.ran call.cb = s.ran call.cb)
    (life : s'.life call.cb = .destroyed ↔ s.life call.cb = .destroyed)
    (pointer : s'.mDestroyed call.cb = s.mDestroyed call.cb)
    (flag : s'.destroyed thread = s.destroyed thread)
    (cbs : g.cbs = [] → g'.cbs = []) : CallSound s' g' thread call := by
  cases call with
  | stop cb lastCb =>
      simp only [Call.cb] at place life pointer
      constructor
      case place =>
        rw [place]
        exact sound.place
      case last => exact fun isLast => cbs (sound.last isLast)
      case flag =>
        rw [flag, life]
        exact sound.flag
      case pointer =>
        rw [pointer, Ne, life]
        exact sound.pointer
  | register cb => exact ⟨place.trans sound.1, ran.trans sound.2⟩

section Positioned

variable {pc : Pc Cb}

theorem ThreadSound.owner_at (sound : ThreadSound s g thread)
    (pcEq : s.pc thread = pc) :
    pc.holdsLock = true ↔ g.owner = some thread := by
  rw [← pcEq]
  exact sound.owner_iff

theorem ThreadSound.taken_at (sound : ThreadSound s g thread)
    (pcEq : s.pc thread = pc) (isActive : g.phase = .active thread) :
    pc.takes.toList ++ (s.calls thread).filterMap Call.takes =
      g.handled.toList := by
  rw [← pcEq]
  exact sound.taken isActive

theorem ThreadSound.constructing_at (sound : ThreadSound s g thread)
    (pcEq : s.pc thread = pc) : ∀ cb ∈ pc.constructs.toList ++
      (s.calls thread).filterMap Call.constructs,
        g.worker cb = some thread ∧ s.life cb = .constructing := by
  rw [← pcEq]
  exact sound.constructing

theorem ThreadSound.nodup_at (sound : ThreadSound s g thread)
    (pcEq : s.pc thread = pc) : (pc.constructs.toList ++
      (s.calls thread).filterMap Call.constructs).Nodup := by
  rw [← pcEq]
  exact sound.nodup

end Positioned

/-- What a thread relies on, from its position and its calls. -/
theorem ThreadSound.ofPosition (pc : Pc Cb) (calls : List (Call Cb))
    (pcEq : s.pc thread = pc) (callsEq : s.calls thread = calls)
    (owner : pc.holdsLock = true ↔ g.owner = some thread)
    (active : pc.inLoop.toNat + (calls.filterMap Call.takes).length = 1 ↔
      g.phase = .active thread)
    (requestsLe : pc.inLoop.toNat + (calls.filterMap Call.takes).length ≤ 1)
    (taken : g.phase = .active thread →
      pc.takes.toList ++ calls.filterMap Call.takes = g.handled.toList)
    (requester : g.phase = .active thread →
      s.mRequester = some thread ∨ pc = .stopEnter)
    (constructing : ∀ cb ∈ pc.constructs.toList ++
      calls.filterMap Call.constructs,
        g.worker cb = some thread ∧ s.life cb = .constructing)
    (nodup : (pc.constructs.toList ++ calls.filterMap Call.constructs).Nodup)
    (relies : PcSound s g thread pc)
    (inside : ∀ call ∈ calls, CallSound s g thread call) :
    ThreadSound s g thread := by
  subst pcEq callsEq
  exact ⟨owner, active, requestsLe, taken, requester, constructing, nodup,
    relies, inside⟩

/-- A thread keeps its part in the request. -/
theorem ThreadSound.change (sound : ThreadSound s g thread) (pc : Pc Cb)
    (calls : List (Call Cb)) (pcEq : s'.pc thread = pc)
    (callsEq : s'.calls thread = calls)
    (requests : pc.inLoop.toNat + (calls.filterMap Call.takes).length =
      s.requests thread)
    (taken : g.phase = .active thread →
      pc.takes.toList ++ calls.filterMap Call.takes = g'.handled.toList)
    (owner : pc.holdsLock = true ↔ g'.owner = some thread)
    (phase : g'.phase = g.phase)
    (requester : g.phase = .active thread → s'.mRequester = some thread)
    (constructing : ∀ cb ∈ pc.constructs.toList ++
      calls.filterMap Call.constructs,
        g'.worker cb = some thread ∧ s'.life cb = .constructing)
    (nodup : (pc.constructs.toList ++ calls.filterMap Call.constructs).Nodup)
    (relies : PcSound s' g' thread pc)
    (inside : ∀ call ∈ calls, CallSound s' g' thread call) :
    ThreadSound s' g' thread := by
  apply ThreadSound.ofPosition pc calls pcEq callsEq owner
  case active =>
    rw [requests, phase]
    exact sound.active_iff
  case requestsLe =>
    rw [requests]
    exact sound.requests_le
  case taken =>
    rw [phase]
    exact taken
  case requester =>
    rw [phase]
    exact fun isActive => .inl (requester isActive)
  case constructing => exact constructing
  case nodup => exact nodup
  case relies => exact relies
  case inside => exact inside

/-- A thread keeps its part in the request and in the constructions. -/
theorem ThreadSound.move (sound : ThreadSound s g thread) (pc : Pc Cb)
    (calls : List (Call Cb)) (pcEq : s'.pc thread = pc)
    (callsEq : s'.calls thread = calls)
    (requests : pc.inLoop.toNat + (calls.filterMap Call.takes).length =
      s.requests thread)
    (taken : g.phase = .active thread →
      pc.takes.toList ++ calls.filterMap Call.takes = g'.handled.toList)
    (constructing : pc.constructs.toList ++
      calls.filterMap Call.constructs = s.constructing thread)
    (owner : pc.holdsLock = true ↔ g'.owner = some thread)
    (phase : g'.phase = g.phase)
    (requester : g.phase = .active thread → s'.mRequester = some thread)
    (worker : ∀ cb ∈ s.constructing thread,
      g'.worker cb = g.worker cb ∧ s'.life cb = s.life cb)
    (relies : PcSound s' g' thread pc)
    (inside : ∀ call ∈ calls, CallSound s' g' thread call) :
    ThreadSound s' g' thread := by
  apply sound.change pc calls pcEq callsEq requests taken owner phase requester
    _ _ relies inside
  · rw [constructing]
    intro cb isConstructing
    obtain ⟨workerEq, lifeEq⟩ := worker cb isConstructing
    rw [workerEq, lifeEq]
    exact sound.constructing cb isConstructing
  · rw [constructing]
    exact sound.nodup

theorem ThreadSound.isRequester (sound : ThreadSound s g thread)
    (isActive : g.phase = .active thread) (entered : s.pc thread ≠ .stopEnter) :
    s.mRequester = some thread :=
  (sound.requester isActive).resolve_right entered

theorem Represents.owner_eq_none (sound : Represents s g)
    (isFree : s.mValue.locked = false) : g.owner = none := by
  by_contra isOwned
  have isLocked := sound.global.locked_iff.mpr isOwned
  rw [isFree] at isLocked
  cases isLocked

/-- A thread that is not the requester has taken nothing off the list. -/
theorem ThreadSound.idle (sound : ThreadSound s g thread)
    (notActive : g.phase ≠ .active thread) :
    (s.calls thread).filterMap Call.takes = [] := by
  have requestsNe := mt sound.active_iff.mp notActive
  have requestsLe := sound.requests_le
  simp only [State.requests] at requestsNe requestsLe
  apply List.length_eq_zero_iff.mp
  omega

theorem ThreadSound.no_takes (sound : ThreadSound s g thread)
    (inLoop : (s.pc thread).inLoop = true) :
    (s.calls thread).filterMap Call.takes = [] := by
  have requestsLe := sound.requests_le
  simp only [State.requests, inLoop, Bool.toNat_true] at requestsLe
  apply List.length_eq_zero_iff.mp
  omega

theorem ThreadSound.none_handled (sound : ThreadSound s g thread)
    (inLoop : (s.pc thread).inLoop = true)
    (takesNone : (s.pc thread).takes = none) : g.handled = none := by
  have takenEq := sound.taken (sound.active_of_inLoop inLoop)
  rw [State.taken, takesNone, sound.no_takes inLoop] at takenEq
  cases handledEq : g.handled with
  | none => rfl
  | some handled => simp [handledEq] at takenEq

theorem placeStep_update [DecidableEq Cb] {place : Place}
    (placeStep : PlaceStep thread g cb (s.place cb) place) (other : Cb) :
    PlaceStep thread g other (s.place other)
      (Function.update s.place cb place other) := by
  by_cases isCb : other = cb
  · subst isCb
    rwa [Function.update_self]
  · rw [Function.update_of_ne isCb]
    exact .same _

section Places

variable [DecidableEq Cb] {place : Place}

/-- A callback behind the list moves on behind the list. -/
theorem Global.mem_cbs_setPlace (global : Global s g)
    (wasTaken : s.place cb ≠ .listed) (isTaken : place ≠ .listed)
    (other : Cb) :
    other ∈ g.cbs ↔ Function.update s.place cb place other = .listed := by
  rw [global.mem_cbs]
  by_cases isCb : other = cb
  · simp [isCb, wasTaken, isTaken]
  · rw [Function.update_of_ne isCb]

theorem Global.handled_iff_setPlace (global : Global s g)
    (same : place = .popped ∨ place = .running ↔
      s.place cb = .popped ∨ s.place cb = .running) (other : Cb) :
    g.handled = some other ↔
      Function.update s.place cb place other = .popped ∨
        Function.update s.place cb place other = .running := by
  rw [global.handled_iff]
  by_cases isCb : other = cb
  · rw [isCb, Function.update_self]
    exact same.symm
  · rw [Function.update_of_ne isCb]

end Places

end Frame

section Positions

/-- The positions have the same part in the request and in the
constructions. -/
structure Pc.Alike (before pc : Pc Cb) : Prop where
  loop : pc.inLoop = before.inLoop
  takes : pc.takes = before.takes
  constructs : pc.constructs = before.constructs
  settled : ∀ cb, before ≠ .registerUnlock cb

variable {before pc : Pc Cb}

/-- A thread moves to an alike position. -/
theorem ThreadSound.stay (sound : ThreadSound s g thread)
    (pcEq : s.pc thread = before) (alike : before.Alike pc)
    (movedEq : s'.pc thread = pc) (callsEq : s'.calls thread = s.calls thread)
    (owner : pc.holdsLock = true ↔ g'.owner = some thread)
    (phase : g'.phase = g.phase) (handled : g'.handled = g.handled)
    (requester : g.phase = .active thread → s'.mRequester = some thread)
    (worker : ∀ cb ∈ s.constructing thread,
      g'.worker cb = g.worker cb ∧ s'.life cb = s.life cb)
    (relies : PcSound s' g' thread pc)
    (inside : ∀ call ∈ s.calls thread, CallSound s' g' thread call) :
    ThreadSound s' g' thread := by
  apply sound.move pc (s.calls thread) movedEq callsEq _ _ _ owner phase
    requester worker relies inside
  · rw [State.requests, pcEq, alike.loop]
  · rw [alike.takes, ← pcEq, handled]
    exact sound.taken
  · rw [State.constructing, pcEq, alike.constructs]

variable [DecidableEq Thread]

/-- Only the thread at `registerUnlock` leaves a callback unlocked. -/
theorem Global.linking_update (global : Global s g)
    (settled : ∀ cb, s.pc thread ≠ .registerUnlock cb)
    (isListed : s.place cb = .listed) (isConstructing : s.life cb = .constructing) :
    ∃ other, Function.update s.pc thread pc other = .registerUnlock cb := by
  obtain ⟨other, otherPc⟩ := global.linking cb isListed isConstructing
  refine ⟨other, ?_⟩
  rw [Function.update_of_ne]
  · exact otherPc
  · rintro rfl
    exact settled cb otherPc

/-- A callback that is not linked does not count as such. -/
theorem Global.linking_setPlace [DecidableEq Cb] {place : Place}
    (global : Global s g)
    (settled : ∀ cb, s.pc thread ≠ .registerUnlock cb)
    (notListed : place ≠ .listed) (other : Cb)
    (isListed : Function.update s.place cb place other = .listed)
    (isConstructing : s.life other = .constructing) :
    ∃ linker, Function.update s.pc thread pc linker =
      .registerUnlock other := by
  apply global.linking_update settled _ isConstructing
  by_cases isCb : other = cb
  · rw [isCb, Function.update_self] at isListed
    exact absurd isListed notListed
  · rwa [Function.update_of_ne isCb] at isListed

/-- A thread moves to an alike position; it may lock or unlock. -/
theorem Represents.move (sound : Represents s g) (owner : Option Thread)
    (mValue : Value) (returned : List Bool)
    (pcEq : s.pc thread = before) (alike : before.Alike pc)
    (others : ∀ other, other ≠ thread →
      (owner = some other ↔ g.owner = some other))
    (own : pc.holdsLock = true ↔ owner = some thread)
    (locked : mValue.locked = true ↔ owner ≠ none)
    (stop : mValue.stopRequested = s.mValue.stopRequested)
    (phase : PhaseSound { s with returned := returned } g g.phase)
    (requester : g.phase = .active thread → s.mRequester = some thread)
    (relies : PcSound
      { s.setPc thread pc with mValue := mValue, returned := returned }
      { g with owner := owner } thread pc) :
    Represents { s.setPc thread pc with mValue := mValue, returned := returned }
      { g with owner := owner } := by
  have threadSound := sound.thread thread
  apply sound.advance thread
  case guarantee =>
    constructor
    case pc => exact fun other isOther => Function.update_of_ne isOther ..
    case owner => exact others
    case phase => exact .inl rfl
    case worker => exact fun cb other _ works => ⟨works, rfl, rfl, fun _ => rfl⟩
    case place => exact fun cb => .same _
    case handled => exact fun other _ _ => ⟨rfl, rfl, fun _ _ => ⟨Iff.rfl, rfl⟩⟩
    all_goals intros; first | rfl | assumption
  case global =>
    have global := sound.global
    constructor
    case locked_iff => exact locked
    case stop_iff =>
      simp only [stop]
      exact global.stop_iff
    case chain => exact global.chain
    case nodup => exact global.nodup
    case mem_cbs => exact global.mem_cbs
    case handled_iff => exact global.handled_iff
    case phase => exact phase
    case linking =>
      intro cb
      apply global.linking_update
      rw [pcEq]
      exact alike.settled
    case callback =>
      exact fun cb => (global.callback cb).congr rfl rfl rfl rfl rfl rfl
        (fun _ _ => rfl) id id
  case own =>
    apply threadSound.stay pcEq alike
    case movedEq => exact Function.update_self ..
    case owner => exact own
    case requester => exact requester
    case worker => exact fun cb _ => ⟨rfl, rfl⟩
    case relies => exact relies
    case inside =>
      exact fun call inside =>
        (threadSound.calls call inside).congr rfl rfl Iff.rfl rfl rfl id
    all_goals rfl

theorem Represents.setPc (sound : Represents s g)
    (pcEq : s.pc thread = before) (alike : before.Alike pc)
    (entered : before ≠ .stopEnter) (lock : pc.holdsLock = before.holdsLock)
    (relies : PcSound (s.setPc thread pc) g thread pc) :
    Represents (s.setPc thread pc) g := by
  apply sound.move g.owner s.mValue s.returned pcEq alike (fun _ _ => Iff.rfl)
    _ sound.global.locked_iff rfl sound.global.phase _ relies
  · rw [lock, ← pcEq]
    exact (sound.thread thread).owner_iff
  · exact fun isActive =>
      (sound.thread thread).isRequester isActive (pcEq ▸ entered)

theorem Represents.lock (sound : Represents s g)
    (pcEq : s.pc thread = before) (alike : before.Alike pc)
    (entered : before ≠ .stopEnter) (isFree : s.mValue.locked = false)
    (holds : pc.holdsLock = true)
    (relies : PcSound (s.lock.setPc thread pc)
      { g with owner := some thread } thread pc) :
    Represents (s.lock.setPc thread pc)
      { g with owner := some thread } := by
  have noOwner := sound.owner_eq_none isFree
  apply sound.move (some thread) { s.mValue with locked := true } s.returned
    pcEq alike _ _ _ rfl sound.global.phase _ relies
  · intro other isOther
    simp [noOwner, isOther.symm]
  · simp [holds]
  · simp
  · exact fun isActive =>
      (sound.thread thread).isRequester isActive (pcEq ▸ entered)

theorem Represents.unlock (sound : Represents s g)
    (pcEq : s.pc thread = before) (alike : before.Alike pc)
    (entered : before ≠ .stopEnter) (held : before.holdsLock = true)
    (freed : pc.holdsLock = false)
    (relies : PcSound (s.unlock.setPc thread pc) { g with owner := none }
      thread pc) :
    Represents (s.unlock.setPc thread pc) { g with owner := none } := by
  have owns := (sound.thread thread).owner_iff.mp (pcEq ▸ held)
  apply sound.move none { s.mValue with locked := false } s.returned
    pcEq alike _ _ _ rfl sound.global.phase _ relies
  · intro other isOther
    simp [owns, isOther.symm]
  · simp [freed]
  · simp
  · exact fun isActive =>
      (sound.thread thread).isRequester isActive (pcEq ▸ entered)

/-- A round of a locking loop either retries or locks. -/
theorem Represents.tryLock {old : Value} {spurious : Bool}
    {retry : Value → Pc Cb} {success : Pc Cb}
    (retried : Represents (s.setPc thread (retry s.mValue)) g)
    (locked : s.mValue = old → s.mValue.locked = false →
      Represents (s.lock.setPc thread success)
        { g with owner := some thread }) :
    ∃ g', Represents (s.tryLock thread old spurious retry success) g' := by
  unfold State.tryLock
  split_ifs with isLocked exchanged
  · exact ⟨g, retried⟩
  · refine ⟨_, locked exchanged.1 ?_⟩
    rw [exchanged.1]
    exact Bool.eq_false_iff.mpr isLocked
  · exact ⟨g, retried⟩

end Positions

section Request

/-- The requester writes `m_requester`. -/
theorem Represents.setRequester (sound : Represents s g)
    (pcEq : s.pc thread = .stopEnter) :
    Represents { s with mRequester := some thread } g := by
  have threadSound := sound.thread thread
  have isActive := threadSound.active_of_inLoop (pcEq ▸ rfl)
  apply sound.advance thread
  case guarantee =>
    constructor
    case phase => exact .inl rfl
    case worker => exact fun cb other _ works => ⟨works, rfl, rfl, fun _ => rfl⟩
    case place => exact fun cb => .same _
    case handled =>
      exact fun other isOther isActive' =>
        absurd (Ghost.active_inj isActive isActive') isOther
    all_goals intros; first | rfl | assumption
  case global =>
    obtain ⟨lockedIff, stopIff, chain, nodup, memCbs, handledIff, phase,
      linking, callback⟩ := sound.global
    refine ⟨lockedIff, stopIff, chain, nodup, memCbs, handledIff, ?_, linking,
      fun cb => ?_⟩
    · rw [isActive] at phase ⊢
      exact ⟨.inr rfl, phase.2⟩
    · exact (callback cb).congr rfl rfl rfl rfl rfl rfl (fun _ _ => rfl) id id
  case own =>
    apply threadSound.move .stopEnter (s.calls thread)
    case pcEq => exact pcEq
    case callsEq => rfl
    case requests => rw [State.requests, pcEq]
    case taken => exact threadSound.taken_at pcEq
    case constructing => rw [State.constructing, pcEq]
    case owner => rw [← threadSound.owner_iff, pcEq]
    case phase => rfl
    case requester => exact fun _ => rfl
    case worker => exact fun cb _ => ⟨rfl, rfl⟩
    case relies => trivial
    case inside =>
      exact fun call inside =>
        (threadSound.calls call inside).congr rfl rfl Iff.rfl rfl rfl id

variable [DecidableEq Thread]

/-- `request_stop` returns false. -/
theorem Represents.returnFalse {old : Value} (sound : Represents s g)
    (pcEq : s.pc thread = .stopTry old) (isRequested : g.phase ≠ .quiet) :
    Represents (s.returnStop thread false) g := by
  have threadSound := sound.thread thread
  have alike : Pc.Alike (.stopTry old) (.user : Pc Cb) :=
    ⟨rfl, rfl, rfl, by simp⟩
  apply sound.move g.owner s.mValue (s.returned ++ [false]) pcEq alike (fun _ _ => Iff.rfl) _
    sound.global.locked_iff rfl _ _ trivial
  · rw [← threadSound.owner_iff, pcEq]
    rfl
  · have phase := sound.global.phase
    cases phaseEq : g.phase with
    | quiet => exact absurd phaseEq isRequested
    | active requester =>
        rw [phaseEq] at phase
        exact ⟨phase.1, by simp [phase.2]⟩
    | ended =>
        rw [phaseEq] at phase
        exact ⟨phase.1, phase.2.1, by simp [phase.2.2]⟩
  · exact fun isActive => threadSound.isRequester isActive (by simp [pcEq])

/-- The first request sets the stop bit. -/
theorem Represents.enter {old : Value} (sound : Represents s g)
    (pcEq : s.pc thread = .stopTry old) (isFree : s.mValue.locked = false)
    (notRequested : s.mValue.stopRequested = false) :
    Represents { s.setPc thread .stopEnter with
        mValue := { s.mValue with stopRequested := true, locked := true } }
      { g with owner := some thread, phase := .active thread } := by
  have threadSound := sound.thread thread
  have noOwner := sound.owner_eq_none isFree
  have isQuiet : g.phase = .quiet := by
    by_contra isRequested
    have contrary := sound.global.stop_iff.mpr isRequested
    rw [notRequested] at contrary
    cases contrary
  have phase := sound.global.phase
  rw [isQuiet] at phase
  obtain ⟨noRequester, noneReturned, noneHandled⟩ := phase
  have noTakes := threadSound.idle (by simp [isQuiet])
  apply sound.advance thread
  case guarantee =>
    constructor
    case pc => exact fun other isOther => Function.update_of_ne isOther ..
    case owner =>
      intro other isOther
      simp [noOwner, isOther.symm]
    case phase => exact .inr (.inl ⟨isQuiet, rfl, noOwner⟩)
    case worker => exact fun cb other _ works => ⟨works, rfl, rfl, fun _ => rfl⟩
    case place => exact fun cb => .same _
    case handled =>
      intro other _ isActive
      rw [isQuiet] at isActive
      cases isActive
    all_goals intros; first | rfl | assumption
  case global =>
    have global := sound.global
    constructor
    case locked_iff => simp
    case stop_iff => simp
    case chain => exact global.chain
    case nodup => exact global.nodup
    case mem_cbs => exact global.mem_cbs
    case handled_iff => exact global.handled_iff
    case phase => exact ⟨.inl noRequester, by simp [State.setPc, noneReturned]⟩
    case linking =>
      intro cb
      apply global.linking_update
      simp [pcEq]
    case callback =>
      exact fun cb => (global.callback cb).congr rfl rfl rfl rfl rfl rfl
        (fun _ _ => rfl) id (by simp)
  case own =>
    apply ThreadSound.ofPosition .stopEnter (s.calls thread)
    case pcEq => exact Function.update_self ..
    case callsEq => rfl
    case owner => simp [Pc.holdsLock]
    case active => simp [Pc.inLoop, noTakes]
    case requestsLe => simp [Pc.inLoop, noTakes]
    case taken => simp [Pc.takes, noTakes, noneHandled]
    case requester => exact fun _ => .inr rfl
    case constructing =>
      have constructing := threadSound.constructing_at pcEq
      exact constructing
    case nodup =>
      have nodup := threadSound.nodup_at pcEq
      exact nodup
    case relies => trivial
    case inside =>
      exact fun call inside =>
        (threadSound.calls call inside).congr rfl rfl Iff.rfl rfl rfl id

/-- `request_stop` returns true behind its loop. -/
theorem Represents.returnTrue (sound : Represents s g)
    (pcEq : s.pc thread = .stopEnd) :
    Represents (s.unlock.returnStop thread true)
      { g with owner := none, phase := .ended } := by
  have threadSound := sound.thread thread
  have global := sound.global
  have isActive := threadSound.active_of_inLoop (pcEq ▸ rfl)
  have owns := threadSound.owner_iff.mp (pcEq ▸ rfl)
  have noTakes := threadSound.no_takes (pcEq ▸ rfl)
  have noneHandled := threadSound.none_handled (pcEq ▸ rfl) (pcEq ▸ rfl)
  have emptied := threadSound.pc
  rw [pcEq] at emptied
  apply sound.advance thread
  case guarantee =>
    constructor
    case pc => exact fun other isOther => Function.update_of_ne isOther ..
    case owner =>
      intro other isOther
      simp [owns, isOther.symm]
    case phase => exact .inr (.inr ⟨isActive, rfl⟩)
    case worker => exact fun cb other _ works => ⟨works, rfl, rfl, fun _ => rfl⟩
    case place => exact fun cb => .same _
    case handled =>
      exact fun other isOther isActive' =>
        absurd (Ghost.active_inj isActive isActive') isOther
    all_goals intros; first | rfl | assumption
  case global =>
    constructor
    case locked_iff => simp [State.returnStop, State.setPc, State.unlock]
    case stop_iff =>
      have stopIff := global.stop_iff
      simpa [State.returnStop, State.setPc, State.unlock, isActive]
        using stopIff
    case chain => exact global.chain
    case nodup => exact global.nodup
    case mem_cbs => exact global.mem_cbs
    case handled_iff => exact global.handled_iff
    case phase =>
      have phase := global.phase
      rw [isActive] at phase
      exact ⟨noneHandled, emptied,
        by simp [State.returnStop, State.unlock, phase.2]⟩
    case linking =>
      intro cb
      apply global.linking_update
      simp [pcEq]
    case callback =>
      exact fun cb => (global.callback cb).congr rfl rfl rfl rfl rfl rfl
        (fun _ _ => rfl) id (by simp)
  case own =>
    apply ThreadSound.ofPosition .user (s.calls thread)
    case pcEq => exact Function.update_self ..
    case callsEq => rfl
    case owner => simp [Pc.holdsLock]
    case active => simp [Pc.inLoop, noTakes]
    case requestsLe => simp [Pc.inLoop, noTakes]
    case taken => simp
    case requester => simp
    case constructing =>
      have constructing := threadSound.constructing_at pcEq
      exact constructing
    case nodup =>
      have nodup := threadSound.nodup_at pcEq
      exact nodup
    case relies => trivial
    case inside =>
      exact fun call inside =>
        (threadSound.calls call inside).congr rfl rfl Iff.rfl rfl rfl id

variable [DecidableEq Cb]

/-- The loop of `request_stop` takes the first callback. -/
theorem Represents.popHead (sound : Represents s g)
    (alike : Pc.Alike (s.pc thread) (.stopPop : Pc Cb))
    (holds : (s.pc thread).holdsLock = true)
    (isRequester : s.mRequester = some thread)
    (headEq : s.mHead = some cb) :
    ∃ g', Represents (s.pop thread) g' := by
  have threadSound := sound.thread thread
  have global := sound.global
  have inLoop : (s.pc thread).inLoop = true := alike.loop.symm
  have isActive := threadSound.active_of_inLoop inLoop
  have owns := threadSound.owner_iff.mp holds
  have noTakes := threadSound.no_takes inLoop
  have noneHandled := threadSound.none_handled inLoop alike.takes.symm
  have chain := global.chain
  rw [headEq] at chain
  obtain ⟨rest, cbsEq⟩ := chain.exists_cons
  have nodup := global.nodup
  rw [cbsEq] at chain nodup
  have notIn : cb ∉ rest := (List.nodup_cons.mp nodup).1
  have restListed (other : Cb) (isMember : other ∈ rest) :
      s.place other = .listed :=
    (global.mem_cbs other).mp (by simp [cbsEq, isMember])
  have inRest (other : Cb) (nextEq : s.mNext cb = some other) :
      other ∈ rest := by
    have restChain := chain.2.2
    rw [nextEq] at restChain
    exact restChain.head_mem
  have isListed : s.place cb = .listed :=
    (global.mem_cbs cb).mp (by simp [cbsEq])
  refine ⟨{ g with handled := some cb, cbs := rest }, ?_⟩
  simp only [State.pop, headEq]
  apply sound.advance thread
  case guarantee =>
    constructor
    case pc => exact fun other isOther => Function.update_of_ne isOther ..
    case phase => exact .inl rfl
    case worker =>
      exact fun cb other _ works => ⟨works, rfl, rfl, fun _ => rfl⟩
    case place => exact placeStep_update (isListed ▸ .pop owns isActive)
    case cbs => simp [cbsEq]
    case handled =>
      exact fun other isOther isActive' =>
        absurd (Ghost.active_inj isActive isActive') isOther
    all_goals intros; rfl
  case global =>
    constructor
    case locked_iff => exact global.locked_iff
    case stop_iff => exact global.stop_iff
    case chain => exact chain.pop nodup
    case nodup => exact (List.nodup_cons.mp nodup).2
    case mem_cbs =>
      intro other
      by_cases isCb : other = cb
      · simp [State.setPc, State.setPlace, isCb, notIn]
      · simp [State.setPc, State.setPlace, isCb, ← global.mem_cbs, cbsEq]
    case handled_iff =>
      intro other
      by_cases isCb : other = cb
      · simp [State.setPc, State.setPlace, isCb]
      · simp [State.setPc, State.setPlace, isCb, ← global.handled_iff,
          noneHandled, Ne.symm isCb]
    case phase =>
      have phase := global.phase
      rw [isActive] at phase
      simp only [isActive]
      exact phase
    case linking => exact global.linking_setPlace alike.settled (by simp)
    case callback =>
      intro other
      by_cases isCb : other = cb
      · subst isCb
        apply (global.callback other).leave isListed (Function.update_self ..)
        case fits =>
          have fits := (global.callback other).fits
          rw [isListed] at fits
          apply Place.fits_popped fits
          intro isConstructing
          obtain ⟨linker, linkerPc⟩ :=
            global.linking other isListed isConstructing
          have relied := (sound.thread linker).pc
          rw [linkerPc] at relied
          exact absurd (isActive.symm.trans relied.2) (by simp)
        case isTaken => exact .inl rfl
        case prev =>
          intro _
          exact (setAt_of_ne fun nextEq => notIn (inRest other nextEq)).trans
            chain.2.1
        all_goals rfl
      · apply (global.callback other).congr
        case place => simp [State.setPc, State.setPlace, isCb]
        case prev =>
          intro notListed _
          apply setAt_of_ne
          exact fun nextEq => notListed (restListed other (inRest other nextEq))
        case worker => exact id
        case phase => exact id
        all_goals rfl
  case own =>
    apply threadSound.move (.stopUnlock cb (s.mNext cb).isNone)
      (s.calls thread)
    case pcEq => exact Function.update_self ..
    case callsEq => rfl
    case requests => rw [State.requests, ← alike.loop]; rfl
    case taken => simp [Pc.takes, noTakes]
    case constructing =>
      rw [State.constructing, ← alike.constructs]
      rfl
    case owner => simp [Pc.holdsLock, owns]
    case phase => rfl
    case requester => exact fun _ => isRequester
    case worker => exact fun cb _ => ⟨rfl, rfl⟩
    case relies =>
      refine ⟨?_, ?_⟩
      · simp [State.setPc, State.setPlace]
      · intro isLast
        have restChain := chain.2.2
        rw [Option.isNone_iff_eq_none.mp isLast] at restChain
        exact restChain.eq_nil
    case inside =>
      intro call inside
      have callSound := threadSound.calls call inside
      apply callSound.congr
      case place =>
        simp [State.setPc, State.setPlace, callSound.ne_of_listed isListed]
      case cbs => simp [cbsEq]
      case life => rfl
      all_goals rfl

theorem Represents.pop (sound : Represents s g)
    (alike : Pc.Alike (s.pc thread) (.stopPop : Pc Cb))
    (holds : (s.pc thread).holdsLock = true)
    (isRequester : s.mRequester = some thread) :
    ∃ g', Represents (s.pop thread) g' := by
  cases headEq : s.mHead with
  | some cb => exact sound.popHead alike holds isRequester headEq
  | none =>
      have chain := sound.global.chain
      rw [headEq] at chain
      have owns := (sound.thread thread).owner_iff.mp holds
      have alike' : Pc.Alike (s.pc thread) (.stopEnd : Pc Cb) :=
        ⟨alike.loop, alike.takes, alike.constructs, alike.settled⟩
      simp only [State.pop, headEq]
      refine ⟨_, sound.move g.owner s.mValue s.returned rfl alike'
        (fun _ _ => Iff.rfl) ?_ sound.global.locked_iff rfl sound.global.phase
        (fun _ => isRequester) chain.eq_nil⟩
      simp [owns, Pc.holdsLock]

end Request

section Callbacks

variable [DecidableEq Thread]

/-- The innermost call of a thread returns to the position of its caller. -/
theorem Represents.leaveTo {call : Call Cb} {rest : List (Call Cb)} {pc : Pc Cb}
    (sound : Represents s g) (pcEq : s.pc thread = .user)
    (callsEq : s.calls thread = call :: rest)
    (loop : pc.inLoop = call.takes.isSome) (takes : pc.takes = call.takes)
    (constructs : pc.constructs = call.constructs)
    (noLock : pc.holdsLock = false)
    (relies : ∀ s', CallSound s' g thread call → PcSound s' g thread pc) :
    Represents { s.setPc thread pc with
      calls := Function.update s.calls thread rest } g := by
  have threadSound := sound.thread thread
  have global := sound.global
  have splitCalls (role : Call Cb → Option Cb) :
      (s.calls thread).filterMap role =
        (role call).toList ++ rest.filterMap role := by
    rw [callsEq, List.filterMap_cons]
    cases role call <;> rfl
  have stays : ∀ other ∈ call :: rest, CallSound { s.setPc thread pc with
      calls := Function.update s.calls thread rest } g thread other := by
    rw [← callsEq]
    exact fun other inside =>
      (threadSound.calls other inside).congr rfl rfl Iff.rfl rfl rfl id
  apply sound.advance thread
  case guarantee =>
    constructor
    case pc => exact fun other isOther => Function.update_of_ne isOther ..
    case calls => exact fun other isOther => Function.update_of_ne isOther ..
    case phase => exact .inl rfl
    case worker => exact fun cb other _ works => ⟨works, rfl, rfl, fun _ => rfl⟩
    case place => exact fun cb => .same _
    case handled => exact fun other _ _ => ⟨rfl, rfl, fun _ _ => ⟨Iff.rfl, rfl⟩⟩
    all_goals intros; first | rfl | assumption
  case global =>
    refine ⟨global.locked_iff, global.stop_iff, global.chain, global.nodup,
      global.mem_cbs, global.handled_iff, global.phase, ?_, ?_⟩
    · intro cb
      apply global.linking_update
      simp [pcEq]
    · exact fun cb => (global.callback cb).congr rfl rfl rfl rfl rfl rfl
        (fun _ _ => rfl) id id
  case own =>
    apply threadSound.move pc rest
    case pcEq => exact Function.update_self ..
    case callsEq => exact Function.update_self ..
    case requests =>
      simp only [State.requests, pcEq, splitCalls, loop, List.length_append]
      cases call <;> simp [Call.takes, Pc.inLoop]
    case taken =>
      have taken := threadSound.taken_at pcEq
      rw [splitCalls] at taken
      rwa [takes]
    case constructing =>
      rw [State.constructing, pcEq, splitCalls, constructs]
      rfl
    case owner =>
      rw [noLock]
      exact threadSound.owner_at pcEq
    case phase => rfl
    case requester =>
      exact fun isActive => threadSound.isRequester isActive (by simp [pcEq])
    case worker => exact fun cb _ => ⟨rfl, rfl⟩
    case relies => exact relies _ (stays call List.mem_cons_self)
    case inside =>
      exact fun other inside => stays other (List.mem_cons_of_mem _ inside)

theorem Represents.leave (sound : Represents s g)
    (leaveEq : s.leave thread = some s') : Represents s' g := by
  unfold State.leave at leaveEq
  split at leaveEq
  case h_2 => cases leaveEq
  case h_1 call rest pcEq callsEq =>
    obtain rfl := Option.some.inj leaveEq
    cases call with
    | stop cb lastCb =>
        exact sound.leaveTo pcEq callsEq rfl rfl rfl rfl fun _ => id
    | register cb =>
        exact sound.leaveTo pcEq callsEq rfl rfl rfl rfl fun _ => id

variable [DecidableEq Cb]

/-- The requester calls the callback that it has taken. -/
theorem Represents.runCallback {lastCb : Bool} (sound : Represents s g)
    (pcEq : s.pc thread = .stopRun cb lastCb) :
    Represents (s.runCallback thread cb lastCb) g := by
  have threadSound := sound.thread thread
  have global := sound.global
  have isActive := threadSound.active_of_inLoop (pcEq ▸ rfl)
  have noTakes := threadSound.no_takes (pcEq ▸ rfl)
  have relied := threadSound.pc
  rw [pcEq] at relied
  obtain ⟨isPopped, isLast⟩ := relied
  have cbSound := global.callback cb
  have fits := cbSound.fits
  rw [isPopped] at fits
  have notRan : s.ran cb = 0 := by
    rw [cbSound.ran (by simp [isPopped]), isPopped]
    rfl
  apply sound.advance thread
  case guarantee =>
    constructor
    case pc => exact fun other isOther => Function.update_of_ne isOther ..
    case calls => exact fun other isOther => Function.update_of_ne isOther ..
    case destroyed =>
      exact fun other isOther => Function.update_of_ne isOther ..
    case phase => exact .inl rfl
    case worker =>
      intro other worker _ works
      refine ⟨works, rfl, rfl, fun isConstructing => ?_⟩
      apply Function.update_of_ne
      rintro rfl
      simp [isConstructing, Place.fits] at fits
    case place => exact placeStep_update (isPopped ▸ .run isActive)
    case handled =>
      exact fun other isOther isActive' =>
        absurd (Ghost.active_inj isActive isActive') isOther
    all_goals intros; first | rfl | assumption
  case global =>
    constructor
    case locked_iff => exact global.locked_iff
    case stop_iff => exact global.stop_iff
    case chain => exact global.chain
    case nodup => exact global.nodup
    case mem_cbs => exact global.mem_cbs_setPlace (by simp [isPopped]) (by simp)
    case handled_iff => exact global.handled_iff_setPlace (by simp [isPopped])
    case phase => exact global.phase
    case linking => exact global.linking_setPlace (by simp [pcEq]) (by simp)
    case callback =>
      intro other
      by_cases isCb : other = cb
      · subst isCb
        apply cbSound.displace (by simp [isPopped]) (Function.update_self ..)
        case isLinked => simp
        case fits => exact Place.fits_running fits
        case life => rfl
        case late => rfl
        case ran =>
          refine (Function.update_self ..).trans ?_
          simp [Call.cb, State.setPlace, notRan, Place.ran]
        case prev =>
          exact fun _ _ => cbSound.prev (by simp [isPopped]) (by simp [isPopped])
        case done => exact fun _ => cbSound.done (by simp [isPopped])
        case finished => simp
        case worker => rfl
      · apply (global.callback other).congr
        case place => exact Function.update_of_ne isCb ..
        case ran => exact Function.update_of_ne isCb ..
        case pointer => exact Function.update_of_ne isCb ..
        case prev => exact fun _ _ => rfl
        case worker => exact id
        case phase => exact id
        all_goals rfl
  case own =>
    apply threadSound.move .user (.stop cb lastCb :: s.calls thread)
    case pcEq => exact Function.update_self ..
    case callsEq => exact Function.update_self ..
    case requests => simp [State.requests, pcEq, noTakes, Pc.inLoop, Call.takes]
    case taken => exact threadSound.taken_at pcEq
    case constructing =>
      rw [State.constructing, pcEq]
      rfl
    case owner =>
      have owner := threadSound.owner_at pcEq
      exact owner
    case phase => rfl
    case requester =>
      exact fun _ => threadSound.isRequester isActive (by simp [pcEq])
    case worker => exact fun cb _ => ⟨rfl, rfl⟩
    case relies => trivial
    case inside =>
      intro call inside
      rcases List.mem_cons.mp inside with rfl | inside
      · constructor
        case place => exact Function.update_self ..
        case last => exact isLast
        case flag =>
          simp only [State.runCallback, Function.update_self]
          constructor
          · exact fun isSet => by cases isSet
          · intro isDestroyed
            have isDestroyed : s.life cb = .destroyed := isDestroyed
            simp [isDestroyed, Place.fits] at fits
        case pointer => exact fun _ => Function.update_self ..
      · cases call with
        | stop other last =>
            exact absurd inside (threadSound.no_stop_call (pcEq ▸ rfl))
        | register other =>
            obtain ⟨isNever, ranOnce⟩ := threadSound.calls _ inside
            have notCb : other ≠ cb := by
              rintro rfl
              simp [isPopped] at isNever
            exact ⟨(Function.update_of_ne notCb ..).trans isNever,
              (Function.update_of_ne notCb ..).trans ranOnce⟩

/-- The requester is done with a callback: it goes back to its loop, or it
returns. -/
theorem Represents.finish {lastCb : Bool} {pc : Pc Cb} {returned : List Bool}
    {phase : Phase Thread} {pointers : Cb → Option Thread} {dones : Cb → Nat}
    (sound : Represents s g) (pcEq : s.pc thread = .stopRan cb lastCb)
    (others : ∀ other ≠ cb,
      pointers other = s.mDestroyed other ∧ dones other = s.mDone other)
    (handshake : s.life cb ≠ .destroyed → dones cb = 1 ∧ pointers cb = none)
    (outcome : phase = g.phase ∧ pc = .stopLock ∧ returned = s.returned ∨
      phase = .ended ∧ pc = .user ∧ returned = s.returned ++ [true] ∧
        g.cbs = []) :
    Represents { (s.setPlace cb .finished).setPc thread pc with
        mDestroyed := pointers, mDone := dones, returned := returned }
      { g with handled := none, phase := phase } := by
  have threadSound := sound.thread thread
  have global := sound.global
  have isActive := threadSound.active_of_inLoop (pcEq ▸ rfl)
  have noTakes := threadSound.no_takes (pcEq ▸ rfl)
  have relied := threadSound.pc
  rw [pcEq] at relied
  have isRunning : s.place cb = .running := relied.place
  have cbSound := global.callback cb
  have isHandled : g.handled = some cb :=
    (global.handled_iff cb).mpr (.inr isRunning)
  have requested : phase ≠ .quiet := by
    rcases outcome with ⟨rfl, _⟩ | ⟨rfl, _⟩ <;> simp [isActive]
  have roles : pc.holdsLock = false ∧ pc.takes = none ∧ pc.constructs = none := by
    rcases outcome with ⟨_, rfl, _⟩ | ⟨_, rfl, _⟩ <;> exact ⟨rfl, rfl, rfl⟩
  obtain ⟨noLock, takesNone, constructsNone⟩ := roles
  apply sound.advance thread
  case guarantee =>
    constructor
    case pc => exact fun other isOther => Function.update_of_ne isOther ..
    case phase =>
      exact outcome.imp (fun same => same.1)
        fun ended => .inr ⟨isActive, ended.1⟩
    case worker => exact fun cb other _ works => ⟨works, rfl, rfl, fun _ => rfl⟩
    case place => exact placeStep_update (isRunning ▸ .finish isActive)
    case handled =>
      exact fun other isOther isActive' =>
        absurd (Ghost.active_inj isActive isActive') isOther
    all_goals intros; first | rfl | assumption
  case global =>
    constructor
    case locked_iff => exact global.locked_iff
    case stop_iff =>
      have stopIff := global.stop_iff
      simpa [State.setPc, State.setPlace, isActive, requested] using stopIff
    case chain => exact global.chain
    case nodup => exact global.nodup
    case mem_cbs =>
      exact global.mem_cbs_setPlace (by simp [isRunning]) (by simp)
    case handled_iff =>
      intro other
      by_cases isCb : other = cb
      · simp [State.setPc, State.setPlace, isCb]
      · simp [State.setPc, State.setPlace, isCb, ← global.handled_iff,
          isHandled, Ne.symm isCb]
    case phase =>
      have phaseSound := global.phase
      rw [isActive] at phaseSound
      rcases outcome with ⟨rfl, rfl, rfl⟩ | ⟨rfl, rfl, rfl, emptied⟩
      · simp only [isActive]
        exact phaseSound
      · exact ⟨rfl, emptied, by simp [phaseSound.2]⟩
    case linking => exact global.linking_setPlace (by simp [pcEq]) (by simp)
    case callback =>
      intro other
      by_cases isCb : other = cb
      · subst isCb
        apply cbSound.displace (by simp [isRunning]) (Function.update_self ..)
        case isLinked => simp
        case fits =>
          have fits := cbSound.fits
          rw [isRunning] at fits
          exact Place.fits_finished fits
        case life => rfl
        case late => rfl
        case ran =>
          have ran := cbSound.ran (by simp [isRunning])
          rw [isRunning] at ran
          exact ran
        case prev =>
          exact fun _ _ => cbSound.prev (by simp [isRunning]) (by simp [isRunning])
        case done => simp
        case finished => exact fun _ => handshake
        case worker => rfl
      · apply (global.callback other).congr
        case place => exact Function.update_of_ne isCb ..
        case done => exact (others other isCb).2
        case pointer => exact (others other isCb).1
        case prev => exact fun _ _ => rfl
        case worker => exact id
        case phase => exact fun _ => requested
        all_goals rfl
  case own =>
    apply ThreadSound.ofPosition pc (s.calls thread)
    case pcEq => exact Function.update_self ..
    case callsEq => rfl
    case owner =>
      rw [noLock]
      exact threadSound.owner_at pcEq
    case active =>
      rcases outcome with ⟨rfl, rfl, _⟩ | ⟨rfl, rfl, _⟩ <;>
        simp [noTakes, Pc.inLoop, isActive]
    case requestsLe => cases pc.inLoop <;> simp [noTakes]
    case taken => simp [noTakes, takesNone]
    case requester =>
      exact fun _ => .inl (threadSound.isRequester isActive (by simp [pcEq]))
    case constructing =>
      rw [constructsNone]
      exact threadSound.constructing_at pcEq
    case nodup =>
      rw [constructsNone]
      exact threadSound.nodup_at pcEq
    case relies => rcases outcome with ⟨_, rfl, _⟩ | ⟨_, rfl, _⟩ <;> trivial
    case inside =>
      intro call inside
      cases call with
      | stop other last =>
          exact absurd inside (threadSound.no_stop_call (pcEq ▸ rfl))
      | register other =>
          obtain ⟨isNever, ranOnce⟩ := threadSound.calls _ inside
          have notCb : other ≠ cb := by
            rintro rfl
            simp [isRunning] at isNever
          exact ⟨(Function.update_of_ne notCb ..).trans isNever, ranOnce⟩

theorem State.afterRun_eq (lastCb : Bool) :
    s.afterRun thread cb lastCb =
      (fun t : State Thread Cb =>
        if lastCb then t.returnStop thread true else t.setPc thread .stopLock)
        { s.setPlace cb .finished with
          mDestroyed := if s.destroyed thread then s.mDestroyed
            else Function.update s.mDestroyed cb none
          mDone := if s.destroyed thread then s.mDone
            else Function.update s.mDone cb (s.mDone cb + 1) } := by
  have placed : (s.setPlace cb .finished).destroyed = s.destroyed := rfl
  unfold State.afterRun
  cases isSet : s.destroyed thread <;> simp [placed, isSet] <;> rfl

/-- What `request_stop` does behind `cb->run()`. -/
theorem Represents.afterRun {lastCb : Bool} (sound : Represents s g)
    (pcEq : s.pc thread = .stopRan cb lastCb) :
    ∃ g', Represents (s.afterRun thread cb lastCb) g' := by
  have relied := (sound.thread thread).pc
  rw [pcEq] at relied
  have notDone : s.mDone cb = 0 :=
    (sound.global.callback cb).done (by simp [relied.place])
  rw [State.afterRun_eq]
  have others (other : Cb) (isOther : other ≠ cb) :
      (if s.destroyed thread then s.mDestroyed
        else Function.update s.mDestroyed cb none) other =
          s.mDestroyed other ∧
      (if s.destroyed thread then s.mDone
        else Function.update s.mDone cb (s.mDone cb + 1)) other =
          s.mDone other := by
    split_ifs <;> simp [isOther]
  have handshake (notDestroyed : s.life cb ≠ .destroyed) :
      (if s.destroyed thread then s.mDone
        else Function.update s.mDone cb (s.mDone cb + 1)) cb = 1 ∧
      (if s.destroyed thread then s.mDestroyed
        else Function.update s.mDestroyed cb none) cb = none := by
    rw [if_neg (mt relied.flag.mp notDestroyed),
      if_neg (mt relied.flag.mp notDestroyed)]
    simp [notDone]
  cases lastCb with
  | true =>
      exact ⟨_, sound.finish pcEq others handshake
        (.inr ⟨rfl, rfl, rfl, relied.last rfl⟩)⟩
  | false =>
      exact ⟨_, sound.finish pcEq others handshake (.inl ⟨rfl, rfl, rfl⟩)⟩

end Callbacks

end CoContext.StopCallback
