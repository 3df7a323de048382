import CoContext.StopCallbackLifetime

/-!
# Safety of stop callbacks

Every reachable state represents something, so at most one `request_stop`
returns true, the list is well formed whenever it is not locked, every callback
runs when it has to and none runs behind its destructor.
-/

namespace CoContext.StopCallback

variable {Thread Cb : Type*}
variable {s s' : State Thread Cb} {g : Ghost Thread Cb}
variable {thread : Thread} {cb : Cb}

section Steps

/-- Who has written `m_requester` is inside of the callback that is handled. -/
theorem Represents.inside_of_handled (sound : Represents s g)
    (isRequester : s.mRequester = some thread)
    (takesNone : (s.pc thread).takes = none)
    (isHandled : s.place cb = .popped ∨ s.place cb = .running) :
    ∃ lastCb, .stop cb lastCb ∈ s.calls thread := by
  have handledEq := (sound.global.handled_iff cb).mpr isHandled
  have phase := sound.global.phase
  cases phaseEq : g.phase with
  | quiet =>
      rw [phaseEq] at phase
      simp [phase.1] at isRequester
  | ended =>
      rw [phaseEq] at phase
      simp [phase.1] at handledEq
  | active requester =>
      rw [phaseEq] at phase
      obtain rfl : thread = requester := by simpa [isRequester] using phase.1
      have takenEq := (sound.thread thread).taken phaseEq
      rw [State.taken, takesNone, handledEq] at takenEq
      have isTaken : cb ∈ (s.calls thread).filterMap Call.takes := by
        have isMember : cb ∈ [cb] := List.mem_cons_self
        rwa [← show _ = [cb] from takenEq] at isMember
      obtain ⟨call, inside, takes⟩ := List.mem_filterMap.mp isTaken
      cases call with
      | register other => cases takes
      | stop other lastCb =>
          obtain rfl := Option.some.inj takes
          exact ⟨lastCb, inside⟩

/-- A callback without a state was never on the list. -/
theorem Global.never_of_stateless (global : Global s g)
    (lifeEq : s.life cb = .alive false) : s.place cb = .never := by
  have fits := (global.callback cb).fits
  rw [lifeEq] at fits
  cases placeEq : s.place cb <;> simp_all [Place.fits]

theorem ThreadSound.stop_not_inside {lastCb : Bool}
    (sound : ThreadSound s g thread) (notRunning : s.place cb ≠ .running) :
    .stop cb lastCb ∉ s.calls thread :=
  fun inside => notRunning (sound.calls _ inside).place

/-- The stop sources do not matter to the invariant. -/
theorem Represents.setSources {sources : Nat} (sound : Represents s g) :
    Represents { s with mValue := { s.mValue with sources := sources } } g := by
  refine ⟨?_, fun thread => ?_⟩
  · have global := sound.global
    exact ⟨global.locked_iff, global.stop_iff, global.chain, global.nodup,
      global.mem_cbs, global.handled_iff, global.phase, global.linking,
      fun cb => (global.callback cb).congr rfl rfl rfl rfl rfl rfl
        (fun _ _ => rfl) id id⟩
  · have threadSound := sound.thread thread
    have relied := threadSound.pc
    refine ⟨threadSound.owner_iff, threadSound.active_iff,
      threadSound.requests_le, threadSound.taken, threadSound.requester,
      threadSound.constructing, threadSound.nodup, ?_, ?_⟩
    · simp only
      cases pcEq : s.pc thread with
      | stopRan cb lastCb =>
          rw [pcEq] at relied
          exact ⟨relied.place, relied.last, relied.flag, relied.pointer⟩
      | removeLoad | removeTry | removeUnlink | removeRequester
      | removeAcquire =>
          rw [pcEq] at relied
          exact ⟨⟨relied.1.worker, relied.1.life⟩, relied.2⟩
      | removeUnlock cb found =>
          rw [pcEq] at relied
          cases found <;> exact ⟨⟨relied.1.worker, relied.1.life⟩, relied.2⟩
      | _ =>
          rw [pcEq] at relied
          exact relied
    · exact fun call inside =>
        (threadSound.calls call inside).congr rfl rfl Iff.rfl rfl rfl id

theorem represents_new : Represents (State.new Thread Cb)
    ⟨none, .quiet, fun _ => none, none, []⟩ := by
  refine ⟨?_, fun thread => ?_⟩
  · constructor
    case locked_iff => simp [State.new]
    case stop_iff => simp [State.new]
    case chain => rfl
    case nodup => exact List.nodup_nil
    case mem_cbs => simp [State.new]
    case handled_iff => simp [State.new]
    case phase => exact ⟨rfl, rfl, rfl⟩
    case linking => simp [State.new]
    case callback =>
      intro cb
      constructor <;> simp [State.new, Place.fits]
  · apply ThreadSound.ofPosition .user [] rfl rfl
    case relies => trivial
    all_goals simp [Pc.holdsLock, Pc.inLoop, Pc.constructs]

variable [DecidableEq Thread] [DecidableEq Cb]

/-- A destructor returns whose callback is not handled. -/
theorem Represents.destroyUnhandled {before : Pc Cb} {mValue : Value}
    {dones : Cb → Nat} (sound : Represents s g) (owner : Option Thread)
    (pcEq : s.pc thread = before) (notInLoop : before.inLoop = false)
    (takesNone : before.takes = none) (constructsNone : before.constructs = none)
    (works : ∀ other, g.worker cb = some other → other = thread)
    (life : s.life cb = .destroying ∨ s.life cb = .alive false)
    (place : s.place cb = .never ∨ s.place cb = .unlinked ∨
      s.place cb = .finished)
    (donesEq : ∀ other, other ≠ cb ∨ s.place cb ≠ .finished →
      dones other = s.mDone other)
    (others : ∀ other, other ≠ thread →
      (owner = some other ↔ g.owner = some other))
    (own : owner ≠ some thread)
    (locked : mValue.locked = true ↔ owner ≠ none)
    (stop : mValue.stopRequested = s.mValue.stopRequested) :
    ∃ g', Represents { s.destroy thread cb with
      mValue := mValue, mDone := dones } g' := by
  have notRunning : s.place cb ≠ .running := by
    rcases place with place | place | place <;> simp [place]
  refine ⟨_, sound.destroy owner pcEq notInLoop takesNone constructsNone works life
    ?_ ?_ (fun _ _ => rfl) ?_ (fun _ _ _ _ => rfl) donesEq others own locked
    stop⟩
  · rcases place with place | place | place <;> rw [place] <;> rfl
  · intro other _ _ isHandled
    have isTaken := (sound.global.handled_iff cb).mp isHandled
    rcases place with place | place | place <;> simp [place] at isTaken
  · exact fun lastCb inside => absurd inside
      ((sound.thread thread).stop_not_inside notRunning)

/-- The destructor returns on the thread that requests the stop. -/
theorem Represents.destroyRequester (sound : Represents s g)
    (pcEq : s.pc thread = .removeRequester cb)
    (isRequester : s.mRequester = some thread) :
    ∃ g', Represents ((s.markDestroyed cb).destroy thread cb) g' := by
  have threadSound := sound.thread thread
  have cbSound := sound.global.callback cb
  have relied := threadSound.pc
  rw [pcEq] at relied
  obtain ⟨removing, notListed, notUnlinked⟩ := relied
  have works (other : Thread) (works' : g.worker cb = some other) :
      other = thread :=
    Option.some.inj (works'.symm.trans removing.worker)
  have notOwner : g.owner ≠ some thread := by
    rw [Ne, ← threadSound.owner_iff, pcEq]
    exact Bool.false_ne_true
  by_cases isFinished : s.place cb = .finished
  · have nullPointer :=
      (cbSound.finished isFinished (by simp [removing.life])).2
    have markEq : s.markDestroyed cb = s := by
      unfold State.markDestroyed
      rw [nullPointer]
    rw [markEq]
    exact sound.destroyUnhandled g.owner pcEq rfl rfl rfl works (.inl removing.life)
      (.inr (.inr isFinished)) (fun _ _ => rfl) (fun _ _ => Iff.rfl) notOwner
      sound.global.locked_iff rfl
  · have isHandled : s.place cb = .popped ∨ s.place cb = .running := by
      have fits := cbSound.fits
      rw [removing.life] at fits
      cases placeEq : s.place cb <;> simp_all [Place.fits]
    obtain ⟨lastCb, inside⟩ :=
      sound.inside_of_handled isRequester (pcEq ▸ rfl) isHandled
    have handles : Handles s g thread cb lastCb := threadSound.calls _ inside
    have pointer := handles.pointer (by simp [removing.life])
    have isActive := threadSound.active_of_call inside
    have handledEq := (sound.global.handled_iff cb).mpr isHandled
    have markEq : s.markDestroyed cb =
        { s with destroyed := Function.update s.destroyed thread true } := by
      unfold State.markDestroyed
      rw [pointer]
    rw [markEq]
    refine ⟨_, sound.destroy g.owner pcEq rfl rfl rfl works (.inl removing.life) ?_ ?_
      ?_ ?_ ?_ (fun _ _ => rfl) (fun _ _ => Iff.rfl) notOwner
      sound.global.locked_iff rfl⟩
    · rw [handles.place]
      rfl
    · exact fun other isOther isActive' _ =>
        isOther (Ghost.active_inj isActive isActive')
    · exact fun other isOther => Function.update_of_ne isOther ..
    · exact fun _ _ => Function.update_self ..
    · intro other otherLast inside' notCb
      have handles' : Handles s g thread other otherLast :=
        threadSound.calls _ inside'
      have handledEq' :=
        (sound.global.handled_iff other).mpr (.inr handles'.place)
      exact absurd (Option.some.inj (handledEq'.symm.trans handledEq)) notCb

theorem Represents.run {spurious : Bool} (sound : Represents s g)
    (runEq : s.run thread spurious = some s') : ∃ g', Represents s' g' := by
  have threadSound := sound.thread thread
  have global := sound.global
  have relied := threadSound.pc
  have owns := threadSound.owner_iff.mp
  unfold State.run at runEq
  cases pcEq : s.pc thread with
  | user =>
      rw [pcEq] at runEq
      cases runEq
  | stopLoad =>
      rw [pcEq] at runEq
      obtain rfl := Option.some.inj runEq
      exact ⟨g, sound.setPc pcEq ⟨rfl, rfl, rfl, by simp⟩ (by simp) rfl
        global.stop_iff.mp⟩
  | stopTry old =>
      rw [pcEq] at runEq relied
      obtain rfl := Option.some.inj runEq
      have retried : Represents (s.setPc thread (.stopTry s.mValue)) g :=
        sound.setPc pcEq ⟨rfl, rfl, rfl, by simp⟩ (by simp) rfl
          global.stop_iff.mp
      unfold State.tryLockAndStop
      split_ifs with isRequested isLocked exchanged
      · exact ⟨g, sound.returnFalse pcEq (relied isRequested)⟩
      · exact ⟨g, retried⟩
      · obtain ⟨rfl, _⟩ := exchanged
        exact ⟨_, sound.enter pcEq (Bool.eq_false_iff.mpr isLocked)
          (Bool.eq_false_iff.mpr isRequested)⟩
      · exact ⟨g, retried⟩
  | stopEnter =>
      rw [pcEq] at runEq
      obtain rfl := Option.some.inj runEq
      apply (sound.setRequester pcEq).pop
      · exact ⟨pcEq ▸ rfl, pcEq ▸ rfl, pcEq ▸ rfl, by simp [pcEq]⟩
      · exact pcEq ▸ rfl
      · rfl
  | stopPop =>
      rw [pcEq] at runEq
      obtain rfl := Option.some.inj runEq
      apply sound.pop
      · exact ⟨pcEq ▸ rfl, pcEq ▸ rfl, pcEq ▸ rfl, by simp [pcEq]⟩
      · exact pcEq ▸ rfl
      · exact threadSound.isRequester
          (threadSound.active_of_inLoop (pcEq ▸ rfl)) (by simp [pcEq])
  | stopUnlock cb lastCb =>
      rw [pcEq] at runEq relied
      obtain rfl := Option.some.inj runEq
      exact ⟨_, sound.unlock pcEq ⟨rfl, rfl, rfl, by simp⟩ (by simp) rfl rfl
        relied⟩
  | stopRun cb lastCb =>
      rw [pcEq] at runEq
      obtain rfl := Option.some.inj runEq
      exact ⟨g, sound.runCallback pcEq⟩
  | stopRan cb lastCb =>
      rw [pcEq] at runEq
      obtain rfl := Option.some.inj runEq
      exact sound.afterRun pcEq
  | stopLock =>
      rw [pcEq] at runEq
      obtain rfl := Option.some.inj runEq
      exact ⟨g, sound.setPc pcEq ⟨rfl, rfl, rfl, by simp⟩ (by simp) rfl trivial⟩
  | stopRelock old =>
      rw [pcEq] at runEq
      obtain rfl := Option.some.inj runEq
      apply Represents.tryLock
      · exact sound.setPc pcEq ⟨rfl, rfl, rfl, by simp⟩ (by simp) rfl trivial
      · exact fun _ isFree => sound.lock pcEq ⟨rfl, rfl, rfl, by simp⟩
          (by simp) isFree rfl trivial
  | stopEnd =>
      rw [pcEq] at runEq
      obtain rfl := Option.some.inj runEq
      exact ⟨_, sound.returnTrue pcEq⟩
  | registerLoad cb =>
      rw [pcEq] at runEq relied
      obtain rfl := Option.some.inj runEq
      refine ⟨g, sound.setPc pcEq ⟨rfl, rfl, rfl, by simp⟩ (by simp) rfl
        ⟨relied.1, relied.2, global.stop_iff.mp, ?_⟩⟩
      exact fun isLate =>
        global.stop_iff.mpr ((global.callback cb).late isLate).2.1
  | registerTry cb old =>
      rw [pcEq] at runEq relied
      obtain rfl := Option.some.inj runEq
      obtain ⟨isNever, notRan, wasRequested, isLate⟩ := relied
      have requestedOfLate (late : s.late cb = true) :
          s.mValue.stopRequested = true :=
        global.stop_iff.mpr ((global.callback cb).late late).2.1
      unfold State.tryRegister
      split_ifs with isRequested noSource
      · exact ⟨g, sound.callLate pcEq⟩
      · refine ⟨_, sound.constructed g.owner pcEq rfl rfl rfl ?_ ?_ (fun _ _ => Iff.rfl)
          ?_ global.locked_iff rfl⟩
        · rw [isNever]
          rfl
        · exact fun late => absurd (isLate late) isRequested
        · rw [Ne, ← threadSound.owner_iff, pcEq]
          exact Bool.false_ne_true
      · apply Represents.tryLock
        · exact sound.setPc pcEq ⟨rfl, rfl, rfl, by simp⟩ (by simp) rfl
            ⟨isNever, notRan, global.stop_iff.mp, requestedOfLate⟩
        · rintro rfl isFree
          have isQuiet : g.phase = .quiet := by
            by_contra requested
            exact isRequested (global.stop_iff.mpr requested)
          have notLate : s.late cb = false := by
            by_contra late
            exact isRequested (isLate (by simpa using late))
          exact sound.lock pcEq ⟨rfl, rfl, rfl, by simp⟩ (by simp) isFree rfl
            ⟨isNever, notRan, isQuiet, notLate⟩
  | registerLink cb =>
      rw [pcEq] at runEq
      obtain rfl := Option.some.inj runEq
      exact ⟨_, sound.link pcEq⟩
  | registerUnlock cb =>
      rw [pcEq] at runEq relied owns
      obtain rfl := Option.some.inj runEq
      refine ⟨_, sound.constructed none pcEq rfl rfl rfl ?_ ?_ ?_ (by simp)
        (by simp [State.setLife, State.unlock]) rfl⟩
      · rw [relied.1]
        rfl
      · intro late
        have isNever := ((global.callback cb).late late).1
        exact absurd (relied.1.symm.trans isNever) (by simp)
      · simp +contextual [owns rfl, Ne.symm]
  | registerRan cb =>
      rw [pcEq] at runEq relied
      obtain rfl := Option.some.inj runEq
      refine ⟨_, sound.constructed g.owner pcEq rfl rfl rfl ?_ (fun _ => relied.2)
        (fun _ _ => Iff.rfl) ?_ global.locked_iff rfl⟩
      · rw [relied.1]
        rfl
      · rw [Ne, ← threadSound.owner_iff, pcEq]
        exact Bool.false_ne_true
  | removeLoad cb =>
      rw [pcEq] at runEq relied
      obtain rfl := Option.some.inj runEq
      exact ⟨g, sound.setPc pcEq ⟨rfl, rfl, rfl, by simp⟩ (by simp) rfl
        ⟨⟨relied.1.worker, relied.1.life⟩, relied.2⟩⟩
  | removeTry cb old =>
      rw [pcEq] at runEq relied
      obtain rfl := Option.some.inj runEq
      apply Represents.tryLock
      · exact sound.setPc pcEq ⟨rfl, rfl, rfl, by simp⟩ (by simp) rfl
          ⟨⟨relied.1.worker, relied.1.life⟩, relied.2⟩
      · exact fun _ isFree => sound.lock pcEq ⟨rfl, rfl, rfl, by simp⟩
          (by simp) isFree rfl ⟨⟨relied.1.worker, relied.1.life⟩, relied.2⟩
  | removeUnlink cb =>
      rw [pcEq] at runEq
      obtain rfl := Option.some.inj runEq
      exact sound.unlink pcEq
  | removeUnlock cb found =>
      rw [pcEq] at runEq relied owns
      cases found with
      | false =>
          obtain rfl := Option.some.inj runEq
          obtain ⟨removing, beyond⟩ := relied
          exact ⟨_, sound.unlock pcEq ⟨rfl, rfl, rfl, by simp⟩ (by simp) rfl rfl
            ⟨⟨removing.worker, removing.life⟩, beyond⟩⟩
      | true =>
          obtain rfl := Option.some.inj runEq
          obtain ⟨removing, isUnlinked⟩ := relied
          apply sound.destroyUnhandled none pcEq rfl rfl rfl _
            (.inl removing.life) (.inr (.inl isUnlinked)) (fun _ _ => rfl)
          · simp +contextual [owns rfl, Ne.symm]
          · simp
          · simp [State.setLife, State.unlock]
          · rfl
          · exact fun other works =>
              Option.some.inj (works.symm.trans removing.worker)
  | removeRequester cb =>
      rw [pcEq] at runEq relied
      obtain ⟨removing, beyond⟩ := relied
      simp only at runEq
      split_ifs at runEq with isRequester
      · obtain rfl := Option.some.inj runEq
        exact sound.destroyRequester pcEq isRequester
      · obtain rfl := Option.some.inj runEq
        exact ⟨g, sound.setPc pcEq ⟨rfl, rfl, rfl, by simp⟩ (by simp) rfl
          ⟨⟨removing.worker, removing.life⟩, beyond⟩⟩
  | removeAcquire cb =>
      rw [pcEq] at runEq relied
      obtain ⟨removing, beyond⟩ := relied
      simp only at runEq
      split_ifs at runEq with hasToken
      obtain rfl := Option.some.inj runEq
      have isFinished : s.place cb = .finished := by
        by_contra notFinished
        have noToken := (global.callback cb).done notFinished
        omega
      apply sound.destroyUnhandled g.owner pcEq rfl rfl rfl _
        (.inl removing.life) (.inr (.inr isFinished)) _ (fun _ _ => Iff.rfl) _
        global.locked_iff rfl
      · exact fun other works =>
          Option.some.inj (works.symm.trans removing.worker)
      · intro other untouched
        apply Function.update_of_ne
        exact untouched.resolve_right (by simp [isFinished])
      · rw [Ne, ← threadSound.owner_iff, pcEq]
        exact Bool.false_ne_true

theorem Represents.step {action : Action Thread Cb} (sound : Represents s g)
    (stepEq : step s action = some s') : ∃ g', Represents s' g' := by
  cases action with
  | construct thread cb =>
      simp only [StopCallback.step, Option.ite_none_right_eq_some,
        Option.some.injEq] at stepEq
      obtain ⟨⟨pcEq, isAbsent⟩, rfl⟩ := stepEq
      exact ⟨_, sound.construct pcEq isAbsent⟩
  | destroy thread cb =>
      simp only [StopCallback.step, Option.ite_none_right_eq_some] at stepEq
      obtain ⟨pcEq, stepEq⟩ := stepEq
      cases lifeEq : s.life cb with
      | absent | constructing | destroying | destroyed => simp [lifeEq] at stepEq
      | alive hasState =>
          cases hasState with
          | true =>
              simp only [lifeEq, Option.some.injEq] at stepEq
              subst stepEq
              exact ⟨_, sound.beginDestroy pcEq lifeEq⟩
          | false =>
              simp only [lifeEq, Option.some.injEq] at stepEq
              subst stepEq
              have isNever := sound.global.never_of_stateless lifeEq
              apply sound.destroyUnhandled g.owner pcEq rfl rfl rfl _
                (.inr lifeEq) (.inl isNever) (fun _ _ => rfl)
                (fun _ _ => Iff.rfl) _ sound.global.locked_iff rfl
              · intro other works
                have life := (sound.global.callback cb).worker (by simp [works])
                simp [lifeEq] at life
              · rw [Ne, ← (sound.thread thread).owner_iff, pcEq]
                exact Bool.false_ne_true
  | requestStop thread =>
      simp only [StopCallback.step, Option.ite_none_right_eq_some,
        Option.some.injEq] at stepEq
      obtain ⟨pcEq, rfl⟩ := stepEq
      exact ⟨g, sound.setPc pcEq ⟨rfl, rfl, rfl, by simp⟩ (by simp) rfl trivial⟩
  | leave thread => exact ⟨g, sound.leave stepEq⟩
  | run thread spurious => exact sound.run stepEq
  | addSsrc thread =>
      obtain rfl := Option.some.inj stepEq
      exact ⟨g, sound.setSources⟩
  | subSsrc thread =>
      simp only [StopCallback.step, Option.ite_none_right_eq_some,
        Option.some.injEq] at stepEq
      obtain ⟨_, rfl⟩ := stepEq
      exact ⟨g, sound.setSources⟩

theorem represents_of_reachable
    (reached : (system Thread Cb).Reachable s) : ∃ g, Represents s g := by
  induction reached with
  | start isInitial =>
      rw [show _ = State.new Thread Cb from isInitial]
      exact ⟨_, represents_new⟩
  | next _ _ stepEq ih =>
      obtain ⟨g, sound⟩ := ih
      exact sound.step stepEq

end Steps

section Fates

/-- What a step of a thread may do to a callback at most. -/
inductive Fate (thread : Thread) (s s' : State Thread Cb) (cb : Cb) : Prop
  | same : s'.life cb = s.life cb → s'.place cb = s.place cb →
      s'.ran cb = s.ran cb → Fate thread s s' cb
  | living : s.life cb ≠ .destroyed → s'.life cb ≠ .destroyed →
      Fate thread s s' cb
  | finish : s.place cb = .running → s'.life cb = s.life cb →
      Fate thread s s' cb
  | destroy : s.life cb ≠ .destroyed → s'.place cb = s.place cb →
      s'.ran cb = s.ran cb → (s.mRequester = some thread ∨
        s.place cb = .never ∨ s.place cb = .unlinked ∨
          s.place cb = .finished) → Fate thread s s' cb

/-- A step that changes one callback. -/
theorem fate_of_change (changed : Cb) (own : Fate thread s s' changed)
    (others : ∀ other, other ≠ changed → s'.life other = s.life other ∧
      s'.place other = s.place other ∧ s'.ran other = s.ran other) :
    Fate thread s s' cb := by
  by_cases isChanged : cb = changed
  · rwa [isChanged]
  · obtain ⟨lifeEq, placeEq, ranEq⟩ := others cb isChanged
    exact .same lifeEq placeEq ranEq

/-- The callback is destroyed and no thread will run it. -/
structure Gone (s : State Thread Cb) (cb : Cb) (times : Nat) : Prop where
  life : s.life cb = .destroyed
  place : s.place cb ≠ .running
  ran : s.ran cb = times

theorem Gone.not_runs {times : Nat} (gone : Gone s cb times)
    (sound : Represents s g) : ¬ s.Runs thread cb := by
  rintro ⟨call, inside, rfl⟩
  cases call with
  | stop cb lastCb =>
      exact gone.place ((sound.thread thread).calls _ inside).place
  | register cb =>
      have life := ((sound.thread thread).worker_of_call inside).2
      exact absurd (gone.life.symm.trans life) (by simp)

theorem Represents.head_not_destroyed (sound : Represents s g) (first : Cb)
    (headEq : s.mHead = some first) : s.life first ≠ .destroyed := by
  intro isDestroyed
  have chain := sound.global.chain
  rw [headEq] at chain
  have fits := (sound.global.callback first).fits
  rw [(sound.global.mem_cbs first).mp chain.head_mem, isDestroyed] at fits
  cases fits

variable [DecidableEq Thread]

theorem fate_of_leave (leaveEq : s.leave thread = some s') :
    Fate thread s s' cb := by
  unfold State.leave at leaveEq
  split at leaveEq
  case h_2 => cases leaveEq
  case h_1 =>
    obtain rfl := Option.some.inj leaveEq
    exact .same rfl rfl rfl

variable [DecidableEq Cb]

theorem fate_of_pop {requester : Option Thread}
    (living : ∀ first, s.mHead = some first → s.life first ≠ .destroyed) :
    Fate thread s ({ s with mRequester := requester }.pop thread) cb := by
  cases headEq : s.mHead with
  | none =>
      simp only [State.pop]
      exact .same rfl rfl rfl
  | some first =>
      have notDestroyed := living first headEq
      simp only [State.pop]
      apply fate_of_change first
      · exact .living notDestroyed notDestroyed
      · exact fun other isOther => ⟨rfl, Function.update_of_ne isOther .., rfl⟩

theorem fate_of_constructed {mValue : Value} {hasState : Bool} {changed : Cb}
    (notDestroyed : s.life changed ≠ .destroyed) :
    Fate thread s
      ({ s with mValue := mValue }.constructed thread changed hasState) cb := by
  apply fate_of_change changed
  · apply Fate.living notDestroyed
    simp [State.constructed, State.setPc, State.setLife]
  · exact fun other isOther => ⟨Function.update_of_ne isOther .., rfl, rfl⟩

theorem fate_of_destroy {mValue : Value} {flags : Thread → Bool}
    {dones : Cb → Nat} {changed : Cb} (notDestroyed : s.life changed ≠ .destroyed)
    (waited : s.mRequester = some thread ∨ s.place changed = .never ∨
      s.place changed = .unlinked ∨ s.place changed = .finished) :
    Fate thread s ({ s with
      mValue := mValue, destroyed := flags, mDone := dones }.destroy
        thread changed) cb := by
  apply fate_of_change changed
  · exact .destroy notDestroyed rfl rfl waited
  · exact fun other isOther => ⟨Function.update_of_ne isOther .., rfl, rfl⟩

theorem Represents.fate_of_run {spurious : Bool} (sound : Represents s g)
    (runEq : s.run thread spurious = some s') : Fate thread s s' cb := by
  have threadSound := sound.thread thread
  have global := sound.global
  have relied := threadSound.pc
  unfold State.run at runEq
  cases pcEq : s.pc thread with
  | user =>
      rw [pcEq] at runEq
      cases runEq
  | stopLoad | stopLock | registerLoad | removeLoad | stopUnlock | stopEnd =>
      rw [pcEq] at runEq
      obtain rfl := Option.some.inj runEq
      exact .same rfl rfl rfl
  | stopTry old =>
      rw [pcEq] at runEq
      obtain rfl := Option.some.inj runEq
      unfold State.tryLockAndStop
      split_ifs <;> exact .same rfl rfl rfl
  | stopRelock old | removeTry other old =>
      rw [pcEq] at runEq
      obtain rfl := Option.some.inj runEq
      unfold State.tryLock
      split_ifs <;> exact .same rfl rfl rfl
  | stopEnter =>
      rw [pcEq] at runEq
      obtain rfl := Option.some.inj runEq
      exact fate_of_pop sound.head_not_destroyed
  | stopPop =>
      rw [pcEq] at runEq
      obtain rfl := Option.some.inj runEq
      exact fate_of_pop sound.head_not_destroyed
  | stopRun other lastCb =>
      rw [pcEq] at runEq relied
      obtain rfl := Option.some.inj runEq
      have notDestroyed : s.life other ≠ .destroyed := by
        intro isDestroyed
        have fits := (global.callback other).fits
        rw [relied.1, isDestroyed] at fits
        cases fits
      apply fate_of_change other
      · exact .living notDestroyed notDestroyed
      · exact fun another isOther => ⟨rfl, Function.update_of_ne isOther ..,
          Function.update_of_ne isOther ..⟩
  | stopRan other lastCb =>
      rw [pcEq] at runEq relied
      obtain rfl := Option.some.inj runEq
      rw [State.afterRun_eq]
      cases lastCb with
      | true | false =>
          apply fate_of_change other
          · exact .finish relied.place rfl
          · exact fun another isOther =>
              ⟨rfl, Function.update_of_ne isOther .., rfl⟩
  | registerTry other old =>
      rw [pcEq] at runEq
      obtain rfl := Option.some.inj runEq
      have isConstructing : s.life other = .constructing :=
        (threadSound.worker_of_pc (pcEq ▸ rfl)).2
      have notDestroyed : s.life other ≠ .destroyed := by simp [isConstructing]
      unfold State.tryRegister State.tryLock
      split_ifs
      · apply fate_of_change other
        · exact .living notDestroyed notDestroyed
        · exact fun another isOther =>
            ⟨rfl, rfl, Function.update_of_ne isOther ..⟩
      · exact fate_of_constructed notDestroyed
      all_goals exact .same rfl rfl rfl
  | registerLink other =>
      rw [pcEq] at runEq
      obtain rfl := Option.some.inj runEq
      have isConstructing : s.life other = .constructing :=
        (threadSound.worker_of_pc (pcEq ▸ rfl)).2
      have notDestroyed : s.life other ≠ .destroyed := by simp [isConstructing]
      apply fate_of_change other
      · exact .living notDestroyed notDestroyed
      · exact fun another isOther =>
          ⟨rfl, Function.update_of_ne isOther .., rfl⟩
  | registerUnlock other | registerRan other =>
      rw [pcEq] at runEq
      obtain rfl := Option.some.inj runEq
      have isConstructing : s.life other = .constructing :=
        (threadSound.worker_of_pc (pcEq ▸ rfl)).2
      exact fate_of_constructed (by simp [isConstructing])
  | removeUnlink other =>
      rw [pcEq] at runEq relied
      obtain rfl := Option.some.inj runEq
      have notDestroyed : s.life other ≠ .destroyed := by simp [relied.1.life]
      have lifeEq : (s.unlink thread other).life = s.life := by
        unfold State.unlink
        split_ifs
        · rfl
        · cases s.mPrev other <;> rfl
      have ranEq : (s.unlink thread other).ran = s.ran := by
        unfold State.unlink
        split_ifs
        · rfl
        · cases s.mPrev other <;> rfl
      have placeEq (another : Cb) (isOther : another ≠ other) :
          (s.unlink thread other).place another = s.place another := by
        unfold State.unlink
        split_ifs
        · exact Function.update_of_ne isOther ..
        · cases s.mPrev other with
          | none => rfl
          | some previous => exact Function.update_of_ne isOther ..
      apply fate_of_change other
      · exact .living notDestroyed (lifeEq ▸ notDestroyed)
      · rw [lifeEq, ranEq]
        exact fun another isOther => ⟨rfl, placeEq another isOther, rfl⟩
  | removeUnlock other found =>
      rw [pcEq] at runEq relied
      cases found with
      | false =>
          obtain rfl := Option.some.inj runEq
          exact .same rfl rfl rfl
      | true =>
          obtain rfl := Option.some.inj runEq
          exact fate_of_destroy (by simp [relied.1.life])
            (.inr (.inr (.inl relied.2)))
  | removeRequester other =>
      rw [pcEq] at runEq relied
      simp only at runEq
      split_ifs at runEq with isRequester
      · obtain rfl := Option.some.inj runEq
        unfold State.markDestroyed
        cases s.mDestroyed other with
        | none =>
            exact fate_of_destroy (by simp [relied.1.life]) (.inl isRequester)
        | some requester =>
            exact fate_of_destroy (by simp [relied.1.life]) (.inl isRequester)
      · obtain rfl := Option.some.inj runEq
        exact .same rfl rfl rfl
  | removeAcquire other =>
      rw [pcEq] at runEq relied
      simp only at runEq
      split_ifs at runEq with hasToken
      obtain rfl := Option.some.inj runEq
      have isFinished : s.place other = .finished := by
        by_contra notFinished
        have noToken := (global.callback other).done notFinished
        omega
      exact fate_of_destroy (by simp [relied.1.life])
        (.inr (.inr (.inr isFinished)))

theorem Represents.fate_of_step {action : Action Thread Cb}
    (sound : Represents s g)
    (stepEq : StopCallback.step s action = some s') (cb : Cb) :
    Fate action.thread s s' cb := by
  cases action with
  | construct thread other =>
      simp only [StopCallback.step, Option.ite_none_right_eq_some,
        Option.some.injEq] at stepEq
      obtain ⟨⟨_, isAbsent⟩, rfl⟩ := stepEq
      apply fate_of_change other
      · apply Fate.living
        · simp [isAbsent]
        · simp [State.setPc, State.setLife]
      · exact fun another isOther =>
          ⟨Function.update_of_ne isOther .., rfl, rfl⟩
  | destroy thread other =>
      simp only [StopCallback.step, Option.ite_none_right_eq_some] at stepEq
      obtain ⟨_, stepEq⟩ := stepEq
      cases lifeEq : s.life other with
      | absent | constructing | destroying | destroyed => simp [lifeEq] at stepEq
      | alive hasState =>
          cases hasState with
          | true =>
              simp only [lifeEq, Option.some.injEq] at stepEq
              subst stepEq
              apply fate_of_change other
              · apply Fate.living
                · simp [lifeEq]
                · simp [State.setPc, State.setLife]
              · exact fun another isOther =>
                  ⟨Function.update_of_ne isOther .., rfl, rfl⟩
          | false =>
              simp only [lifeEq, Option.some.injEq] at stepEq
              subst stepEq
              exact fate_of_destroy (by simp [lifeEq])
                (.inr (.inl (sound.global.never_of_stateless lifeEq)))
  | requestStop thread =>
      simp only [StopCallback.step, Option.ite_none_right_eq_some,
        Option.some.injEq] at stepEq
      obtain ⟨_, rfl⟩ := stepEq
      exact .same rfl rfl rfl
  | leave thread => exact fate_of_leave stepEq
  | run thread spurious => exact sound.fate_of_run stepEq
  | addSsrc thread =>
      obtain rfl := Option.some.inj stepEq
      exact .same rfl rfl rfl
  | subSsrc thread =>
      simp only [StopCallback.step, Option.ite_none_right_eq_some,
        Option.some.injEq] at stepEq
      obtain ⟨_, rfl⟩ := stepEq
      exact .same rfl rfl rfl

theorem Gone.step {action : Action Thread Cb} {times : Nat}
    (gone : Gone s cb times) (sound : Represents s g)
    (stepEq : StopCallback.step s action = some s') : Gone s' cb times := by
  cases sound.fate_of_step stepEq cb with
  | same lifeEq placeEq ranEq =>
      exact ⟨lifeEq.trans gone.life, placeEq ▸ gone.place,
        ranEq.trans gone.ran⟩
  | living notDestroyed _ => exact absurd gone.life notDestroyed
  | finish isRunning _ => exact absurd isRunning gone.place
  | destroy notDestroyed _ _ _ => exact absurd gone.life notDestroyed

end Fates

section States

theorem Represents.returned_once (sound : Represents s g) :
    s.returned.count true ≤ 1 := by
  have phase := sound.global.phase
  cases phaseEq : g.phase with
  | quiet =>
      rw [phaseEq] at phase
      simp [phase.2.1]
  | active requester =>
      rw [phaseEq] at phase
      simp [phase.2]
  | ended =>
      rw [phaseEq] at phase
      simp [phase.2.2]

theorem Represents.takes_effect (sound : Represents s g)
    (isReturned : s.returned ≠ []) : s.mValue.stopRequested = true := by
  apply sound.global.stop_iff.mpr
  intro isQuiet
  have phase := sound.global.phase
  rw [isQuiet] at phase
  exact isReturned phase.2.1

/-- When a request has returned true, or nobody does anything, the request is
not under way. -/
theorem Represents.over_of_done (sound : Represents s g)
    (isDone : true ∈ s.returned ∨
      s.AtRest ∧ s.mValue.stopRequested = true) : g.phase = .ended := by
  have phase := sound.global.phase
  cases phaseEq : g.phase with
  | ended => rfl
  | quiet =>
      rw [phaseEq] at phase
      rcases isDone with isReturned | ⟨_, isRequested⟩
      · simp [phase.2.1] at isReturned
      · exact absurd phaseEq (sound.global.stop_iff.mp isRequested)
  | active requester =>
      rw [phaseEq] at phase
      rcases isDone with isReturned | ⟨atRest, _⟩
      · have returnedOnce := List.count_pos_iff.mpr isReturned
        have notReturned : s.returned.count true = 0 := phase.2
        omega
      · have requests := (sound.thread requester).active_iff.mpr phaseEq
        simp [State.requests, atRest requester, Pc.inLoop] at requests

theorem Represents.registered_ran (sound : Represents s g)
    (isOver : g.phase = .ended) (wasLinked : s.place cb ≠ .never) :
    s.place cb = .unlinked ∨ s.ran cb = 1 := by
  have global := sound.global
  have phase := global.phase
  rw [isOver] at phase
  obtain ⟨noneHandled, noneListed, _⟩ := phase
  have notListed : s.place cb ≠ .listed := by
    rw [Ne, ← global.mem_cbs, noneListed]
    exact List.not_mem_nil
  have notHandled := mt (global.handled_iff cb).mpr (by simp [noneHandled])
  have ranEq := (global.callback cb).ran wasLinked
  cases placeEq : s.place cb <;> simp_all [Place.ran]

theorem Represents.late_ran (sound : Represents s g)
    (isLate : s.late cb = true) :
    (∀ thread lastCb, .stop cb lastCb ∉ s.calls thread) ∧
      (s.life cb ≠ .constructing →
        s.ran cb = 1 ∧ ∀ thread, ¬ s.Runs thread cb) := by
  have cbSound := sound.global.callback cb
  have isNever := (cbSound.late isLate).1
  have notCalled (thread : Thread) (lastCb : Bool) :
      .stop cb lastCb ∉ s.calls thread :=
    (sound.thread thread).stop_not_inside (by simp [isNever])
  refine ⟨notCalled, fun isConstructed =>
    ⟨cbSound.lateRan isLate isConstructed, ?_⟩⟩
  rintro thread ⟨call, inside, rfl⟩
  cases call with
  | stop cb lastCb => exact notCalled thread lastCb inside
  | register cb =>
      exact isConstructed ((sound.thread thread).worker_of_call inside).2

variable [DecidableEq Thread] [DecidableEq Cb]

theorem Represents.not_stuck (sound : Represents s g)
    (isBusy : s.pc thread ≠ .user) :
    (∃ successor, StopCallback.step s (.run thread false) =
      some successor) ∨
    ∃ cb, s.pc thread = .removeAcquire cb ∧
      (s.place cb = .popped ∨ s.place cb = .running) := by
  cases pcEq : s.pc thread with
  | user => exact absurd pcEq isBusy
  | removeAcquire cb =>
      have relied := (sound.thread thread).pc
      rw [pcEq] at relied
      obtain ⟨removing, notListed, notUnlinked⟩ := relied
      by_cases hasToken : 0 < s.mDone cb
      · exact .inl (by simp [StopCallback.step, State.run, pcEq, hasToken])
      · refine .inr ⟨cb, rfl, ?_⟩
        have cbSound := sound.global.callback cb
        have notFinished : s.place cb ≠ .finished := by
          intro isFinished
          have token := (cbSound.finished isFinished (by simp [removing.life])).1
          omega
        have fits := cbSound.fits
        rw [removing.life] at fits
        cases placeEq : s.place cb <;> simp_all [Place.fits]
  | removeRequester cb =>
      left
      by_cases isRequester : s.mRequester = some thread <;>
        simp [StopCallback.step, State.run, pcEq, isRequester]
  | removeUnlock cb found =>
      left
      cases found <;> simp [StopCallback.step, State.run, pcEq]
  | _ => exact .inl (by simp [StopCallback.step, State.run, pcEq])

/-- Behind a destructor on another thread than the requester's. -/
theorem Represents.gone_of_destroys {action : Action Thread Cb}
    (sound : Represents s g)
    (stepEq : StopCallback.step s action = some s')
    (destroys : Destroys s s' cb)
    (notRequester : s.mRequester ≠ some action.thread) :
    Gone s' cb (s.ran cb) := by
  obtain ⟨notDestroyed, isDestroyed⟩ := destroys
  cases sound.fate_of_step stepEq cb with
  | same lifeEq _ _ => exact absurd (lifeEq.symm.trans isDestroyed) notDestroyed
  | living _ stillLives => exact absurd isDestroyed stillLives
  | finish _ lifeEq => exact absurd (lifeEq.symm.trans isDestroyed) notDestroyed
  | destroy _ placeEq ranEq waited =>
      refine ⟨isDestroyed, ?_, ranEq⟩
      rw [placeEq]
      rcases waited with isRequester | place | place | place
      · exact absurd isRequester notRequester
      all_goals simp [place]

end States

section Runs

variable [DecidableEq Thread] [DecidableEq Cb]

theorem run_gone (run : (system Thread Cb).Run) {first last times : Nat}
    (firstLe : first ≤ last) (lastLe : last ≤ run.length)
    (gone : Gone (run.state first) cb times) :
    Gone (run.state last) cb times := by
  apply run.holds_from (Gone · cb times) firstLe gone
  intro time _ timeLt stillGone
  have timeLe : time ≤ run.length := by omega
  obtain ⟨g, sound⟩ := represents_of_reachable (run.reachable timeLe)
  exact stillGone.step sound (run.steps time (by omega))

/-- Stop callbacks keep their promises in every run. -/
theorem run_stops (run : (system Thread Cb).Run) : Stops run := by
  have represents (time : Nat) (timeLe : time ≤ run.length) :
      ∃ g, Represents (run.state time) g :=
    represents_of_reachable (run.reachable timeLe)
  constructor
  case returned_once =>
    intro time timeLe
    obtain ⟨g, sound⟩ := represents time timeLe
    exact sound.returned_once
  case takes_effect =>
    intro time timeLe
    obtain ⟨g, sound⟩ := represents time timeLe
    exact sound.takes_effect
  case list =>
    intro time timeLe _
    obtain ⟨g, sound⟩ := represents time timeLe
    exact ⟨g.cbs, sound.global.nodup, sound.global.chain, sound.global.mem_cbs⟩
  case ran_le_once =>
    intro time timeLe cb
    obtain ⟨g, sound⟩ := represents time timeLe
    exact (sound.global.callback cb).ranLe
  case registered_ran =>
    intro time timeLe isDone cb wasLinked
    obtain ⟨g, sound⟩ := represents time timeLe
    exact sound.registered_ran (sound.over_of_done isDone) wasLinked
  case unlinked_ran =>
    intro time timeLe cb isUnlinked
    obtain ⟨g, sound⟩ := represents time timeLe
    have ran := (sound.global.callback cb).ran (by simp [isUnlinked])
    rw [isUnlinked] at ran
    exact ran
  case late_ran =>
    intro time timeLe cb isLate
    obtain ⟨g, sound⟩ := represents time timeLe
    exact sound.late_ran isLate
  case destroyed_quiet =>
    intro destroyed destroyedLt cb destroys notRequester time after timeLe
    obtain ⟨g, sound⟩ := represents destroyed (by omega)
    have gone := sound.gone_of_destroys (run.steps destroyed destroyedLt)
      destroys notRequester
    have stillGone := run_gone run after timeLe gone
    obtain ⟨g', sound'⟩ := represents time timeLe
    exact ⟨stillGone.ran, fun thread => stillGone.not_runs sound'⟩
  case not_stuck =>
    intro time timeLe thread isBusy
    obtain ⟨g, sound⟩ := represents time timeLe
    exact sound.not_stuck isBusy

end Runs

end CoContext.StopCallback
