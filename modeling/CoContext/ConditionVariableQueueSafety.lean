import CoContext.ConditionVariableQueue

/-!
# A condition variable is a queue

Over every sequence of calls within one context, the condition variable is a
first in, first out queue of coroutines.  That `to_resume_tail` is stale is
never observed: states that differ only in it accept the same calls and make
the same notifications.
-/

namespace CoContext.ConditionVariableQueue

open CoContext.Sequential

/-- The coroutines of a context around the condition variable. -/
structure Machine (Coro : Type*) where
  cv : State Coro
  /-- The notified coroutines that were not resumed since. -/
  notified : List Coro
  undefined : Bool

inductive Action (Coro : Type*)
  | wait (coro : Coro)
  | notifyOne
  | notifyAll
  | resume (coro : Coro)
  deriving DecidableEq

variable {Coro : Type*}

def Machine.new (Coro : Type*) : Machine Coro where
  cv := .new Coro
  notified := []
  undefined := false

/-- The same coroutines with a freshly constructed condition variable. -/
def Machine.withFreshCv (s : Machine Coro) : Machine Coro :=
  { s with cv := { State.new Coro with records := s.cv.records } }

/-- The queue after an action: it only depends on the actions. -/
def queueAfter (queue : List Coro) : Action Coro → List Coro
  | .wait coro => queue ++ [coro]
  | .notifyOne => queue.tail
  | .notifyAll => []
  | .resume _ => queue

/-- The machine after some actions, with the queue that they lead to. -/
structure Sound (s : Machine Coro) (queue : List Coro) : Prop where
  lists : ∃ cv, Represents s.cv cv ∧ cv.queue = queue
  tracks : s.cv.records.Tracks queue s.notified
  defined : s.undefined = false

theorem Sound.new : Sound (Machine.new Coro) [] where
  lists := ⟨_, .new, rfl⟩
  tracks := .empty
  defined := rfl

variable [DecidableEq Coro]

/-- A call, with the coroutines that it notifies; a resumed coroutine destroys
its awaiter. -/
def State.call (s : State Coro) :
    Action Coro → Option (List Coro × State Coro)
  | .wait coro => (s.wait coro).map fun waiting => ([], waiting)
  | .notifyOne => s.notifyOne
  | .notifyAll => s.notifyAll
  | .resume coro => some ([], { s with records := s.records.destroy coro })

namespace Machine

/-- A suspended coroutine does not wait again, and only a notified one is
resumed. -/
def Enabled (s : Machine Coro) : Action Coro → Prop
  | .wait coro => s.cv.records coro = none
  | .notifyOne | .notifyAll => True
  | .resume coro => coro ∈ s.notified

instance (s : Machine Coro) (action : Action Coro) :
    Decidable (s.Enabled action) := by
  cases action <;> unfold Enabled <;> infer_instance

/-- The notified coroutines that an action does not resume. -/
def pending (s : Machine Coro) : Action Coro → List Coro
  | .resume coro => s.notified.erase coro
  | .wait _ | .notifyOne | .notifyAll => s.notified

/-- The coroutines that an action notifies, unless it is undefined. -/
def observe (s : Machine Coro) (action : Action Coro) : Option (List Coro) :=
  (s.cv.call action).map Prod.fst

end Machine

def step (s : Machine Coro) (action : Action Coro) : Option (Machine Coro) :=
  if s.Enabled action then
    match s.cv.call action with
    | none => some { s with undefined := true }
    | some (notified, cv) =>
        some { s with cv := cv, notified := s.pending action ++ notified }
  else
    none

/-- Arbitrarily many coroutines of one context use the condition variable. -/
def system (Coro : Type*) [DecidableEq Coro] :
    TransitionSystem (Machine Coro) (Action Coro) where
  initial s := s = Machine.new Coro
  step := step

/-- What a sequence of actions notifies; there is no result if one of them is
not enabled. -/
def observations (s : Machine Coro) :
    List (Action Coro) → Option (List (Option (List Coro)))
  | [] => some []
  | action :: actions =>
      (step s action).bind fun s' =>
        (observations s' actions).map (s.observe action :: ·)

/-- No sequence of actions tells the machines apart. -/
def Equivalent (s s' : Machine Coro) : Prop :=
  ∀ actions, observations s actions = observations s' actions

/-- The queue at a time of a run. -/
def queueAt (run : (system Coro).Run) : Nat → List Coro
  | 0 => []
  | time + 1 => queueAfter (queueAt run time) (run.action time)

/-- The condition variable behaves like the queue in a run. -/
structure RefinesQueue (run : (system Coro).Run) : Prop where
  defined : ∀ time ≤ run.length, (run.state time).undefined = false
  /-- The queue is `to_resume` followed by the reverse of `awaiting`. -/
  lists : ∀ time ≤ run.length, ∃ awaiting toResume : List Coro,
    (run.state time).cv.records.Linked (run.state time).cv.awaiting awaiting ∧
      (run.state time).cv.records.Linked (run.state time).cv.toResumeHead
        toResume ∧
      queueAt run time = toResume ++ awaiting.reverse
  /-- The queue holds each suspended coroutine that was not notified once. -/
  unnotified : ∀ time ≤ run.length, (queueAt run time).Nodup ∧
    ∀ coro, coro ∈ queueAt run time ↔
      ((run.state time).cv.records coro).isSome ∧
        coro ∉ (run.state time).notified
  notifyOne : ∀ time < run.length, run.action time = .notifyOne →
    (run.state time).observe .notifyOne =
      some (queueAt run time).head?.toList
  notifyOne_nobody : ∀ time < run.length, run.action time = .notifyOne →
    queueAt run time = [] →
      Equivalent (run.state (time + 1)) (run.state time)
  notifyAll : ∀ time < run.length, run.action time = .notifyAll →
    ∃ notified, (run.state time).observe .notifyAll = some notified ∧
      notified.Perm (queueAt run time)
  notifyAll_fresh : ∀ time < run.length, run.action time = .notifyAll →
    Equivalent (run.state (time + 1)) (run.state (time + 1)).withFreshCv

section Tail

/-- The states differ in `to_resume_tail` at most. -/
structure SameButTail (s s' : State Coro) : Prop where
  awaiting : s'.awaiting = s.awaiting
  toResumeHead : s'.toResumeHead = s.toResumeHead
  records : s'.records = s.records

variable {s s' : State Coro}

/-- No call depends on `to_resume_tail`. -/
theorem SameButTail.call (same : SameButTail s s') (action : Action Coro) :
    (s.call action = none ∧ s'.call action = none) ∨
      ∃ notified cv cv', s.call action = some (notified, cv) ∧
        s'.call action = some (notified, cv') ∧ SameButTail cv cv' := by
  obtain ⟨_, _, tail, _⟩ := s
  obtain ⟨awaiting, head, tail', records⟩ := s'
  obtain ⟨rfl, rfl, rfl⟩ := same
  dsimp only
  cases action with
  | wait coro =>
      simp only [State.call, State.wait]
      cases (records.create coro none).write coro awaiting with
      | none => exact Or.inl ⟨rfl, rfl⟩
      | some linked => exact Or.inr ⟨_, _, _, rfl, rfl, rfl, rfl, rfl⟩
  | notifyOne =>
      cases head with
      | none =>
          simp only [State.call, State.notifyOne]
          cases State.detach ⟨awaiting, none, none, records⟩ with
          | none => exact Or.inl ⟨rfl, rfl⟩
          | some result =>
              exact Or.inr ⟨_, _, _, rfl, rfl, rfl, rfl, rfl⟩
      | some head =>
          simp only [State.call, State.notifyOne, State.tryNotify]
          cases records head with
          | none => exact Or.inl ⟨rfl, rfl⟩
          | some next => exact Or.inr ⟨_, _, _, rfl, rfl, rfl, rfl, rfl⟩
  | notifyAll =>
      simp only [State.call, State.notifyAll]
      cases State.tryNotifyAll records awaiting with
      | none => exact Or.inl ⟨rfl, rfl⟩
      | some waiting =>
          cases State.tryNotifyAll records head with
          | none => exact Or.inl ⟨rfl, rfl⟩
          | some resuming => exact Or.inr ⟨_, _, _, rfl, rfl, rfl, rfl, rfl⟩
  | resume coro => exact Or.inr ⟨_, _, _, rfl, rfl, rfl, rfl, rfl⟩

/-- Machines whose condition variables differ in `to_resume_tail` at most are
equivalent. -/
theorem SameButTail.equivalent {notified : List Coro}
    (same : SameButTail s s') (undefined undefined' : Bool) :
    Equivalent ⟨s, notified, undefined⟩ ⟨s', notified, undefined'⟩ := by
  intro actions
  induction actions generalizing s s' notified undefined undefined' with
  | nil => rfl
  | cons action actions ih =>
      have enabled : Machine.Enabled ⟨s, notified, undefined⟩ action ↔
          Machine.Enabled ⟨s', notified, undefined'⟩ action := by
        cases action <;> simp [Machine.Enabled, same.records]
      by_cases isEnabled : Machine.Enabled ⟨s, notified, undefined⟩ action
      · have isEnabled' := enabled.mp isEnabled
        rcases same.call action with ⟨fails, fails'⟩ |
          ⟨notifies, cv, cv', calls, calls', sameAfter⟩
        · simp [observations, step, isEnabled, isEnabled', Machine.observe,
            fails, fails', ih same true true]
        · have pendingEq :
              Machine.pending ⟨s', notified, undefined'⟩ action =
                Machine.pending ⟨s, notified, undefined⟩ action := by
            cases action <;> rfl
          simp [observations, step, isEnabled, isEnabled', Machine.observe,
            calls, calls', pendingEq, ih sameAfter undefined undefined']
      · simp [observations, step, isEnabled, mt enabled.mpr isEnabled]

end Tail

namespace Sound

variable {s s' : Machine Coro} {queue : List Coro} {action : Action Coro}

theorem wait (sound : Sound s queue) {coro : Coro}
    (absent : s.cv.records coro = none) :
    ∃ cv, s.cv.call (.wait coro) = some ([], cv) ∧
      Sound ⟨cv, s.notified, s.undefined⟩ (queue ++ [coro]) := by
  obtain ⟨lists, represents, rfl⟩ := sound.lists
  obtain ⟨cv, waitEq, represents', recordsEq⟩ := represents.wait absent
  refine ⟨cv, by simp [State.call, waitEq],
    ⟨_, represents', lists.queue_push coro⟩, ?_, sound.defined⟩
  dsimp only
  rw [recordsEq]
  exact sound.tracks.join absent s.cv.awaiting

theorem notifyOne (sound : Sound s queue) :
    ∃ cv, s.cv.call .notifyOne = some (queue.head?.toList, cv) ∧
      RecordHeap.Relinks queue s.cv.records cv.records ∧
      Sound ⟨cv, s.notified ++ queue.head?.toList, s.undefined⟩
        queue.tail := by
  obtain ⟨lists, represents, rfl⟩ := sound.lists
  obtain ⟨cv, notifyEq, represents', relinks⟩ := represents.notifyOne
  have queueEq := lists.queue_notifyOne
  have frontEq : lists.queue.head? = lists.notifyOne.1 ∧
      lists.queue.tail = lists.notifyOne.2.queue := by
    cases front : lists.notifyOne.1 with
    | some head => simp [queueEq, front]
    | none =>
        have nobody := ConditionVariable.queue_eq_nil_of_notifyOne front
        have leftNil : lists.notifyOne.2.queue = [] := by
          simpa [front, nobody] using queueEq
        simp [nobody, leftNil]
  rw [frontEq.1, frontEq.2]
  exact ⟨cv, notifyEq, relinks, ⟨_, represents', rfl⟩,
    sound.tracks.serve (.of_eq queueEq.symm) relinks, sound.defined⟩

theorem notifyAll (sound : Sound s queue) :
    ∃ notified cv, s.cv.call .notifyAll = some (notified, cv) ∧
      notified.Perm queue ∧ cv.awaiting = none ∧ cv.toResumeHead = none ∧
      Sound ⟨cv, s.notified ++ notified, s.undefined⟩ [] := by
  obtain ⟨lists, represents, rfl⟩ := sound.lists
  obtain ⟨cv, notifyEq, represents', recordsEq⟩ := represents.notifyAll
  have perm : (lists.awaiting ++ lists.toResume).Perm lists.queue :=
    List.perm_append_comm.trans
      ((List.reverse_perm lists.awaiting).symm.append_left lists.toResume)
  refine ⟨_, cv, notifyEq, perm, represents'.awaiting, represents'.toResume,
    ⟨_, represents', rfl⟩, ?_, sound.defined⟩
  dsimp only
  rw [recordsEq]
  apply sound.tracks.serve _ (.refl _ _)
  rwa [List.append_nil]

theorem resume (sound : Sound s queue) {coro : Coro}
    (isNotified : coro ∈ s.notified) :
    Sound ⟨{ s.cv with records := s.cv.records.destroy coro },
      s.notified.erase coro, s.undefined⟩ queue := by
  have notQueued := sound.tracks.notMem_queue isNotified
  have tracks := sound.tracks.resume isNotified
  obtain ⟨lists, represents, rfl⟩ := sound.lists
  have notAwaiting : coro ∉ lists.awaiting := fun isAwaiting =>
    notQueued (List.mem_append_right _ (List.mem_reverse.mpr isAwaiting))
  have notResuming : coro ∉ lists.toResume := fun isResuming =>
    notQueued (List.mem_append_left _ isResuming)
  exact ⟨⟨lists, ⟨represents.awaiting.destroy_of_notMem notAwaiting,
    represents.toResume.destroy_of_notMem notResuming, represents.nodup⟩, rfl⟩,
    tracks, sound.defined⟩

/-- Each action keeps the invariant and moves the queue. -/
theorem step (sound : Sound s queue)
    (stepEq : ConditionVariableQueue.step s action = some s') :
    Sound s' (queueAfter queue action) := by
  simp only [ConditionVariableQueue.step, Option.ite_none_right_eq_some]
    at stepEq
  obtain ⟨isEnabled, stepEq⟩ := stepEq
  cases action with
  | wait coro =>
      obtain ⟨cv, calls, sound'⟩ := sound.wait isEnabled
      simp only [calls, Machine.pending, List.append_nil, Option.some.injEq]
        at stepEq
      subst stepEq
      exact sound'
  | notifyOne =>
      obtain ⟨cv, calls, -, sound'⟩ := sound.notifyOne
      simp only [calls, Option.some.injEq] at stepEq
      subst stepEq
      exact sound'
  | notifyAll =>
      obtain ⟨notified, cv, calls, -, -, -, sound'⟩ := sound.notifyAll
      simp only [calls, Option.some.injEq] at stepEq
      subst stepEq
      exact sound'
  | resume coro =>
      simp only [State.call, Machine.pending, List.append_nil,
        Option.some.injEq] at stepEq
      subst stepEq
      exact sound.resume isEnabled

/-- `notify_one` changes nothing but `to_resume_tail` if nobody waits. -/
theorem equivalent_of_nobody (sound : Sound s [])
    (stepEq : ConditionVariableQueue.step s .notifyOne = some s') :
    Equivalent s' s := by
  obtain ⟨cv, calls, relinks, -⟩ := sound.notifyOne
  have sound' := sound.step stepEq
  simp only [ConditionVariableQueue.step, Machine.Enabled, if_true, calls,
    Machine.pending, List.head?_nil, Option.toList_none, List.append_nil,
    Option.some.injEq] at stepEq
  subst stepEq
  obtain ⟨lists, represents, listsNil⟩ := sound.lists
  obtain ⟨lists', represents', listsNil'⟩ := sound'.lists
  obtain ⟨resumingNil, awaitingNil⟩ := List.append_eq_nil_iff.mp listsNil
  obtain ⟨resumingNil', awaitingNil'⟩ := List.append_eq_nil_iff.mp listsNil'
  rw [List.reverse_eq_nil_iff] at awaitingNil awaitingNil'
  apply SameButTail.equivalent
  exact {
    awaiting := by
      rw [represents.awaiting.head_eq, represents'.awaiting.head_eq,
        awaitingNil, awaitingNil']
    toResumeHead := by
      rw [represents.toResume.head_eq, represents'.toResume.head_eq,
        resumingNil, resumingNil']
    records := funext fun coro => (relinks.outside coro (by simp)).symm }

/-- `notify_all` leaves a condition variable that differs from a fresh one in
`to_resume_tail` at most. -/
theorem equivalent_fresh (sound : Sound s queue)
    (stepEq : ConditionVariableQueue.step s .notifyAll = some s') :
    Equivalent s' s'.withFreshCv := by
  obtain ⟨notified, cv, calls, -, awaitingNull, headNull, -⟩ := sound.notifyAll
  simp only [ConditionVariableQueue.step, Machine.Enabled, if_true, calls,
    Option.some.injEq] at stepEq
  subst stepEq
  apply SameButTail.equivalent
  exact ⟨awaitingNull.symm, headNull.symm, rfl⟩

/-- The invariant along a run. -/
theorem run (run : (system Coro).Run) {time : Nat}
    (timeLe : time ≤ run.length) :
    Sound (run.state time) (queueAt run time) := by
  induction time with
  | zero =>
      have isNew : run.state 0 = Machine.new Coro := run.starts
      rw [isNew]
      exact .new
  | succ time ih => exact (ih (by omega)).step (run.steps time (by omega))

end Sound

/-- Within one context a condition variable is a first in, first out queue:
`notify_one` notifies its front and `notify_all` everybody in it, whatever
`to_resume_tail` points to. -/
theorem run_refines_queue (run : (system Coro).Run) : RefinesQueue run where
  defined time timeLe := (Sound.run run timeLe).defined
  lists time timeLe := by
    obtain ⟨lists, represents, queueEq⟩ := (Sound.run run timeLe).lists
    exact ⟨lists.awaiting, lists.toResume, represents.awaiting,
      represents.toResume, queueEq.symm⟩
  unnotified time timeLe := by
    have tracks := (Sound.run run timeLe).tracks
    exact ⟨tracks.queue_nodup, fun coro => tracks.mem_queue_iff⟩
  notifyOne time timeLt _ := by
    obtain ⟨cv, calls, -⟩ := (Sound.run run (Nat.le_of_lt timeLt)).notifyOne
    rw [Machine.observe, calls]
    rfl
  notifyOne_nobody time timeLt isNotifyOne nobody := by
    have sound := Sound.run run (Nat.le_of_lt timeLt)
    rw [nobody] at sound
    have stepEq := run.steps time timeLt
    rw [isNotifyOne] at stepEq
    exact sound.equivalent_of_nobody stepEq
  notifyAll time timeLt _ := by
    obtain ⟨notified, cv, calls, perm, -⟩ :=
      (Sound.run run (Nat.le_of_lt timeLt)).notifyAll
    exact ⟨notified, by rw [Machine.observe, calls]; rfl, perm⟩
  notifyAll_fresh time timeLt isNotifyAll := by
    have stepEq := run.steps time timeLt
    rw [isNotifyAll] at stepEq
    exact (Sound.run run (Nat.le_of_lt timeLt)).equivalent_fresh stepEq

end CoContext.ConditionVariableQueue
