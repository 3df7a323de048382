import CoContext.CountingSemaphoreInvariant

/-!
# Wakeups of the counting semaphore

A `release` that observes a debt finds a waiter, and the debt is the number of
suspended acquirers, in every run in which the counter does not wrap around
and no exchange of `try_release` falls between an acquirer's decrement of the
counter and its push.  A `release` in that window gets null and dereferences
it.
-/

namespace CoContext.CountingSemaphore

variable {Coro : Type*}

/-- No `release` wakes null, and while no operation is in progress as many
acquirers are suspended as the counter is below zero. -/
def WakeupsKept (s : State Coro) : Prop :=
  (∀ coro, ¬ (s.pc coro).WakesNull) ∧
    (s.Quiescent → ∃ suspended : Finset Coro,
      (∀ coro, coro ∈ suspended ↔ s.Suspended coro) ∧
        (suspended.card : Int) = max 0 (-s.counter.toInt))

theorem Pc.Sound.not_wakesNull {pc : Pc Coro} (sound : pc.Sound) :
    ¬ pc.WakesNull := by
  cases pc with
  | releaseUnlock awakenAwaiter | releaseSpawn awakenAwaiter =>
      cases awakenAwaiter with
      | none => exact sound.elim
      | some head => exact id
  | nullDereference => exact sound.elim
  | _ => exact id

theorem nodup_line (waiters : Waiters Coro) : (line waiters).Nodup := by
  rw [line, List.nodup_append']
  refine ⟨waiters.nodup_append (by simp), waiters.nodup _, ?_⟩
  intro coro inFront inAwaiting
  rcases List.mem_append.mp inFront with inSearching | inResume
  · cases waiters.disjoint inSearching inAwaiting
  · cases waiters.disjoint inResume inAwaiting

/-- While no operation is in progress the suspended acquirers are those in the
lists. -/
theorem Represents.suspended_iff_line {s : State Coro} {waiters : Waiters Coro}
    {holder : Option Coro} (rep : Represents s waiters holder)
    (quiescent : s.Quiescent) {coro : Coro} :
    s.Suspended coro ↔ coro ∈ line waiters := by
  rw [rep.suspended_iff]
  simp only [line, List.mem_append]
  constructor
  · rintro ⟨place, member⟩
    cases place with
    | awaiting => exact Or.inr member
    | searching => exact Or.inl (Or.inl member)
    | toResume => exact Or.inl (Or.inr member)
    | popped releaser =>
        rw [rep.popped_queue] at member
        rcases quiescent releaser with position | position <;>
          simp [position, Pc.popped] at member
  · rintro ((member | member) | member)
    · exact ⟨.searching, member⟩
    · exact ⟨.toResume, member⟩
    · exact ⟨.awaiting, member⟩

theorem wakeupsKept_of_pushesSeen [DecidableEq Coro] {desired : Int64}
    (nonneg : 0 ≤ desired) {s : State Coro}
    (reached : (system Coro desired).ReachableBy
      (fun s action => PushesSeen s action ∧ CounterFits s action) s) :
    WakeupsKept s := by
  obtain ⟨waiters, holder, rep, window, searching, balance⟩ :=
    consistent_of_reachableBy nonneg reached
  refine ⟨fun coro => (rep.sound coro).not_wakesNull, ?_⟩
  intro quiescent
  have noWindow : window.size = 0 := by
    rw [window.size_eq_zero_iff]
    intro coro
    rcases quiescent coro with position | position <;>
      simp [position, Pc.InWindow]
  have noSearching : searching.size = 0 := by
    rw [searching.size_eq_zero_iff]
    intro coro
    rcases quiescent coro with position | position <;>
      simp [position, Pc.Searching]
  refine ⟨(line waiters).toFinset, ?_, ?_⟩
  · intro coro
    rw [List.mem_toFinset, rep.suspended_iff_line quiescent]
  · rw [List.toFinset_card_of_nodup (nodup_line waiters)]
    omega

instance (pc : Pc Coro) : Decidable pc.InWindow :=
  match pc with
  | .suspendLoad | .suspendExchange _ => isTrue trivial
  | .idle | .acquireFetchSub | .waiting | .tryAcquireLoad
  | .tryAcquireExchange _ | .releaseFetchAdd | .releaseLock | .readToResume
  | .exchangeAwaiting | .reverse .. | .popResumeHead _ | .releaseUnlock _
  | .releaseSpawn _ | .assertFailed | .nullDereference => isFalse id

instance [DecidableEq Coro] [Fintype Coro] (s : State Coro) :
    DecidablePred (PushesSeen s)
  | .run _ _ => inferInstanceAs (Decidable (_ → _ → ∀ _, _))
  | .acquire _ | .tryAcquire _ | .release _ | .resume _ => isTrue trivial

instance [DecidableEq Coro] (s : State Coro) : DecidablePred (CounterFits s)
  | .run _ _ => inferInstanceAs (Decidable ((_ → _) ∧ (_ → _)))
  | .acquire _ | .tryAcquire _ | .release _ | .resume _ => isTrue trivial

/-- Coroutine 0 suspends and coroutine 1 spawns it. -/
def wakingRun : (system (Fin 2) 0).Run :=
  .ofActions (State.new (Fin 2) 0) rfl
    [.acquire 0, .run 0 false, .run 0 false, .run 0 false, .release 1,
      .run 1 false, .run 1 false, .run 1 false, .run 1 false, .run 1 false,
      .run 1 false, .run 1 false, .run 1 false] (by decide)

theorem wakeupsKept_of_pushesSeen_waking : WakeupsKept (wakingRun.state 13) := by
  have guarded : wakingRun.Guarded fun s action =>
      PushesSeen s action ∧ CounterFits s action := by
    unfold TransitionSystem.Run.Guarded
    decide
  exact wakeupsKept_of_pushesSeen (by decide)
    (guarded.reachableBy (by decide))

/-- The `release` of coroutine 1 falls between the decrement and the push of
coroutine 0. -/
def windowActions : List (Action (Fin 2)) :=
  [.acquire 0, .run 0 false, .release 1, .run 1 false, .run 1 false,
    .run 1 false, .run 1 false, .run 1 false, .run 1 false]

def windowState : State (Fin 2) :=
  ((system (Fin 2) 0).exec (State.new (Fin 2) 0) windowActions).get (by decide)

theorem wakeupsKept_fails :
    ¬ ∀ s, (system (Fin 2) 0).Reachable s → WakeupsKept s := by
  intro always
  have reached : (system (Fin 2) 0).Reachable windowState :=
    TransitionSystem.Reachable.exec (.start rfl) (Option.some_get _).symm
  have position : windowState.pc 1 = .nullDereference := by decide
  refine (always windowState reached).1 1 ?_
  rw [position]
  trivial

end CoContext.CountingSemaphore
