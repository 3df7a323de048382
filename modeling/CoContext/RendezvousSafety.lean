import CoContext.RendezvousInvariant

/-!
# The unbuffered channel is a rendezvous

The elements are delivered in the order in which the senders obtained
`m_release_mtx`, to the receivers in the order in which they obtained
`m_acquire_mtx`, and every call that returns took part in one delivery.  A
sender and a receiver are never both left waiting.
-/

namespace CoContext.Rendezvous

open CoContext.Sequential

variable {Coro T : Type*}

/-- The second list is the first one with at most one more entry. -/
def Follows {Entry : Type*} (done begun : List Entry) : Prop :=
  ∃ pending, begun = done ++ pending ∧ pending.length ≤ 1

/-- A coroutine that runs `release`. -/
def Pc.Releasing : Pc Coro T → Prop
  | .awaitRelease _ | .sender _ _ => True
  | .idle | .awaitAcquire _ | .receiver _ _ | .undefined => False

/-- A coroutine that runs `acquire` or `drop`. -/
def Pc.Receiving : Pc Coro T → Prop
  | .awaitAcquire _ | .receiver _ _ => True
  | .idle | .awaitRelease _ | .sender _ _ | .undefined => False

section Logs

variable {sender : Option (Sending Coro T)}
variable {receiver : Option (Receiving Coro)}
variable {item : Coro → Option T}

theorem length_option_toList_le {Entry : Type*} (entry : Option Entry) :
    entry.toList.length ≤ 1 := by
  cases entry <;> simp

/-- What was delivered is what was obtained, or the sender is to deliver. -/
theorem gave_follows (released : List (Coro × T)) :
    Follows (released ++ gave sender)
      (released ++ (sender.map Sending.load).toList) := by
  rcases sender with _ | x
  · exact ⟨[], by simp [gave, Option.filter], by simp⟩
  · cases isDelivered : x.delivered with
    | false => exact ⟨[x.load], by simp [gave, Option.filter, isDelivered], by simp⟩
    | true => exact ⟨[], by simp [gave, Option.filter, isDelivered], by simp⟩

theorem got_follows (received : List (Coro × Option T)) :
    Follows ((received ++ got item receiver).map Prod.fst)
      (received.map Prod.fst ++ (receiver.map Receiving.coro).toList) := by
  rcases receiver with _ | y
  · exact ⟨[], by simp [got, Option.filter], by simp⟩
  · cases hasItem : (item y.coro).isSome with
    | false => exact ⟨[y.coro], by simp [got, Option.filter, hasItem], by simp⟩
    | true => exact ⟨[], by simp [got, Option.filter, hasItem], by simp⟩

end Logs

variable [DecidableEq Coro]

/-- The observations of a run before a time. -/
structure Logged (run : (system Coro T).Run) (time : Nat)
    (sender : Option (Sending Coro T))
    (receiver : Option (Receiving Coro)) : Prop where
  senders : run.log obtainedRelease 0 time =
    run.log released 0 time ++ (sender.map Sending.load).toList
  sent : (run.log delivered 0 time).map Delivery.sent =
    run.log released 0 time ++ gave sender
  receivers : run.log obtainedAcquire 0 time =
    (run.log received 0 time).map Prod.fst ++
      (receiver.map Receiving.coro).toList
  got : (run.log delivered 0 time).map Delivery.got =
    run.log received 0 time ++ got (run.state time).item receiver

theorem log_succ {Event : Type*} (run : (system Coro T).Run)
    (observe : State Coro T → Action Coro T → Option Event) (time : Nat) :
    run.log observe 0 (time + 1) = run.log observe 0 time ++
      (observe (run.state time) (run.action time)).toList := by
  rw [run.log_append (Nat.zero_le time) (Nat.le_succ time), run.log_single]

theorem consistent_of_run (run : (system Coro T).Run) (time : Nat)
    (timeLe : time ≤ run.length) :
    ∃ sender receiver, Consistent (run.state time) sender receiver ∧
      Logged run time sender receiver := by
  induction time with
  | zero =>
      rw [show run.state 0 = State.new Coro T from run.starts]
      refine ⟨none, none, consistent_new, ?_⟩
      constructor <;> simp [gave, got, Option.filter]
  | succ time ih =>
      obtain ⟨sender, receiver, consistent, logged⟩ := ih (by omega)
      obtain ⟨sender', receiver', after, accounts⟩ :=
        consistent.step (run.steps time (by omega))
      refine ⟨sender', receiver', after, ?_, ?_, ?_, ?_⟩
      · rw [log_succ, log_succ, logged.senders, List.append_assoc,
          accounts.senders, List.append_assoc]
      · rw [log_succ, log_succ, List.map_append, logged.sent,
          ← Option.toList_map, List.append_assoc, accounts.sent,
          List.append_assoc]
      · rw [log_succ, log_succ, List.map_append, logged.receivers,
          ← Option.toList_map, List.append_assoc, accounts.receivers,
          List.append_assoc]
      · rw [log_succ, log_succ, List.map_append, logged.got,
          ← Option.toList_map, List.append_assoc, accounts.got,
          List.append_assoc]

/-- What holds at a time of a run of the channel. -/
structure Met (run : (system Coro T).Run) (time : Nat) : Prop where
  /-- Elements are delivered in the order in which their senders obtained
  `m_release_mtx`, and a `release` that returned delivered its element. -/
  sent : Follows ((run.log delivered 0 time).map Delivery.sent)
    (run.log obtainedRelease 0 time)
  released : Follows (run.log released 0 time)
    ((run.log delivered 0 time).map Delivery.sent)
  /-- They are delivered to the receivers in the order in which these obtained
  `m_acquire_mtx`, and a call that returned got its element. -/
  got : Follows ((run.log delivered 0 time).map Delivery.receiver)
    (run.log obtainedAcquire 0 time)
  received : Follows (run.log received 0 time)
    ((run.log delivered 0 time).map Delivery.got)
  /-- `m_receiver` points to a receiver that waits for its element. -/
  alive : ∀ coro item, (run.state time).pc coro = .sender item .emplace →
    ∃ receiver receive, (run.state time).receiver = some receiver ∧
      (run.state time).pc receiver = .receiver receive .sleeping
  defined : ∀ coro, (run.state time).pc coro ≠ .undefined
  /-- No sender and receiver are left waiting for each other. -/
  progress : ∀ first second, ((run.state time).pc first).Releasing →
    ((run.state time).pc second).Receiving →
      ∃ coro, ((system Coro T).step (run.state time) (.run coro)).isSome

namespace Consistent

variable {s : State Coro T} {sender : Option (Sending Coro T)}
variable {receiver : Option (Receiving Coro)}

omit [DecidableEq Coro] in
/-- A suspended sender is in the channel with the one that owns
`m_release_mtx`. -/
theorem exists_sender (consistent : Consistent s sender receiver)
    {coro : Coro} (releasing : (s.pc coro).Releasing) : sender.isSome := by
  have release := consistent.roster.release
  cases position : s.pc coro with
  | awaitRelease item =>
      have inLine := (release.mem_iff coro).mpr ⟨item, position⟩
      rw [← release.locked]
      cases isLocked : s.releaseMtx.awaiting with
      | none =>
          rw [release.free isLocked] at inLine
          contradiction
      | some stack => rfl
  | sender item pc =>
      rw [(consistent.roster.senders coro item pc).mp position]
      rfl
  | _ => simp [position, Pc.Releasing] at releasing

omit [DecidableEq Coro] in
theorem exists_receiver (consistent : Consistent s sender receiver)
    {coro : Coro} (receiving : (s.pc coro).Receiving) : receiver.isSome := by
  have acquire := consistent.roster.acquire
  cases position : s.pc coro with
  | awaitAcquire receive =>
      have inLine := (acquire.mem_iff coro).mpr ⟨receive, position⟩
      rw [← acquire.locked]
      cases isLocked : s.acquireMtx.awaiting with
      | none =>
          rw [acquire.free isLocked] at inLine
          contradiction
      | some stack => rfl
  | receiver receive pc =>
      rw [(consistent.roster.receivers coro receive pc).mp position]
      rfl
  | _ => simp [position, Pc.Receiving] at receiving

/-- A sender that cannot go on is suspended. -/
theorem sender_suspended {x : Sending Coro T}
    (consistent : Consistent s (some x) receiver)
    (stuck : Rendezvous.step s (.run x.coro) = none) :
    x.pc.place = .inLine ∨ x.pc = .sleeping := by
  have position := (consistent.roster.senders x.coro x.item x.pc).mpr rfl
  simp only [Rendezvous.step, position] at stuck
  cases inner : x.pc with
  | awaitMatch | relock => exact Or.inl rfl
  | sleeping => exact Or.inr rfl
  | checkReceiver | testPred | emplace =>
      rw [inner, State.runSender] at stuck
      split at stuck <;> contradiction
  | lockMatch | push | unlockAhead | unlockMatch | notify | unlockRelease =>
      rw [inner, State.runSender] at stuck
      contradiction

theorem receiver_suspended {y : Receiving Coro}
    (consistent : Consistent s sender (some y))
    (stuck : Rendezvous.step s (.run y.coro) = none) :
    y.pc.place = .inLine ∨ y.pc = .sleeping := by
  have position := (consistent.roster.receivers y.coro y.receive y.pc).mpr rfl
  simp only [Rendezvous.step, position] at stuck
  cases inner : y.pc with
  | awaitMatch | relock => exact Or.inl rfl
  | sleeping => exact Or.inr rfl
  | checkSender | testPred =>
      rw [inner, State.runReceiver] at stuck
      split at stuck <;> contradiction
  | lockMatch | publish | notify | push | unlockAhead | clearSender
  | unlockMatch | unlockAcquire =>
      rw [inner, State.runReceiver] at stuck
      contradiction

/-- A sender and a receiver inside the channel are not both suspended. -/
theorem not_both_stuck {x : Sending Coro T} {y : Receiving Coro}
    (consistent : Consistent s (some x) (some y))
    (senderStuck : Rendezvous.step s (.run x.coro) = none)
    (receiverStuck : Rendezvous.step s (.run y.coro) = none) : False := by
  have meeting := consistent.meeting
  rcases consistent.sender_suspended senderStuck with place | sleeping
  · -- Whoever waits for `m_match_mtx` waits for the other one.
    have waits := meeting.first_waits
      (by simp [Sending.party, place, Party.lined])
    rcases consistent.receiver_suspended receiverStuck with other | other
    · simp [Receiving.party, other, Party.holds] at waits
    · simp [Receiving.party, other, ReceiverPc.place, Party.holds] at waits
  · rcases consistent.receiver_suspended receiverStuck with place | other
    · have waits := meeting.second_waits
        (by simp [Receiving.party, place, Party.lined])
      simp [Sending.party, sleeping, SenderPc.place, Party.holds] at waits
    · cases consistent.phase <;>
        simp_all [SenderPc.Away, ReceiverPc.Away]

end Consistent

/-- The unbuffered channel is a rendezvous in every state of every run. -/
theorem run_rendezvous (run : (system Coro T).Run) (time : Nat)
    (timeLe : time ≤ run.length) : Met run time := by
  obtain ⟨sender, receiver, consistent, logged⟩ :=
    consistent_of_run run time timeLe
  have receivers : (run.log delivered 0 time).map Delivery.receiver =
      ((run.log delivered 0 time).map Delivery.got).map Prod.fst := by
    rw [List.map_map]
    rfl
  refine ⟨?_, ?_, ?_, ?_, ?_, consistent.roster.defined, ?_⟩
  · rw [logged.sent, logged.senders]
    exact gave_follows _
  · refine ⟨gave sender, logged.sent, ?_⟩
    exact length_option_toList_le _
  · rw [receivers, logged.got, logged.receivers]
    exact got_follows _
  · refine ⟨_, logged.got, ?_⟩
    exact length_option_toList_le _
  · intro coro item position
    have isSender := (consistent.roster.senders coro item .emplace).mp position
    subst isSender
    cases consistent.phase with
    | @delivering _ y _ sleeping asleep slot noItem =>
        refine ⟨y.coro, y.receive, slot, ?_⟩
        rw [consistent.roster.receivers, ← sleeping]
    | _ => simp_all [SenderPc.Away]
  · intro first second releasing receiving
    obtain ⟨x, rfl⟩ :=
      Option.isSome_iff_exists.mp (consistent.exists_sender releasing)
    obtain ⟨y, rfl⟩ :=
      Option.isSome_iff_exists.mp (consistent.exists_receiver receiving)
    by_contra nobody
    have stuck : ∀ coro, step (run.state time) (.run coro) = none := by
      intro coro
      by_contra enabled
      exact nobody ⟨coro, Option.isSome_iff_ne_none.mpr enabled⟩
    exact consistent.not_both_stuck (stuck x.coro) (stuck y.coro)

/-- A sender waits for a receiver, which gets its element. -/
def meetRun : (system (Fin 2) Nat).Run :=
  .ofActions (State.new (Fin 2) Nat) rfl
    ([.release 0 7] ++ List.replicate 5 (.run 0) ++
      [.receive 1 .acquire] ++ List.replicate 10 (.run 1) ++
      List.replicate 8 (.run 0) ++ List.replicate 4 (.run 1))
    (by decide)

theorem run_rendezvous_meet :
    meetRun.log received 0 29 = [(1, some 7)] ∧ Met meetRun 29 :=
  ⟨by decide, run_rendezvous meetRun 29 (by decide)⟩

end CoContext.Rendezvous
