import CoContext.RendezvousMeeting

/-!
# The outer mutexes of the unbuffered channel

A call takes its outer mutex or joins the line for it, and a coroutine that
returns passes its outer mutex on.  Then every step keeps the invariant, and
every step accounts for the elements that are sent and received.
-/

namespace CoContext.Rendezvous

open CoContext.Sequential

variable {Coro T : Type*}

namespace OuterSound

variable {mutex : Mutex Coro} {waits : Coro → Prop} {coro : Coro}

theorem take (sound : OuterSound mutex false waits) (coro : Coro) :
    ∃ taken, mutex.registerAwaiting coro = (false, taken) ∧
      OuterSound taken true waits := by
  have isFree : mutex.awaiting = none := by simpa using sound.locked
  obtain ⟨taken, registered, takenLocked, lineEq⟩ :=
    Mutex.registerAwaiting_free isFree coro
  refine ⟨taken, registered, takenLocked, ?_, ?_, ?_⟩
  · intro nowFree
    rw [nowFree] at takenLocked
    contradiction
  · rw [lineEq]
    exact sound.nodup
  · rw [lineEq]
    exact sound.mem_iff

theorem join (sound : OuterSound mutex true waits)
    (notWaiting : ¬ waits coro) :
    ∃ joined, mutex.registerAwaiting coro = (true, joined) ∧
      OuterSound joined true fun other => other = coro ∨ waits other := by
  obtain ⟨joined, registered, joinedLocked, lineEq⟩ :=
    Mutex.registerAwaiting_locked sound.locked coro
  have notInLine : coro ∉ mutex.line := by
    rw [sound.mem_iff]
    exact notWaiting
  refine ⟨joined, registered, joinedLocked, ?_, ?_, ?_⟩
  · intro nowFree
    rw [nowFree] at joinedLocked
    contradiction
  · rw [lineEq, List.nodup_append]
    refine ⟨sound.nodup, by simp, ?_⟩
    rintro other inLine _ isNew rfl
    exact notInLine (by rwa [← List.mem_singleton.mp isNew])
  · intro other
    rw [lineEq, List.mem_append, List.mem_singleton, sound.mem_iff, or_comm]

theorem pass (sound : OuterSound mutex true waits) :
    ∃ spawned left, mutex.unlock = some (spawned, left) ∧
      (∀ head ∈ spawned, waits head) ∧
      OuterSound left spawned.isSome
        fun other => waits other ∧ other ∉ spawned := by
  obtain ⟨spawned, left, unlocked, lineEq, lockedEq, nobody⟩ :=
    Mutex.unlock_locked sound.locked
  have memIff : ∀ other, waits other ↔ other ∈ spawned ∨ other ∈ left.line := by
    intro other
    rw [← sound.mem_iff, lineEq, List.mem_append, Option.mem_toList,
      Option.mem_def]
  have nodup := sound.nodup
  rw [lineEq, List.nodup_append] at nodup
  refine ⟨spawned, left, unlocked, ?_, lockedEq, ?_, nodup.2.1, ?_⟩
  · intro head isHead
    exact (memIff head).mpr (Or.inl isHead)
  · intro isFree
    rw [isFree] at lockedEq
    exact nobody (by simpa using lockedEq.symm)
  · intro other
    rw [memIff]
    constructor
    · intro inLine
      refine ⟨Or.inr inLine, ?_⟩
      intro isHead
      exact nodup.2.2 other (Option.mem_toList.mpr isHead) other inLine rfl
    · rintro ⟨isHead | inLine, notHead⟩
      · exact absurd isHead notHead
      · exact inLine

end OuterSound

namespace Phase

variable {slot : Option Coro} {hasSender : Bool}
variable {cv : ConditionVariable Coro} {item : Coro → Option T}
variable {sender : Option (Sending Coro T)}
variable {receiver : Option (Receiving Coro)}

/-- A sender that is away from the meeting may come and go. -/
theorem senderArrives (phase : Phase slot hasSender cv item none receiver)
    {x : Sending Coro T} (away : x.pc.Away) :
    Phase slot hasSender cv item (some x) receiver := by
  cases phase with
  | apart others away' slot flag asleep =>
      exact .apart (by rintro _ ⟨⟩; exact Or.inl away) away' slot flag asleep
  | receiverWaits others position slot flag noItem =>
      exact .receiverWaits (by rintro _ ⟨⟩; exact Or.inl away) position slot
        flag noItem
  | taken others position asleep slot full =>
      exact .taken (by rintro _ ⟨⟩; exact away) position asleep slot full

theorem senderLeaves {x : Sending Coro T}
    (phase : Phase slot hasSender cv item (some x) receiver)
    (last : x.pc = .unlockRelease) :
    Phase slot hasSender cv item none receiver := by
  cases phase with
  | apart others away slot flag asleep =>
      exact .apart (by simp) away slot flag asleep
  | receiverWaits others position slot flag noItem =>
      exact .receiverWaits (by simp) position slot flag noItem
  | taken others position asleep slot full =>
      exact .taken (by simp) position asleep slot full
  | _ => simp_all

theorem receiverArrives (phase : Phase slot hasSender cv item sender none)
    {y : Receiving Coro} (away : y.pc.Away) :
    Phase slot hasSender cv item sender (some y) := by
  cases phase with
  | apart others away' slot flag asleep =>
      exact .apart others (by rintro _ ⟨⟩; exact Or.inl away) slot flag asleep
  | senderWaits position others slot flag =>
      exact .senderWaits position (by rintro _ ⟨⟩; exact Or.inl away) slot flag

theorem receiverLeaves {y : Receiving Coro}
    (phase : Phase slot hasSender cv item sender (some y))
    (last : y.pc = .unlockAcquire) :
    Phase slot hasSender cv item sender none := by
  cases phase with
  | apart others away slot flag asleep =>
      exact .apart others (by simp) slot flag asleep
  | senderWaits position others slot flag =>
      exact .senderWaits position (by simp) slot flag
  | _ => simp_all

/-- The phase depends on the `item` of the receiver only. -/
theorem congr_item {item' : Coro → Option T}
    (phase : Phase slot hasSender cv item sender receiver)
    (same : ∀ y ∈ receiver, item' y.coro = item y.coro) :
    Phase slot hasSender cv item' sender receiver := by
  cases phase with
  | apart others away slot flag asleep =>
      exact .apart others away slot flag asleep
  | senderWaits position others slot flag =>
      exact .senderWaits position others slot flag
  | senderFound sleeping position slot flag noItem =>
      exact .senderFound sleeping position slot flag
        (by rw [same _ rfl, noItem])
  | senderNotified relock position slot flag noItem =>
      exact .senderNotified relock position slot flag
        (by rw [same _ rfl, noItem])
  | receiverWaits others position slot flag noItem =>
      exact .receiverWaits others position slot flag
        (by rw [same _ rfl, noItem])
  | delivering position sleeping asleep slot noItem =>
      exact .delivering position sleeping asleep slot
        (by rw [same _ rfl, noItem])
  | delivered position sleeping slot full =>
      exact .delivered position sleeping slot (by rw [same _ rfl, full])
  | taken others position asleep slot full =>
      exact .taken others position asleep slot (by rw [same _ rfl]; exact full)

end Phase

/-- The element of the sender if it was delivered. -/
def gave (sender : Option (Sending Coro T)) : List (Coro × T) :=
  ((sender.filter Sending.delivered).map Sending.load).toList

/-- The element of the receiver if it has one. -/
def got (item : Coro → Option T) (receiver : Option (Receiving Coro)) :
    List (Coro × Option T) :=
  (((receiver.map Receiving.coro).filter fun coro => (item coro).isSome).map
    fun coro => (coro, item coro)).toList

/-- What a step obtains, delivers and returns accounts for the change of the
sender and the receiver. -/
structure Accounts (s : State Coro T) (action : Action Coro T)
    (sender : Option (Sending Coro T)) (receiver : Option (Receiving Coro))
    (item' : Coro → Option T) (sender' : Option (Sending Coro T))
    (receiver' : Option (Receiving Coro)) : Prop where
  senders : (sender.map Sending.load).toList ++
      (obtainedRelease s action).toList =
    (released s action).toList ++ (sender'.map Sending.load).toList
  sent : gave sender ++ ((delivered s action).map Delivery.sent).toList =
    (released s action).toList ++ gave sender'
  receivers : (receiver.map Receiving.coro).toList ++
      (obtainedAcquire s action).toList =
    ((received s action).map Prod.fst).toList ++
      (receiver'.map Receiving.coro).toList
  got : got s.item receiver ++
      ((delivered s action).map Delivery.got).toList =
    (received s action).toList ++ got item' receiver'

/-- No observation is made of the step. -/
structure Unobserved (s : State Coro T) (action : Action Coro T) : Prop where
  obtainedRelease : obtainedRelease s action = none
  obtainedAcquire : obtainedAcquire s action = none
  delivered : delivered s action = none
  released : released s action = none
  received : received s action = none

section Accounts

variable {s s' : State Coro T} {action : Action Coro T}
variable {sender sender' : Option (Sending Coro T)}
variable {receiver receiver' : Option (Receiving Coro)}
variable {item' : Coro → Option T} {coro : Coro} {item : T} {receive : Receive}

theorem gave_congr (load : sender'.map Sending.load = sender.map Sending.load)
    (delivered : sender'.map Sending.delivered =
      sender.map Sending.delivered) : gave sender' = gave sender := by
  rcases sender with _ | x <;> rcases sender' with _ | x'
  · rfl
  · simp at load
  · simp at load
  · simp only [Option.map_some, Option.some.injEq] at load delivered
    simp [gave, Option.filter, load, delivered]

theorem Unobserved.accounts (unobserved : Unobserved s action)
    (load : sender'.map Sending.load = sender.map Sending.load)
    (delivered : sender'.map Sending.delivered = sender.map Sending.delivered)
    (coros : receiver'.map Receiving.coro = receiver.map Receiving.coro) :
    Accounts s action sender receiver s.item sender' receiver' where
  senders := by
    rw [unobserved.obtainedRelease, unobserved.released, load]
    simp
  sent := by
    rw [unobserved.delivered, unobserved.released, gave_congr load delivered]
    simp
  receivers := by
    rw [unobserved.obtainedAcquire, unobserved.received, coros]
    simp
  got := by
    rw [unobserved.delivered, unobserved.received, got, got, coros]
    simp

theorem Unobserved.senderAccounts (unobserved : Unobserved s action)
    {pc next : SenderPc Coro} (same : next.delivered = pc.delivered)
    (coros : receiver'.map Receiving.coro = receiver.map Receiving.coro) :
    Accounts s action (some ⟨coro, item, pc⟩) receiver s.item
      (some ⟨coro, item, next⟩) receiver' :=
  unobserved.accounts rfl (congrArg some same) coros

theorem Unobserved.runSender {pc : SenderPc Coro}
    (position : s.pc coro = .sender item pc) (notEmplace : pc ≠ .emplace)
    (notLast : pc ≠ .unlockRelease) :
    Unobserved s (.run coro : Action Coro T) := by
  constructor <;> cases pc <;>
    simp_all [Rendezvous.obtainedRelease, Rendezvous.obtainedAcquire,
      Rendezvous.delivered, Rendezvous.released, Rendezvous.received]

theorem Unobserved.runReceiver {pc : ReceiverPc Coro}
    (position : s.pc coro = .receiver receive pc)
    (notLast : pc ≠ .unlockAcquire) :
    Unobserved s (.run coro : Action Coro T) := by
  constructor <;> cases pc <;>
    simp_all [Rendezvous.obtainedRelease, Rendezvous.obtainedAcquire,
      Rendezvous.delivered, Rendezvous.released, Rendezvous.received]

end Accounts

variable [DecidableEq Coro]

namespace Roster

variable {releaseMtx acquireMtx : Mutex Coro} {pc : Coro → Pc Coro T}
variable {sender : Option (Sending Coro T)}
variable {receiver : Option (Receiving Coro)} {left : Mutex Coro}
variable {coro head : Coro} {item : T} {receive : Receive}

/-- A coroutine outside the channel waits for an outer mutex or takes it. -/
theorem enter (roster : Roster releaseMtx acquireMtx pc sender receiver)
    (outside : pc coro = .idle) {position : Pc Coro T}
    {releaseMtx' acquireMtx' : Mutex Coro}
    {sender' : Option (Sending Coro T)}
    {receiver' : Option (Receiving Coro)}
    (senders : ∀ other item inner, sender' = some ⟨other, item, inner⟩ ↔
      sender = some ⟨other, item, inner⟩ ∨
        other = coro ∧ position = .sender item inner)
    (receivers : ∀ other receive inner,
      receiver' = some ⟨other, receive, inner⟩ ↔
        receiver = some ⟨other, receive, inner⟩ ∨
          other = coro ∧ position = .receiver receive inner)
    (release : OuterSound releaseMtx' sender'.isSome fun other =>
      (other = coro ∧ ∃ item, position = .awaitRelease item) ∨
        ∃ item, pc other = .awaitRelease item)
    (acquire : OuterSound acquireMtx' receiver'.isSome fun other =>
      (other = coro ∧ ∃ receive, position = .awaitAcquire receive) ∨
        ∃ receive, pc other = .awaitAcquire receive)
    (defined : position ≠ .undefined) :
    Roster releaseMtx' acquireMtx' (Function.update pc coro position) sender'
      receiver' := by
  refine ⟨?_, ?_, release.congr ?_, acquire.congr ?_, ?_⟩
  · intro other otherItem inner
    rw [senders, ← roster.senders]
    by_cases isIt : other = coro
    · subst isIt
      simp [outside]
    · simp [isIt]
  · intro other otherReceive inner
    rw [receivers, ← roster.receivers]
    by_cases isIt : other = coro
    · subst isIt
      simp [outside]
    · simp [isIt]
  · intro other
    by_cases isIt : other = coro
    · subst isIt
      simp [outside]
    · simp [isIt]
  · intro other
    by_cases isIt : other = coro
    · subst isIt
      simp [outside]
    · simp [isIt]
  · intro other
    by_cases isIt : other = coro
    · subst isIt
      simpa using defined
    · rw [Function.update_of_ne isIt]
      exact roster.defined other

/-- The sender returns and nobody is in line for `m_release_mtx`. -/
theorem senderReturns {inner : SenderPc Coro}
    (roster : Roster releaseMtx acquireMtx pc (some ⟨coro, item, inner⟩)
      receiver)
    (release : OuterSound left false
      fun other => ∃ item, pc other = .awaitRelease item) :
    Roster left acquireMtx (Function.update pc coro .idle) none receiver := by
  have position := (roster.senders coro item inner).mpr rfl
  refine ⟨?_, ?_, release.congr ?_, roster.acquire.congr ?_, ?_⟩
  · intro other otherItem otherInner
    by_cases isIt : other = coro
    · simp [isIt]
    · simp [isIt, roster.senders, Ne.symm isIt]
  · intro other otherReceive otherInner
    rw [← roster.receivers]
    by_cases isIt : other = coro
    · simp [isIt, position]
    · simp [isIt]
  · intro other
    by_cases isIt : other = coro
    · simp [isIt, position]
    · simp [isIt]
  · intro other
    by_cases isIt : other = coro
    · simp [isIt, position]
    · simp [isIt]
  · intro other
    by_cases isIt : other = coro
    · simp [isIt]
    · simpa [isIt] using roster.defined other

/-- The sender returns and the first in line is the sender. -/
theorem senderPasses {inner : SenderPc Coro}
    (roster : Roster releaseMtx acquireMtx pc (some ⟨coro, item, inner⟩)
      receiver) {given : T}
    (waits : pc head = .awaitRelease given)
    (release : OuterSound left true fun other =>
      (∃ item, pc other = .awaitRelease item) ∧ other ≠ head) :
    Roster left acquireMtx
      (Function.update (Function.update pc coro .idle) head
        (.sender given .lockMatch))
      (some ⟨head, given, .lockMatch⟩) receiver := by
  have position := (roster.senders coro item inner).mpr rfl
  refine ⟨?_, ?_, release.congr ?_, roster.acquire.congr ?_, ?_⟩
  · intro other otherItem otherInner
    by_cases isHead : other = head
    · simp [isHead]
    · by_cases isIt : other = coro
      · simp [isIt, Ne.symm (isIt ▸ isHead), isIt ▸ isHead]
      · simp [isIt, isHead, roster.senders, Ne.symm isIt, Ne.symm isHead]
  · intro other otherReceive otherInner
    rw [← roster.receivers]
    by_cases isHead : other = head
    · simp [isHead, waits]
    · by_cases isIt : other = coro
      · simp [isIt, position, isIt ▸ isHead]
      · simp [isIt, isHead]
  · intro other
    by_cases isHead : other = head
    · simp [isHead]
    · by_cases isIt : other = coro
      · simp [isIt, position, isIt ▸ isHead]
      · simp [isIt, isHead]
  · intro other
    by_cases isHead : other = head
    · simp [isHead, waits]
    · by_cases isIt : other = coro
      · simp [isIt, position, isIt ▸ isHead]
      · simp [isIt, isHead]
  · intro other
    by_cases isHead : other = head
    · simp [isHead]
    · by_cases isIt : other = coro
      · simp [isIt, isIt ▸ isHead]
      · simpa [isIt, isHead] using roster.defined other

/-- The receiver returns and nobody is in line for `m_acquire_mtx`. -/
theorem receiverReturns {inner : ReceiverPc Coro}
    (roster : Roster releaseMtx acquireMtx pc sender
      (some ⟨coro, receive, inner⟩))
    (acquire : OuterSound left false
      fun other => ∃ receive, pc other = .awaitAcquire receive) :
    Roster releaseMtx left (Function.update pc coro .idle) sender none := by
  have position := (roster.receivers coro receive inner).mpr rfl
  refine ⟨?_, ?_, roster.release.congr ?_, acquire.congr ?_, ?_⟩
  · intro other otherItem otherInner
    rw [← roster.senders]
    by_cases isIt : other = coro
    · simp [isIt, position]
    · simp [isIt]
  · intro other otherReceive otherInner
    by_cases isIt : other = coro
    · simp [isIt]
    · simp [isIt, roster.receivers, Ne.symm isIt]
  · intro other
    by_cases isIt : other = coro
    · simp [isIt, position]
    · simp [isIt]
  · intro other
    by_cases isIt : other = coro
    · simp [isIt, position]
    · simp [isIt]
  · intro other
    by_cases isIt : other = coro
    · simp [isIt]
    · simpa [isIt] using roster.defined other

/-- The receiver returns and the first in line is the receiver. -/
theorem receiverPasses {inner : ReceiverPc Coro}
    (roster : Roster releaseMtx acquireMtx pc sender
      (some ⟨coro, receive, inner⟩)) {given : Receive}
    (waits : pc head = .awaitAcquire given)
    (acquire : OuterSound left true fun other =>
      (∃ receive, pc other = .awaitAcquire receive) ∧ other ≠ head) :
    Roster releaseMtx left
      (Function.update (Function.update pc coro .idle) head
        (.receiver given .lockMatch))
      sender (some ⟨head, given, .lockMatch⟩) := by
  have position := (roster.receivers coro receive inner).mpr rfl
  refine ⟨?_, ?_, roster.release.congr ?_, acquire.congr ?_, ?_⟩
  · intro other otherItem otherInner
    rw [← roster.senders]
    by_cases isHead : other = head
    · simp [isHead, waits]
    · by_cases isIt : other = coro
      · simp [isIt, position, isIt ▸ isHead]
      · simp [isIt, isHead]
  · intro other otherReceive otherInner
    by_cases isHead : other = head
    · simp [isHead]
    · by_cases isIt : other = coro
      · simp [isIt, Ne.symm (isIt ▸ isHead), isIt ▸ isHead]
      · simp [isIt, isHead, roster.receivers, Ne.symm isIt, Ne.symm isHead]
  · intro other
    by_cases isHead : other = head
    · simp [isHead, waits]
    · by_cases isIt : other = coro
      · simp [isIt, position, isIt ▸ isHead]
      · simp [isIt, isHead]
  · intro other
    by_cases isHead : other = head
    · simp [isHead]
    · by_cases isIt : other = coro
      · simp [isIt, position, isIt ▸ isHead]
      · simp [isIt, isHead]
  · intro other
    by_cases isHead : other = head
    · simp [isHead]
    · by_cases isIt : other = coro
      · simp [isIt, isIt ▸ isHead]
      · simpa [isIt, isHead] using roster.defined other

end Roster

namespace Consistent

variable {s s' : State Coro T} {sender : Option (Sending Coro T)}
variable {receiver : Option (Receiving Coro)}
variable {coro : Coro} {item : T} {receive : Receive}

/-- The sender delivers its element to the receiver. -/
theorem emplaceAccounts
    (consistent : Consistent s (some ⟨coro, item, .emplace⟩) receiver)
    (stepEq : s.runSender coro item .emplace = some s') :
    Accounts s (.run coro) (some ⟨coro, item, .emplace⟩) receiver s'.item
      (some ⟨coro, item, .unlockMatch⟩) receiver := by
  have position := (consistent.roster.senders coro item .emplace).mpr rfl
  cases consistent.phase with
  | @delivering _ y _ sleeping asleep slot noItem =>
      simp only [State.runSender, slot, Option.some.injEq] at stepEq
      subst stepEq
      have isDelivered : delivered s (.run coro) =
          some ⟨coro, item, y.coro⟩ := by
        simp only [delivered, position, slot, Option.map_some]
      have notReleased : released s (.run coro) = none := by
        simp only [released, position]
      have notReceived : received s (.run coro) = none := by
        simp only [received, position]
      have noRelease : obtainedRelease s (.run coro) = none := by
        simp only [obtainedRelease, position]
      have noAcquire : obtainedAcquire s (.run coro) = none := by
        simp only [obtainedAcquire, position]
      refine ⟨?_, ?_, ?_, ?_⟩
      · rw [noRelease, notReleased]
        simp [Sending.load]
      · rw [isDelivered, notReleased]
        rfl
      · rw [noAcquire, notReceived]
        simp
      · rw [isDelivered, notReceived]
        simp [got, Delivery.got, Option.filter, noItem]
  | _ => simp_all [SenderPc.Away]

/-- What the next step of the sender inside `m_release_mtx` does. -/
theorem runSender {pc : SenderPc Coro}
    (consistent : Consistent s (some ⟨coro, item, pc⟩) receiver)
    (notLast : pc ≠ .unlockRelease)
    (stepEq : s.runSender coro item pc = some s') :
    ∃ sender' receiver', Consistent s' sender' receiver' ∧
      Accounts s (.run coro) (some ⟨coro, item, pc⟩) receiver s'.item sender'
        receiver' := by
  have position := (consistent.roster.senders coro item pc).mpr rfl
  by_cases isEmplace : pc = .emplace
  · subst isEmplace
    exact ⟨_, _, consistent.senderEmplace stepEq,
      consistent.emplaceAccounts stepEq⟩
  have unobserved : Unobserved s (.run coro : Action Coro T) :=
    .runSender position isEmplace notLast
  have grantedCoros : (receiver.map Receiving.granted).map Receiving.coro =
      receiver.map Receiving.coro := by
    rw [Option.map_map]
    rfl
  rw [State.runSender_item isEmplace notLast stepEq]
  cases pc with
  | awaitMatch | sleeping | relock => simp [State.runSender] at stepEq
  | lockMatch =>
      obtain ⟨next, notYet, after⟩ := consistent.senderLockMatch
      rw [State.runSender, Option.some.injEq] at stepEq
      subst stepEq
      exact ⟨_, _, after, unobserved.senderAccounts notYet rfl⟩
  | checkReceiver =>
      obtain ⟨next, notYet, after⟩ := consistent.senderCheckReceiver stepEq
      exact ⟨_, _, after, unobserved.senderAccounts notYet rfl⟩
  | testPred =>
      obtain ⟨next, notYet, after⟩ := consistent.senderTestPred stepEq
      exact ⟨_, _, after, unobserved.senderAccounts notYet rfl⟩
  | push =>
      exact ⟨_, _, consistent.senderPush stepEq,
        unobserved.senderAccounts rfl rfl⟩
  | unlockAhead =>
      rw [State.runSender, Option.some.injEq] at stepEq
      subst stepEq
      exact ⟨_, _, consistent.senderUnlockAhead,
        unobserved.senderAccounts rfl grantedCoros⟩
  | emplace => contradiction
  | unlockMatch =>
      rw [State.runSender, Option.some.injEq] at stepEq
      subst stepEq
      exact ⟨_, _, consistent.senderUnlockMatch,
        unobserved.senderAccounts rfl grantedCoros⟩
  | notify pc =>
      obtain ⟨next, after, done, coros, afterConsistent⟩ :=
        consistent.senderNotify
      rw [State.runSender, Option.some.injEq] at stepEq
      subst stepEq
      exact ⟨_, _, afterConsistent, unobserved.senderAccounts done coros⟩
  | unlockRelease => contradiction

/-- What the next step of the receiver inside `m_acquire_mtx` does. -/
theorem runReceiver {pc : ReceiverPc Coro}
    (consistent : Consistent s sender (some ⟨coro, receive, pc⟩))
    (notLast : pc ≠ .unlockAcquire)
    (stepEq : s.runReceiver coro receive pc = some s') :
    ∃ sender' receiver', Consistent s' sender' receiver' ∧
      Accounts s (.run coro) sender (some ⟨coro, receive, pc⟩) s'.item sender'
        receiver' := by
  have position := (consistent.roster.receivers coro receive pc).mpr rfl
  have unobserved : Unobserved s (.run coro : Action Coro T) :=
    .runReceiver position notLast
  have grantedLoad : (sender.map Sending.granted).map Sending.load =
      sender.map Sending.load := by
    rw [Option.map_map]
    rfl
  have grantedDelivered : (sender.map Sending.granted).map Sending.delivered =
      sender.map Sending.delivered := by
    rcases sender with _ | ⟨other, item, pc⟩
    · rfl
    · cases pc <;> rfl
  rw [State.runReceiver_item notLast stepEq]
  cases pc with
  | awaitMatch | sleeping | relock => simp [State.runReceiver] at stepEq
  | lockMatch =>
      obtain ⟨next, after⟩ := consistent.receiverLockMatch
      rw [State.runReceiver, Option.some.injEq] at stepEq
      subst stepEq
      exact ⟨_, _, after, unobserved.accounts rfl rfl rfl⟩
  | publish =>
      exact ⟨_, _, consistent.receiverPublish stepEq,
        unobserved.accounts rfl rfl rfl⟩
  | checkSender =>
      obtain ⟨next, after⟩ := consistent.receiverCheckSender stepEq
      exact ⟨_, _, after, unobserved.accounts rfl rfl rfl⟩
  | notify pc =>
      obtain ⟨before, next, load, same, after⟩ := consistent.receiverNotify
      rw [State.runReceiver, Option.some.injEq] at stepEq
      subst stepEq
      exact ⟨_, _, after, unobserved.accounts load same rfl⟩
  | testPred =>
      obtain ⟨next, after⟩ := consistent.receiverTestPred stepEq
      exact ⟨_, _, after, unobserved.accounts rfl rfl rfl⟩
  | push =>
      exact ⟨_, _, consistent.receiverPush stepEq,
        unobserved.accounts rfl rfl rfl⟩
  | unlockAhead =>
      rw [State.runReceiver, Option.some.injEq] at stepEq
      subst stepEq
      exact ⟨_, _, consistent.receiverUnlockAhead,
        unobserved.accounts grantedLoad grantedDelivered rfl⟩
  | clearSender =>
      exact ⟨_, _, consistent.receiverClearSender stepEq,
        unobserved.accounts rfl rfl rfl⟩
  | unlockMatch =>
      rw [State.runReceiver, Option.some.injEq] at stepEq
      subst stepEq
      exact ⟨_, _, consistent.receiverUnlockMatch,
        unobserved.accounts grantedLoad grantedDelivered rfl⟩
  | unlockAcquire => contradiction

/-- A sender takes `m_release_mtx` or joins the line for it. -/
theorem callRelease (consistent : Consistent s sender receiver)
    (stepEq : step s (.release coro item) = some s') :
    ∃ sender' receiver', Consistent s' sender' receiver' ∧
      Accounts s (.release coro item) sender receiver s'.item sender'
        receiver' := by
  have roster := consistent.roster
  cases position : s.pc coro with
  | idle =>
      rcases sender with _ | x
      · obtain ⟨taken, registered, sound⟩ := roster.release.take coro
        have isFree : s.releaseMtx.awaiting = none := by
          simpa using roster.release.locked
        simp only [step, position, registered, Option.some.injEq] at stepEq
        subst stepEq
        refine ⟨some ⟨coro, item, .lockMatch⟩, receiver, ⟨?_, ?_, ?_, ?_, ?_,
          consistent.filled⟩, ?_⟩
        · apply roster.enter position (by simp [eq_comm]) (by simp)
          · exact sound.congr (by simp)
          · exact roster.acquire.congr (by simp)
          · simp
        · exact consistent.meeting.congr rfl rfl
        · exact consistent.phase.senderArrives trivial
        · exact consistent.fresh
        · intro waiter waiting awaits
          exact consistent.waiting waiter waiting
            (awaiting_of_update (by simp) awaits)
        · constructor <;>
            simp [obtainedRelease, obtainedAcquire, delivered, released,
              received, position, isFree, gave, Option.filter, Sending.load,
              Sending.delivered, SenderPc.delivered, State.setPc]
      · obtain ⟨joined, registered, sound⟩ :=
          roster.release.join (by simp [position] :
            ¬ ∃ item, s.pc coro = .awaitRelease item)
        obtain ⟨stack, isLocked⟩ :=
          Option.isSome_iff_exists.mp roster.release.locked
        simp only [step, position, registered, Option.some.injEq] at stepEq
        subst stepEq
        refine ⟨some x, receiver, ⟨?_, consistent.meeting, consistent.phase,
          consistent.fresh, ?_, consistent.filled⟩, ?_⟩
        · apply roster.enter position (by simp) (by simp)
          · exact sound.congr (by simp)
          · exact roster.acquire.congr (by simp)
          · simp
        · intro waiter waiting awaits
          exact consistent.waiting waiter waiting
            (awaiting_of_update (by simp) awaits)
        · constructor <;>
            simp [obtainedRelease, obtainedAcquire, delivered, released,
              received, position, isLocked, State.setPc]
  | _ => simp [step, position] at stepEq

/-- A receiver takes `m_acquire_mtx` or joins the line for it. -/
theorem callReceive (consistent : Consistent s sender receiver)
    (stepEq : step s (.receive coro receive) = some s') :
    ∃ sender' receiver', Consistent s' sender' receiver' ∧
      Accounts s (.receive coro receive) sender receiver s'.item sender'
        receiver' := by
  have roster := consistent.roster
  cases position : s.pc coro with
  | idle =>
      have waiting : ∀ waiter waiting, s.pc waiter = .awaitAcquire waiting →
          Function.update s.item coro none waiter = none := by
        intro waiter waiting awaits
        have isOther : waiter ≠ coro := by
          rintro rfl
          rw [position] at awaits
          cases awaits
        rw [Function.update_of_ne isOther]
        exact consistent.waiting waiter waiting awaits
      rcases receiver with _ | y
      · obtain ⟨taken, registered, sound⟩ := roster.acquire.take coro
        have isFree : s.acquireMtx.awaiting = none := by
          simpa using roster.acquire.locked
        simp only [step, position, registered, Option.some.injEq] at stepEq
        subst stepEq
        have phase := consistent.phase.congr_item
          (by simp : ∀ y ∈ none, Function.update s.item coro none
            (Receiving.coro y) = s.item y.coro)
        refine ⟨sender, some ⟨coro, receive, .lockMatch⟩, ⟨?_, ?_, ?_, ?_, ?_,
          by simp⟩, ?_⟩
        · apply roster.enter position (by simp) (by simp [eq_comm])
          · exact roster.release.congr (by simp)
          · exact sound.congr (by simp)
          · simp
        · have arrived : MatchSound s.matchMtx (some (coro, .outside))
              (sender.map Sending.party) :=
            consistent.meeting.swap.congr rfl rfl
          exact arrived.swap
        · exact phase.receiverArrives trivial
        · rintro y ⟨⟩ _
          exact Function.update_self ..
        · intro waiter awaited awaits
          exact waiting waiter awaited (awaiting_of_update (by simp) awaits)
        · constructor <;>
            simp [obtainedRelease, obtainedAcquire, delivered, released,
              received, position, isFree, got, Option.filter]
      · obtain ⟨joined, registered, sound⟩ :=
          roster.acquire.join (by simp [position] :
            ¬ ∃ receive, s.pc coro = .awaitAcquire receive)
        obtain ⟨stack, isLocked⟩ :=
          Option.isSome_iff_exists.mp roster.acquire.locked
        simp only [step, position, registered, Option.some.injEq] at stepEq
        subst stepEq
        have isOther : y.coro ≠ coro := by
          rintro rfl
          have isReceiver := (roster.receivers y.coro y.receive y.pc).mpr rfl
          rw [position] at isReceiver
          cases isReceiver
        have same : Function.update s.item coro none y.coro = s.item y.coro :=
          Function.update_of_ne isOther ..
        refine ⟨sender, some y, ⟨?_, consistent.meeting, ?_, ?_, ?_, ?_⟩, ?_⟩
        · apply roster.enter position (by simp) (by simp)
          · exact roster.release.congr (by simp)
          · refine sound.congr ?_
            intro other
            by_cases isIt : other = coro <;> simp [isIt, position]
          · simp
        · exact consistent.phase.congr_item (by rintro _ ⟨⟩; exact same)
        · rintro _ ⟨⟩ early
          exact same.trans (consistent.fresh y rfl early)
        · intro waiter awaited awaits
          by_cases isIt : waiter = coro
          · rw [isIt]
            exact Function.update_self ..
          · apply waiting waiter awaited
            simpa [State.setPc, isIt] using awaits
        · rintro _ ⟨⟩ late
          change (Function.update s.item coro none y.coro).isSome
          rw [same]
          exact consistent.filled y rfl late
        · constructor <;>
            simp [obtainedRelease, obtainedAcquire, delivered, released,
              received, position, isLocked, got, Option.filter, same]
  | _ => simp [step, position] at stepEq

/-- A sender returns and passes `m_release_mtx` on. -/
theorem returnRelease
    (consistent : Consistent s (some ⟨coro, item, .unlockRelease⟩) receiver)
    (stepEq : s.runSender coro item .unlockRelease = some s') :
    ∃ sender' receiver', Consistent s' sender' receiver' ∧
      Accounts s (.run coro) (some ⟨coro, item, .unlockRelease⟩) receiver
        s'.item sender' receiver' := by
  have roster := consistent.roster
  have position := (roster.senders coro item .unlockRelease).mpr rfl
  have phase := consistent.phase.senderLeaves rfl
  have meeting : MatchSound s.matchMtx none (receiver.map Receiving.party) :=
    consistent.meeting.congr rfl rfl
  obtain ⟨spawned, left, unlocked, isWaiting, sound⟩ := roster.release.pass
  have heirEq : heir s.releaseMtx = spawned := by
    rw [heir, unlocked]
    rfl
  simp only [State.runSender, State.unlockRelease, unlocked,
    Option.some.injEq] at stepEq
  subst stepEq
  rcases spawned with _ | head
  · refine ⟨none, receiver, ⟨?_, meeting, phase, consistent.fresh, ?_,
      consistent.filled⟩, ?_⟩
    · exact roster.senderReturns (sound.congr (by simp))
    · intro waiter waiting awaits
      exact consistent.waiting waiter waiting
        (awaiting_of_update (by simp) awaits)
    · constructor <;>
        simp [obtainedRelease, obtainedAcquire, delivered, released, received,
          position, heirEq, gave, Option.filter, Sending.load,
          Sending.delivered, SenderPc.delivered, State.setPc]
  · obtain ⟨given, waits⟩ := isWaiting head rfl
    have isOther : head ≠ coro := by
      rintro rfl
      rw [position] at waits
      cases waits
    simp only [State.coSpawnOption, State.coSpawn, State.setPc,
      Function.update_of_ne isOther, waits, Pc.resumed]
    refine ⟨some ⟨head, given, .lockMatch⟩, receiver, ⟨?_, ?_, ?_,
      consistent.fresh, ?_, consistent.filled⟩, ?_⟩
    · exact roster.senderPasses waits (sound.congr (by simp [eq_comm]))
    · exact meeting.congr rfl rfl
    · exact phase.senderArrives trivial
    · intro waiter waiting awaits
      exact consistent.waiting waiter waiting
        (awaiting_of_update (by simp) (awaiting_of_update (by simp) awaits))
    · constructor <;>
        simp [obtainedRelease, obtainedAcquire, delivered, released, received,
          position, heirEq, waits, Pc.awaitedItem, gave, Option.filter,
          Sending.load, Sending.delivered, SenderPc.delivered]

/-- A receiver returns and passes `m_acquire_mtx` on. -/
theorem returnAcquire
    (consistent : Consistent s sender (some ⟨coro, receive, .unlockAcquire⟩))
    (stepEq : s.runReceiver coro receive .unlockAcquire = some s') :
    ∃ sender' receiver', Consistent s' sender' receiver' ∧
      Accounts s (.run coro) sender (some ⟨coro, receive, .unlockAcquire⟩)
        s'.item sender' receiver' := by
  have roster := consistent.roster
  have position := (roster.receivers coro receive .unlockAcquire).mpr rfl
  have hasItem := consistent.filled _ rfl (Or.inr rfl)
  have phase := consistent.phase.receiverLeaves rfl
  have meeting : MatchSound s.matchMtx none (sender.map Sending.party) :=
    consistent.meeting.swap.congr rfl rfl
  obtain ⟨spawned, left, unlocked, isWaiting, sound⟩ := roster.acquire.pass
  have heirEq : heir s.acquireMtx = spawned := by
    rw [heir, unlocked]
    rfl
  simp only [State.runReceiver, State.unlockAcquire, unlocked,
    Option.some.injEq] at stepEq
  subst stepEq
  rcases spawned with _ | head
  · refine ⟨sender, none, ⟨?_, meeting.swap, phase, by simp, ?_, by simp⟩, ?_⟩
    · exact roster.receiverReturns (sound.congr (by simp))
    · intro waiter waiting awaits
      exact consistent.waiting waiter waiting
        (awaiting_of_update (by simp) awaits)
    · constructor <;>
        simp_all [obtainedRelease, obtainedAcquire, delivered, released,
          received, got, Option.filter]
  · obtain ⟨given, waits⟩ := isWaiting head rfl
    have noItem := consistent.waiting head given waits
    have isOther : head ≠ coro := by
      rintro rfl
      rw [position] at waits
      cases waits
    simp only [State.coSpawnOption, State.coSpawn, State.setPc,
      Function.update_of_ne isOther, waits, Pc.resumed]
    have arrived : MatchSound s.matchMtx (some (head, .outside))
        (sender.map Sending.party) := meeting.congr rfl rfl
    refine ⟨sender, some ⟨head, given, .lockMatch⟩, ⟨?_, arrived.swap, ?_,
      ?_, ?_, by simp⟩, ?_⟩
    · exact roster.receiverPasses waits (sound.congr (by simp [eq_comm]))
    · exact phase.receiverArrives trivial
    · rintro y ⟨⟩ _
      exact noItem
    · intro waiter waiting awaits
      exact consistent.waiting waiter waiting
        (awaiting_of_update (by simp) (awaiting_of_update (by simp) awaits))
    · constructor <;>
        simp_all [obtainedRelease, obtainedAcquire, delivered, released,
          received, got, Option.filter]

/-- Every step keeps the invariant and the accounts. -/
theorem step (consistent : Consistent s sender receiver)
    {action : Action Coro T} (stepEq : step s action = some s') :
    ∃ sender' receiver', Consistent s' sender' receiver' ∧
      Accounts s action sender receiver s'.item sender' receiver' := by
  cases action with
  | release coro item => exact consistent.callRelease stepEq
  | receive coro receive => exact consistent.callReceive stepEq
  | run coro =>
      cases position : s.pc coro with
      | sender item pc =>
          obtain rfl := (consistent.roster.senders coro item pc).mp position
          simp only [Rendezvous.step, position] at stepEq
          by_cases isLast : pc = .unlockRelease
          · subst isLast
            exact consistent.returnRelease stepEq
          · exact consistent.runSender isLast stepEq
      | receiver receive pc =>
          obtain rfl :=
            (consistent.roster.receivers coro receive pc).mp position
          simp only [Rendezvous.step, position] at stepEq
          by_cases isLast : pc = .unlockAcquire
          · subst isLast
            exact consistent.returnAcquire stepEq
          · exact consistent.runReceiver isLast stepEq
      | idle | awaitRelease | awaitAcquire | undefined =>
          simp [Rendezvous.step, position] at stepEq

end Consistent

end CoContext.Rendezvous
