import CoContext.Rendezvous

/-!
# The meeting of a sender and a receiver

At most one sender and one receiver are past their outer mutex.  The two meet
in phases: a phase says how far both of them are and what `m_receiver`,
`m_has_sender`, `m_match_cv` and the `item` of the receiver are then.  At most
one of them sleeps on `m_match_cv`, and no two notifications overlap.
-/

namespace CoContext.Rendezvous

open CoContext.Sequential

variable {Coro T : Type*}

/-- Where a coroutine is with respect to `m_match_mtx`. -/
inductive Place
  | outside
  | inLine
  | holds
  deriving DecidableEq

def SenderPc.place : SenderPc Coro → Place
  | .lockMatch | .sleeping | .notify _ | .unlockRelease => .outside
  | .awaitMatch | .relock => .inLine
  | .checkReceiver | .testPred | .push | .unlockAhead | .emplace
  | .unlockMatch => .holds

def ReceiverPc.place : ReceiverPc Coro → Place
  | .lockMatch | .sleeping | .unlockAcquire => .outside
  | .awaitMatch | .relock => .inLine
  | .publish | .checkSender | .notify _ | .testPred | .push | .unlockAhead
  | .clearSender | .unlockMatch => .holds

/-- The sender that owns `m_release_mtx`. -/
structure Sending (Coro T : Type*) where
  coro : Coro
  item : T
  pc : SenderPc Coro

/-- The receiver that owns `m_acquire_mtx`. -/
structure Receiving (Coro : Type*) where
  coro : Coro
  receive : Receive
  pc : ReceiverPc Coro

/-- The sender goes on with `m_match_mtx` if it was in line for it. -/
def SenderPc.granted : SenderPc Coro → SenderPc Coro
  | .awaitMatch => .checkReceiver
  | .relock => .testPred
  | pc => pc

def ReceiverPc.granted : ReceiverPc Coro → ReceiverPc Coro
  | .awaitMatch => .publish
  | .relock => .testPred
  | pc => pc

def Sending.granted (sending : Sending Coro T) : Sending Coro T :=
  { sending with pc := sending.pc.granted }

def Receiving.granted (receiving : Receiving Coro) : Receiving Coro :=
  { receiving with pc := receiving.pc.granted }

/-- A coroutine that may use `m_match_mtx`. -/
abbrev Party (Coro : Type*) := Option (Coro × Place)

def Sending.party (sending : Sending Coro T) : Coro × Place :=
  (sending.coro, sending.pc.place)

def Receiving.party (receiving : Receiving Coro) : Coro × Place :=
  (receiving.coro, receiving.pc.place)

namespace Party

def holds : Party Coro → Bool
  | some (_, .holds) => true
  | some (_, .inLine) | some (_, .outside) | none => false

def lined : Party Coro → List Coro
  | some (coro, .inLine) => [coro]
  | some (_, .holds) | some (_, .outside) | none => []

/-- The party if it is passed the mutex while it is in line. -/
def granted : Party Coro → Party Coro
  | some (coro, .inLine) => some (coro, .holds)
  | some (coro, .holds) => some (coro, .holds)
  | some (coro, .outside) => some (coro, .outside)
  | none => none

end Party

/-- `m_match_mtx` is used by two parties only. -/
structure MatchSound (mutex : Mutex Coro) (first second : Party Coro) :
    Prop where
  locked : mutex.awaiting.isSome = (first.holds || second.holds)
  alone : first.holds = true → second.holds = false
  line_eq : mutex.line = first.lined ++ second.lined
  first_waits : first.lined ≠ [] → second.holds = true
  second_waits : second.lined ≠ [] → first.holds = true

namespace MatchSound

variable {mutex : Mutex Coro} {first second : Party Coro} {coro : Coro}

theorem swap (sound : MatchSound mutex first second) :
    MatchSound mutex second first where
  locked := by rw [sound.locked, Bool.or_comm]
  alone holds := by
    cases firstHolds : first.holds with
    | false => rfl
    | true =>
        rw [sound.alone firstHolds] at holds
        contradiction
  line_eq := by
    rw [sound.line_eq]
    cases firstLined : first.lined with
    | nil => rw [List.nil_append, List.append_nil]
    | cons coro rest =>
        have secondHolds := sound.first_waits (by rw [firstLined]; simp)
        have secondLined : second.lined = [] := by
          unfold Party.holds at secondHolds
          unfold Party.lined
          split at secondHolds <;> simp_all
        rw [secondLined, List.nil_append, List.append_nil]
  first_waits := sound.second_waits
  second_waits := sound.first_waits

/-- Only the place of a party matters. -/
theorem congr {first' : Party Coro} (sound : MatchSound mutex first second)
    (holdsEq : first'.holds = first.holds)
    (linedEq : first'.lined = first.lined) :
    MatchSound mutex first' second where
  locked := by rw [holdsEq, sound.locked]
  alone holds := sound.alone (by rw [← holdsEq, holds])
  line_eq := by rw [linedEq, sound.line_eq]
  first_waits waits := sound.first_waits (by rwa [← linedEq])
  second_waits waits := by rw [holdsEq, sound.second_waits waits]

/-- A party takes the mutex, or it joins the line because the other party
holds the mutex. -/
theorem register (sound : MatchSound mutex (some (coro, .outside)) second) :
    ∃ registered,
      mutex.registerAwaiting coro = (second.holds, registered) ∧
      MatchSound registered
        (some (coro, if second.holds then .inLine else .holds)) second := by
  have locked := sound.locked
  have lineEq := sound.line_eq
  have notWaiting : second.lined = [] := by
    by_contra waits
    have holds := sound.second_waits waits
    contradiction
  cases secondHolds : second.holds with
  | true =>
      have isLocked : mutex.awaiting.isSome := by
        rw [locked, secondHolds]
        rfl
      obtain ⟨joined, registered, joinedLocked, joinedLine⟩ :=
        Mutex.registerAwaiting_locked isLocked coro
      refine ⟨joined, registered, ?_, ?_, ?_, ?_, ?_⟩
      · rw [joinedLocked, secondHolds]
        rfl
      · simp [Party.holds]
      · rw [joinedLine, lineEq, notWaiting]
        rfl
      · intro _
        exact secondHolds
      · intro waits
        exact absurd notWaiting waits
  | false =>
      have isFree : mutex.awaiting = none := by
        rw [secondHolds] at locked
        simpa [Party.holds] using locked
      obtain ⟨taken, registered, takenLocked, takenLine⟩ :=
        Mutex.registerAwaiting_free isFree coro
      refine ⟨taken, registered, ?_, ?_, ?_, ?_, ?_⟩
      · rw [takenLocked]
        rfl
      · intro _
        exact secondHolds
      · rw [takenLine, lineEq]
        rfl
      · simp [Party.lined]
      · intro _
        rfl

/-- A party leaves the mutex to the other one if that is in line. -/
theorem unlock (sound : MatchSound mutex (some (coro, .holds)) second) :
    ∃ left, mutex.unlock = some (second.lined.head?, left) ∧
      MatchSound left (some (coro, .outside)) second.granted := by
  have isLocked : mutex.awaiting.isSome := by
    rw [sound.locked]
    rfl
  obtain ⟨spawned, left, unlocked, lineEq, lockedEq, nobody⟩ :=
    Mutex.unlock_locked isLocked
  have line : spawned.toList ++ left.line = second.lined := by
    rw [← lineEq, sound.line_eq]
    rfl
  have notHolding := sound.alone rfl
  have spawnedEq : spawned = second.lined.head? := by
    cases spawned with
    | none =>
        rw [nobody rfl] at line
        rw [← line]
        rfl
    | some head =>
        rw [← line]
        rfl
  refine ⟨left, by rw [unlocked, spawnedEq], ?_⟩
  have leftLocked : left.awaiting.isSome = second.granted.holds := by
    rw [lockedEq, spawnedEq]
    rcases second with _ | ⟨other, _ | _ | _⟩ <;>
      simp_all [Party.lined, Party.holds, Party.granted]
  have leftLine : left.line = [] := by
    have lengthEq := congrArg List.length line
    rw [spawnedEq, List.length_append] at lengthEq
    rcases second with _ | ⟨other, _ | _ | _⟩ <;>
      simp_all [Party.lined]
  have nobodyLined : second.granted.lined = [] := by
    rcases second with _ | ⟨other, _ | _ | _⟩ <;> rfl
  refine ⟨?_, by simp [Party.holds], ?_, by simp [Party.lined], ?_⟩
  · rw [leftLocked]
    rfl
  · rw [leftLine, nobodyLined]
    rfl
  · intro waits
    exact absurd nobodyLined waits

end MatchSound

/-- The sender is not inside `m_match_mtx` or on `m_match_cv`. -/
def SenderPc.Away : SenderPc Coro → Prop
  | .lockMatch | .awaitMatch | .unlockRelease => True
  | .checkReceiver | .testPred | .push | .unlockAhead | .sleeping | .relock
  | .emplace | .unlockMatch | .notify _ => False

def ReceiverPc.Away : ReceiverPc Coro → Prop
  | .lockMatch | .awaitMatch | .unlockAcquire => True
  | .publish | .checkSender | .notify _ | .testPred | .push | .unlockAhead
  | .sleeping | .relock | .clearSender | .unlockMatch => False

/-- The sender has stored its element. -/
def SenderPc.delivered : SenderPc Coro → Bool
  | .unlockMatch | .notify _ | .unlockRelease => true
  | .lockMatch | .awaitMatch | .checkReceiver | .testPred | .push
  | .unlockAhead | .sleeping | .relock | .emplace => false

/-- What the sender delivers. -/
def Sending.load (sending : Sending Coro T) : Coro × T :=
  (sending.coro, sending.item)

def Sending.delivered (sending : Sending Coro T) : Bool :=
  sending.pc.delivered

/-- The coroutines on the lists of `m_match_cv`. -/
structure Asleep (cv : ConditionVariable Coro) (waiting : List Coro) :
    Prop where
  toResume : cv.toResume = []
  awaiting : cv.awaiting = waiting

/-- How far the sender and the receiver are, with `m_receiver`,
`m_has_sender`, `m_match_cv` and the local `item`s. -/
inductive Phase (slot : Option Coro) (hasSender : Bool)
    (cv : ConditionVariable Coro) (item : Coro → Option T) :
    Option (Sending Coro T) → Option (Receiving Coro) → Prop
  | apart {sender : Option (Sending Coro T)}
      {receiver : Option (Receiving Coro)} :
      (∀ x ∈ sender, x.pc.Away ∨ x.pc = .checkReceiver) →
      (∀ y ∈ receiver, y.pc.Away ∨ y.pc = .publish ∨ y.pc = .unlockMatch) →
      slot = none → hasSender = false → Asleep cv [] →
      Phase slot hasSender cv item sender receiver
  | senderWaits {x : Sending Coro T} {receiver : Option (Receiving Coro)} :
      ((x.pc = .testPred ∨ x.pc = .push) ∧ Asleep cv [] ∨
        (x.pc = .unlockAhead ∨ x.pc = .sleeping) ∧ Asleep cv [x.coro]) →
      (∀ y ∈ receiver, y.pc.Away ∨ y.pc = .publish) →
      slot = none → hasSender = true →
      Phase slot hasSender cv item (some x) receiver
  | senderFound {x : Sending Coro T} {y : Receiving Coro} :
      x.pc = .sleeping →
      ((y.pc = .checkSender ∨ y.pc = .notify .takeResume ∨
          y.pc = .notify .exchange) ∧ Asleep cv [x.coro] ∨
        (y.pc = .notify (.splice [x.coro]) ∨
          y.pc = .notify (.register x.coro)) ∧ Asleep cv []) →
      slot = some y.coro → hasSender = true → item y.coro = none →
      Phase slot hasSender cv item (some x) (some y)
  | senderNotified {x : Sending Coro T} {y : Receiving Coro} :
      x.pc = .relock →
      ((y.pc = .testPred ∨ y.pc = .push) ∧ Asleep cv [] ∨
        y.pc = .unlockAhead ∧ Asleep cv [y.coro]) →
      slot = some y.coro → hasSender = true → item y.coro = none →
      Phase slot hasSender cv item (some x) (some y)
  | receiverWaits {sender : Option (Sending Coro T)} {y : Receiving Coro} :
      (∀ x ∈ sender, x.pc.Away ∨ x.pc = .checkReceiver) →
      ((y.pc = .checkSender ∨ y.pc = .testPred ∨ y.pc = .push) ∧ Asleep cv [] ∨
        (y.pc = .unlockAhead ∨ y.pc = .sleeping) ∧ Asleep cv [y.coro]) →
      slot = some y.coro → hasSender = false → item y.coro = none →
      Phase slot hasSender cv item sender (some y)
  | delivering {x : Sending Coro T} {y : Receiving Coro} :
      x.pc = .testPred ∨ x.pc = .emplace → y.pc = .sleeping →
      Asleep cv [y.coro] → slot = some y.coro → item y.coro = none →
      Phase slot hasSender cv item (some x) (some y)
  | delivered {x : Sending Coro T} {y : Receiving Coro} :
      ((x.pc = .unlockMatch ∨ x.pc = .notify .takeResume ∨
          x.pc = .notify .exchange) ∧ Asleep cv [y.coro] ∨
        (x.pc = .notify (.splice [y.coro]) ∨
          x.pc = .notify (.register y.coro)) ∧ Asleep cv []) →
      y.pc = .sleeping → slot = none → item y.coro = some x.item →
      Phase slot hasSender cv item (some x) (some y)
  | taken {sender : Option (Sending Coro T)} {y : Receiving Coro} :
      (∀ x ∈ sender, x.pc.Away) →
      y.pc = .testPred ∨ y.pc = .clearSender → Asleep cv [] →
      slot = none → (item y.coro).isSome →
      Phase slot hasSender cv item sender (some y)

theorem Sending.party_granted (sender : Option (Sending Coro T)) :
    (sender.map Sending.granted).map Sending.party =
      Party.granted (sender.map Sending.party) := by
  rcases sender with _ | ⟨coro, item, pc⟩
  · rfl
  · cases pc <;> rfl

theorem Receiving.party_granted (receiver : Option (Receiving Coro)) :
    (receiver.map Receiving.granted).map Receiving.party =
      Party.granted (receiver.map Receiving.party) := by
  rcases receiver with _ | ⟨coro, receive, pc⟩
  · rfl
  · cases pc <;> rfl

/-- The owner of an outer mutex and the coroutines in line for it. -/
structure OuterSound (mutex : Mutex Coro) (owned : Bool)
    (waits : Coro → Prop) : Prop where
  locked : mutex.awaiting.isSome = owned
  free : mutex.awaiting = none → mutex.line = []
  nodup : mutex.line.Nodup
  mem_iff : ∀ coro, coro ∈ mutex.line ↔ waits coro

/-- The coroutines that are past an outer mutex and those in line for one. -/
structure Roster (releaseMtx acquireMtx : Mutex Coro)
    (pc : Coro → Pc Coro T) (sender : Option (Sending Coro T))
    (receiver : Option (Receiving Coro)) : Prop where
  senders : ∀ coro item inner,
    pc coro = .sender item inner ↔ sender = some ⟨coro, item, inner⟩
  receivers : ∀ coro receive inner,
    pc coro = .receiver receive inner ↔ receiver = some ⟨coro, receive, inner⟩
  release : OuterSound releaseMtx sender.isSome
    fun coro => ∃ item, pc coro = .awaitRelease item
  acquire : OuterSound acquireMtx receiver.isSome
    fun coro => ∃ receive, pc coro = .awaitAcquire receive
  defined : ∀ coro, pc coro ≠ .undefined

/-- What holds in every state, with the sender and the receiver that are past
their outer mutex. -/
structure Consistent (s : State Coro T) (sender : Option (Sending Coro T))
    (receiver : Option (Receiving Coro)) : Prop where
  roster : Roster s.releaseMtx s.acquireMtx s.pc sender receiver
  meeting : MatchSound s.matchMtx (sender.map Sending.party)
    (receiver.map Receiving.party)
  phase : Phase s.receiver s.hasSender s.matchCv s.item sender receiver
  /-- A receiver that has not published its `item` has none yet. -/
  fresh : ∀ y ∈ receiver, y.pc = .lockMatch ∨ y.pc = .awaitMatch ∨
    y.pc = .publish → s.item y.coro = none
  waiting : ∀ coro receive, s.pc coro = .awaitAcquire receive →
    s.item coro = none
  /-- A receiver leaves with an item. -/
  filled : ∀ y ∈ receiver, y.pc = .unlockMatch ∨ y.pc = .unlockAcquire →
    (s.item y.coro).isSome

theorem OuterSound.new {waits : Coro → Prop} (nobody : ∀ coro, ¬ waits coro) :
    OuterSound (Mutex.new Coro) false waits where
  locked := rfl
  free _ := rfl
  nodup := List.nodup_nil
  mem_iff coro := by
    simp [Sequential.Mutex.new, Sequential.Mutex.line, nobody coro]

theorem OuterSound.congr {mutex : Mutex Coro} {owned : Bool}
    {waits waits' : Coro → Prop} (sound : OuterSound mutex owned waits)
    (same : ∀ coro, waits coro ↔ waits' coro) :
    OuterSound mutex owned waits' :=
  ⟨sound.locked, sound.free, sound.nodup,
    fun coro => (sound.mem_iff coro).trans (same coro)⟩

theorem consistent_new : Consistent (State.new Coro T) none none where
  roster := {
    senders := by simp [State.new]
    receivers := by simp [State.new]
    release := .new (by simp [State.new])
    acquire := .new (by simp [State.new])
    defined := by simp [State.new] }
  meeting := ⟨rfl, fun _ => rfl, rfl, fun waits => absurd rfl waits,
    fun waits => absurd rfl waits⟩
  phase := .apart (by simp) (by simp) rfl rfl ⟨rfl, rfl⟩
  fresh := by simp
  waiting := by simp [State.new]
  filled := by simp

variable [DecidableEq Coro]

namespace Roster

variable {releaseMtx acquireMtx : Mutex Coro} {pc : Coro → Pc Coro T}
variable {sender : Option (Sending Coro T)}
variable {receiver : Option (Receiving Coro)}
variable {coro : Coro} {item : T} {receive : Receive}

/-- The sender moves. -/
theorem moveSender {inner : SenderPc Coro}
    (roster : Roster releaseMtx acquireMtx pc
      (some ⟨coro, item, inner⟩) receiver) (next : SenderPc Coro) :
    Roster releaseMtx acquireMtx
      (Function.update pc coro (.sender item next))
      (some ⟨coro, item, next⟩) receiver := by
  have position : pc coro = .sender item inner :=
    (roster.senders coro item inner).mpr rfl
  refine ⟨?_, ?_, roster.release.congr ?_, roster.acquire.congr ?_, ?_⟩
  · intro other otherItem otherPc
    by_cases isIt : other = coro
    · subst isIt
      simp
    · rw [Function.update_of_ne isIt, roster.senders]
      simp [Ne.symm isIt]
  · intro other otherReceive otherPc
    by_cases isIt : other = coro
    · subst isIt
      rw [Function.update_self, ← roster.receivers, position]
      simp
    · rw [Function.update_of_ne isIt]
      exact roster.receivers other otherReceive otherPc
  · intro other
    by_cases isIt : other = coro
    · subst isIt
      simp [position]
    · rw [Function.update_of_ne isIt]
  · intro other
    by_cases isIt : other = coro
    · subst isIt
      simp [position]
    · rw [Function.update_of_ne isIt]
  · intro other
    by_cases isIt : other = coro
    · subst isIt
      simp
    · rw [Function.update_of_ne isIt]
      exact roster.defined other

/-- The receiver moves. -/
theorem moveReceiver {inner : ReceiverPc Coro}
    (roster : Roster releaseMtx acquireMtx pc sender
      (some ⟨coro, receive, inner⟩)) (next : ReceiverPc Coro) :
    Roster releaseMtx acquireMtx
      (Function.update pc coro (.receiver receive next)) sender
      (some ⟨coro, receive, next⟩) := by
  have position : pc coro = .receiver receive inner :=
    (roster.receivers coro receive inner).mpr rfl
  refine ⟨?_, ?_, roster.release.congr ?_, roster.acquire.congr ?_, ?_⟩
  · intro other otherItem otherPc
    by_cases isIt : other = coro
    · subst isIt
      rw [Function.update_self, ← roster.senders, position]
      simp
    · rw [Function.update_of_ne isIt]
      exact roster.senders other otherItem otherPc
  · intro other otherReceive otherPc
    by_cases isIt : other = coro
    · subst isIt
      simp
    · rw [Function.update_of_ne isIt, roster.receivers]
      simp [Ne.symm isIt]
  · intro other
    by_cases isIt : other = coro
    · subst isIt
      simp [position]
    · rw [Function.update_of_ne isIt]
  · intro other
    by_cases isIt : other = coro
    · subst isIt
      simp [position]
    · rw [Function.update_of_ne isIt]
  · intro other
    by_cases isIt : other = coro
    · subst isIt
      simp
    · rw [Function.update_of_ne isIt]
      exact roster.defined other

omit [DecidableEq Coro] in
theorem sender_ne_receiver {x : Sending Coro T} {y : Receiving Coro}
    (roster : Roster releaseMtx acquireMtx pc (some x) (some y)) :
    x.coro ≠ y.coro := by
  intro same
  have sending := (roster.senders x.coro x.item x.pc).mpr rfl
  have receiving := (roster.receivers y.coro y.receive y.pc).mpr rfl
  rw [← same, sending] at receiving
  cases receiving

end Roster

/-- A coroutine that is not put in line for `m_acquire_mtx` was in line
before. -/
theorem awaiting_of_update {pc : Coro → Pc Coro T} {coro waiter : Coro}
    {position : Pc Coro T} {receive : Receive}
    (elsewhere : ∀ receive, position ≠ .awaitAcquire receive)
    (awaits : Function.update pc coro position waiter =
      .awaitAcquire receive) : pc waiter = .awaitAcquire receive := by
  by_cases isIt : waiter = coro
  · subst isIt
    rw [Function.update_self] at awaits
    exact absurd awaits (elsewhere receive)
  · rwa [Function.update_of_ne isIt] at awaits

namespace Consistent

variable {s s' : State Coro T} {sender : Option (Sending Coro T)}
variable {receiver : Option (Receiving Coro)}
variable {coro : Coro} {item : T} {receive : Receive}

omit [DecidableEq Coro] in
theorem place_ne_holds
    (notHolding : Party.holds (receiver.map Receiving.party) = false) :
    ∀ y ∈ receiver, y.pc.place ≠ .holds := by
  rintro y ⟨⟩ place
  simp [Receiving.party, place, Party.holds] at notHolding

omit [DecidableEq Coro] in
theorem sender_place_ne_holds
    (notHolding : Party.holds (sender.map Sending.party) = false) :
    ∀ x ∈ sender, x.pc.place ≠ .holds := by
  rintro x ⟨⟩ place
  simp [Sending.party, place, Party.holds] at notHolding

/-- The sender moves, and the `item`s stay as they are. -/
theorem stepSender {inner next : SenderPc Coro}
    (consistent : Consistent s (some ⟨coro, item, inner⟩) receiver)
    (pcEq : s'.pc = Function.update s.pc coro (.sender item next))
    (releaseEq : s'.releaseMtx = s.releaseMtx)
    (acquireEq : s'.acquireMtx = s.acquireMtx) (itemEq : s'.item = s.item)
    (meeting : MatchSound s'.matchMtx (some (coro, next.place))
      (receiver.map Receiving.party))
    (phase : Phase s'.receiver s'.hasSender s'.matchCv s.item
      (some ⟨coro, item, next⟩) receiver) :
    Consistent s' (some ⟨coro, item, next⟩) receiver := by
  refine ⟨?_, meeting, ?_, ?_, ?_, ?_⟩
  · rw [pcEq, releaseEq, acquireEq]
    exact consistent.roster.moveSender next
  · rw [itemEq]
    exact phase
  · rw [itemEq]
    exact consistent.fresh
  · intro other otherReceive position
    rw [itemEq]
    rw [pcEq] at position
    exact consistent.waiting other otherReceive
      (awaiting_of_update (by simp) position)
  · rw [itemEq]
    exact consistent.filled

/-- The receiver moves, and the `item`s stay as they are. -/
theorem stepReceiver {inner next : ReceiverPc Coro}
    (consistent : Consistent s sender (some ⟨coro, receive, inner⟩))
    (pcEq : s'.pc = Function.update s.pc coro (.receiver receive next))
    (releaseEq : s'.releaseMtx = s.releaseMtx)
    (acquireEq : s'.acquireMtx = s.acquireMtx) (itemEq : s'.item = s.item)
    (meeting : MatchSound s'.matchMtx (sender.map Sending.party)
      (some (coro, next.place)))
    (phase : Phase s'.receiver s'.hasSender s'.matchCv s.item sender
      (some ⟨coro, receive, next⟩))
    (fresh : next = .lockMatch ∨ next = .awaitMatch ∨ next = .publish →
      s.item coro = none)
    (filled : next = .unlockMatch ∨ next = .unlockAcquire →
      (s.item coro).isSome) :
    Consistent s' sender (some ⟨coro, receive, next⟩) := by
  refine ⟨?_, meeting, ?_, ?_, ?_, ?_⟩
  · rw [pcEq, releaseEq, acquireEq]
    exact consistent.roster.moveReceiver next
  · rw [itemEq]
    exact phase
  · rw [itemEq]
    rintro y ⟨⟩
    exact fresh
  · intro other otherReceive position
    rw [itemEq]
    rw [pcEq] at position
    exact consistent.waiting other otherReceive
      (awaiting_of_update (by simp) position)
  · rw [itemEq]
    rintro y ⟨⟩
    exact filled

/-- The sender unlocks `m_match_mtx`, which the receiver gets if it is in
line. -/
theorem senderUnlock {inner next : SenderPc Coro}
    (consistent : Consistent s (some ⟨coro, item, inner⟩) receiver)
    (holds : inner.place = .holds) (outside : next.place = .outside)
    (phase : Phase s.receiver s.hasSender s.matchCv s.item
      (some ⟨coro, item, next⟩) (receiver.map Receiving.granted)) :
    Consistent (s.unlockMatch coro (.sender item next))
      (some ⟨coro, item, next⟩) (receiver.map Receiving.granted) := by
  have meeting := consistent.meeting
  simp only [Option.map_some, Sending.party, holds] at meeting
  obtain ⟨left, unlocked, after⟩ := meeting.unlock
  have afterGranted : MatchSound left (some (coro, next.place))
      ((receiver.map Receiving.granted).map Receiving.party) := by
    rw [outside, Receiving.party_granted]
    exact after
  rw [State.unlockMatch, unlocked]
  by_cases waits : ∃ y ∈ receiver, y.pc.place = .inLine
  · obtain ⟨⟨other, receive, pc⟩, rfl, place⟩ := waits
    have position := (consistent.roster.receivers other receive pc).mpr rfl
    have isOther : other ≠ coro := consistent.roster.sender_ne_receiver.symm
    have resumed : (s.pc other).resumed = .receiver receive pc.granted := by
      rw [position]
      cases pc <;> first | rfl | simp [ReceiverPc.place] at place
    have lined : (Party.lined ((some (⟨other, receive, pc⟩ :
        Receiving Coro)).map Receiving.party)).head? = some other := by
      simp [Receiving.party, place, Party.lined]
    simp only [lined, State.coSpawnOption, State.coSpawn, State.setPc,
      Function.update_of_ne isOther, resumed]
    have moved := (consistent.roster.moveSender next).moveReceiver pc.granted
    refine ⟨moved, afterGranted, phase, ?_, ?_, ?_⟩
    · rintro y ⟨⟩ early
      apply consistent.fresh _ rfl
      cases pc <;> simp_all [ReceiverPc.place, Receiving.granted,
        ReceiverPc.granted]
    · intro waiter waiting awaits
      exact consistent.waiting waiter waiting
        (awaiting_of_update (by simp) (awaiting_of_update (by simp) awaits))
    · rintro y ⟨⟩ late
      apply consistent.filled _ rfl
      cases pc <;> simp_all [ReceiverPc.place, Receiving.granted,
        ReceiverPc.granted]
  · have same : receiver.map Receiving.granted = receiver := by
      rcases receiver with _ | ⟨other, receive, pc⟩
      · rfl
      · cases pc <;> first | rfl | exact absurd ⟨_, rfl, rfl⟩ waits
    have nobody : (Party.lined (receiver.map Receiving.party)).head? = none := by
      rcases receiver with _ | ⟨other, receive, pc⟩
      · rfl
      · cases pc <;> first | rfl | exact absurd ⟨_, rfl, rfl⟩ waits
    rw [same] at phase afterGranted ⊢
    rw [nobody]
    exact consistent.stepSender rfl rfl rfl rfl afterGranted phase

/-- The sender locks `m_match_mtx`. -/
theorem senderLockMatch
    (consistent : Consistent s (some ⟨coro, item, .lockMatch⟩) receiver) :
    ∃ next : SenderPc Coro, next.delivered = false ∧
      Consistent (s.lockMatch coro (.sender item .checkReceiver)
        (.sender item .awaitMatch)) (some ⟨coro, item, next⟩) receiver := by
  obtain ⟨registered, registerEq, meeting⟩ := consistent.meeting.register
  have phase := consistent.phase
  rw [State.lockMatch, registerEq]
  cases holds : Party.holds (receiver.map Receiving.party) with
  | true =>
      rw [holds] at meeting
      refine ⟨.awaitMatch, rfl, consistent.stepSender rfl rfl rfl rfl meeting ?_⟩
      cases phase with
      | apart away others slot flag asleep =>
          exact .apart (by simp [SenderPc.Away]) others slot flag asleep
      | receiverWaits away position slot flag empty =>
          exact .receiverWaits (by simp [SenderPc.Away]) position slot flag empty
      | taken away position asleep slot full =>
          exact .taken (by simp [SenderPc.Away]) position asleep slot full
      | _ => simp_all
  | false =>
      rw [holds] at meeting
      refine ⟨.checkReceiver, rfl, consistent.stepSender rfl rfl rfl rfl meeting ?_⟩
      cases phase with
      | apart away others slot flag asleep =>
          exact .apart (by simp) others slot flag asleep
      | receiverWaits away position slot flag empty =>
          exact .receiverWaits (by simp) position slot flag empty
      | taken away position asleep slot full =>
          -- The receiver holds the mutex in this phase.
          rcases position with position | position <;>
            simp [Receiving.party, position, ReceiverPc.place, Party.holds]
              at holds
      | _ => simp_all

/-- The sender finds no receiver, or one that sleeps. -/
theorem senderCheckReceiver
    (consistent : Consistent s (some ⟨coro, item, .checkReceiver⟩) receiver)
    (stepEq : s.runSender coro item .checkReceiver = some s') :
    ∃ next : SenderPc Coro, next.delivered = false ∧
      Consistent s' (some ⟨coro, item, next⟩) receiver := by
  have notHolding := place_ne_holds (consistent.meeting.alone rfl)
  have phase := consistent.phase
  rw [State.runSender] at stepEq
  by_cases empty : s.receiver = none
  · rw [if_pos empty, Option.some.injEq] at stepEq
    subst stepEq
    refine ⟨.testPred, rfl, consistent.stepSender rfl rfl rfl rfl
      (consistent.meeting.congr rfl rfl) ?_⟩
    cases phase with
    | apart away others slot flag asleep =>
        refine .senderWaits (Or.inl ⟨Or.inl rfl, asleep⟩) ?_ empty rfl
        intro y isReceiver
        rcases others y isReceiver with away | publish | unlock
        · exact Or.inl away
        · exact Or.inr publish
        · exact absurd (by rw [unlock]; rfl) (notHolding y isReceiver)
    | _ => simp_all [SenderPc.Away]
  · rw [if_neg empty, Option.some.injEq] at stepEq
    subst stepEq
    refine ⟨.emplace, rfl, consistent.stepSender rfl rfl rfl rfl
      (consistent.meeting.congr rfl rfl) ?_⟩
    cases phase with
    | receiverWaits away position slot flag noItem =>
        have notHeld := notHolding _ rfl
        rcases position with ⟨position | position | position, asleep⟩ |
          ⟨position | position, asleep⟩
        · exact absurd (by rw [position]; rfl) notHeld
        · exact absurd (by rw [position]; rfl) notHeld
        · exact absurd (by rw [position]; rfl) notHeld
        · exact absurd (by rw [position]; rfl) notHeld
        · exact .delivering (Or.inr rfl) position asleep slot noItem
    | _ => simp_all

/-- The sender waits, or it was woken by a receiver. -/
theorem senderTestPred
    (consistent : Consistent s (some ⟨coro, item, .testPred⟩) receiver)
    (stepEq : s.runSender coro item .testPred = some s') :
    ∃ next : SenderPc Coro, next.delivered = false ∧
      Consistent s' (some ⟨coro, item, next⟩) receiver := by
  have phase := consistent.phase
  rw [State.runSender] at stepEq
  by_cases found : s.receiver ≠ none
  · rw [if_pos found, Option.some.injEq] at stepEq
    subst stepEq
    refine ⟨.emplace, rfl, consistent.stepSender rfl rfl rfl rfl
      (consistent.meeting.congr rfl rfl) ?_⟩
    cases phase with
    | delivering position sleeping asleep slot noItem =>
        exact .delivering (Or.inr rfl) sleeping asleep slot noItem
    | _ => simp_all [SenderPc.Away]
  · rw [if_neg found, Option.some.injEq] at stepEq
    subst stepEq
    refine ⟨.push, rfl, consistent.stepSender rfl rfl rfl rfl
      (consistent.meeting.congr rfl rfl) ?_⟩
    cases phase with
    | senderWaits position others slot flag =>
        have asleep : Asleep s.matchCv [] := by simpa using position
        exact .senderWaits (Or.inl ⟨Or.inr rfl, asleep⟩) others slot flag
    | _ => simp_all [SenderPc.Away]

theorem senderPush
    (consistent : Consistent s (some ⟨coro, item, .push⟩) receiver)
    (stepEq : s.runSender coro item .push = some s') :
    Consistent s' (some ⟨coro, item, .unlockAhead⟩) receiver := by
  have phase := consistent.phase
  rw [State.runSender, Option.some.injEq] at stepEq
  subst stepEq
  refine consistent.stepSender rfl rfl rfl rfl
    (consistent.meeting.congr rfl rfl) ?_
  cases phase with
  | senderWaits position others slot flag =>
      have asleep : Asleep s.matchCv [] := by simpa using position
      refine .senderWaits (Or.inr ⟨Or.inl rfl, asleep.toResume, ?_⟩) others
        slot flag
      rw [ConditionVariable.push, asleep.awaiting]
  | _ => simp_all [SenderPc.Away]

theorem senderUnlockAhead
    (consistent : Consistent s (some ⟨coro, item, .unlockAhead⟩) receiver) :
    Consistent (s.unlockMatch coro (.sender item .sleeping))
      (some ⟨coro, item, .sleeping⟩) (receiver.map Receiving.granted) := by
  apply consistent.senderUnlock rfl rfl
  cases consistent.phase with
  | senderWaits position others slot flag =>
      have asleep : Asleep s.matchCv [coro] := by simpa using position
      refine .senderWaits (Or.inr ⟨Or.inr rfl, asleep⟩) ?_ slot flag
      rcases receiver with _ | ⟨other, receive, pc⟩
      · simp
      · have before := others _ rfl
        rintro y ⟨⟩
        cases pc <;>
          simp_all [Receiving.granted, ReceiverPc.granted, ReceiverPc.Away]
  | _ => simp_all [SenderPc.Away]

/-- The sender stores its element in the `item` of a sleeping receiver. -/
theorem senderEmplace
    (consistent : Consistent s (some ⟨coro, item, .emplace⟩) receiver)
    (stepEq : s.runSender coro item .emplace = some s') :
    Consistent s' (some ⟨coro, item, .unlockMatch⟩) receiver := by
  have roster := consistent.roster
  cases consistent.phase with
  | @delivering _ y position sleeping asleep slot noItem =>
      obtain ⟨other, receive, pc⟩ := y
      simp only at sleeping asleep slot noItem
      simp only [State.runSender, slot, Option.some.injEq] at stepEq
      subst stepEq sleeping
      have isReceiver := (roster.receivers other receive .sleeping).mpr rfl
      refine ⟨roster.moveSender .unlockMatch, consistent.meeting.congr rfl rfl,
        ?_, ?_, ?_, ?_⟩
      · exact .delivered (Or.inl ⟨Or.inl rfl, asleep⟩) rfl rfl
          (Function.update_self ..)
      · rintro y ⟨⟩
        simp
      · intro waiter waiting awaits
        have awaited := awaiting_of_update (by simp) awaits
        have isOther : waiter ≠ other := by
          rintro rfl
          rw [isReceiver] at awaited
          cases awaited
        change Function.update s.item other (some item) waiter = none
        rw [Function.update_of_ne isOther]
        exact consistent.waiting waiter waiting awaited
      · rintro y ⟨⟩
        simp
  | _ => simp_all [SenderPc.Away]

theorem senderUnlockMatch
    (consistent : Consistent s (some ⟨coro, item, .unlockMatch⟩) receiver) :
    Consistent (s.unlockMatch coro (.sender item (.notify .takeResume)))
      (some ⟨coro, item, .notify .takeResume⟩)
      (receiver.map Receiving.granted) := by
  apply consistent.senderUnlock rfl rfl
  cases consistent.phase with
  | @delivered _ y position sleeping slot full =>
      have asleep : Asleep s.matchCv [y.coro] := by simpa using position
      have same : Receiving.granted y = y := by
        rw [Receiving.granted, sleeping]
        cases y
        simp_all [ReceiverPc.granted]
      rw [Option.map_some, same]
      exact .delivered (Or.inl ⟨Or.inr (Or.inl rfl), asleep⟩) sleeping slot full
  | _ => simp_all [SenderPc.Away]

/-- The sender notifies the receiver that has its element. -/
theorem senderNotify {pc : NotifyPc Coro}
    (consistent : Consistent s (some ⟨coro, item, .notify pc⟩) receiver) :
    ∃ (next : SenderPc Coro) (after : Option (Receiving Coro)),
      next.delivered = true ∧
      after.map Receiving.coro = receiver.map Receiving.coro ∧
      Consistent (s.notify coro (fun pc => .sender item (.notify pc))
        (.sender item .unlockRelease) pc) (some ⟨coro, item, next⟩) after := by
  cases consistent.phase with
  | @delivered _ y position sleeping slot full =>
      simp only [reduceCtorEq, false_or, SenderPc.notify.injEq] at position
      rcases position with ⟨rfl | rfl, asleep⟩ | ⟨rfl | rfl, asleep⟩
      · refine ⟨.notify .exchange, some y, rfl, rfl, ?_⟩
        simp only [State.notify, asleep.toResume]
        exact consistent.stepSender rfl rfl rfl rfl
          (consistent.meeting.congr rfl rfl)
          (.delivered (Or.inl ⟨Or.inr (Or.inr rfl), asleep⟩) sleeping slot full)
      · refine ⟨.notify (.splice [y.coro]), some y, rfl, rfl, ?_⟩
        simp only [State.notify, asleep.awaiting, List.reverse_singleton]
        exact consistent.stepSender rfl rfl rfl rfl
          (consistent.meeting.congr rfl rfl)
          (.delivered (Or.inr ⟨Or.inl rfl, asleep.toResume, rfl⟩) sleeping slot
            full)
      · refine ⟨.notify (.register y.coro), some y, rfl, rfl, ?_⟩
        simp only [State.notify, asleep.toResume, List.nil_append]
        exact consistent.stepSender rfl rfl rfl rfl
          (consistent.meeting.congr rfl rfl)
          (.delivered (Or.inr ⟨Or.inr rfl, rfl, asleep.awaiting⟩) sleeping slot
            full)
      · obtain ⟨other, receive, pc⟩ := y
        simp only at sleeping asleep slot full
        subst sleeping
        have position :=
          (consistent.roster.receivers other receive .sleeping).mpr rfl
        have isOther : other ≠ coro :=
          consistent.roster.sender_ne_receiver.symm
        have hasItem : (s.item other).isSome := by rw [full]; rfl
        obtain ⟨registered, registerEq, meeting⟩ :=
          consistent.meeting.swap.register
        have acquired : s.matchMtx.registerAwaiting other =
          (false, registered) := registerEq
        simp only [State.notify, acquired]
        have moved := (consistent.roster.moveSender
          .unlockRelease).moveReceiver .testPred
        refine ⟨.unlockRelease, some ⟨other, receive, .testPred⟩, rfl, rfl, ?_⟩
        simp only [State.coSpawn, State.setPc, Function.update_of_ne isOther,
          position]
        refine ⟨moved, meeting.swap, ?_, by simp, ?_, by simp⟩
        · exact .taken (by simp [SenderPc.Away]) (Or.inl rfl) asleep slot
            hasItem
        · intro waiter waiting awaits
          exact consistent.waiting waiter waiting
            (awaiting_of_update (by simp)
              (awaiting_of_update (by simp [Pc.resumed]) awaits))
  | _ => simp_all [SenderPc.Away]

/-- The receiver unlocks `m_match_mtx`, which the sender gets if it is in
line. -/
theorem receiverUnlock {inner next : ReceiverPc Coro}
    (consistent : Consistent s sender (some ⟨coro, receive, inner⟩))
    (holds : inner.place = .holds) (outside : next.place = .outside)
    (phase : Phase s.receiver s.hasSender s.matchCv s.item
      (sender.map Sending.granted) (some ⟨coro, receive, next⟩))
    (fresh : next ≠ .lockMatch)
    (filled : next = .unlockAcquire → (s.item coro).isSome) :
    Consistent (s.unlockMatch coro (.receiver receive next))
      (sender.map Sending.granted) (some ⟨coro, receive, next⟩) := by
  have meeting := consistent.meeting.swap
  simp only [Option.map_some, Receiving.party, holds] at meeting
  obtain ⟨left, unlocked, after⟩ := meeting.unlock
  have afterGranted : MatchSound left
      ((sender.map Sending.granted).map Sending.party)
      (some (coro, next.place)) := by
    rw [outside, Sending.party_granted]
    exact after.swap
  have early : ¬ (next = .lockMatch ∨ next = .awaitMatch ∨
      next = .publish) := by
    cases next <;> simp_all [ReceiverPc.place]
  have late : next = .unlockMatch ∨ next = .unlockAcquire →
      (s.item coro).isSome := by
    rintro (rfl | isLast)
    · simp [ReceiverPc.place] at outside
    · exact filled isLast
  rw [State.unlockMatch, unlocked]
  by_cases waits : ∃ x ∈ sender, x.pc.place = .inLine
  · obtain ⟨⟨other, item, pc⟩, rfl, place⟩ := waits
    have position := (consistent.roster.senders other item pc).mpr rfl
    have isOther : other ≠ coro := consistent.roster.sender_ne_receiver
    have resumed : (s.pc other).resumed = .sender item pc.granted := by
      rw [position]
      cases pc <;> first | rfl | simp [SenderPc.place] at place
    have lined : (Party.lined ((some (⟨other, item, pc⟩ :
        Sending Coro T)).map Sending.party)).head? = some other := by
      simp [Sending.party, place, Party.lined]
    simp only [lined, State.coSpawnOption, State.coSpawn, State.setPc,
      Function.update_of_ne isOther, resumed]
    have moved := (consistent.roster.moveReceiver next).moveSender pc.granted
    refine ⟨moved, afterGranted, phase, ?_, ?_, ?_⟩
    · rintro y ⟨⟩ isEarly
      exact absurd isEarly early
    · intro waiter waiting awaits
      exact consistent.waiting waiter waiting
        (awaiting_of_update (by simp) (awaiting_of_update (by simp) awaits))
    · rintro y ⟨⟩
      exact late
  · have same : sender.map Sending.granted = sender := by
      rcases sender with _ | ⟨other, item, pc⟩
      · rfl
      · cases pc <;> first | rfl | exact absurd ⟨_, rfl, rfl⟩ waits
    have nobody : (Party.lined (sender.map Sending.party)).head? = none := by
      rcases sender with _ | ⟨other, item, pc⟩
      · rfl
      · cases pc <;> first | rfl | exact absurd ⟨_, rfl, rfl⟩ waits
    rw [same] at phase afterGranted ⊢
    rw [nobody]
    exact consistent.stepReceiver rfl rfl rfl rfl afterGranted phase
      (fun isEarly => absurd isEarly early) late

/-- The receiver locks `m_match_mtx`. -/
theorem receiverLockMatch
    (consistent : Consistent s sender (some ⟨coro, receive, .lockMatch⟩)) :
    ∃ next, Consistent (s.lockMatch coro (.receiver receive .publish)
      (.receiver receive .awaitMatch)) sender (some ⟨coro, receive, next⟩) := by
  obtain ⟨registered, registerEq, meeting⟩ := consistent.meeting.swap.register
  have noItem := consistent.fresh _ rfl (Or.inl rfl)
  rw [State.lockMatch, registerEq]
  cases holds : Party.holds (sender.map Sending.party) with
  | true =>
      rw [holds] at meeting
      refine ⟨.awaitMatch, consistent.stepReceiver rfl rfl rfl rfl meeting.swap
        ?_ (fun _ => noItem) (by simp)⟩
      cases consistent.phase with
      | apart others away slot flag asleep =>
          exact .apart others (by simp [ReceiverPc.Away]) slot flag asleep
      | senderWaits position away slot flag =>
          exact .senderWaits position (by simp [ReceiverPc.Away]) slot flag
      | _ => simp_all
  | false =>
      rw [holds] at meeting
      refine ⟨.publish, consistent.stepReceiver rfl rfl rfl rfl meeting.swap
        ?_ (fun _ => noItem) (by simp)⟩
      cases consistent.phase with
      | apart others away slot flag asleep =>
          exact .apart others (by simp) slot flag asleep
      | senderWaits position away slot flag =>
          exact .senderWaits position (by simp) slot flag
      | _ => simp_all

/-- The receiver publishes its `item`, for a sender that sleeps or that is
still to come. -/
theorem receiverPublish
    (consistent : Consistent s sender (some ⟨coro, receive, .publish⟩))
    (stepEq : s.runReceiver coro receive .publish = some s') :
    Consistent s' sender (some ⟨coro, receive, .checkSender⟩) := by
  have notHolding := sender_place_ne_holds (consistent.meeting.swap.alone rfl)
  have noItem := consistent.fresh _ rfl (Or.inr (Or.inr rfl))
  rw [State.runReceiver, Option.some.injEq] at stepEq
  subst stepEq
  refine consistent.stepReceiver rfl rfl rfl rfl
    (consistent.meeting.swap.congr rfl rfl).swap ?_ (by simp) (by simp)
  cases consistent.phase with
  | apart others away slot flag asleep =>
      exact .receiverWaits others (Or.inl ⟨Or.inl rfl, asleep⟩) rfl flag noItem
  | senderWaits position away slot flag =>
      have notHeld := notHolding _ rfl
      rcases position with ⟨position | position, asleep⟩ |
        ⟨position | position, asleep⟩
      · exact absurd (by rw [position]; rfl) notHeld
      · exact absurd (by rw [position]; rfl) notHeld
      · exact absurd (by rw [position]; rfl) notHeld
      · exact .senderFound position (Or.inl ⟨Or.inl rfl, asleep⟩) rfl flag
          noItem
  | _ => simp_all

/-- The receiver notifies a sender that sleeps. -/
theorem receiverCheckSender
    (consistent : Consistent s sender (some ⟨coro, receive, .checkSender⟩))
    (stepEq : s.runReceiver coro receive .checkSender = some s') :
    ∃ next, Consistent s' sender (some ⟨coro, receive, next⟩) := by
  rw [State.runReceiver] at stepEq
  have meeting := consistent.meeting.swap
  cases consistent.phase with
  | @senderFound x _ sleeping position slot flag noItem =>
      have asleep : Asleep s.matchCv [x.coro] := by simpa using position
      rw [if_pos flag, Option.some.injEq] at stepEq
      subst stepEq
      exact ⟨.notify .takeResume, consistent.stepReceiver rfl rfl rfl rfl
        (meeting.congr rfl rfl).swap
        (.senderFound sleeping (Or.inl ⟨Or.inr (Or.inl rfl), asleep⟩) slot flag
          noItem) (by simp) (by simp)⟩
  | receiverWaits others position slot flag noItem =>
      have asleep : Asleep s.matchCv [] := by simpa using position
      rw [flag, if_neg Bool.false_ne_true, Option.some.injEq] at stepEq
      subst stepEq
      exact ⟨.testPred, consistent.stepReceiver rfl rfl rfl rfl
        (meeting.congr rfl rfl).swap
        (.receiverWaits others (Or.inl ⟨Or.inr (Or.inl rfl), asleep⟩) slot flag
          noItem) (by simp) (by simp)⟩
  | _ => simp_all [ReceiverPc.Away]

/-- The receiver notifies the sleeping sender, which joins the line behind
it. -/
theorem receiverNotify {pc : NotifyPc Coro}
    (consistent : Consistent s sender (some ⟨coro, receive, .notify pc⟩)) :
    ∃ (before : Option (Sending Coro T)) (next : ReceiverPc Coro),
      before.map Sending.load = sender.map Sending.load ∧
      before.map Sending.delivered = sender.map Sending.delivered ∧
      Consistent (s.notify coro (fun pc => .receiver receive (.notify pc))
        (.receiver receive .testPred) pc) before
        (some ⟨coro, receive, next⟩) := by
  have meeting := consistent.meeting.swap
  cases consistent.phase with
  | @senderFound x _ sleeping position slot flag noItem =>
      simp only [reduceCtorEq, false_or, ReceiverPc.notify.injEq] at position
      rcases position with ⟨rfl | rfl, asleep⟩ | ⟨rfl | rfl, asleep⟩
      · refine ⟨some x, .notify .exchange, rfl, rfl, ?_⟩
        simp only [State.notify, asleep.toResume]
        exact consistent.stepReceiver rfl rfl rfl rfl
          (meeting.congr rfl rfl).swap
          (.senderFound sleeping (Or.inl ⟨Or.inr (Or.inr rfl), asleep⟩) slot
            flag noItem) (by simp) (by simp)
      · refine ⟨some x, .notify (.splice [x.coro]), rfl, rfl, ?_⟩
        simp only [State.notify, asleep.awaiting, List.reverse_singleton]
        exact consistent.stepReceiver rfl rfl rfl rfl
          (meeting.congr rfl rfl).swap
          (.senderFound sleeping (Or.inr ⟨Or.inl rfl, asleep.toResume, rfl⟩)
            slot flag noItem) (by simp) (by simp)
      · refine ⟨some x, .notify (.register x.coro), rfl, rfl, ?_⟩
        simp only [State.notify, asleep.toResume, List.nil_append]
        exact consistent.stepReceiver rfl rfl rfl rfl
          (meeting.congr rfl rfl).swap
          (.senderFound sleeping (Or.inr ⟨Or.inr rfl, rfl, asleep.awaiting⟩)
            slot flag noItem) (by simp) (by simp)
      · obtain ⟨other, item, pc⟩ := x
        simp only at sleeping asleep slot
        subst sleeping
        have position := (consistent.roster.senders other item .sleeping).mpr rfl
        have isOther : other ≠ coro := consistent.roster.sender_ne_receiver
        obtain ⟨registered, registerEq, after⟩ := consistent.meeting.register
        have joined : s.matchMtx.registerAwaiting other =
          (true, registered) := registerEq
        simp only [State.notify, joined]
        have moved :=
          (consistent.roster.moveReceiver .testPred).moveSender .relock
        refine ⟨some ⟨other, item, .relock⟩, .testPred, rfl, rfl, ?_⟩
        simp only [State.setPc, position]
        refine ⟨moved, after.swap.congr rfl rfl |>.swap, ?_, by simp, ?_,
          by simp⟩
        · exact .senderNotified rfl (Or.inl ⟨Or.inl rfl, asleep⟩) slot flag
            noItem
        · intro waiter waiting awaits
          exact consistent.waiting waiter waiting
            (awaiting_of_update (by simp)
              (awaiting_of_update (by simp [Pc.relocking]) awaits))
  | _ => simp_all [ReceiverPc.Away]

/-- The receiver waits until it has an element. -/
theorem receiverTestPred
    (consistent : Consistent s sender (some ⟨coro, receive, .testPred⟩))
    (stepEq : s.runReceiver coro receive .testPred = some s') :
    ∃ next, Consistent s' sender (some ⟨coro, receive, next⟩) := by
  rw [State.runReceiver] at stepEq
  have meeting := (consistent.meeting.swap.congr rfl rfl).swap
  cases consistent.phase with
  | senderNotified relock position slot flag noItem =>
      have asleep : Asleep s.matchCv [] := by simpa using position
      rw [noItem, if_neg (by simp), Option.some.injEq] at stepEq
      subst stepEq
      exact ⟨.push, consistent.stepReceiver rfl rfl rfl rfl meeting
        (.senderNotified relock (Or.inl ⟨Or.inr rfl, asleep⟩) slot flag noItem)
        (by simp) (by simp)⟩
  | receiverWaits others position slot flag noItem =>
      have asleep : Asleep s.matchCv [] := by simpa using position
      rw [noItem, if_neg (by simp), Option.some.injEq] at stepEq
      subst stepEq
      exact ⟨.push, consistent.stepReceiver rfl rfl rfl rfl meeting
        (.receiverWaits others (Or.inl ⟨Or.inr (Or.inr rfl), asleep⟩) slot flag
          noItem) (by simp) (by simp)⟩
  | taken others position asleep slot full =>
      rw [if_pos full, Option.some.injEq] at stepEq
      subst stepEq
      exact ⟨.clearSender, consistent.stepReceiver rfl rfl rfl rfl meeting
        (.taken others (Or.inr rfl) asleep slot full) (by simp) (by simp)⟩
  | _ => simp_all [ReceiverPc.Away]

theorem receiverPush
    (consistent : Consistent s sender (some ⟨coro, receive, .push⟩))
    (stepEq : s.runReceiver coro receive .push = some s') :
    Consistent s' sender (some ⟨coro, receive, .unlockAhead⟩) := by
  rw [State.runReceiver, Option.some.injEq] at stepEq
  subst stepEq
  refine consistent.stepReceiver rfl rfl rfl rfl
    (consistent.meeting.swap.congr rfl rfl).swap ?_ (by simp) (by simp)
  cases consistent.phase with
  | senderNotified relock position slot flag noItem =>
      have asleep : Asleep s.matchCv [] := by simpa using position
      have pushed : Asleep (s.matchCv.push coro) [coro] :=
        ⟨asleep.toResume, by rw [ConditionVariable.push, asleep.awaiting]⟩
      exact .senderNotified relock (Or.inr ⟨rfl, pushed⟩) slot flag noItem
  | receiverWaits others position slot flag noItem =>
      have asleep : Asleep s.matchCv [] := by simpa using position
      have pushed : Asleep (s.matchCv.push coro) [coro] :=
        ⟨asleep.toResume, by rw [ConditionVariable.push, asleep.awaiting]⟩
      exact .receiverWaits others (Or.inr ⟨Or.inl rfl, pushed⟩) slot flag noItem
  | _ => simp_all [ReceiverPc.Away]

theorem receiverUnlockAhead
    (consistent : Consistent s sender (some ⟨coro, receive, .unlockAhead⟩)) :
    Consistent (s.unlockMatch coro (.receiver receive .sleeping))
      (sender.map Sending.granted) (some ⟨coro, receive, .sleeping⟩) := by
  refine consistent.receiverUnlock rfl rfl ?_ (by simp) (by simp)
  cases consistent.phase with
  | @senderNotified x _ relock position slot flag noItem =>
      have asleep : Asleep s.matchCv [coro] := by simpa using position
      refine .delivering (Or.inl ?_) rfl asleep slot noItem
      rw [Sending.granted, relock]
      rfl
  | receiverWaits others position slot flag noItem =>
      have asleep : Asleep s.matchCv [coro] := by simpa using position
      refine .receiverWaits ?_ (Or.inr ⟨Or.inr rfl, asleep⟩) slot flag noItem
      rcases sender with _ | ⟨other, item, pc⟩
      · simp
      · have before := others _ rfl
        rintro x ⟨⟩
        cases pc <;> simp_all [Sending.granted, SenderPc.granted, SenderPc.Away]
  | _ => simp_all [ReceiverPc.Away]

/-- The receiver clears `m_has_sender` while no sender is inside. -/
theorem receiverClearSender
    (consistent : Consistent s sender (some ⟨coro, receive, .clearSender⟩))
    (stepEq : s.runReceiver coro receive .clearSender = some s') :
    Consistent s' sender (some ⟨coro, receive, .unlockMatch⟩) := by
  rw [State.runReceiver, Option.some.injEq] at stepEq
  subst stepEq
  have meeting := (consistent.meeting.swap.congr rfl rfl).swap
  cases consistent.phase with
  | taken others position asleep slot full =>
      exact consistent.stepReceiver rfl rfl rfl rfl meeting
        (.apart (fun x isSender => Or.inl (others x isSender)) (by simp) slot
          rfl asleep) (by simp) (fun _ => full)
  | _ => simp_all [ReceiverPc.Away]

theorem receiverUnlockMatch
    (consistent : Consistent s sender (some ⟨coro, receive, .unlockMatch⟩)) :
    Consistent (s.unlockMatch coro (.receiver receive .unlockAcquire))
      (sender.map Sending.granted) (some ⟨coro, receive, .unlockAcquire⟩) := by
  have full := consistent.filled _ rfl (Or.inl rfl)
  refine consistent.receiverUnlock rfl rfl ?_ (by simp) (fun _ => full)
  cases consistent.phase with
  | apart others away slot flag asleep =>
      refine .apart ?_ (by simp [ReceiverPc.Away]) slot flag asleep
      rcases sender with _ | ⟨other, item, pc⟩
      · simp
      · have before := others _ rfl
        rintro x ⟨⟩
        cases pc <;> simp_all [Sending.granted, SenderPc.granted, SenderPc.Away]
  | _ => simp_all [ReceiverPc.Away]

end Consistent

end CoContext.Rendezvous
