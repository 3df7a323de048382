import CoContext.CountingSemaphore
import CoContext.Placement
import CoContext.Population

/-!
# The invariant of the counting semaphore

A reachable state represents a placement of the suspended acquirers: on the
stack `awaiting`, on the list that the section under `notifier_mtx` reverses,
on `to_resume`, and popped by a `release` that did not spawn them yet.  The
debt recorded in the counter together with the releases still searching for a
waiter equals the acquirers on their way to the stack together with those in
the lists.  A search can therefore only fail while an acquirer is on its way.
-/

namespace CoContext.CountingSemaphore

variable {Coro : Type*}

/-- The queues of suspended acquirers. -/
inductive Place (Coro : Type*)
  | awaiting
  | searching
  | toResume
  | popped (releaser : Coro)
  deriving DecidableEq

abbrev Waiters (Coro : Type*) := Placement (Place Coro) Coro

/-- The acquirers in the lists, oldest first. -/
def line (waiters : Waiters Coro) : List Coro :=
  waiters.queue .searching ++ waiters.queue .toResume ++
    waiters.queue .awaiting

/-- A `release` observed a negative counter and has not popped a waiter. -/
def Pc.Searching : Pc Coro → Prop
  | .releaseLock | .readToResume | .exchangeAwaiting | .reverse ..
  | .popResumeHead _ => True
  | _ => False

/-- The coroutine is in the section protected by `notifier_mtx`. -/
def Pc.InSection : Pc Coro → Prop
  | .readToResume | .exchangeAwaiting | .reverse .. | .popResumeHead _
  | .releaseUnlock _ => True
  | _ => False

/-- The coroutine runs outside the section and has popped nobody; it only
takes a permit that it saw. -/
def Pc.Outside : Pc Coro → Prop
  | .idle | .acquireFetchSub | .suspendLoad | .suspendExchange _
  | .tryAcquireLoad | .releaseFetchAdd | .releaseLock => True
  | .tryAcquireExchange oldCounter => 0 < oldCounter
  | _ => False

/-- `try_release` found a waiter and `try_acquire` saw a permit. -/
def Pc.Sound : Pc Coro → Prop
  | .releaseUnlock none | .releaseSpawn none | .nullDereference => False
  | .tryAcquireExchange oldCounter => 0 < oldCounter
  | _ => True

/-- The waiter that a `release` popped and will spawn. -/
def Pc.popped : Pc Coro → Option Coro
  | .releaseUnlock awakenAwaiter | .releaseSpawn awakenAwaiter => awakenAwaiter
  | _ => none

namespace Pc.Outside

variable {pc : Pc Coro}

theorem not_inSection (outside : pc.Outside) : ¬ pc.InSection := by
  cases pc <;> first | exact outside.elim | exact id

theorem sound (outside : pc.Outside) : pc.Sound := by
  cases pc <;> first | exact outside.elim | exact outside

theorem popped_eq (outside : pc.Outside) : pc.popped = none := by
  cases pc <;> first | exact outside.elim | rfl

end Pc.Outside

/-- How the position of the section describes the list it reverses. -/
def SearchQueue (next : Coro → Option Coro) (waiters : Waiters Coro) :
    Pc Coro → Prop
  | .exchangeAwaiting =>
      waiters.queue .searching = [] ∧ waiters.queue .toResume = []
  | .reverse node resumeHead =>
      waiters.queue .toResume = [] ∧
        ∃ remaining done,
          waiters.queue .searching = remaining.reverse ++ done ∧
            Chain next (some node) remaining ∧ Chain next resumeHead done
  | .popResumeHead resumeHead =>
      (waiters.queue .searching = [] ∨ waiters.queue .toResume = []) ∧
        resumeHead ≠ none ∧
        Chain next resumeHead
          (waiters.queue .searching ++ waiters.queue .toResume)
  | .assertFailed => False
  | _ => waiters.queue .searching = []

/-- The list that is reversed belongs to the holder of `notifier_mtx`. -/
def HolderQueue (s : State Coro) (waiters : Waiters Coro) :
    Option Coro → Prop
  | none => waiters.queue .searching = []
  | some holder => SearchQueue s.next waiters (s.pc holder)

/-- What a position adds to the searching releases less the acquirers on
their way to the stack. -/
def Pc.weight : Pc Coro → Int
  | .releaseLock | .readToResume | .exchangeAwaiting | .reverse ..
  | .popResumeHead _ => 1
  | .suspendLoad | .suspendExchange _ => -1
  | _ => 0

open Classical in
theorem Pc.weight_eq (pc : Pc Coro) :
    pc.weight = ((if pc.Searching then 1 else 0 : Nat) : Int) -
      ((if pc.InWindow then 1 else 0 : Nat) : Int) := by
  cases pc <;> simp [Pc.weight, Pc.Searching, Pc.InWindow]

/-- A state represents a placement of the suspended acquirers. -/
structure Represents (s : State Coro) (waiters : Waiters Coro)
    (holder : Option Coro) : Prop where
  awaiting_chain : Chain s.next s.awaiting (waiters.queue .awaiting).reverse
  toResume_chain : Chain s.next s.toResume (waiters.queue .toResume)
  holder_queue : HolderQueue s waiters holder
  popped_queue : ∀ releaser,
    waiters.queue (.popped releaser) = (s.pc releaser).popped.toList
  section_iff : ∀ coro, (s.pc coro).InSection ↔ holder = some coro
  occupied : s.occupied = holder.isSome
  suspended_iff : ∀ coro, s.Suspended coro ↔ waiters.Holds coro
  ready_le_one : ∀ coro, s.ready coro ≤ 1
  ready_waiting : ∀ coro, 0 < s.ready coro → s.pc coro = .waiting
  sound : ∀ coro, (s.pc coro).Sound

/-- The debt and the searching releases balance the acquirers on their way to
the stack and in the lists. -/
def Balanced (s : State Coro) (waiters : Waiters Coro) : Prop :=
  ∃ (window : Population Pc.InWindow s.pc)
    (searching : Population Pc.Searching s.pc),
    max 0 (-s.counter.toInt) + searching.size =
      window.size + (line waiters).length

/-- The balance after a step that moves one coroutine. -/
theorem Balanced.move [DecidableEq Coro] {s s' : State Coro}
    {waiters waiters' : Waiters Coro} {coro : Coro} {pc : Pc Coro}
    (balanced : Balanced s waiters)
    (pcEq : s'.pc = Function.update s.pc coro pc)
    (change : max 0 (-s'.counter.toInt) + pc.weight + (line waiters).length =
      max 0 (-s.counter.toInt) + (s.pc coro).weight + (line waiters').length) :
    Balanced s' waiters' := by
  obtain ⟨window, searching, balance⟩ := balanced
  rw [Balanced, pcEq]
  refine ⟨window.move coro pc, searching.move coro pc, ?_⟩
  have windowSize := window.size_move coro pc
  have searchingSize := searching.size_move coro pc
  rw [Pc.weight_eq, Pc.weight_eq] at change
  omega

theorem represents_new (desired : Int64) :
    Represents (State.new Coro desired) Placement.empty none where
  awaiting_chain := rfl
  toResume_chain := rfl
  holder_queue := rfl
  popped_queue _ := rfl
  section_iff _ := by simp [State.new, Pc.InSection]
  occupied := rfl
  suspended_iff coro := by simp [State.Suspended, State.new]
  ready_le_one _ := Nat.zero_le 1
  ready_waiting _ isReady := absurd isReady (Nat.lt_irrefl 0)
  sound _ := trivial

theorem balanced_new {desired : Int64} (nonneg : 0 ≤ desired) :
    Balanced (State.new Coro desired) Placement.empty := by
  obtain ⟨window, noWindow⟩ :
      ∃ window : Population Pc.InWindow (State.new Coro desired).pc,
        window.size = 0 := ⟨.nobody fun _ => id, Population.size_nobody _⟩
  obtain ⟨searching, noSearching⟩ :
      ∃ searching : Population Pc.Searching (State.new Coro desired).pc,
        searching.size = 0 := ⟨.nobody fun _ => id, Population.size_nobody _⟩
  refine ⟨window, searching, ?_⟩
  have noDebt : max 0 (-desired.toInt) = 0 := by
    have notNegative := SignedCounter.nonneg_iff.mp nonneg
    omega
  rw [noWindow, noSearching]
  simpa [State.new, line] using noDebt

namespace Represents

variable {s s' : State Coro} {waiters waiters' : Waiters Coro}
variable {holder holder' : Option Coro} {coro : Coro}

theorem fresh_of_not_waiting (rep : Represents s waiters holder) {coro : Coro}
    (notWaiting : s.pc coro ≠ .waiting) : ¬ waiters.Holds coro :=
  fun holds => notWaiting ((rep.suspended_iff coro).mpr holds).1

/-- A failing exchange leaves nobody in the lists. -/
theorem line_nil (rep : Represents s waiters holder) {coro : Coro}
    (position : s.pc coro = .exchangeAwaiting) (empty : s.awaiting = none) :
    line waiters = [] := by
  have inside : (s.pc coro).InSection := by simp [position, Pc.InSection]
  obtain rfl := (rep.section_iff coro).mp inside
  have queues := rep.holder_queue
  rw [HolderQueue, position] at queues
  obtain ⟨noSearch, noResume⟩ := queues
  have chain := rep.awaiting_chain
  rw [empty, Chain.null_iff, List.reverse_eq_nil_iff] at chain
  simp [line, noSearch, noResume, chain]

variable [DecidableEq Coro]

/-- A step of an operation moves one coroutine and rearranges the queues. -/
theorem transfer (rep : Represents s waiters holder) {coro : Coro}
    {pc : Pc Coro} (notWaiting : s.pc coro ≠ .waiting)
    (stays : pc ≠ .waiting) (sound : pc.Sound)
    (pcEq : s'.pc = Function.update s.pc coro pc)
    (readyEq : s'.ready = s.ready)
    (awaitingChain : Chain s'.next s'.awaiting
      (waiters'.queue .awaiting).reverse)
    (resumeChain : Chain s'.next s'.toResume (waiters'.queue .toResume))
    (holderQueue : HolderQueue s' waiters' holder')
    (popped : waiters'.queue (.popped coro) = pc.popped.toList)
    (others : ∀ releaser, releaser ≠ coro →
      waiters'.queue (.popped releaser) = waiters.queue (.popped releaser))
    (inSection : ∀ other, (Function.update s.pc coro pc other).InSection ↔
      holder' = some other)
    (occupied : s'.occupied = holder'.isSome)
    (holds : ∀ other, waiters'.Holds other ↔ waiters.Holds other) :
    Represents s' waiters' holder' where
  awaiting_chain := awaitingChain
  toResume_chain := resumeChain
  holder_queue := holderQueue
  popped_queue := by
    intro releaser
    rw [pcEq]
    by_cases same : releaser = coro
    · subst releaser
      simpa using popped
    · rw [others releaser same, Function.update_of_ne same]
      exact rep.popped_queue releaser
  section_iff := by
    rw [pcEq]
    exact inSection
  occupied := occupied
  suspended_iff := by
    intro other
    rw [holds, ← rep.suspended_iff]
    simp only [State.Suspended, pcEq, readyEq]
    grind
  ready_le_one := by
    rw [readyEq]
    exact rep.ready_le_one
  ready_waiting := by
    intro other isReady
    rw [readyEq] at isReady
    have isWaiting := rep.ready_waiting other isReady
    rw [pcEq]
    grind
  sound := by
    intro other
    have old := rep.sound other
    rw [pcEq]
    grind

/-- A move outside the section; the counter may change. -/
theorem outside (rep : Represents s waiters holder) {pc : Pc Coro}
    (leaves : (s.pc coro).Outside) (enters : pc.Outside) (counter : Int64) :
    Represents { s.setPc coro pc with counter := counter } waiters holder := by
  have notWaiting : s.pc coro ≠ .waiting := by
    intro isWaiting
    simp [isWaiting, Pc.Outside] at leaves
  have stays : pc ≠ .waiting := by
    rintro rfl
    exact enters
  have noHolder : holder ≠ some coro :=
    fun isHolder => leaves.not_inSection ((rep.section_iff coro).mpr isHolder)
  refine rep.transfer notWaiting stays enters.sound rfl rfl
    rep.awaiting_chain rep.toResume_chain ?_ ?_ (fun _ _ => rfl) ?_ rep.occupied
    (fun _ => Iff.rfl)
  · have queues := rep.holder_queue
    cases holder with
    | none => exact queues
    | some other =>
        have distinct : other ≠ coro := fun same => noHolder (by rw [same])
        simpa [HolderQueue, distinct] using queues
  · rw [rep.popped_queue, leaves.popped_eq, enters.popped_eq]
  · intro other
    rw [← rep.section_iff]
    by_cases same : other = coro
    · subst other
      simp [leaves.not_inSection, enters.not_inSection]
    · simp [same]

/-- A move inside the section. -/
theorem inside (rep : Represents s waiters (some coro)) {pc : Pc Coro}
    (entered : pc.InSection) (notPopped : (s.pc coro).popped = none)
    (notPopping : pc.popped = none) (sound : pc.Sound)
    (queue : SearchQueue s.next waiters pc) :
    Represents (s.setPc coro pc) waiters (some coro) := by
  have wasInside := (rep.section_iff coro).mpr rfl
  have notWaiting : s.pc coro ≠ .waiting := by
    intro isWaiting
    simp [isWaiting, Pc.InSection] at wasInside
  have stays : pc ≠ .waiting := by
    rintro rfl
    exact entered
  refine rep.transfer notWaiting stays sound rfl rfl rep.awaiting_chain
    rep.toResume_chain ?_ ?_ (fun _ _ => rfl) ?_ rep.occupied (fun _ => Iff.rfl)
  · simpa [HolderQueue] using queue
  · rw [rep.popped_queue, notPopped, notPopping]
  · intro other
    rw [← rep.section_iff]
    by_cases same : other = coro
    · subst other
      simp [wasInside, entered]
    · simp [same]

/-- A coroutine enters the section. -/
theorem lock (rep : Represents s waiters holder) {coro : Coro}
    (position : s.pc coro = .releaseLock) (isFree : s.occupied = false) :
    Represents { s.setPc coro .readToResume with occupied := true } waiters
      (some coro) := by
  obtain rfl : holder = none := by
    have occupied := rep.occupied
    rw [isFree] at occupied
    exact Option.not_isSome_iff_eq_none.mp (by simp [← occupied])
  refine rep.transfer (by simp [position]) (by simp) (by simp [Pc.Sound]) rfl rfl
    rep.awaiting_chain rep.toResume_chain ?_ ?_ (fun _ _ => rfl) ?_ rfl
    (fun _ => Iff.rfl)
  · simpa [HolderQueue, SearchQueue] using rep.holder_queue
  · rw [rep.popped_queue, position]
    rfl
  · intro other
    have old := rep.section_iff other
    by_cases same : other = coro
    · subst other
      simp [Pc.InSection]
    · simpa [same, Ne.symm same] using old

/-- The push of `await_suspend`. -/
theorem push (rep : Represents s waiters holder) {coro : Coro}
    (linked : s.next coro = s.awaiting) (position : (s.pc coro).InWindow) :
    Represents { s.setPc coro .waiting with awaiting := some coro }
      (waiters.enqueue .awaiting coro (rep.fresh_of_not_waiting (by
        intro isWaiting
        simp [isWaiting, Pc.InWindow] at position))) holder := by
  have notInside : ¬ (s.pc coro).InSection := by
    cases pc : s.pc coro <;> simp [pc, Pc.InWindow, Pc.InSection] at position ⊢
  have notPopped : (s.pc coro).popped = none := by
    cases pc : s.pc coro <;> simp [pc, Pc.InWindow, Pc.popped] at position ⊢
  have notWaiting : s.pc coro ≠ .waiting := by
    intro isWaiting
    simp [isWaiting, Pc.InWindow] at position
  have notReady : s.ready coro = 0 := by
    by_contra isReady
    exact notWaiting (rep.ready_waiting coro (by omega))
  refine ⟨?_, ?_, ?_, ?_, ?_, rep.occupied, ?_, rep.ready_le_one, ?_, ?_⟩
  · simp only [Placement.queue_enqueue, Function.update_self,
      List.reverse_append, List.reverse_singleton, List.singleton_append]
    exact ⟨rfl, linked ▸ rep.awaiting_chain⟩
  · simpa using rep.toResume_chain
  · have queues := rep.holder_queue
    cases holder with
    | none => simpa [HolderQueue] using queues
    | some other =>
        have distinct : other ≠ coro := by
          rintro rfl
          exact notInside ((rep.section_iff other).mpr rfl)
        simp only [HolderQueue, State.setPc,
          Function.update_of_ne distinct] at queues ⊢
        cases pc : s.pc other with
        | assertFailed =>
            rw [pc] at queues
            exact queues.elim
        | _ => simpa [SearchQueue, pc] using queues
  · intro releaser
    have old := rep.popped_queue releaser
    by_cases same : releaser = coro
    · subst releaser
      rw [notPopped] at old
      simpa [Pc.popped] using old
    · simpa [same] using old
  · intro other
    rw [← rep.section_iff]
    by_cases same : other = coro
    · subst other
      simp only [State.setPc, Function.update_self]
      exact iff_of_false id notInside
    · simp [same]
  · intro other
    have old := rep.suspended_iff other
    rw [Placement.holds_enqueue, ← old]
    simp only [State.Suspended, State.setPc]
    grind
  · intro other isReady
    have old := rep.ready_waiting other isReady
    simp only [State.setPc]
    grind
  · intro other
    have old := rep.sound other
    by_cases same : other = coro
    · subst other
      simp [Pc.Sound]
    · simpa [same] using old

/-- Writing the field of a coroutine in no queue. -/
theorem link (rep : Represents s waiters holder) {node : Coro}
    (fresh : ¬ waiters.Holds node) (pointer : Option Coro) :
    Represents (s.link node pointer) waiters holder := by
  have notMem : ∀ place, node ∉ waiters.queue place :=
    fun place member => fresh ⟨place, member⟩
  refine { rep with
    awaiting_chain := ?_, toResume_chain := ?_, holder_queue := ?_ }
  · exact rep.awaiting_chain.write_of_notMem (by simp [notMem]) pointer
  · exact rep.toResume_chain.write_of_notMem (notMem _) pointer
  · have queues := rep.holder_queue
    cases holder with
    | none => exact queues
    | some other =>
        simp only [HolderQueue] at queues
        change SearchQueue _ waiters (s.pc other)
        cases position : s.pc other with
        | reverse front resumeHead =>
            rw [position] at queues
            obtain ⟨noResume, remaining, done, queueEq, chain, doneChain⟩ :=
              queues
            have fresh' := notMem .searching
            simp only [queueEq, List.mem_append, List.mem_reverse,
              not_or] at fresh'
            exact ⟨noResume, remaining, done, queueEq,
              chain.write_of_notMem fresh'.1 pointer,
              doneChain.write_of_notMem fresh'.2 pointer⟩
        | popResumeHead resumeHead =>
            rw [position] at queues
            obtain ⟨oneEmpty, notNull, chain⟩ := queues
            refine ⟨oneEmpty, notNull, chain.write_of_notMem ?_ pointer⟩
            simp [notMem]
        | _ =>
            rw [position] at queues
            exact queues

/-- `try_release` takes the stack. -/
theorem exchange (rep : Represents s waiters holder) {node : Coro}
    (position : s.pc coro = .exchangeAwaiting)
    (stack : s.awaiting = some node) :
    ∃ waiters', (line waiters').length = (line waiters).length ∧
      Represents
        { s.setPc coro (.reverse node none) with awaiting := none }
        waiters' holder := by
  have wasInside : (s.pc coro).InSection := by simp [position, Pc.InSection]
  obtain rfl := (rep.section_iff coro).mp wasInside
  have queues := rep.holder_queue
  rw [HolderQueue, position] at queues
  obtain ⟨noSearch, noResume⟩ := queues
  have chain := rep.awaiting_chain
  rw [stack] at chain
  have perm : ([] ++ waiters.queue .awaiting).Perm
      (waiters.queue .awaiting ++ waiters.queue .searching) := by
    simp [noSearch]
  refine ⟨waiters.rearrange .awaiting .searching (by simp) []
    (waiters.queue .awaiting) perm, by simp [line, noSearch, noResume], ?_⟩
  refine rep.transfer (by simp [position]) (by simp) (by simp [Pc.Sound]) rfl rfl ?_ ?_ ?_ ?_ ?_
    ?_ rep.occupied (fun _ => Placement.holds_rearrange)
  · simp
  · simpa using rep.toResume_chain
  · simp only [HolderQueue, State.setPc, Function.update_self, SearchQueue]
    exact ⟨by simpa using noResume, (waiters.queue .awaiting).reverse, [],
      by simp, chain, rfl⟩
  · have popped := rep.popped_queue coro
    rw [position] at popped
    simpa [Pc.popped] using popped
  · intro releaser other
    simp
  · intro other
    rw [← rep.section_iff]
    by_cases same : other = coro
    · subst other
      simp [position, Pc.InSection]
    · simp [same]

/-- One iteration of the reversal keeps the queue under reversal. -/
theorem reverseNode (rep : Represents s waiters holder) {node : Coro}
    {resumeHead : Option Coro} (position : s.pc coro = .reverse node resumeHead) :
    ∃ pc, s.reverseNode coro node resumeHead =
        (s.link node resumeHead).setPc coro pc ∧ pc.weight = 1 ∧
      Represents (s.reverseNode coro node resumeHead) waiters holder := by
  have wasInside : (s.pc coro).InSection := by simp [position, Pc.InSection]
  obtain rfl := (rep.section_iff coro).mp wasInside
  have notWaiting : s.pc coro ≠ .waiting := by simp [position]
  have queues := rep.holder_queue
  rw [HolderQueue, position] at queues
  obtain ⟨noResume, remaining, done, queueEq, chain, doneChain⟩ := queues
  obtain ⟨rest, rfl, restChain⟩ := chain.exists_cons
  have nodup := waiters.nodup .searching
  rw [queueEq, List.reverse_cons, List.append_assoc] at nodup
  have apart := List.nodup_append'.mp nodup
  have notRest : node ∉ rest := fun member =>
    apart.2.2 (List.mem_reverse.mpr member) (by simp)
  have notDone : node ∉ done := (List.nodup_cons.mp apart.2.1).1
  obtain ⟨newRest, newDone⟩ := chain.reverse_step doneChain notRest notDone
  have nodeHeld : node ∈ waiters.queue .searching := by simp [queueEq]
  have elsewhere : ∀ place, place ≠ .searching →
      node ∉ waiters.queue place :=
    fun place other member => other (waiters.disjoint member nodeHeld)
  have popped : waiters.queue (.popped coro) = [] := by
    have old := rep.popped_queue coro
    rwa [position] at old
  have moved : ∀ pc : Pc Coro, pc.InSection → pc ≠ .waiting →
      pc.Sound → pc.popped = none →
      SearchQueue (s.link node resumeHead).next waiters pc →
      Represents ((s.link node resumeHead).setPc coro pc) waiters
        (some coro) := by
    intro pc entered stays sound notPopping queue
    refine rep.transfer notWaiting stays sound rfl rfl ?_ ?_ ?_ ?_
      (fun _ _ => rfl) ?_ rep.occupied (fun _ => Iff.rfl)
    · exact rep.awaiting_chain.write_of_notMem
        (by simpa using elsewhere .awaiting (by simp)) resumeHead
    · exact rep.toResume_chain.write_of_notMem
        (elsewhere .toResume (by simp)) resumeHead
    · simpa [HolderQueue] using queue
    · rw [popped, notPopping]
      rfl
    · intro other
      rw [← rep.section_iff]
      by_cases same : other = coro
      · subst other
        simp [wasInside, entered]
      · simp [same]
  cases following : s.next node with
  | some tmp =>
      have pcEq : s.reverseNode coro node resumeHead =
          (s.link node resumeHead).setPc coro (.reverse tmp (some node)) := by
        simp [State.reverseNode, following]
      rw [following] at newRest
      refine ⟨_, pcEq, rfl, ?_⟩
      rw [pcEq]
      exact moved _ trivial (by simp) trivial rfl
        ⟨noResume, rest, node :: done, by simp [queueEq], newRest, newDone⟩
  | none =>
      have pcEq : s.reverseNode coro node resumeHead =
          (s.link node resumeHead).setPc coro (.popResumeHead (some node)) := by
        simp [State.reverseNode, following]
      rw [following] at newRest
      obtain rfl : rest = [] := Chain.null_iff.mp newRest
      refine ⟨_, pcEq, rfl, ?_⟩
      rw [pcEq]
      refine moved _ trivial (by simp) trivial rfl ⟨Or.inr noResume, by simp, ?_⟩
      simpa [queueEq, noResume] using newDone

/-- The oldest acquirer is popped. -/
theorem popResumeHead (rep : Represents s waiters holder) {head : Coro}
    (position : s.pc coro = .popResumeHead (some head)) :
    ∃ waiters', (line waiters').length + 1 = (line waiters).length ∧
      Represents
        { s.setPc coro (.releaseUnlock (some head)) with
          toResume := s.next head } waiters' holder := by
  have wasInside : (s.pc coro).InSection := by simp [position, Pc.InSection]
  obtain rfl := (rep.section_iff coro).mp wasInside
  have queues := rep.holder_queue
  rw [HolderQueue, position] at queues
  obtain ⟨oneEmpty, -, chain⟩ := queues
  obtain ⟨rest, queueEq, restChain⟩ := chain.exists_cons
  have popped : waiters.queue (.popped coro) = [] := by
    have old := rep.popped_queue coro
    rwa [position] at old
  have gathered : (waiters.queue .searching ++ waiters.queue .toResume).Perm
      ([] ++ (head :: rest)) := by
    rw [queueEq]
    exact List.Perm.refl _
  let joined := waiters.rearrange .searching .toResume (by simp) []
    (head :: rest) gathered.symm
  have perm : (rest ++ [head]).Perm
      (joined.queue .toResume ++ joined.queue (.popped coro)) := by
    simp [joined, popped]
  refine ⟨joined.rearrange .toResume (.popped coro) (by simp) rest [head] perm,
    ?_, ?_⟩
  · have lengthEq := congrArg List.length queueEq
    simp only [List.length_append, List.length_cons] at lengthEq
    simp only [line, joined, Placement.queue_rearrange, List.length_append]
    simp
    omega
  · refine rep.transfer (by simp [position]) (by simp) (by simp [Pc.Sound]) rfl rfl ?_ ?_ ?_ ?_
      ?_ ?_ rep.occupied ?_
    · simpa [joined] using rep.awaiting_chain
    · simpa [joined] using restChain
    · simp [HolderQueue, SearchQueue, joined]
    · simp [Pc.popped]
    · intro releaser other
      simp [joined, other]
    · intro other
      rw [← rep.section_iff]
      by_cases same : other = coro
      · subst other
        simp [position, Pc.InSection]
      · simp [same]
    · intro other
      rw [Placement.holds_rearrange, Placement.holds_rearrange]

/-- The section ends. -/
theorem unlock (rep : Represents s waiters holder) {head : Coro}
    (position : s.pc coro = .releaseUnlock (some head)) :
    Represents
      { s.setPc coro (.releaseSpawn (some head)) with occupied := false }
      waiters none := by
  have wasInside : (s.pc coro).InSection := by simp [position, Pc.InSection]
  obtain rfl := (rep.section_iff coro).mp wasInside
  have queues := rep.holder_queue
  rw [HolderQueue, position] at queues
  refine rep.transfer (by simp [position]) (by simp) (by simp [Pc.Sound]) rfl rfl
    rep.awaiting_chain rep.toResume_chain queues ?_ (fun _ _ => rfl) ?_ rfl
    (fun _ => Iff.rfl)
  · rw [rep.popped_queue, position]
    rfl
  · intro other
    have old := rep.section_iff other
    by_cases same : other = coro
    · subst other
      simp [Pc.InSection]
    · simpa [same, Ne.symm same] using old

/-- The popped acquirer is spawned. -/
theorem spawn (rep : Represents s waiters holder) {head : Coro}
    (position : s.pc coro = .releaseSpawn (some head)) :
    ∃ waiters', line waiters' = line waiters ∧
      Represents
        { s.setPc coro .idle with
          ready := Function.update s.ready head (s.ready head + 1) }
        waiters' holder := by
  have notInside : ¬ (s.pc coro).InSection := by simp [position, Pc.InSection]
  have popped : waiters.queue (.popped coro) = [head] := by
    have old := rep.popped_queue coro
    rwa [position] at old
  have headSuspended := (rep.suspended_iff head).mpr
    ⟨.popped coro, by simp [popped]⟩
  refine ⟨waiters.keep (.popped coro) [] (by simp), by simp [line], ?_⟩
  refine ⟨?_, ?_, ?_, ?_, ?_, rep.occupied, ?_, ?_, ?_, ?_⟩
  · simpa using rep.awaiting_chain
  · simpa using rep.toResume_chain
  · have queues := rep.holder_queue
    cases holder with
    | none => simpa [HolderQueue] using queues
    | some other =>
        have distinct : other ≠ coro := by
          rintro rfl
          exact notInside ((rep.section_iff other).mpr rfl)
        simp only [HolderQueue, State.setPc,
          Function.update_of_ne distinct] at queues ⊢
        cases pc : s.pc other with
        | assertFailed =>
            rw [pc] at queues
            exact queues.elim
        | _ => simpa [SearchQueue, pc] using queues
  · intro releaser
    have old := rep.popped_queue releaser
    by_cases same : releaser = coro
    · subst releaser
      simp [Pc.popped]
    · simpa [same] using old
  · intro other
    rw [← rep.section_iff]
    by_cases same : other = coro
    · subst other
      simp only [State.setPc, Function.update_self]
      exact iff_of_false id notInside
    · simp [same]
  · intro other
    rw [Placement.holds_keep, ← rep.suspended_iff, popped]
    obtain ⟨headWaiting, headNotReady⟩ := headSuspended
    simp only [State.Suspended, State.setPc]
    grind
  · intro other
    have old := rep.ready_le_one other
    have headZero := headSuspended.2
    grind
  · intro other isReady
    have old := rep.ready_waiting other
    have headWaiting := headSuspended.1
    simp only [State.setPc] at isReady ⊢
    grind
  · intro other
    have old := rep.sound other
    by_cases same : other = coro
    · subst other
      simp [Pc.Sound]
    · simpa [same] using old

/-- A spawned acquirer is resumed. -/
theorem resume (rep : Represents s waiters holder)
    (isWaiting : s.pc coro = .waiting) (isReady : 0 < s.ready coro) :
    Represents { s.setPc coro .idle with
      ready := Function.update s.ready coro (s.ready coro - 1) }
      waiters holder := by
  have readyOne := rep.ready_le_one coro
  refine ⟨rep.awaiting_chain, rep.toResume_chain, ?_, ?_, ?_, rep.occupied,
    ?_, ?_, ?_, ?_⟩
  · have queues := rep.holder_queue
    cases holder with
    | none => exact queues
    | some other =>
        have distinct : other ≠ coro := by
          rintro rfl
          have inside := (rep.section_iff other).mpr rfl
          simp [isWaiting, Pc.InSection] at inside
        simpa [HolderQueue, distinct] using queues
  · intro releaser
    have old := rep.popped_queue releaser
    by_cases same : releaser = coro
    · subst releaser
      simpa [isWaiting, Pc.popped] using old
    · simpa [same] using old
  · intro other
    rw [← rep.section_iff]
    by_cases same : other = coro
    · subst other
      simp [isWaiting, Pc.InSection]
    · simp [same]
  · intro other
    rw [← rep.suspended_iff]
    simp only [State.Suspended, State.setPc]
    grind
  · intro other
    have old := rep.ready_le_one other
    grind
  · intro other stillReady
    have old := rep.ready_waiting other
    simp only [State.setPc] at stillReady ⊢
    grind
  · intro other
    have old := rep.sound other
    by_cases same : other = coro
    · subst other
      simp [Pc.Sound]
    · simpa [same] using old

/-- A move outside the section that keeps the balance. -/
theorem outside_step (rep : Represents s waiters holder)
    (balanced : Balanced s waiters) {pc : Pc Coro} {counter : Int64}
    (leaves : (s.pc coro).Outside) (enters : pc.Outside)
    (change : max 0 (-counter.toInt) + pc.weight =
      max 0 (-s.counter.toInt) + (s.pc coro).weight) :
    ∃ waiters' holder',
      Represents { s.setPc coro pc with counter := counter } waiters' holder' ∧
        Balanced { s.setPc coro pc with counter := counter } waiters' :=
  ⟨waiters, holder, rep.outside leaves enters counter,
    balanced.move rfl (by rw [← change])⟩

/-- Every step of an operation keeps the invariant, provided that the counter
does not wrap around and a failing exchange happens while no acquirer is on
its way to the stack. -/
theorem run (rep : Represents s waiters holder) (balanced : Balanced s waiters)
    {spuriousFailure : Bool} (seen : PushesSeen s (.run coro spuriousFailure))
    (fits : CounterFits s (.run coro spuriousFailure))
    (stepEq : s.run coro spuriousFailure = some s') :
    ∃ waiters' holder', Represents s' waiters' holder' ∧
      Balanced s' waiters' := by
  have stays : ∀ pc, (s.pc coro).Outside → pc.Outside →
      pc.weight = (s.pc coro).weight →
      ∃ waiters' holder', Represents (s.setPc coro pc) waiters' holder' ∧
        Balanced (s.setPc coro pc) waiters' := by
    intro pc leaves enters sameWeight
    exact rep.outside_step balanced leaves enters (by rw [sameWeight])
  have sound := rep.sound coro
  cases position : s.pc coro with
  | idle | waiting | assertFailed | nullDereference =>
      simp [State.run, position] at stepEq
  | acquireFetchSub =>
      simp only [State.run, position, Option.some.injEq] at stepEq
      subst stepEq
      have counterEq := SignedCounter.toInt_sub_one (fits.1 position)
      unfold State.fetchSub
      split
      · rename_i hasPermit
        have positive := SignedCounter.pos_iff.mp hasPermit
        refine rep.outside_step balanced (by simp [position, Pc.Outside])
          trivial ?_
        simp only [position, Pc.weight]
        omega
      · rename_i noPermit
        have notPositive := mt SignedCounter.pos_iff.mpr noPermit
        refine rep.outside_step balanced (by simp [position, Pc.Outside])
          trivial ?_
        simp only [position, Pc.weight]
        omega
  | suspendLoad =>
      simp only [State.run, position, Option.some.injEq] at stepEq
      subst stepEq
      exact stays _ (by simp [position, Pc.Outside]) trivial (by rw [position]; rfl)
  | suspendExchange oldHead =>
      simp only [State.run, position, Option.some.injEq] at stepEq
      subst stepEq
      have notWaiting : s.pc coro ≠ .waiting := by simp [position]
      have linked := rep.link (rep.fresh_of_not_waiting notWaiting) oldHead
      by_cases succeeds : s.awaiting = oldHead ∧ spuriousFailure = false
      · simp only [State.pushAwaiting, if_pos succeeds]
        refine ⟨_, holder, linked.push (by simp [succeeds.1])
          (by simp [position, Pc.InWindow]), balanced.move rfl ?_⟩
        simp [position, Pc.weight, line]
        omega
      · simp only [State.pushAwaiting, if_neg succeeds]
        have balanced' : Balanced (s.link coro oldHead) waiters := balanced
        refine linked.outside_step balanced' ?_ trivial ?_
        · simp [position, Pc.Outside]
        · simp [position, Pc.weight]
  | tryAcquireLoad =>
      have leaves : (s.pc coro).Outside := by simp [position, Pc.Outside]
      simp only [State.run, position] at stepEq
      split at stepEq
      · rename_i hasPermit
        rw [Option.some.injEq] at stepEq
        subst stepEq
        exact stays _ leaves hasPermit (by rw [position]; rfl)
      · rw [Option.some.injEq] at stepEq
        subst stepEq
        exact stays _ leaves trivial (by rw [position]; rfl)
  | tryAcquireExchange oldCounter =>
      rw [position] at sound
      have leaves : (s.pc coro).Outside := by rw [position]; exact sound
      simp only [State.run, position, Option.some.injEq] at stepEq
      subst stepEq
      unfold State.tryExchange
      split
      · rename_i unchanged
        refine rep.outside_step balanced leaves trivial ?_
        simp only [position, Pc.weight]
        have hasPermit : 0 < oldCounter := sound
        have positive := SignedCounter.pos_iff.mp hasPermit
        have counterEq := SignedCounter.toInt_sub_one
          (SignedCounter.ne_minValue_of_pos hasPermit)
        rw [unchanged]
        omega
      · exact stays _ leaves trivial (by rw [position]; rfl)
  | releaseFetchAdd =>
      simp only [State.run, position, Option.some.injEq] at stepEq
      subst stepEq
      have counterEq := SignedCounter.toInt_add_one (fits.2 position)
      unfold State.fetchAdd
      split
      · rename_i noDebt
        have notNegative := SignedCounter.nonneg_iff.mp noDebt
        refine rep.outside_step balanced (by simp [position, Pc.Outside])
          trivial ?_
        simp only [position, Pc.weight]
        omega
      · rename_i debt
        have negative := mt SignedCounter.nonneg_iff.mpr debt
        refine rep.outside_step balanced (by simp [position, Pc.Outside])
          trivial ?_
        simp only [position, Pc.weight]
        omega
  | releaseLock =>
      simp only [State.run, position, Option.ite_none_right_eq_some,
        Option.some.injEq] at stepEq
      obtain ⟨isFree, rfl⟩ := stepEq
      exact ⟨waiters, some coro, rep.lock position isFree,
        balanced.move rfl (by simp [position, Pc.weight])⟩
  | readToResume =>
      have wasInside : (s.pc coro).InSection := by simp [position, Pc.InSection]
      obtain rfl := (rep.section_iff coro).mp wasInside
      have queues := rep.holder_queue
      rw [HolderQueue, position] at queues
      have noSearch : waiters.queue .searching = [] := queues
      have chain := rep.toResume_chain
      have notPopped : (s.pc coro).popped = none := by rw [position]; rfl
      simp only [State.run, position] at stepEq
      cases resumeList : s.toResume with
      | none =>
          simp only [resumeList, Option.some.injEq] at stepEq
          subst stepEq
          rw [resumeList, Chain.null_iff] at chain
          refine ⟨waiters, some coro, rep.inside trivial notPopped rfl trivial
            ⟨noSearch, chain⟩, balanced.move rfl ?_⟩
          simp [position, Pc.weight]
      | some head =>
          simp only [resumeList, Option.some.injEq] at stepEq
          subst stepEq
          rw [resumeList] at chain
          refine ⟨waiters, some coro, rep.inside trivial notPopped rfl trivial
            ⟨Or.inl noSearch, by simp, by simpa [noSearch] using chain⟩,
            balanced.move rfl ?_⟩
          simp [position, Pc.weight]
  | exchangeAwaiting =>
      simp only [State.run, position, Option.some.injEq] at stepEq
      subst stepEq
      cases stack : s.awaiting with
      | none =>
          -- the balance leaves no debt for this release to search for
          obtain ⟨window, searching, balance⟩ := balanced
          have noWindow := window.size_eq_zero_iff.mpr (seen position stack)
          have isSearching := searching.size_pos
            (show (s.pc coro).Searching by simp [position, Pc.Searching])
          rw [rep.line_nil position stack, noWindow] at balance
          simp only [List.length_nil] at balance
          omega
      | some node =>
          simp only [State.exchange, stack]
          obtain ⟨waiters', lengthEq, rep'⟩ := rep.exchange position stack
          refine ⟨waiters', holder, rep', balanced.move rfl ?_⟩
          simp [position, Pc.weight, lengthEq]
  | reverse node resumeHead =>
      simp only [State.run, position, Option.some.injEq] at stepEq
      subst stepEq
      obtain ⟨pc, stateEq, weightEq, rep'⟩ := rep.reverseNode position
      refine ⟨waiters, holder, rep', ?_⟩
      rw [stateEq]
      have balanced' : Balanced (s.link node resumeHead) waiters := balanced
      have wasOne : (s.pc coro).weight = 1 := by rw [position]; rfl
      refine balanced'.move rfl ?_
      simp [weightEq, wasOne]
  | popResumeHead resumeHead =>
      have wasInside : (s.pc coro).InSection := by simp [position, Pc.InSection]
      have isHolder := (rep.section_iff coro).mp wasInside
      have queues := rep.holder_queue
      rw [isHolder, HolderQueue, position] at queues
      obtain ⟨head, rfl⟩ := Option.ne_none_iff_exists'.mp queues.2.1
      simp only [State.run, position, State.popResumeHead,
        Option.some.injEq] at stepEq
      subst stepEq
      obtain ⟨waiters', lengthEq, rep'⟩ := rep.popResumeHead position
      refine ⟨waiters', holder, rep', balanced.move rfl ?_⟩
      simp only [State.setPc, position, Pc.weight, ← lengthEq]
      omega
  | releaseUnlock awakenAwaiter =>
      rw [position] at sound
      cases awakenAwaiter with
      | none => exact sound.elim
      | some head =>
          simp only [State.run, position, Option.some.injEq] at stepEq
          subst stepEq
          exact ⟨waiters, none, rep.unlock position,
            balanced.move rfl (by simp [position, Pc.weight])⟩
  | releaseSpawn awakenAwaiter =>
      rw [position] at sound
      cases awakenAwaiter with
      | none => exact sound.elim
      | some head =>
          simp only [State.run, position, State.spawn,
            Option.some.injEq] at stepEq
          subst stepEq
          obtain ⟨waiters', lineEq, rep'⟩ := rep.spawn position
          exact ⟨waiters', holder, rep',
            balanced.move rfl (by simp [position, Pc.weight, lineEq])⟩

theorem step (rep : Represents s waiters holder) (balanced : Balanced s waiters)
    {action : Action Coro} (seen : PushesSeen s action)
    (fits : CounterFits s action)
    (stepEq : CountingSemaphore.step s action = some s') :
    ∃ waiters' holder', Represents s' waiters' holder' ∧
      Balanced s' waiters' := by
  have enters : ∀ {coro : Coro} {pc : Pc Coro}, s.pc coro = .idle →
      pc.Outside → pc.weight = 0 →
      ∃ waiters' holder', Represents (s.setPc coro pc) waiters' holder' ∧
        Balanced (s.setPc coro pc) waiters' := by
    intro coro pc isIdle isOutside noWeight
    exact rep.outside_step balanced (by simp [isIdle, Pc.Outside]) isOutside
      (by rw [isIdle, noWeight]; rfl)
  cases action with
  | acquire coro | tryAcquire coro | release coro =>
      simp only [CountingSemaphore.step, Option.ite_none_right_eq_some,
        Option.some.injEq] at stepEq
      obtain ⟨isIdle, rfl⟩ := stepEq
      exact enters isIdle trivial rfl
  | run coro spuriousFailure => exact rep.run balanced seen fits stepEq
  | resume coro =>
      simp only [CountingSemaphore.step, Option.ite_none_right_eq_some,
        Option.some.injEq] at stepEq
      obtain ⟨⟨isWaiting, isReady⟩, rfl⟩ := stepEq
      exact ⟨waiters, holder, rep.resume isWaiting isReady,
        balanced.move rfl (by simp [isWaiting, Pc.weight])⟩

end Represents

/-- The invariant of the semaphore. -/
def Consistent (s : State Coro) : Prop :=
  ∃ waiters holder, Represents s waiters holder ∧ Balanced s waiters

theorem consistent_of_reachableBy [DecidableEq Coro] {desired : Int64}
    (nonneg : 0 ≤ desired) {s : State Coro}
    (reached : (system Coro desired).ReachableBy
      (fun s action => PushesSeen s action ∧ CounterFits s action) s) :
    Consistent s := by
  apply reached.invariant
  · rintro state rfl
    exact ⟨_, _, represents_new desired, balanced_new nonneg⟩
  · rintro state action successor ⟨waiters, holder, rep, balanced⟩ ⟨seen, fits⟩
      stepEq
    exact rep.step balanced seen fits stepEq

end CoContext.CountingSemaphore
