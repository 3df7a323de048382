import CoContext.RingSetup

/-!
# What is given back

A ring whose system calls all succeed gives back each resource once.  Where one
of them fails behind `io_uring_setup`, `init` either closes the descriptor and
leaves it to the destructor, which closes it again, or it does not notice that
a mapping failed.
-/

namespace CoContext.RingSetup

open Lifetime

section Evaluation

variable {α β : Type} (s : State)

@[simp]
theorem bind_apply (program : Setup α) (next : α → Setup β) :
    (program >>= next) s =
      match program s with
      | .ok value s => next value s
      | .error failure s => .error failure s := by
  cases result : program s <;> simp [bind, EStateM.bind, result]

@[simp]
theorem pure_apply (value : α) : (pure value : Setup α) s = .ok value s :=
  rfl

@[simp]
theorem throw_apply (failure : Failure) :
    (throw failure : Setup α) s = .error failure s :=
  rfl

@[simp]
theorem record_apply (resource : Resource) (event : Lifetime) :
    record resource event s =
      .ok () { s with events := s.events ++ [(resource, event)] } :=
  rfl

@[simp]
theorem setRing_apply (change : Ring → Ring) :
    setRing change s = .ok () { s with ring := change s.ring } :=
  rfl

@[simp]
theorem getRing_apply : getRing s = .ok s.ring s :=
  rfl

@[simp]
theorem sysMmap_ok (region : Region) (size : Nat) (value : Unit) :
    sysMmap region size (.ok value) s = .ok (.mapped region)
      { s with
        events := s.events ++ [(.region region size, .construct)] } :=
  rfl

@[simp]
theorem sysMmap_error (region : Region) (size errno : Nat) :
    sysMmap region size (.error errno) s = .ok (.error errno) s :=
  rfl

@[simp]
theorem access_mapped (region : Region) :
    access (.mapped region) s = .ok () s :=
  rfl

@[simp]
theorem access_error (errno : Nat) :
    access (.error errno) s = .error .crashed s :=
  rfl

@[simp]
theorem error_eq_mapFailed (errno : Nat) :
    Pointer.error errno = mapFailed ↔ errno = 1 := by
  simp [mapFailed]

@[simp]
theorem mapped_ne_mapFailed (region : Region) :
    Pointer.mapped region ≠ mapFailed := by
  simp [mapFailed]

end Evaluation

/-- What `__sys_munmap` gives back. -/
def unmapEvents (pointer : Pointer) (size : Nat) :
    List (Resource × Lifetime) :=
  match pointer with
  | .mapped region => [(.region region size, .destroy)]
  | .null | .error _ => []

/-- What `unmap_rings` gives back. -/
def Ring.unmapEvents (ring : Ring) : List (Resource × Lifetime) :=
  RingSetup.unmapEvents ring.sqRingPtr ring.sqRingSz ++
    if ring.cqRingPtr ≠ .null ∧ ring.cqRingPtr ≠ ring.sqRingPtr then
      RingSetup.unmapEvents ring.cqRingPtr ring.cqRingSz
    else []

/-- What the destructor gives back. -/
def Ring.destructEvents (ring : Ring) (fd : Nat) :
    List (Resource × Lifetime) :=
  RingSetup.unmapEvents ring.sqSqes (ring.sqRingEntries * 64) ++
    ring.unmapEvents ++ [(.descriptor fd, .destroy)]

/-- The events of a descriptor. -/
def closes (fd : Nat) (s : State) : List Lifetime :=
  ofSlot (.descriptor fd) s.events

section Unmapping

variable (s : State)

@[simp]
theorem sysMunmap_apply (pointer : Pointer) (size : Nat) :
    sysMunmap pointer size s =
      .ok () { s with events := s.events ++ unmapEvents pointer size } := by
  cases pointer <;> simp [sysMunmap, unmapEvents]

@[simp]
theorem unmapRings_apply :
    unmapRings s =
      .ok () { s with events := s.events ++ s.ring.unmapEvents } := by
  by_cases apart : s.ring.cqRingPtr ≠ .null ∧
      s.ring.cqRingPtr ≠ s.ring.sqRingPtr
  · simp [unmapRings, apart, Ring.unmapEvents]
  · simp [unmapRings, apart, Ring.unmapEvents]

theorem destruct_apply {fd : Nat} (held : s.ring.ringFd = some fd) :
    destruct s =
      .ok () { s with events := s.events ++ s.ring.destructEvents fd } := by
  simp [destruct, held, sysClose, Ring.destructEvents]

@[simp]
theorem closes_nil (fd : Nat) :
    ofSlot (.descriptor fd) ([] : List (Resource × Lifetime)) = [] :=
  rfl

@[simp]
theorem closes_region (fd size : Nat) (region : Region) (event : Lifetime)
    (events : List (Resource × Lifetime)) :
    ofSlot (.descriptor fd) ((.region region size, event) :: events) =
      ofSlot (.descriptor fd) events := by
  simp [ofSlot]

@[simp]
theorem closes_descriptor (fd : Nat) (event : Lifetime)
    (events : List (Resource × Lifetime)) :
    ofSlot (.descriptor fd) ((.descriptor fd, event) :: events) =
      event :: ofSlot (.descriptor fd) events := by
  simp [ofSlot]

@[simp]
theorem closes_unmapEvents (fd : Nat) (pointer : Pointer) (size : Nat) :
    ofSlot (.descriptor fd) (unmapEvents pointer size) = [] := by
  cases pointer <;> simp [unmapEvents]

@[simp]
theorem closes_unmapRings (fd : Nat) (ring : Ring) :
    ofSlot (.descriptor fd) ring.unmapEvents = [] := by
  rw [Ring.unmapEvents, ofSlot_append, closes_unmapEvents]
  split <;> simp

/-- The destructor closes the descriptor that the object holds. -/
@[simp]
theorem closes_destruct (fd : Nat) (ring : Ring) :
    ofSlot (.descriptor fd) (ring.destructEvents fd) = [.destroy] := by
  simp [Ring.destructEvents, ofSlot_append]

end Unmapping

variable {p : Params} {o : Outcomes} {usingRegisterRingFd : Bool}

/-- The members behind `mmap_queue`. -/
def Ring.whole (p : Params) (fd : Nat) : Ring :=
  { Ring.opened fd with
    sqRingPtr := .mapped .sqRing
    sqRingSz := (ringSizes p).1
    sqRingEntries := p.sqEntries
    sqSqes := .mapped .sqes
    cqRingPtr := if p.singleMmap then .mapped .sqRing else .mapped .cqRing
    cqRingSz := (ringSizes p).2 }

/-- What `mmap_queue` maps. -/
def mappings (p : Params) : List Resource :=
  if p.singleMmap then
    [.region .sqRing (ringSizes p).1, .region .sqes (p.sqEntries * 64)]
  else
    [.region .sqRing (ringSizes p).1, .region .cqRing (ringSizes p).2,
      .region .sqes (p.sqEntries * 64)]

/-- How `mmap_queue` may end where a mapping fails: with an exception, with an
access to memory that is not mapped, or without entries. -/
def Incomplete (fd : Nat) (s : State) :
    EStateM.Result Failure State Unit → Prop
  | .error (.threw _) s' =>
      s'.ring.ringFd = some fd ∧ closes fd s' = closes fd s
  | .error .crashed _ => True
  | .ok () s' =>
      s'.ring.sqSqes ≠ .mapped .sqes ∧ s'.ring.sqRingPtr = .mapped .sqRing ∧
        s'.ring.ringFd = some fd ∧ closes fd s' = closes fd s

/-- All mappings that are needed succeed. -/
def Outcomes.Maps (o : Outcomes) (p : Params) : Prop :=
  o.sqRing = .ok () ∧ (p.singleMmap = false → o.cqRing = .ok ()) ∧
    o.sqes = .ok ()

theorem Outcomes.fails_eq_false (o : Outcomes) :
    o.fails p usingRegisterRingFd = false ↔
      o.Maps p ∧ (usingRegisterRingFd = true →
        ∃ offset, o.register = .ok offset) := by
  obtain ⟨_, sqRing, cqRing, sqes, register⟩ := o
  cases sqRing <;> cases cqRing <;> cases sqes <;> cases register <;>
    simp [Outcomes.fails, Outcomes.Maps, Except.isOk, Except.toBool]

theorem mmapQueue_whole (maps : o.Maps p) (fd : Nat)
    (events : List (Resource × Lifetime)) :
    mmapQueue p o ⟨.opened fd, events⟩ =
      .ok () ⟨.whole p fd,
        events ++ (mappings p).map fun resource => (resource, .construct)⟩ := by
  obtain ⟨sqRing, cqRing, sqes⟩ := maps
  cases single : p.singleMmap with
  | true =>
      simp [mmapQueue, mmapCqRing, sqSetOffset, cqSetOffset, sqRing,
        sqes, single, Ring.whole, mappings]
  | false =>
      simp [mmapQueue, mmapCqRing, sqSetOffset, cqSetOffset, sqRing,
        sqes, cqRing single, single, Ring.whole, mappings]

section Incompletes

variable (fd : Nat) (events : List (Resource × Lifetime))

theorem incomplete_of_sqRing {errno : Nat}
    (sqRing : o.sqRing = .error errno) :
    Incomplete fd ⟨.opened fd, events⟩
      (mmapQueue p o ⟨.opened fd, events⟩) := by
  by_cases noticed : errno = 1
  · simp [mmapQueue, sqRing, noticed, Incomplete, closes, Ring.opened]
  · cases single : p.singleMmap with
    | true =>
        simp [mmapQueue, mmapCqRing, sqSetOffset, sqRing, noticed, single,
          Incomplete]
    | false =>
        cases cqRing : o.cqRing with
        | ok _ =>
            simp [mmapQueue, mmapCqRing, sqSetOffset, sqRing, noticed, single,
              cqRing, Incomplete]
        | error other =>
            by_cases otherNoticed : other = 1 <;>
              simp [mmapQueue, mmapCqRing, sqSetOffset, sqRing, noticed,
                single, cqRing, otherNoticed, Incomplete, closes,
                ofSlot_append, Ring.opened]

theorem incomplete_of_cqRing {errno : Nat} (sqRing : o.sqRing = .ok ())
    (single : p.singleMmap = false) (cqRing : o.cqRing = .error errno) :
    Incomplete fd ⟨.opened fd, events⟩
      (mmapQueue p o ⟨.opened fd, events⟩) := by
  by_cases noticed : errno = 1
  · simp [mmapQueue, mmapCqRing, sqRing, single, cqRing, noticed, Incomplete,
      closes, ofSlot_append, Ring.opened]
  · cases sqes : o.sqes with
    | ok _ =>
        simp [mmapQueue, mmapCqRing, sqSetOffset, cqSetOffset, sqRing, single,
          cqRing, noticed, sqes, Incomplete]
    | error other =>
        by_cases otherNoticed : other = 1 <;>
          simp [mmapQueue, mmapCqRing, sqSetOffset, cqSetOffset, sqRing,
            single, cqRing, noticed, sqes, otherNoticed, Incomplete, closes,
            ofSlot_append, Ring.opened]

theorem incomplete_of_sqes {errno : Nat} (sqRing : o.sqRing = .ok ())
    (cqRing : p.singleMmap = false → o.cqRing = .ok ())
    (sqes : o.sqes = .error errno) :
    Incomplete fd ⟨.opened fd, events⟩
      (mmapQueue p o ⟨.opened fd, events⟩) := by
  cases single : p.singleMmap with
  | true =>
      by_cases noticed : errno = 1 <;>
        simp [mmapQueue, mmapCqRing, sqSetOffset, cqSetOffset, sqRing, single,
          noticed, sqes, Incomplete, closes, ofSlot_append, Ring.opened]
  | false =>
      by_cases noticed : errno = 1 <;>
        simp [mmapQueue, mmapCqRing, sqSetOffset, cqSetOffset, sqRing, single,
          cqRing single, noticed, sqes, Incomplete, closes, ofSlot_append,
          Ring.opened]

/-- Where a mapping fails, the queues are not all mapped. -/
theorem mmapQueue_incomplete (fails : ¬ o.Maps p) :
    Incomplete fd ⟨.opened fd, events⟩
      (mmapQueue p o ⟨.opened fd, events⟩) := by
  cases sqRing : o.sqRing with
  | error errno => exact incomplete_of_sqRing fd events sqRing
  | ok _ =>
      by_cases cqFails : p.singleMmap = false ∧
          ∃ errno, o.cqRing = .error errno
      · obtain ⟨single, errno, cqRing⟩ := cqFails
        exact incomplete_of_cqRing fd events sqRing single cqRing
      · have cqRing : p.singleMmap = false → o.cqRing = .ok () := by
          intro single
          cases cqRing : o.cqRing with
          | ok _ => rfl
          | error errno => exact absurd ⟨single, errno, cqRing⟩ cqFails
        cases sqes : o.sqes with
        | ok _ => exact absurd ⟨sqRing, cqRing, sqes⟩ fails
        | error errno => exact incomplete_of_sqes fd events sqRing cqRing sqes

end Incompletes

section Lives

/-- The state in which `init` calls `mmap_queue`. -/
def State.opened (fd : Nat) : State where
  ring := .opened fd
  events := [(.descriptor fd, .construct)]

/-- What `init` makes of the block whose exceptions are caught. -/
theorem init_opened {fd : Nat} (setup : o.setup = .ok fd) :
    init p o usingRegisterRingFd State.new =
      match initQueue p o usingRegisterRingFd (.opened fd) with
      | .ok _ s => .ok () s
      | .error (.threw errno) s => .error (.threw errno)
          { s with events := s.events ++ [(.descriptor fd, .destroy)] }
      | .error .crashed s => .error .crashed s := by
  have opened : (⟨.opened fd, [(.descriptor fd, .construct)]⟩ : State) =
      .opened fd := rfl
  cases block : initQueue p o usingRegisterRingFd (.opened fd) with
  | ok _ s =>
      simp [init, setup, State.new, tryCatch, tryCatchThe,
        MonadExceptOf.tryCatch, EStateM.tryCatch, opened, block]
  | error failure s =>
      cases failure <;>
        simp [init, setup, State.new, tryCatch, tryCatchThe,
          MonadExceptOf.tryCatch, EStateM.tryCatch,
          EStateM.Backtrackable.restore, EStateM.dummyRestore, sysClose,
          opened, block]

/-- The descriptor is closed twice. -/
theorem not_balanced_of_closed_twice {fd : Nat} {s : State}
    (closed : closes fd s = [.construct, .destroy, .destroy]) :
    ¬ Balanced s.events := by
  intro balanced
  have even := (balanced (.descriptor fd)).length_even
  rw [closes] at closed
  rw [closed] at even
  contradiction

/-- An exception behind `io_uring_setup`. -/
theorem not_clean_of_threw {fd errno : Nat} {s : State}
    (setup : o.setup = .ok fd)
    (throws : initQueue p o usingRegisterRingFd (.opened fd) =
      .error (.threw errno) s) (held : s.ring.ringFd = some fd)
    (closed : closes fd s = [.construct]) :
    ¬ Clean p o usingRegisterRingFd := by
  rintro ⟨_, last, lifeEq, balanced⟩
  let caught : State :=
    { s with events := s.events ++ [(.descriptor fd, .destroy)] }
  have destructs : destruct caught = .ok () last := by
    rw [life, init_opened setup, throws] at lifeEq
    exact lifeEq
  rw [destruct_apply caught held] at destructs
  have lastEq := (EStateM.Result.ok.inj destructs).2
  have twice : closes fd last = [.construct, .destroy, .destroy] := by
    rw [closes] at closed
    simp [← lastEq, caught, closes, ofSlot_append, closed]
  exact not_balanced_of_closed_twice twice balanced

theorem not_clean_of_crashed {fd : Nat} {s : State}
    (setup : o.setup = .ok fd)
    (crashes : initQueue p o usingRegisterRingFd (.opened fd) =
      .error .crashed s) : ¬ Clean p o usingRegisterRingFd := by
  rintro ⟨_, last, lifeEq, _⟩
  rw [life, init_opened setup, crashes] at lifeEq
  contradiction

theorem initQueue_error {fd : Nat} {failure : Failure} {s : State}
    (fails : mmapQueue p o (.opened fd) = .error failure s) :
    initQueue p o usingRegisterRingFd (.opened fd) = .error failure s := by
  simp [initQueue, fails]

theorem initQueue_ok {fd : Nat} {s : State}
    (maps : mmapQueue p o (.opened fd) = .ok () s)
    (mapped : s.ring.sqRingPtr = .mapped .sqRing) :
    initQueue p o usingRegisterRingFd (.opened fd) =
      if usingRegisterRingFd then registerRingFd o.register s
      else .ok () s := by
  cases usingRegisterRingFd <;> simp [initQueue, maps, mapped]

/-- The descriptor is not registered. -/
theorem not_clean_of_register {fd errno : Nat} {s : State}
    (setup : o.setup = .ok fd)
    (maps : mmapQueue p o (.opened fd) = .ok () s)
    (mapped : s.ring.sqRingPtr = .mapped .sqRing)
    (held : s.ring.ringFd = some fd) (closed : closes fd s = [.construct])
    (register : o.register = .error errno) : ¬ Clean p o true := by
  have throws : initQueue p o true (.opened fd) = .error (.threw errno) s := by
    rw [initQueue_ok maps mapped, register, if_pos rfl]
    rfl
  exact not_clean_of_threw setup throws held closed

/-- The entries are not mapped, which nobody notices. -/
theorem not_clean_of_sqes {fd : Nat} {s : State} (setup : o.setup = .ok fd)
    (maps : mmapQueue p o (.opened fd) = .ok () s)
    (mapped : s.ring.sqRingPtr = .mapped .sqRing)
    (held : s.ring.ringFd = some fd) (closed : closes fd s = [.construct])
    (sqes : s.ring.sqSqes ≠ .mapped .sqes) :
    ¬ Clean p o usingRegisterRingFd := by
  cases usingRegisterRingFd with
  | false =>
      intro clean
      apply sqes
      apply (clean.usable s _).sqes
      rw [init_opened setup, initQueue_ok maps mapped]
      rfl
  | true =>
      cases register : o.register with
      | error errno =>
          exact not_clean_of_register setup maps mapped held closed register
      | ok offset =>
          intro clean
          let ring : Ring :=
            { s.ring with enterRingFd := some offset, registered := true }
          apply sqes
          apply (clean.usable { s with ring := ring } _).sqes
          rw [init_opened setup, initQueue_ok maps mapped, register, if_pos rfl]
          rfl

/-- Whatever fails behind `io_uring_setup`, the ring is not clean. -/
theorem not_clean_of_fails {fd : Nat} (setup : o.setup = .ok fd)
    (fails : o.fails p usingRegisterRingFd = true) :
    ¬ Clean p o usingRegisterRingFd := by
  by_cases maps : o.Maps p
  · have notAll := mt o.fails_eq_false.mpr (ne_false_of_eq_true fails)
    have isUsed : usingRegisterRingFd = true := by
      by_contra unused
      exact notAll ⟨maps, fun isUsed => absurd isUsed unused⟩
    subst isUsed
    cases register : o.register with
    | ok offset => exact absurd ⟨maps, fun _ => ⟨offset, register⟩⟩ notAll
    | error errno =>
        refine not_clean_of_register setup
          (mmapQueue_whole maps fd [(.descriptor fd, .construct)]) rfl rfl ?_
          register
        cases single : p.singleMmap <;>
          simp [closes, mappings, single]
  · have incomplete := mmapQueue_incomplete fd
      [(.descriptor fd, .construct)] maps
    change Incomplete fd (.opened fd) (mmapQueue p o (.opened fd)) at incomplete
    have opened : closes fd (.opened fd) = [.construct] := by
      simp [closes, State.opened]
    cases result : mmapQueue p o (.opened fd) with
    | ok _ s =>
        rw [result] at incomplete
        obtain ⟨sqes, mapped, held, closed⟩ := incomplete
        exact not_clean_of_sqes setup result mapped held (closed.trans opened)
          sqes
    | error failure s =>
        rw [result] at incomplete
        cases failure with
        | threw errno =>
            obtain ⟨held, closed⟩ := incomplete
            exact not_clean_of_threw setup (initQueue_error result) held
              (closed.trans opened)
        | crashed => exact not_clean_of_crashed setup (initQueue_error result)

/-- What the destructor gives back of a whole ring. -/
def returned (p : Params) (fd : Nat) : List Resource :=
  if p.singleMmap then
    [.region .sqes (p.sqEntries * 64), .region .sqRing (ringSizes p).1,
      .descriptor fd]
  else
    [.region .sqes (p.sqEntries * 64), .region .sqRing (ringSizes p).1,
      .region .cqRing (ringSizes p).2, .descriptor fd]

theorem destructEvents_whole (p : Params) (fd : Nat) :
    (Ring.whole p fd).destructEvents fd =
      (returned p fd).map fun resource => (resource, .destroy) := by
  cases single : p.singleMmap <;>
    simp [Ring.destructEvents, Ring.unmapEvents, unmapEvents, Ring.whole,
      returned, single]

theorem mappings_nodup (p : Params) (fd : Nat) :
    (Resource.descriptor fd :: mappings p).Nodup := by
  cases single : p.singleMmap <;> simp [mappings, single]

theorem returned_perm (p : Params) (fd : Nat) :
    (returned p fd).Perm (.descriptor fd :: mappings p) := by
  have nodup : (returned p fd).Nodup := by
    cases single : p.singleMmap <;> simp [returned, single]
  apply (List.perm_ext_iff_of_nodup nodup (mappings_nodup p fd)).mpr
  intro resource
  cases single : p.singleMmap with
  | true =>
      simp only [returned, mappings, single, if_true, List.mem_cons,
        List.not_mem_nil]
      tauto
  | false =>
      simp only [returned, mappings, single, Bool.false_eq_true, if_false,
        List.mem_cons, List.not_mem_nil]
      tauto

theorem initQueue_whole (maps : o.Maps p) (fd : Nat)
    (registers : usingRegisterRingFd = true →
      ∃ offset, o.register = .ok offset) :
    ∃ s enterRingFd,
      initQueue p o usingRegisterRingFd (.opened fd) = .ok () s ∧
        s.ring = { Ring.whole p fd with
          enterRingFd := enterRingFd
          registered := usingRegisterRingFd } ∧
        s.events = (.descriptor fd :: mappings p).map
          fun resource => (resource, .construct) := by
  have whole := mmapQueue_whole maps fd [(.descriptor fd, .construct)]
  change mmapQueue p o (.opened fd) = _ at whole
  cases usingRegisterRingFd with
  | false => exact ⟨_, some fd, initQueue_ok whole rfl, rfl, rfl⟩
  | true =>
      obtain ⟨offset, register⟩ := registers rfl
      have returns : initQueue p o true (.opened fd) = _ :=
        initQueue_ok whole rfl
      rw [register, if_pos rfl] at returns
      exact ⟨_, some offset, returns, rfl, rfl⟩

/-- A descriptor that is not opened leaves nothing to give back. -/
theorem clean_of_setup {errno : Nat} (setup : o.setup = .error errno) :
    Clean p o usingRegisterRingFd := by
  have throws : init p o usingRegisterRingFd State.new =
      .error (.threw errno) State.new := by
    simp [init, setup]
  constructor
  · intro s returns
    rw [throws] at returns
    contradiction
  · refine ⟨State.new, ?_, fun _ => .nil⟩
    rw [life, throws]
    rfl

/-- A ring whose system calls all succeed. -/
theorem clean_of_succeeds {fd : Nat} (setup : o.setup = .ok fd)
    (succeeds : o.fails p usingRegisterRingFd = false) :
    Clean p o usingRegisterRingFd := by
  obtain ⟨maps, registers⟩ := o.fails_eq_false.mp succeeds
  obtain ⟨s, enterRingFd, returns, ringEq, eventsEq⟩ :=
    initQueue_whole maps fd registers
  have inits : init p o usingRegisterRingFd State.new = .ok () s := by
    rw [init_opened setup, returns]
  constructor
  · intro last isLast
    rw [inits] at isLast
    obtain rfl := (EStateM.Result.ok.inj isLast).2
    rw [ringEq]
    refine ⟨rfl, ?_, rfl, rfl⟩
    cases single : p.singleMmap <;> simp [Ring.whole, single]
  · have held : s.ring.ringFd = some fd := by
      rw [ringEq]
      rfl
    have destructEq : s.ring.destructEvents fd =
        (returned p fd).map fun resource => (resource, .destroy) := by
      rw [ringEq]
      exact destructEvents_whole p fd
    refine ⟨{ s with events := s.events ++ s.ring.destructEvents fd }, ?_, ?_⟩
    · rw [life, inits]
      exact destruct_apply s held
    · rw [eventsEq, destructEq]
      exact balanced_of_perm (mappings_nodup p fd) (returned_perm p fd)

/-- A ring is clean if and only if `io_uring_setup` fails or nothing does. -/
theorem clean_iff (p : Params) (o : Outcomes) (usingRegisterRingFd : Bool) :
    Clean p o usingRegisterRingFd ↔
      (∃ errno, o.setup = .error errno) ∨
        o.fails p usingRegisterRingFd = false := by
  cases setup : o.setup with
  | error errno =>
      exact ⟨fun _ => .inl ⟨errno, rfl⟩, fun _ => clean_of_setup setup⟩
  | ok fd =>
      constructor
      · intro clean
        right
        by_contra fails
        exact not_clean_of_fails setup (eq_true_of_ne_false fails) clean
      · rintro (⟨_, isError⟩ | succeeds)
        · contradiction
        · exact clean_of_succeeds setup succeeds

end Lives

end CoContext.RingSetup
