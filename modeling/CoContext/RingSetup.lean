import CoContext.SlotLifetimes
import Mathlib.Tactic.Basic

/-!
# The resources of a ring

`init` opens the descriptor of a ring, maps its queues and registers the
descriptor; the destructor gives all of them back.  Each system call may fail.
A mapping that fails is `ERR_PTR(-errno)`, which the source compares with
`MAP_FAILED`.
-/

namespace CoContext.RingSetup

inductive Region
  | sqRing
  | cqRing
  | sqes
  deriving DecidableEq

/-- What the process has to give back. -/
inductive Resource
  | descriptor (fd : Nat)
  | region (region : Region) (size : Nat)
  deriving DecidableEq

inductive Pointer
  | null
  /-- `ERR_PTR(-errno)` -/
  | error (errno : Nat)
  | mapped (region : Region)
  deriving DecidableEq

/-- `MAP_FAILED` is the address -1. -/
def mapFailed : Pointer :=
  .error 1

/-- What the kernel tells of the shape of a ring.  A ring holds the number of
its entries itself, too. -/
structure Params where
  sqEntries : Nat
  cqEntries : Nat
  sqOffArray : Nat
  cqOffCqes : Nat
  /-- `IORING_FEAT_SINGLE_MMAP` -/
  singleMmap : Bool

/-- What the system calls return, with the number of an error. -/
structure Outcomes where
  setup : Except Nat Nat
  sqRing : Except Nat Unit
  cqRing : Except Nat Unit
  sqes : Except Nat Unit
  register : Except Nat Nat

structure Ring where
  /-- A descriptor of -1 is `none`. -/
  ringFd : Option Nat
  enterRingFd : Option Nat
  registered : Bool
  sqRingPtr : Pointer
  sqRingSz : Nat
  sqRingEntries : Nat
  sqSqes : Pointer
  cqRingPtr : Pointer
  cqRingSz : Nat

structure State where
  ring : Ring
  events : List (Resource × Lifetime)

/-- How a function ends that does not return. -/
inductive Failure
  | threw (errno : Nat)
  /-- It accesses memory that is not mapped. -/
  | crashed
  deriving DecidableEq

abbrev Setup :=
  EStateM Failure State

/-- An object that is constructed. -/
def State.new : State where
  ring :=
    { ringFd := none
      enterRingFd := none
      registered := false
      sqRingPtr := .null
      sqRingSz := 0
      sqRingEntries := 0
      sqSqes := .null
      cqRingPtr := .null
      cqRingSz := 0 }
  events := []

/-- The members behind `memset` and the assignments of `init`. -/
def Ring.opened (fd : Nat) : Ring :=
  { State.new.ring with ringFd := some fd, enterRingFd := some fd }

def record (resource : Resource) (event : Lifetime) : Setup Unit :=
  modify fun s => { s with events := s.events ++ [(resource, event)] }

def setRing (change : Ring → Ring) : Setup Unit :=
  modify fun s => { s with ring := change s.ring }

def getRing : Setup Ring := do
  return (← get).ring

/-- `__sys_mmap` -/
def sysMmap (region : Region) (size : Nat) :
    Except Nat Unit → Setup Pointer
  | .ok () => do
      record (.region region size) .construct
      return .mapped region
  | .error errno => return .error errno

/-- `__sys_munmap`, which fails for addresses that are not those of a page. -/
def sysMunmap (pointer : Pointer) (size : Nat) : Setup Unit :=
  match pointer with
  | .mapped region => record (.region region size) .destroy
  | .null | .error _ => return

/-- `__sys_close` -/
def sysClose (fd : Nat) : Setup Unit :=
  record (.descriptor fd) .destroy

def unmapRings : Setup Unit := do
  let ring ← getRing
  sysMunmap ring.sqRingPtr ring.sqRingSz
  if ring.cqRingPtr ≠ .null ∧ ring.cqRingPtr ≠ ring.sqRingPtr then
    sysMunmap ring.cqRingPtr ring.cqRingSz

/-- An access to memory at an offset of the pointer. -/
def access (pointer : Pointer) : Setup Unit :=
  match pointer with
  | .mapped _ => return
  | .null | .error _ => throw .crashed

/-- `submission_queue::set_offset` reads the number of entries. -/
def sqSetOffset (p : Params) : Setup Unit := do
  access (← getRing).sqRingPtr
  setRing fun ring => { ring with sqRingEntries := p.sqEntries }

/-- `completion_queue::set_offset` -/
def cqSetOffset : Setup Unit := do
  access (← getRing).cqRingPtr

/-- The sizes of the rings, which are equal if they are mapped together. -/
def ringSizes (p : Params) : Nat × Nat :=
  let sqRingSz := p.sqOffArray + p.sqEntries * 4
  let cqRingSz := p.cqOffCqes + p.cqEntries * 16
  if p.singleMmap then (max sqRingSz cqRingSz, max sqRingSz cqRingSz)
  else (sqRingSz, cqRingSz)

/-- The mapping of the completion ring. -/
def mmapCqRing (p : Params) (o : Outcomes) (cqRingSz : Nat) : Setup Unit := do
  if p.singleMmap then
    setRing fun ring => { ring with cqRingPtr := ring.sqRingPtr }
  else
    let pointer ← sysMmap .cqRing cqRingSz o.cqRing
    if pointer = mapFailed then
      setRing fun ring => { ring with cqRingPtr := .null }
      unmapRings
      throw (.threw 1)
    setRing fun ring => { ring with cqRingPtr := pointer }

/-- `mmap_queue`, where an exception carries some number of an error. -/
def mmapQueue (p : Params) (o : Outcomes) : Setup Unit := do
  let (sqRingSz, cqRingSz) := ringSizes p
  let pointer ← sysMmap .sqRing sqRingSz o.sqRing
  setRing fun ring => { ring with
    sqRingSz := sqRingSz
    cqRingSz := cqRingSz
    sqRingPtr := pointer }
  if pointer = mapFailed then throw (.threw 1)
  mmapCqRing p o cqRingSz
  sqSetOffset p
  let pointer ← sysMmap .sqes (p.sqEntries * 64) o.sqes
  setRing fun ring => { ring with sqSqes := pointer }
  if pointer = mapFailed then
    unmapRings
    throw (.threw 1)
  cqSetOffset

/-- `register_ring_fd` -/
def registerRingFd : Except Nat Nat → Setup Unit
  | .ok offset =>
      setRing fun ring => { ring with
        enterRingFd := some offset
        registered := true }
  | .error errno => throw (.threw errno)

/-- The block of `init` whose exceptions are caught. -/
def initQueue (p : Params) (o : Outcomes) (usingRegisterRingFd : Bool) :
    Setup Unit := do
  mmapQueue p o
  access (← getRing).sqRingPtr
  if usingRegisterRingFd then registerRingFd o.register

def init (p : Params) (o : Outcomes) (usingRegisterRingFd : Bool) :
    Setup Unit :=
  match o.setup with
  | .error errno => throw (.threw errno)
  | .ok fd => do
      record (.descriptor fd) .construct
      setRing fun _ => .opened fd
      tryCatch (initQueue p o usingRegisterRingFd) fun failure => do
        if failure ≠ .crashed then sysClose fd
        throw failure

/-- The destructor. -/
def destruct : Setup Unit := do
  let ring ← getRing
  match ring.ringFd with
  | none => return
  | some fd =>
      sysMunmap ring.sqSqes (ring.sqRingEntries * 64)
      unmapRings
      sysClose fd

/-- A ring that can be used. -/
structure Ring.Usable (ring : Ring) (usingRegisterRingFd : Bool) : Prop where
  sqRing : ring.sqRingPtr = .mapped .sqRing
  cqRing : ring.cqRingPtr = .mapped .cqRing ∨
    ring.cqRingPtr = .mapped .sqRing
  sqes : ring.sqSqes = .mapped .sqes
  registered : ring.registered = usingRegisterRingFd

/-- What the life of a ring leaves: `init`, and the destructor in any case. -/
def life (p : Params) (o : Outcomes) (usingRegisterRingFd : Bool) :
    EStateM.Result Failure State Unit :=
  match init p o usingRegisterRingFd State.new with
  | .ok _ s | .error (.threw _) s => destruct s
  | .error .crashed s => .error .crashed s

/-- `init` gives a ring that can be used or an exception, and each resource is
given back once. -/
structure Clean (p : Params) (o : Outcomes) (usingRegisterRingFd : Bool) :
    Prop where
  usable : ∀ s, init p o usingRegisterRingFd State.new = .ok () s →
    s.ring.Usable usingRegisterRingFd
  balanced : ∃ s, life p o usingRegisterRingFd = .ok () s ∧
    Lifetime.Balanced s.events

/-- A system call behind `io_uring_setup` fails. -/
def Outcomes.fails (o : Outcomes) (p : Params) (usingRegisterRingFd : Bool) :
    Bool :=
  !o.sqRing.isOk || (!p.singleMmap && !o.cqRing.isOk) || !o.sqes.isOk ||
    (usingRegisterRingFd && !o.register.isOk)

end CoContext.RingSetup
