import CoContext.CursorRing
import CoContext.TransitionSystem

/-!
# The completion ring

The kernel posts completions at the tail of a ring, at any time, and keeps
those for which there is no room in a backlog.  One thread reads the ring from
its head: `for_each_cqe` calls a handler on each entry, which copies the entry
and then gives its slot back, and `wait_cq_entry`, `peek_cq_entry` and their
relatives return the first entry or an error, for which they may enter the
kernel.  All of these have nothing to submit.

A pointer to an entry is the cursor that leads to it.
-/

namespace CoContext.CompletionQueue

structure CqEntry where
  userData : UInt64
  res : Int
  deriving DecidableEq

/-- `LIBURING_UDATA_TIMEOUT` -/
def udataTimeout : UInt64 := -1

def eagain : Int := 11

def etime : Int := 62

/-- `__peek_cq_entry_return_type` -/
structure Peeked where
  cqe : Option UInt32
  availableNum : UInt32
  err : Int

/-- What `_get_cq_entry` is called with, and its variables. -/
structure Getter where
  waitNum : UInt32
  hasTs : Bool
  isLooped : Bool
  err : Int

/-- Where the thread is that reads the ring. -/
inductive Reader
  | idle
  /-- In the `__peek_cq_entry` of `wait_cq_entry` or `peek_cq_entry`. -/
  | first (waitNum : UInt32)
  | peek (getter : Getter)
  | decides (getter : Getter) (peeked : Peeked)
  /-- In the system call. -/
  | enter (getter : Getter) (peeked : Peeked)
  | forEach (head count : UInt32)
  | handle (head count : UInt32)
  /-- The handler copied the entry, and calls `seen_cq_entry`. -/
  | see (head count : UInt32) (entry : CqEntry)

structure State where
  khead : UInt32
  ktail : UInt32
  cqes : Nat → Option CqEntry
  /-- The entry that the kernel wrote behind the tail. -/
  writing : Option CqEntry
  backlog : List CqEntry
  taskrun : Bool
  reader : Reader

inductive Action
  | waitCqEntry
  | peekCqEntry
  | waitCqEntryNum (waitNum : UInt32)
  | waitCqEntries (waitNum : UInt32)
  | forEachCqe
  | run
  /-- The system call returns. -/
  | leave (result : Int)
  | write (entry : CqEntry)
  | publish
  | overflow (entry : CqEntry)
  | flush
  | taskrun (pending : Bool)
  deriving DecidableEq

instance : Inhabited Action :=
  ⟨.run⟩

/-- What a function returns that gets an entry: the entry and the error. -/
abbrev Return := Option UInt32 × Int

/-- The number of slots, `features & IORING_FEAT_EXT_ARG` and
`uring_flags & IORING_SETUP_IOPOLL`. -/
structure Setup where
  capacity : RingCapacity
  extArg : Bool
  iopoll : Bool

namespace State

variable (setup : Setup) (s : State)

def new : State where
  khead := 0
  ktail := 0
  cqes _ := none
  writing := none
  backlog := []
  taskrun := false
  reader := .idle

/-- `cqe_at` -/
def cqeAt (cursor : UInt32) : Option CqEntry :=
  s.cqes (setup.capacity.slot cursor)

/-- `is_cq_ring_need_enter` -/
def isCqRingNeedEnter : Bool :=
  setup.iopoll || !s.backlog.isEmpty || s.taskrun

/-- `cq_advance` by one. -/
def cqAdvance : State :=
  { s with khead := s.khead + 1 }

/-- The entry at the head is a timeout of the library. -/
def isTimeout (entry : CqEntry) : Bool :=
  !setup.extArg && entry.userData == udataTimeout

/-- The body of the loop of `__peek_cq_entry`, which goes on if there is no
result. -/
def peekCqEntry : Option (State × Option Peeked) :=
  let availableNum := s.ktail - s.khead
  if availableNum = 0 then
    some (s, some { cqe := none, availableNum := availableNum, err := 0 })
  else
    (s.cqeAt setup s.khead).map fun entry =>
      if isTimeout setup entry then
        if entry.res < 0 then
          (s.cqAdvance, some
            { cqe := none, availableNum := availableNum, err := entry.res })
        else (s.cqAdvance, none)
      else
        (s, some { cqe := some s.khead, availableNum := availableNum, err := 0 })

def goTo (reader : Reader) : State × Option Return :=
  ({ s with reader := reader }, none)

/-- The function returns. -/
def gives (cqe : Option UInt32) (err : Int) : State × Option Return :=
  ({ s with reader := .idle }, some (cqe, err))

/-- `_get_cq_entry` from `__peek_cq_entry` to the system call. -/
def decides (getter : Getter) (peeked : Peeked) : State × Option Return :=
  let nothing := peeked.cqe.isNone && getter.waitNum == 0
  if peeked.err ≠ 0 then
    s.gives peeked.cqe (if getter.err = 0 then peeked.err else getter.err)
  else if nothing && (getter.isLooped || !s.isCqRingNeedEnter setup) then
    s.gives peeked.cqe (if getter.err = 0 then -eagain else getter.err)
  else if !nothing && !(peeked.availableNum < getter.waitNum) then
    s.gives peeked.cqe getter.err
  else if getter.hasTs && getter.isLooped then
    s.gives peeked.cqe
      (if peeked.cqe.isNone ∧ getter.err = 0 then -etime else getter.err)
  else s.goTo (.enter getter peeked)

/-- `_get_cq_entry` behind the system call. -/
def leave (getter : Getter) (peeked : Peeked) (result : Int) :
    State × Option Return :=
  if result < 0 then
    s.gives peeked.cqe (if getter.err = 0 then -result else getter.err)
  else if peeked.cqe.isSome then s.gives peeked.cqe getter.err
  else if getter.isLooped then s.goTo (.peek getter)
  else s.goTo (.peek { getter with isLooped := true, err := result })

/-- What the thread does next. -/
def run : Option (State × Option Return) :=
  match s.reader with
  | .idle | .enter _ _ => none
  | .first waitNum =>
      (s.peekCqEntry setup).map fun
        | (s, none) => s.goTo (.first waitNum)
        | (s, some peeked) =>
            if peeked.err = 0 ∧ peeked.cqe.isSome then s.gives peeked.cqe 0
            else
              s.goTo (.peek
                { waitNum := waitNum, hasTs := false, isLooped := false
                  err := 0 })
  | .peek getter =>
      (s.peekCqEntry setup).map fun
        | (s, none) => s.goTo (.peek getter)
        | (s, some peeked) => s.goTo (.decides getter peeked)
  | .decides getter peeked => some (s.decides setup getter peeked)
  | .forEach head count =>
      if head ≠ s.ktail then some (s.goTo (.handle head count))
      else some (s.goTo .idle)
  | .handle head count =>
      (s.cqeAt setup head).map fun entry => s.goTo (.see head count entry)
  | .see head count _ => some (s.cqAdvance.goTo (.forEach (head + 1) (count + 1)))

/-- A function is called. -/
def call (reader : Reader) : Option (State × Option Return) :=
  match s.reader with
  | .idle => some (s.goTo reader)
  | _ => none

/-- The slot behind the last entry is free. -/
def HasRoom : Prop :=
  s.ktail - s.khead < setup.capacity.value

instance : Decidable (s.HasRoom setup) :=
  inferInstanceAs (Decidable (_ < _))

end State

variable (setup : Setup)

/-- A step, with what a function returns in it.  A system call that submits
nothing returns zero or an error. -/
def transition (s : State) : Action → Option (State × Option Return)
  | .waitCqEntry => s.call (.first 1)
  | .peekCqEntry => s.call (.first 0)
  | .waitCqEntryNum waitNum =>
      s.call (.peek
        { waitNum := waitNum, hasTs := false, isLooped := false, err := 0 })
  | .waitCqEntries waitNum =>
      s.call (.peek
        { waitNum := waitNum, hasTs := true, isLooped := false, err := 0 })
  | .forEachCqe => s.call (.forEach s.khead 0)
  | .run => s.run setup
  | .leave result =>
      match s.reader with
      | .enter getter peeked =>
          if result ≤ 0 then some (s.leave getter peeked result) else none
      | _ => none
  | .write entry =>
      if s.writing = none ∧ s.backlog = [] ∧ s.HasRoom setup then
        some ({ s with
          cqes := Function.update s.cqes (setup.capacity.slot s.ktail)
            (some entry)
          writing := some entry }, none)
      else none
  | .publish =>
      if s.writing.isSome then
        some ({ s with ktail := s.ktail + 1, writing := none }, none)
      else none
  | .overflow entry =>
      if s.writing = none ∧ (s.backlog ≠ [] ∨ ¬s.HasRoom setup) then
        some ({ s with backlog := s.backlog ++ [entry] }, none)
      else none
  | .flush =>
      match s.writing, s.backlog with
      | none, entry :: rest =>
          if s.HasRoom setup then
            some ({ s with
              cqes := Function.update s.cqes (setup.capacity.slot s.ktail)
                (some entry)
              ktail := s.ktail + 1
              backlog := rest }, none)
          else none
      | _, _ => none
  | .taskrun pending => some ({ s with taskrun := pending }, none)

def step (s : State) (action : Action) : Option State :=
  (transition setup s action).map Prod.fst

def system : TransitionSystem State Action where
  initial s := s = State.new
  step := step setup

/-- What a step returns to the caller of a function that gets an entry. -/
def returned (s : State) (action : Action) : Option Return :=
  (transition setup s action).bind Prod.snd

/-- A completion of the kernel. -/
def completed (_ : State) : Action → Option CqEntry
  | .write entry | .overflow entry => some entry
  | _ => none

/-- The entry that the handler of `for_each_cqe` copied. -/
def handled (s : State) : Action → Option CqEntry
  | .run =>
      match s.reader with
      | .see _ _ entry => some entry
      | _ => none
  | _ => none

/-- The timeout of the library that `__peek_cq_entry` skips. -/
def skipped (s : State) : Action → Option CqEntry
  | .run =>
      match s.reader with
      | .first _ | .peek _ =>
          if s.ktail - s.khead = 0 then none
          else (s.cqeAt setup s.khead).filter (State.isTimeout setup)
      | _ => none
  | _ => none

/-- The entry whose slot is given back. -/
def taken (s : State) (action : Action) : Option CqEntry :=
  (handled s action).or (skipped setup s action)

/-- The number that `for_each_cqe` returns. -/
def polled (s : State) : Action → Option UInt32
  | .run =>
      match s.reader with
      | .forEach head count => if head = s.ktail then some count else none
      | _ => none
  | _ => none

end CoContext.CompletionQueue
