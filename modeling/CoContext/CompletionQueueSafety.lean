import CoContext.CompletionQueue

/-!
# Every completion is taken once, in its order

The slots between the cursors hold the completions that were published and not
taken, whatever the kernel does between two steps of the reader.  An entry
that a function returns is the first of them, and stays so until the thread
takes it.
-/

namespace CoContext.CompletionQueue

variable {setup : Setup} {s t : State} {items : List CqEntry}

/-- What `__peek_cq_entry` found is still there. -/
structure Peeked.Fits (setup : Setup) (khead : UInt32) (items : List CqEntry)
    (peeked : Peeked) : Prop where
  cqe : ∀ cursor, peeked.cqe = some cursor →
    cursor = khead ∧ items ≠ [] ∧ peeked.err = 0 ∧ peeked.availableNum ≠ 0
  null : peeked.cqe = none → peeked.err = 0 → peeked.availableNum = 0
  errLe : peeked.err ≤ 0
  err : setup.extArg = true → peeked.err = 0

/-- The system call is made for entries that were missing, and twice only if
the kernel left too early. -/
structure Getter.Enters (getter : Getter) (peeked : Peeked) : Prop where
  errZero : peeked.err = 0
  missing : peeked.cqe = none ∧ getter.waitNum = 0 ∨
    peeked.availableNum < getter.waitNum
  again : getter.isLooped = true →
    getter.hasTs = false ∧ peeked.availableNum < getter.waitNum

/-- Where the reader is, relative to the head of the ring and what is in it. -/
def Reader.Fits (setup : Setup) (khead : UInt32) (items : List CqEntry) :
    Reader → Prop
  | .idle | .first _ => True
  | .peek getter => getter.err = 0
  | .decides getter peeked => getter.err = 0 ∧ peeked.Fits setup khead items
  | .enter getter peeked =>
      getter.err = 0 ∧ peeked.Fits setup khead items ∧ getter.Enters peeked
  | .forEach head _ => head = khead
  | .handle head _ => head = khead ∧ items ≠ []
  | .see head _ entry => head = khead ∧ items.head? = some entry

theorem Peeked.Fits.append {khead : UInt32} {peeked : Peeked}
    (fits : peeked.Fits setup khead items) (more : List CqEntry) :
    peeked.Fits setup khead (items ++ more) where
  cqe cursor cqeEq := by
    obtain ⟨cursorEq, nonempty, rest⟩ := fits.cqe cursor cqeEq
    exact ⟨cursorEq, List.append_ne_nil_of_left_ne_nil nonempty _, rest⟩
  null := fits.null
  errLe := fits.errLe
  err := fits.err

/-- The reader does not mind more entries. -/
theorem Reader.Fits.append {khead : UInt32} {reader : Reader}
    (fits : reader.Fits setup khead items) (more : List CqEntry) :
    reader.Fits setup khead (items ++ more) := by
  cases reader with
  | idle | first | peek | forEach => exact fits
  | decides getter peeked => exact ⟨fits.1, fits.2.append more⟩
  | enter getter peeked => exact ⟨fits.1, fits.2.1.append more, fits.2.2⟩
  | handle head count =>
      exact ⟨fits.1, List.append_ne_nil_of_left_ne_nil fits.2 _⟩
  | see head count entry =>
      refine ⟨fits.1, ?_⟩
      rw [List.head?_append, fits.2]
      rfl

/-- The published entries that were not taken are `items`. -/
structure Tracks (setup : Setup) (s : State) (items : List CqEntry) :
    Prop where
  ring : CursorRing setup.capacity s.cqes s.khead s.ktail items
  written : ∀ entry, s.writing = some entry →
    s.cqes (setup.capacity.slot s.ktail) = some entry ∧
      items.length < setup.capacity.slots ∧ s.backlog = []
  reader : s.reader.Fits setup s.khead items

/-- What is still to be taken. -/
def State.pending (s : State) (items : List CqEntry) : List CqEntry :=
  items ++ (s.writing.toList ++ s.backlog)

section Kernel

theorem new_tracks : Tracks setup State.new [] where
  ring := CursorRing.empty _ _
  written := by simp [State.new]
  reader := trivial

theorem Tracks.size_eq (tracks : Tracks setup s items) :
    (s.ktail - s.khead).toNat = items.length :=
  tracks.ring.size_eq

theorem Tracks.hasRoom_iff (tracks : Tracks setup s items) :
    s.HasRoom setup ↔ items.length < setup.capacity.slots := by
  rw [State.HasRoom, UInt32.lt_iff_toNat_lt, tracks.size_eq,
    RingCapacity.slots]

theorem Tracks.empty_iff (tracks : Tracks setup s items) :
    s.ktail - s.khead = 0 ↔ items = [] := by
  rw [← UInt32.toNat_inj, tracks.size_eq, UInt32.toNat_zero,
    List.length_eq_zero_iff]

theorem Tracks.head_ne_iff (tracks : Tracks setup s items) :
    s.khead ≠ s.ktail ↔ items ≠ [] := by
  have subEq : s.ktail - s.khead = 0 ↔ s.khead = s.ktail := by
    constructor
    · intro zero
      have sumEq : s.ktail = s.ktail - s.khead + s.khead :=
        (UInt32.sub_add_cancel _ _).symm
      rw [zero, UInt32.zero_add] at sumEq
      exact sumEq.symm
    · intro same
      rw [same, UInt32.sub_self]
  rw [Ne, ← subEq, tracks.empty_iff]

/-- The slot behind the last entry is written. -/
theorem Tracks.write (tracks : Tracks setup s items)
    (room : s.HasRoom setup) (noBacklog : s.backlog = []) (entry : CqEntry) :
    Tracks setup
      { s with
        cqes := Function.update s.cqes (setup.capacity.slot s.ktail)
          (some entry)
        writing := some entry } items where
  ring := by
    refine tracks.ring.congr ?_
    intro offset offsetLt
    exact Function.update_of_ne
      (tracks.ring.fresh (tracks.hasRoom_iff.mp room) offsetLt) ..
  written := by
    rintro other ⟨rfl⟩
    exact ⟨Function.update_self .., tracks.hasRoom_iff.mp room, noBacklog⟩
  reader := tracks.reader

theorem Tracks.publish (tracks : Tracks setup s items) {entry : CqEntry}
    (writing : s.writing = some entry) :
    Tracks setup { s with ktail := s.ktail + 1, writing := none }
      (items ++ [entry]) where
  ring := by
    obtain ⟨slotEq, room, _⟩ := tracks.written entry writing
    have pushed := tracks.ring.push room entry
    rwa [← slotEq, Function.update_eq_self] at pushed
  written := by simp
  reader := tracks.reader.append [entry]

theorem Tracks.flush (tracks : Tracks setup s items) {entry : CqEntry}
    {rest : List CqEntry} (idle : s.writing = none) (room : s.HasRoom setup) :
    Tracks setup
      { s with
        cqes := Function.update s.cqes (setup.capacity.slot s.ktail)
          (some entry)
        ktail := s.ktail + 1
        backlog := rest } (items ++ [entry]) where
  ring := tracks.ring.push (tracks.hasRoom_iff.mp room) entry
  written := by simp [idle]
  reader := tracks.reader.append [entry]

end Kernel

section Reader

theorem Tracks.goTo (tracks : Tracks setup s items) {reader : Reader}
    (fits : reader.Fits setup s.khead items) :
    Tracks setup (s.goTo reader).1 items where
  ring := tracks.ring
  written := tracks.written
  reader := fits

theorem Tracks.gives (tracks : Tracks setup s items) (cqe : Option UInt32)
    (err : Int) : Tracks setup (s.gives cqe err).1 items where
  ring := tracks.ring
  written := tracks.written
  reader := trivial

/-- The slot of the first entry is given back. -/
theorem Tracks.advance {entry : CqEntry}
    (tracks : Tracks setup s (entry :: items)) {reader : Reader}
    (fits : reader.Fits setup (s.khead + 1) items) :
    Tracks setup (s.cqAdvance.goTo reader).1 items where
  ring := tracks.ring.pop
  written other writing := by
    obtain ⟨slotEq, room, noBacklog⟩ := tracks.written other writing
    exact ⟨slotEq, Nat.lt_of_succ_lt room, noBacklog⟩
  reader := fits

theorem Tracks.cqeAt_head {entry : CqEntry}
    (tracks : Tracks setup s (entry :: items)) :
    s.cqeAt setup s.khead = some entry :=
  tracks.ring.front

/-- What `__peek_cq_entry` finds in a round of its loop. -/
inductive Peeks (setup : Setup) (s : State) (items : List CqEntry) :
    State × Option Peeked → Prop
  | empty {peeked : Peeked} : items = [] → peeked.Fits setup s.khead items →
      peeked.cqe = none → Peeks setup s items (s, some peeked)
  | found {entry : CqEntry} {rest : List CqEntry} {peeked : Peeked} :
      items = entry :: rest → State.isTimeout setup entry = false →
      peeked.Fits setup s.khead items → peeked.cqe.isSome →
      Peeks setup s items (s, some peeked)
  | failed {entry : CqEntry} {rest : List CqEntry} {peeked : Peeked} :
      items = entry :: rest → State.isTimeout setup entry = true →
      peeked.Fits setup (s.khead + 1) rest → peeked.cqe = none →
      Peeks setup s items (s.cqAdvance, some peeked)
  | skipped {entry : CqEntry} {rest : List CqEntry} :
      items = entry :: rest → State.isTimeout setup entry = true →
      Peeks setup s items (s.cqAdvance, none)

theorem not_extArg_of_isTimeout {entry : CqEntry}
    (isTimeout : State.isTimeout setup entry = true) :
    setup.extArg = false := by
  simp only [State.isTimeout, Bool.and_eq_true, Bool.not_eq_true'] at isTimeout
  exact isTimeout.1

theorem Tracks.peeks (tracks : Tracks setup s items) :
    ∃ result, s.peekCqEntry setup = some result ∧
      Peeks setup s items result := by
  cases items with
  | nil =>
      have zero := tracks.empty_iff.mpr rfl
      refine ⟨_, by rw [State.peekCqEntry, if_pos zero], .empty rfl ?_ rfl⟩
      exact ⟨by simp, fun _ _ => zero, Int.le_refl 0, fun _ => rfl⟩
  | cons entry rest =>
      have nonzero : s.ktail - s.khead ≠ 0 :=
        tracks.empty_iff.not.mpr (by simp)
      rw [State.peekCqEntry, if_neg nonzero, tracks.cqeAt_head]
      refine ⟨_, rfl, ?_⟩
      dsimp only
      by_cases isTimeout : State.isTimeout setup entry = true
      · rw [if_pos isTimeout]
        split
        next negative =>
          refine .failed rfl isTimeout
            ⟨by simp, ?_, Int.le_of_lt negative, ?_⟩ rfl
          · intro _ zero
            have resZero : entry.res = 0 := zero
            omega
          · intro extArg
            rw [not_extArg_of_isTimeout isTimeout] at extArg
            contradiction
        next => exact .skipped rfl isTimeout
      · rw [if_neg isTimeout]
        refine .found rfl (by simpa using isTimeout)
          ⟨?_, by simp, Int.le_refl 0, fun _ => rfl⟩ rfl
        rintro cursor ⟨rfl⟩
        exact ⟨rfl, by simp, rfl, nonzero⟩

/-- `wait_num` and `has_ts` of the function that the reader is in. -/
def Reader.waits : Reader → UInt32 × Bool
  | .first waitNum => (waitNum, false)
  | .peek getter | .decides getter _ | .enter getter _ =>
      (getter.waitNum, getter.hasTs)
  | _ => (0, false)

/-- What a function promises to its caller.  An error of the system call is
returned with the opposite sign. -/
structure Promised (setup : Setup) (s : State) (action : Action)
    (items : List CqEntry) (cqe : Option UInt32) (err : Int) : Prop where
  points : ∀ cursor, cqe = some cursor → cursor = s.khead ∧ items ≠ []
  null : cqe = none → err ≠ 0
  failed : s.reader.waits.1 ≤ 1 → err ≠ 0 → cqe = none
  positive : 0 < err → ∃ result < 0, action = .leave result ∧ err = -result
  negative : setup.extArg = true → err < 0 →
    (err = -eagain ∧ s.reader.waits.1 = 0) ∨
      (err = -etime ∧ s.reader.waits.2 = true)

/-- What a step of the reader gives. -/
structure Gives (setup : Setup) (s : State) (action : Action)
    (items : List CqEntry) (result : State × Option Return) : Prop where
  tracks : Tracks setup result.1 items
  kept : result.1.writing = s.writing ∧ result.1.backlog = s.backlog
  promised : ∀ cqe err, result.2 = some (cqe, err) →
    Promised setup s action items cqe err

theorem Tracks.gives_goTo (tracks : Tracks setup s items) {action : Action}
    {reader : Reader} (fits : reader.Fits setup s.khead items) :
    Gives setup s action items (s.goTo reader) where
  tracks := tracks.goTo fits
  kept := ⟨rfl, rfl⟩
  promised := by simp [State.goTo]

theorem Tracks.gives_gives (tracks : Tracks setup s items) {action : Action}
    {cqe : Option UInt32} {err : Int}
    (promised : Promised setup s action items cqe err) :
    Gives setup s action items (s.gives cqe err) where
  tracks := tracks.gives cqe err
  kept := ⟨rfl, rfl⟩
  promised := by
    rintro other otherErr ⟨⟩
    exact promised

/-- The decision whether to enter the kernel. -/
theorem Tracks.gives_decides (tracks : Tracks setup s items)
    {getter : Getter} {peeked : Peeked}
    (reader : s.reader = .decides getter peeked) :
    Gives setup s .run items (s.decides setup getter peeked) := by
  obtain ⟨errZero, fits⟩ : getter.err = 0 ∧
      peeked.Fits setup s.khead items := by
    have readerFits := tracks.reader
    rwa [reader] at readerFits
  have waits : s.reader.waits = (getter.waitNum, getter.hasTs) := by
    rw [reader]
    rfl
  have points : ∀ cursor, peeked.cqe = some cursor →
      cursor = s.khead ∧ items ≠ [] := by
    intro cursor cqeEq
    obtain ⟨cursorEq, nonempty, _⟩ := fits.cqe cursor cqeEq
    exact ⟨cursorEq, nonempty⟩
  simp only [State.decides, errZero, ite_true]
  by_cases peekedErr : peeked.err = 0
  · rw [if_neg (not_not_intro peekedErr)]
    cases cqeEq : peeked.cqe with
    | none =>
        have zero := fits.null cqeEq peekedErr
        by_cases noWait : getter.waitNum = 0
        · by_cases stays :
            (getter.isLooped || !s.isCqRingNeedEnter setup) = true
          · simp only [noWait, stays, Option.isNone_none, beq_self_eq_true,
              Bool.and_self, ite_true]
            refine tracks.gives_gives ⟨by simp, fun _ => by decide,
              fun _ _ => rfl, fun positive => ?_, fun _ _ => .inl ⟨rfl, ?_⟩⟩
            · exact absurd positive (by decide)
            · rw [waits, noWait]
          · have notLooped : getter.isLooped = false := by
              cases looped : getter.isLooped
              · rfl
              · simp [looped] at stays
            rw [if_neg (by simp [stays]), if_neg (by simp [noWait]),
              if_neg (by simp [notLooped])]
            refine tracks.gives_goTo ⟨errZero, fits, peekedErr,
              .inl ⟨cqeEq, noWait⟩, ?_⟩
            simp [notLooped]
        · have waitPos : peeked.availableNum < getter.waitNum := by
            rw [zero, UInt32.lt_iff_toNat_lt]
            have toNatNe : getter.waitNum.toNat ≠ 0 :=
              fun eq => noWait (UInt32.toNat_inj.mp eq)
            exact Nat.pos_of_ne_zero toNatNe
          rw [if_neg (by simp [noWait]), if_neg (by simp [waitPos])]
          by_cases timedOut : (getter.hasTs && getter.isLooped) = true
          · rw [if_pos timedOut]
            simp only [Option.isNone_none, and_self, ite_true]
            refine tracks.gives_gives ⟨by simp, fun _ => by decide,
              fun _ _ => rfl, fun positive => ?_, fun _ _ => .inr ⟨rfl, ?_⟩⟩
            · exact absurd positive (by decide)
            · rw [waits]
              exact (Bool.and_eq_true_iff.mp timedOut).1
          · rw [if_neg timedOut]
            refine tracks.gives_goTo ⟨errZero, fits, peekedErr,
              .inr waitPos, fun looped => ⟨?_, waitPos⟩⟩
            simpa [looped] using timedOut
    | some cursor =>
        have given : Gives setup s .run items (s.gives (some cursor) 0) := by
          refine tracks.gives_gives ⟨?_, by simp, ?_, by simp, by simp⟩
          · rintro other ⟨rfl⟩
            exact points cursor cqeEq
          · exact fun _ nonzero => absurd rfl nonzero
        by_cases short : peeked.availableNum < getter.waitNum
        · by_cases timedOut : (getter.hasTs && getter.isLooped) = true
          · simpa [short, timedOut] using given
          · rw [if_neg (by simp), if_neg (by simp [short]), if_neg timedOut]
            refine tracks.gives_goTo ⟨errZero, fits, peekedErr, .inr short,
              fun looped => ⟨?_, short⟩⟩
            simpa [looped] using timedOut
        · simpa [short] using given
  · -- A timeout of the library failed, and was taken.
    have isNull : peeked.cqe = none := by
      by_contra found
      obtain ⟨cursor, cqeEq⟩ := Option.ne_none_iff_exists'.mp found
      exact peekedErr (fits.cqe cursor cqeEq).2.2.1
    have errLe := fits.errLe
    rw [if_pos peekedErr, isNull]
    refine tracks.gives_gives ⟨by simp, fun _ => peekedErr, fun _ _ => rfl,
      fun positive => ?_, fun extArg _ => absurd (fits.err extArg) peekedErr⟩
    omega

/-- The return of the system call. -/
theorem Tracks.gives_leave (tracks : Tracks setup s items)
    {getter : Getter} {peeked : Peeked} {result : Int}
    (reader : s.reader = .enter getter peeked) (resultLe : result ≤ 0) :
    Gives setup s (.leave result) items (s.leave getter peeked result) := by
  obtain ⟨errZero, fits, enters⟩ : getter.err = 0 ∧
      peeked.Fits setup s.khead items ∧ getter.Enters peeked := by
    have readerFits := tracks.reader
    rwa [reader] at readerFits
  have waits : s.reader.waits = (getter.waitNum, getter.hasTs) := by
    rw [reader]
    rfl
  have points : ∀ cursor, peeked.cqe = some cursor →
      cursor = s.khead ∧ items ≠ [] := by
    intro cursor cqeEq
    obtain ⟨cursorEq, nonempty, _⟩ := fits.cqe cursor cqeEq
    exact ⟨cursorEq, nonempty⟩
  simp only [State.leave, errZero, ite_true]
  by_cases negative : result < 0
  · rw [if_pos negative]
    refine tracks.gives_gives ⟨points, fun _ => by omega, ?_,
      fun _ => ⟨result, negative, rfl, rfl⟩, fun _ below => by omega⟩
    intro fewWaited _
    by_contra found
    obtain ⟨cursor, cqeEq⟩ := Option.ne_none_iff_exists'.mp found
    have nonzero := (fits.cqe cursor cqeEq).2.2.2
    rw [waits, UInt32.le_iff_toNat_le] at fewWaited
    rcases enters.missing with ⟨isNull, _⟩ | short
    · rw [cqeEq] at isNull
      contradiction
    · rw [UInt32.lt_iff_toNat_lt] at short
      have zero : peeked.availableNum.toNat = 0 := by
        have one : (1 : UInt32).toNat = 1 := rfl
        rw [one] at fewWaited
        dsimp only at fewWaited
        omega
      exact nonzero (UInt32.toNat_inj.mp zero)
  · rw [if_neg negative]
    have resultZero : result = 0 := by omega
    cases cqeEq : peeked.cqe with
    | some cursor =>
        refine tracks.gives_gives ⟨?_, by simp, ?_, by simp, by simp⟩
        · rintro other ⟨rfl⟩
          exact points cursor cqeEq
        · exact fun _ nonzero => absurd rfl nonzero
    | none =>
        rw [if_neg (by simp)]
        split
        · exact tracks.gives_goTo errZero
        · exact tracks.gives_goTo resultZero

theorem Tracks.gives_advance {entry : CqEntry}
    (tracks : Tracks setup s (entry :: items)) {action : Action}
    {reader : Reader} (fits : reader.Fits setup (s.khead + 1) items) :
    Gives setup s action items (s.cqAdvance.goTo reader) where
  tracks := tracks.advance fits
  kept := ⟨rfl, rfl⟩
  promised := by simp [State.goTo]

/-- `__peek_cq_entry` takes the first entry if that is a timeout of the
library. -/
theorem Tracks.taken_peek (tracks : Tracks setup s items)
    (reading : (∃ waitNum, s.reader = .first waitNum) ∨
      ∃ getter, s.reader = .peek getter) :
    taken setup s .run = items.head?.filter (State.isTimeout setup) := by
  have skippedEq : taken setup s .run =
      if s.ktail - s.khead = 0 then none
      else (s.cqeAt setup s.khead).filter (State.isTimeout setup) := by
    rcases reading with ⟨waitNum, reader⟩ | ⟨getter, reader⟩
    · simp [taken, handled, skipped, reader]
    · simp [taken, handled, skipped, reader]
  cases items with
  | nil => rw [skippedEq, if_pos (tracks.empty_iff.mpr rfl)]; rfl
  | cons entry rest =>
      rw [skippedEq, if_neg (tracks.empty_iff.not.mpr (by simp)),
        tracks.cqeAt_head]
      rfl

/-- What the functions do with what `__peek_cq_entry` found. -/
theorem Tracks.gives_peek (tracks : Tracks setup s items)
    (reading : (∃ waitNum, s.reader = .first waitNum) ∨
      ∃ getter, s.reader = .peek getter)
    {again : State → State × Option Return}
    {goOn : State → Peeked → State × Option Return}
    {result : State × Option Return}
    (resultEq : (s.peekCqEntry setup).map (fun
      | (s, none) => again s
      | (s, some peeked) => goOn s peeked) = some result)
    (stays : ∀ rest : List CqEntry, ∃ reader : Reader,
      again s.cqAdvance = s.cqAdvance.goTo reader ∧
        reader.Fits setup (s.khead + 1) rest)
    (here : ∀ peeked, peeked.Fits setup s.khead items →
      Gives setup s .run items (goOn s peeked))
    (later : ∀ (peeked : Peeked) (rest : List CqEntry),
      peeked.cqe = none → peeked.Fits setup (s.khead + 1) rest →
        ∃ reader : Reader, goOn s.cqAdvance peeked =
          s.cqAdvance.goTo reader ∧ reader.Fits setup (s.khead + 1) rest) :
    ∃ rest, items = (taken setup s .run).toList ++ rest ∧
      Gives setup s .run rest result := by
  obtain ⟨found, foundEq, peeks⟩ := tracks.peeks
  rw [foundEq, Option.map_some, Option.some.injEq] at resultEq
  subst resultEq
  rw [tracks.taken_peek reading]
  cases peeks with
  | empty isEmpty fits _ =>
      subst isEmpty
      exact ⟨[], rfl, here _ fits⟩
  | found itemsEq notTimeout fits _ =>
      refine ⟨items, ?_, here _ fits⟩
      rw [itemsEq]
      simp [notTimeout]
  | @failed entry rest peeked itemsEq isTimeout fits isNull =>
      subst itemsEq
      obtain ⟨reader, goOnEq, readerFits⟩ := later peeked rest isNull fits
      refine ⟨rest, ?_, ?_⟩
      · rw [List.head?_cons, Option.filter_some_pos isTimeout]
        rfl
      · dsimp only
        rw [goOnEq]
        exact tracks.gives_advance readerFits
  | @skipped entry rest itemsEq isTimeout =>
      subst itemsEq
      obtain ⟨reader, againEq, readerFits⟩ := stays rest
      refine ⟨rest, ?_, ?_⟩
      · rw [List.head?_cons, Option.filter_some_pos isTimeout]
        rfl
      · dsimp only
        rw [againEq]
        exact tracks.gives_advance readerFits

/-- A step of the reader takes what it logs, from the front of the ring. -/
theorem Tracks.gives_run (tracks : Tracks setup s items)
    {result : State × Option Return} (runEq : s.run setup = some result) :
    ∃ rest, items = (taken setup s .run).toList ++ rest ∧
      Gives setup s .run rest result := by
  have readerFits := tracks.reader
  cases reader : s.reader with
  | idle => simp [State.run, reader] at runEq
  | enter getter peeked => simp [State.run, reader] at runEq
  | first waitNum =>
      simp only [State.run, reader] at runEq
      refine tracks.gives_peek (.inl ⟨waitNum, reader⟩) runEq ?_ ?_ ?_
      · exact fun _ => ⟨.first waitNum, rfl, trivial⟩
      · intro peeked fits
        split
        next success =>
          refine tracks.gives_gives ⟨?_, ?_, ?_, by simp, by simp⟩
          · intro cursor cqeEq
            obtain ⟨cursorEq, nonempty, _⟩ := fits.cqe cursor cqeEq
            exact ⟨cursorEq, nonempty⟩
          · intro isNull
            simp [isNull] at success
          · exact fun _ nonzero => absurd rfl nonzero
        next => exact tracks.gives_goTo rfl
      · intro peeked rest isNull _
        refine ⟨_, if_neg ?_, rfl⟩
        simp [isNull]
  | peek getter =>
      rw [reader] at readerFits
      simp only [State.run, reader] at runEq
      refine tracks.gives_peek (.inr ⟨getter, reader⟩) runEq ?_ ?_ ?_
      · exact fun _ => ⟨.peek getter, rfl, readerFits⟩
      · exact fun peeked fits => tracks.gives_goTo ⟨readerFits, fits⟩
      · exact fun peeked rest _ fits =>
          ⟨.decides getter peeked, rfl, readerFits, fits⟩
  | decides getter peeked =>
      simp only [State.run, reader, Option.some.injEq] at runEq
      subst runEq
      refine ⟨items, ?_, tracks.gives_decides reader⟩
      simp [taken, handled, skipped, reader]
  | forEach head count =>
      rw [reader] at readerFits
      obtain rfl : head = s.khead := readerFits
      simp only [State.run, reader] at runEq
      refine ⟨items, by simp [taken, handled, skipped, reader], ?_⟩
      by_cases more : s.khead ≠ s.ktail
      · rw [if_pos more, Option.some.injEq] at runEq
        subst runEq
        exact tracks.gives_goTo ⟨rfl, tracks.head_ne_iff.mp more⟩
      · rw [if_neg more, Option.some.injEq] at runEq
        subst runEq
        exact tracks.gives_goTo trivial
  | handle head count =>
      rw [reader] at readerFits
      obtain ⟨rfl, nonempty⟩ := readerFits
      obtain ⟨entry, rest, rfl⟩ := List.exists_cons_of_ne_nil nonempty
      simp only [State.run, reader] at runEq
      rw [tracks.cqeAt_head, Option.map_some, Option.some.injEq] at runEq
      subst runEq
      exact ⟨entry :: rest, by simp [taken, handled, skipped, reader],
        tracks.gives_goTo ⟨rfl, rfl⟩⟩
  | see head count entry =>
      rw [reader] at readerFits
      obtain ⟨rfl, front⟩ := readerFits
      obtain ⟨rest, rfl⟩ : ∃ rest, items = entry :: rest := by
        cases items with
        | nil => simp at front
        | cons other rest =>
            obtain rfl := Option.some.inj front
            exact ⟨rest, rfl⟩
      simp only [State.run, reader, Option.some.injEq] at runEq
      subst runEq
      exact ⟨rest, by simp [taken, handled, reader],
        tracks.gives_advance rfl⟩

end Reader

section Steps

/-- A step takes what it logs from the front of what is pending, and a
completion goes to its end. -/
structure Moves (setup : Setup) (s : State) (action : Action)
    (items : List CqEntry) (result : State × Option Return)
    (rest : List CqEntry) : Prop where
  order : s.pending items ++ (completed s action).toList =
    (taken setup s action).toList ++ result.1.pending rest
  tracks : Tracks setup result.1 rest
  promised : ∀ cqe err, result.2 = some (cqe, err) →
    Promised setup s action rest cqe err

theorem Gives.moves {action : Action} {rest : List CqEntry}
    {result : State × Option Return}
    (gives : Gives setup s action rest result)
    (noCompletion : completed s action = none)
    (takes : items = (taken setup s action).toList ++ rest) :
    Moves setup s action items result rest where
  order := by
    rw [noCompletion, State.pending, State.pending, takes, gives.kept.1,
      gives.kept.2, Option.toList_none, List.append_nil, List.append_assoc]
  tracks := gives.tracks
  promised := gives.promised

theorem Tracks.moves_call (tracks : Tracks setup s items) {action : Action}
    {reader : Reader} {result : State × Option Return}
    (callEq : s.call reader = some result)
    (fits : reader.Fits setup s.khead items)
    (noCompletion : completed s action = none)
    (takesNone : taken setup s action = none) :
    Moves setup s action items result items := by
  rw [State.call] at callEq
  split at callEq
  next =>
    obtain rfl := Option.some.inj callEq
    exact (tracks.gives_goTo fits).moves noCompletion (by simp [takesNone])
  next => contradiction

theorem Tracks.moves (tracks : Tracks setup s items) {action : Action}
    {result : State × Option Return}
    (stepEq : transition setup s action = some result) :
    ∃ rest, Moves setup s action items result rest := by
  cases action with
  | waitCqEntry | peekCqEntry =>
      exact ⟨items, tracks.moves_call stepEq trivial rfl rfl⟩
  | waitCqEntryNum waitNum | waitCqEntries waitNum =>
      exact ⟨items, tracks.moves_call stepEq rfl rfl rfl⟩
  | forEachCqe => exact ⟨items, tracks.moves_call stepEq rfl rfl rfl⟩
  | run =>
      obtain ⟨rest, takes, gives⟩ := tracks.gives_run stepEq
      exact ⟨rest, gives.moves rfl takes⟩
  | leave result' =>
      simp only [transition] at stepEq
      split at stepEq
      next getter peeked reader =>
        simp only [Option.ite_none_right_eq_some, Option.some.injEq] at stepEq
        obtain ⟨resultLe, rfl⟩ := stepEq
        exact ⟨items, (tracks.gives_leave reader resultLe).moves rfl rfl⟩
      next => contradiction
  | write entry =>
      simp only [transition, Option.ite_none_right_eq_some,
        Option.some.injEq] at stepEq
      obtain ⟨⟨idle, noBacklog, room⟩, rfl⟩ := stepEq
      refine ⟨items, ?_, tracks.write room noBacklog entry, by simp⟩
      simp [State.pending, idle, noBacklog, completed, taken, handled,
        skipped]
  | publish =>
      simp only [transition, Option.ite_none_right_eq_some,
        Option.some.injEq] at stepEq
      obtain ⟨writing, rfl⟩ := stepEq
      obtain ⟨entry, writing⟩ := Option.isSome_iff_exists.mp writing
      refine ⟨items ++ [entry], ?_, tracks.publish writing, by simp⟩
      simp [State.pending, writing, completed, taken, handled, skipped]
  | overflow entry =>
      simp only [transition, Option.ite_none_right_eq_some,
        Option.some.injEq] at stepEq
      obtain ⟨⟨idle, _⟩, rfl⟩ := stepEq
      refine ⟨items, ?_, ⟨tracks.ring, ?_, tracks.reader⟩, by simp⟩
      · simp [State.pending, idle, completed, taken, handled, skipped]
      · simp [idle]
  | flush =>
      simp only [transition] at stepEq
      split at stepEq
      next idle backlog =>
        simp only [Option.ite_none_right_eq_some, Option.some.injEq] at stepEq
        obtain ⟨room, rfl⟩ := stepEq
        refine ⟨_, ?_, tracks.flush idle room, by simp⟩
        simp [State.pending, idle, backlog, completed, taken, handled, skipped]
      next => contradiction
  | taskrun pending =>
      obtain rfl := Option.some.inj stepEq
      refine ⟨items, ?_, ⟨tracks.ring, tracks.written, tracks.reader⟩,
        by simp⟩
      simp [State.pending, completed, taken, handled, skipped]

end Steps

section Runs

/-- The completions between the cursors. -/
def State.published (setup : Setup) (s : State) : List CqEntry :=
  (List.range (s.ktail - s.khead).toNat).filterMap fun offset =>
    s.cqeAt setup (s.khead + UInt32.ofNat offset)

theorem Tracks.published_eq (tracks : Tracks setup s items) :
    s.published setup = items := by
  have contents := congrArg (List.filterMap id) tracks.ring.contents
  rw [List.filterMap_map, List.filterMap_map] at contents
  exact contents.trans List.filterMap_some

/-- The rounds that the loop of `for_each_cqe` made. -/
def Reader.count : Reader → UInt32
  | .forEach _ count | .handle _ count | .see _ count _ => count
  | _ => 0

theorem count_call {reader : Reader} {result : State × Option Return}
    (callEq : s.call reader = some result) (starts : reader.count = 0) :
    s.reader.count = 0 ∧ result.1.reader.count = 0 := by
  rw [State.call] at callEq
  split at callEq
  next idle =>
    obtain rfl := Option.some.inj callEq
    exact ⟨by rw [idle]; rfl, starts⟩
  next => contradiction

theorem count_decides (s : State) (getter : Getter) (peeked : Peeked) :
    (s.decides setup getter peeked).1.reader.count = 0 := by
  unfold State.decides
  dsimp only
  repeat' split
  all_goals rfl

theorem count_leave (s : State) (getter : Getter) (peeked : Peeked)
    (result : Int) : (s.leave getter peeked result).1.reader.count = 0 := by
  unfold State.leave
  repeat' split
  all_goals rfl

theorem count_peek {again : State → State × Option Return}
    {goOn : State → Peeked → State × Option Return}
    {result : State × Option Return}
    (resultEq : (s.peekCqEntry setup).map (fun
      | (s, none) => again s
      | (s, some peeked) => goOn s peeked) = some result)
    (againZero : ∀ s, (again s).1.reader.count = 0)
    (goOnZero : ∀ s peeked, (goOn s peeked).1.reader.count = 0) :
    result.1.reader.count = 0 := by
  obtain ⟨⟨found, peeked⟩, _, rfl⟩ := Option.map_eq_some_iff.mp resultEq
  cases peeked with
  | none => exact againZero found
  | some peeked => exact goOnZero found peeked

/-- The sum of what `for_each_cqe` returned. -/
def total (counts : List UInt32) : UInt32 :=
  UInt32.ofNat (counts.map UInt32.toNat).sum

theorem total_append (first second : List UInt32) :
    total (first ++ second) = total first + total second := by
  rw [total, List.map_append, List.sum_append, UInt32.ofNat_add]
  rfl

/-- A step of the reader counts what the handler is called for. -/
theorem count_run {result : State × Option Return}
    (runEq : s.run setup = some result) :
    total (polled s .run).toList + result.1.reader.count =
      s.reader.count + UInt32.ofNat (handled s .run).toList.length := by
  cases reader : s.reader with
  | idle => simp [State.run, reader] at runEq
  | enter getter peeked => simp [State.run, reader] at runEq
  | first waitNum =>
      simp only [State.run, reader] at runEq
      have zero := count_peek runEq (fun _ => rfl) (by
        intro s peeked
        split
        · rfl
        · rfl)
      rw [zero]
      simp [polled, handled, reader, total, Reader.count]
  | peek getter =>
      simp only [State.run, reader] at runEq
      have zero := count_peek runEq (fun _ => rfl) fun _ _ => rfl
      rw [zero]
      simp [polled, handled, reader, total, Reader.count]
  | decides getter peeked =>
      simp only [State.run, reader, Option.some.injEq] at runEq
      subst runEq
      rw [count_decides]
      simp [polled, handled, reader, total, Reader.count]
  | forEach head count =>
      simp only [State.run, reader] at runEq
      by_cases more : head = s.ktail
      · rw [if_neg (not_not_intro more), Option.some.injEq] at runEq
        subst runEq
        simp [polled, handled, reader, total, State.goTo, Reader.count, more]
      · rw [if_pos more, Option.some.injEq] at runEq
        subst runEq
        simp [polled, handled, reader, total, State.goTo, Reader.count, more]
  | handle head count =>
      simp only [State.run, reader] at runEq
      obtain ⟨entry, _, rfl⟩ := Option.map_eq_some_iff.mp runEq
      simp [polled, handled, reader, total, State.goTo, Reader.count]
  | see head count entry =>
      simp only [State.run, reader, Option.some.injEq] at runEq
      subst runEq
      simp [polled, handled, reader, total, State.goTo, Reader.count]

theorem count_transition {action : Action} {result : State × Option Return}
    (stepEq : transition setup s action = some result) :
    total (polled s action).toList + result.1.reader.count =
      s.reader.count + UInt32.ofNat (handled s action).toList.length := by
  have quiet : ∀ {reader : Reader}, s.call reader = some result →
      reader.count = 0 → polled s action = none → handled s action = none →
        total (polled s action).toList + result.1.reader.count =
          s.reader.count + UInt32.ofNat (handled s action).toList.length := by
    intro reader callEq starts noneP noneH
    obtain ⟨before, later⟩ := count_call callEq starts
    simp [noneP, noneH, before, later, total]
  cases action with
  | run => exact count_run stepEq
  | waitCqEntry | peekCqEntry | waitCqEntryNum | waitCqEntries | forEachCqe =>
      exact quiet stepEq rfl rfl rfl
  | leave =>
      simp only [transition] at stepEq
      split at stepEq
      next getter peeked reader =>
        simp only [Option.ite_none_right_eq_some, Option.some.injEq] at stepEq
        obtain ⟨_, rfl⟩ := stepEq
        rw [count_leave]
        simp [polled, handled, total, reader, Reader.count]
      next => contradiction
  | write | publish | overflow =>
      simp only [transition, Option.ite_none_right_eq_some,
        Option.some.injEq] at stepEq
      obtain ⟨_, rfl⟩ := stepEq
      simp [polled, handled, total]
  | flush =>
      simp only [transition] at stepEq
      split at stepEq
      next =>
        simp only [Option.ite_none_right_eq_some, Option.some.injEq] at stepEq
        obtain ⟨_, rfl⟩ := stepEq
        simp [polled, handled, total]
      next => contradiction
  | taskrun =>
      obtain rfl := Option.some.inj stepEq
      simp [polled, handled, total]

theorem isTimeout_of_skipped {action : Action} {entry : CqEntry}
    (skippedEq : skipped setup s action = some entry) :
    State.isTimeout setup entry = true := by
  have atHead : (s.cqeAt setup s.khead).filter (State.isTimeout setup) =
      some entry := by
    cases action with
    | run =>
        cases reader : s.reader with
        | first | peek =>
            simp only [skipped, reader] at skippedEq
            split at skippedEq
            next => contradiction
            next => exact skippedEq
        | _ => simp [skipped, reader] at skippedEq
    | _ => simp [skipped] at skippedEq
  exact (Option.filter_eq_some_iff.mp atHead).2

/-- `for_each_cqe` returns when the ring is empty. -/
theorem Tracks.empty_of_polled (tracks : Tracks setup s items)
    {action : Action} {count : UInt32}
    (polledEq : polled s action = some count) : items = [] := by
  cases action with
  | run =>
      cases reader : s.reader with
      | forEach head =>
          have fits := tracks.reader
          rw [reader] at fits
          obtain rfl : head = s.khead := fits
          simp only [polled, reader, Option.ite_none_right_eq_some] at polledEq
          by_contra nonempty
          exact tracks.head_ne_iff.mpr nonempty polledEq.1
      | _ => simp [polled, reader] at polledEq
  | _ => simp [polled] at polledEq

/-- What the reader and the kernel rely on. -/
structure Delivers (setup : Setup) (run : (system setup).Run) : Prop where
  inOrder : ∀ time ≤ run.length,
    run.log completed 0 time = run.log (taken setup) 0 time ++
      (run.state time).pending ((run.state time).published setup)
  skips : ∀ time < run.length, ∀ entry,
    skipped setup (run.state time) (run.action time) = some entry →
      setup.extArg = false ∧ entry.userData = udataTimeout
  drained : ∀ time < run.length, ∀ count,
    polled (run.state time) (run.action time) = some count →
      (run.state time).published setup = []
  counted : ∀ time ≤ run.length,
    total (run.log polled 0 time) + (run.state time).reader.count =
      UInt32.ofNat (run.log handled 0 time).length
  promised : ∀ time < run.length, ∀ cqe err,
    returned setup (run.state time) (run.action time) = some (cqe, err) →
      Promised setup (run.state time) (run.action time)
        ((run.state (time + 1)).published setup) cqe err
  fails : ∀ time < run.length, ∀ result < 0,
    run.action time = .leave result → ∃ cqe,
      returned setup (run.state time) (run.action time) = some (cqe, -result)
  enters : ∀ time ≤ run.length, ∀ getter peeked,
    (run.state time).reader = .enter getter peeked → getter.Enters peeked

/-- A system call that fails ends the function, which returns the error with
the opposite sign. -/
theorem Tracks.returned_of_fails (tracks : Tracks setup s items) {result : Int}
    (negative : result < 0) (stepEq : step setup s (.leave result) = some t) :
    ∃ cqe, returned setup s (.leave result) = some (cqe, -result) := by
  cases reader : s.reader with
  | enter getter peeked =>
      have fits := tracks.reader
      rw [reader] at fits
      obtain ⟨errZero, _⟩ := fits
      refine ⟨peeked.cqe, ?_⟩
      simp only [returned, transition, reader, State.leave, State.gives,
        if_pos negative, if_pos (Int.le_of_lt negative), if_pos errZero,
        Option.bind_some]
  | _ => simp [step, transition, reader] at stepEq

theorem transition_of_step {action : Action}
    (stepEq : step setup s action = some t) :
    ∃ ret, transition setup s action = some (t, ret) := by
  obtain ⟨⟨_, ret⟩, transitionEq, rfl⟩ := Option.map_eq_some_iff.mp stepEq
  exact ⟨ret, transitionEq⟩

theorem tracks_of_run (run : (system setup).Run) {time : Nat}
    (timeLe : time ≤ run.length) :
    ∃ items, Tracks setup (run.state time) items ∧
      run.log completed 0 time = run.log (taken setup) 0 time ++
        (run.state time).pending items := by
  induction time with
  | zero =>
      have starts : run.state 0 = State.new := run.starts
      refine ⟨[], ?_, ?_⟩
      · rw [starts]
        exact new_tracks
      · rw [run.log_self, run.log_self, starts]
        rfl
  | succ time ih =>
      obtain ⟨items, tracks, order⟩ := ih (Nat.le_of_succ_le timeLe)
      obtain ⟨ret, stepEq⟩ := transition_of_step (run.steps time timeLe)
      obtain ⟨rest, moves⟩ := tracks.moves stepEq
      refine ⟨rest, moves.tracks, ?_⟩
      rw [run.log_next, run.log_next, order, List.append_assoc, moves.order,
        List.append_assoc]

theorem counted_of_run (run : (system setup).Run) {time : Nat}
    (timeLe : time ≤ run.length) :
    total (run.log polled 0 time) + (run.state time).reader.count =
      UInt32.ofNat (run.log handled 0 time).length := by
  induction time with
  | zero =>
      have starts : run.state 0 = State.new := run.starts
      rw [run.log_self, run.log_self, starts]
      rfl
  | succ time ih =>
      obtain ⟨ret, stepEq⟩ := transition_of_step (run.steps time timeLe)
      have counts := count_transition stepEq
      rw [run.log_next, run.log_next, total_append, List.length_append,
        UInt32.ofNat_add, ← ih (Nat.le_of_succ_le timeLe), UInt32.add_assoc,
        counts, UInt32.add_assoc]

/-- The completions of the kernel are taken once, in their order, whatever
runs at the same time. -/
theorem run_delivers (setup : Setup) (run : (system setup).Run) :
    Delivers setup run where
  inOrder time timeLe := by
    obtain ⟨items, tracks, order⟩ := tracks_of_run run timeLe
    rw [tracks.published_eq, order]
  skips time timeLt entry skippedEq := by
    have isTimeout := isTimeout_of_skipped skippedEq
    refine ⟨not_extArg_of_isTimeout isTimeout, ?_⟩
    simp only [State.isTimeout, Bool.and_eq_true, beq_iff_eq] at isTimeout
    exact isTimeout.2
  drained time timeLt count polledEq := by
    obtain ⟨items, tracks, _⟩ := tracks_of_run run (Nat.le_of_lt timeLt)
    rw [tracks.published_eq]
    exact tracks.empty_of_polled polledEq
  counted time timeLe := counted_of_run run timeLe
  promised time timeLt cqe err returnedEq := by
    obtain ⟨items, tracks, _⟩ := tracks_of_run run (Nat.le_of_lt timeLt)
    obtain ⟨ret, stepEq⟩ := transition_of_step (run.steps time timeLt)
    obtain ⟨rest, moves⟩ := tracks.moves stepEq
    rw [moves.tracks.published_eq]
    rw [returned, stepEq, Option.bind_some] at returnedEq
    exact moves.promised cqe err returnedEq
  fails time timeLt result negative actionEq := by
    obtain ⟨items, tracks, _⟩ := tracks_of_run run (Nat.le_of_lt timeLt)
    have stepEq := run.steps time timeLt
    rw [actionEq] at stepEq ⊢
    exact tracks.returned_of_fails negative stepEq
  enters time timeLe getter peeked reader := by
    obtain ⟨items, tracks, _⟩ := tracks_of_run run timeLe
    have fits := tracks.reader
    rw [reader] at fits
    exact fits.2.2

end Runs

end CoContext.CompletionQueue
