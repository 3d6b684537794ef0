import Es3Recomp.Guarantees.SerialPorts.Opening

/-!
# A handle stands for one port, and a port is alone behind its handle

The hooks know the emulated ports by their handles. As long as Windows makes no handle that is
still open, each call on a handle reaches the device whose open returned it, for ever, and
every other call reaches Windows: the board and the reader go through the process as each would
alone, with the calls on its own handle (src/src/runtime/hle_callback.c:789-805).
-/
namespace Es3Recomp.Guarantees.SerialPorts
open Library Library.Liveness Source.SerialPorts
open Source.Writes hiding step
open Source.CardReader (World)
open Source.Jvs (Word Effect Machine Env)

variable {settings : Settings} {world : World}

/-! ## A run: the handles -/

/-- What the handles are in a state, and what the history says they are. -/
structure Inv (settings : Settings) (s : State) (history : List Entry) : Prop where
  ready : Ready s
  opened : ∀ d h, Owns s d h ↔ Opened history d h
  apart : Apart s
  live : ∀ d h, Owns s d h → Live given closed history h
  windows : ∀ d h, Owns s d h → ¬ Live givenByWindows closed history h
  on : ∀ d h, Owns s d h → settings.noCom = false

theorem opened_concat {history : List Entry} {x : Entry} {d : Device} {h : Word} :
    Opened (history ++ [x]) d h ↔ Opened history d h ∨ openedBy d x h := by
  simp only [Opened, List.mem_append, List.mem_singleton, or_and_right, exists_or, exists_eq_left]

theorem openedBy_not {x : Entry} (other : ∀ o, x.event ≠ .createFile o) (d : Device) (h : Word) :
    ¬ openedBy d x h := fun ⟨o, event, _⟩ => other o event

theorem given_not {x : Entry} (other : ∀ o, x.event ≠ .createFile o) (h : Word) :
    given x ≠ some h ∧ givenByWindows x ≠ some h := by
  obtain ⟨e, out, outcome⟩ := x
  cases e with
  | createFile o => exact absurd rfl (other o)
  | _ => exact ⟨nofun, nofun⟩

theorem owns_of_sameHandles {s s' : State} (same : ∀ d, handle s' d = handle s d) (d : Device)
    (h : Word) : Owns s' d h ↔ Owns s d h := by
  rw [Owns, Owns, same]

theorem handle_of_sameHandles {s s' : State} (same : SameHandles s s') (d : Device) :
    handle s' d = handle s d := by
  cases d <;> simp only [handle, same.1]

theorem ready_of_sameHandles {s s' : State} (same : SameHandles s s') (ready : Ready s) :
    Ready s' := by
  constructor
  · rw [same.1, same.2.1]
    exact ready.board
  · rw [same.1, same.2.2]
    exact ready.reader

/-- Whoever owns a handle, the hooks find out. -/
theorem exists_asked {s : State} (ready : Ready s) (apart : Apart s)
    (h : Word) : ∃ owner : Option Device, (∀ d, owner = some d ↔ Owns s d h) ∧ Asked s h owner := by
  by_cases some_ : ∃ d, Owns s d h
  · obtain ⟨d, owned⟩ := some_
    have is_ : ∀ d', some d = some d' ↔ Owns s d' h := fun d' =>
      ⟨fun same => Option.some.inj same ▸ owned,
        fun other => congrArg some (apart d d' h owned other)⟩
    exact ⟨some d, is_, asked ready is_⟩
  · have is_ : ∀ d, none = some d ↔ Owns s d h := fun d =>
      ⟨nofun, fun owned => absurd ⟨d, owned⟩ some_⟩
    exact ⟨none, is_, asked ready is_⟩

/-- A handle that is closed with Windows is none of a device's. -/
theorem closed_not_owned {s : State} (ready : Ready s)
    (apart : Apart s) {e : Event} {d : Device} {h : Word}
    (owned : Owns s d h) : closed ⟨e, (step settings world s e).2⟩ ≠ some h := by
  intro shut
  cases e with
  | closeHandle h' =>
    obtain ⟨owner, is_, known⟩ := exists_asked ready apart h'
    have ends := step_ends settings world (e := .closeHandle h') rfl known
    generalize step settings world s (.closeHandle h') = r at ends shut
    obtain ⟨s', out, outcome⟩ := r
    cases ends with
    | answered => cases shut
    | native not =>
      cases shut
      exact absurd (not d ((is_ d).mpr owned)) (by simp [serves])
  | _ => cases shut

theorem inv_kept {s s' : State} {history : List Entry} (inv : Inv settings s history)
    (same : ∀ d, handle s' d = handle s d) (ready : Ready s') {x : Entry}
    (quiet : ∀ d h, ¬ openedBy d x h) (kept : ∀ d h, Owns s d h → closed x ≠ some h)
    (foreign : ∀ d h, Owns s d h → givenByWindows x ≠ some h) :
    Inv settings s' (history ++ [x]) := by
  have owns := owns_of_sameHandles same
  refine ⟨ready, fun d h => ?_, ?_, fun d h => ?_, fun d h => ?_, ?_⟩
  · rw [owns, opened_concat, inv.opened]
    exact (or_iff_left (quiet d h)).symm
  · simpa only [Apart, owns] using inv.apart
  · rw [owns, live_concat]
    exact fun owned => .inr ⟨inv.live d h owned, kept d h owned⟩
  · rw [owns, live_concat]
    rintro owned (new | ⟨old, -⟩)
    · exact foreign d h owned new
    · exact inv.windows d h owned old
  · simpa only [owns] using inv.on

theorem inv_other {s : State} {history : List Entry} (inv : Inv settings s history) {e : Event}
    (other : ∀ o, e ≠ .createFile o) :
    Inv settings (step settings world s e).1 (history ++ [⟨e, (step settings world s e).2⟩]) := by
  have same := step_sameHandles settings world s e other
  exact inv_kept inv (handle_of_sameHandles same) (ready_of_sameHandles same inv.ready)
    (openedBy_not other) (fun d h owned => closed_not_owned inv.ready inv.apart owned)
    fun d h _ => (given_not other h).2

theorem live_of_windows {history : List Entry} {h : Word}
    (live : Live givenByWindows closed history h) : Live given closed history h := by
  refine live.mono (fun x there => ?_) fun _ => id
  obtain ⟨e, out, outcome⟩ := x
  cases e with
  | createFile o => cases outcome <;> first | exact there | cases there
  | _ => cases there

theorem makes_of_windows {o : Opening} {done : Done} {h : Word}
    (there : givenByWindows ⟨.createFile o, done⟩ = some h) : Makes o h := by
  obtain ⟨out, outcome⟩ := done
  cases outcome with
  | native =>
    simp only [givenByWindows] at there
    split at there
    · cases there
    next usable =>
      cases there
      exact .inr ⟨rfl, not_or.mp usable⟩
  | _ => cases there

/-- An open that a device answers. -/
theorem inv_answered {s s' : State} {history : List Entry} (inv : Inv settings s history)
    {o : Opening} {out : List Output} {d : Device} {h : Word}
    (fresh : ∀ h, Makes o h → ¬ Live given closed history h) (some_ : h ≠ 0)
    (on : settings.noCom = false) (is_ : handle s' d = h)
    (own : handle s d = h ∨ handle s d = 0 ∧ o.event d = h)
    (others : ∀ d', d' ≠ d → handle s' d' = handle s d') (ready : Ready s') :
    Inv settings s' (history ++ [⟨.createFile o, out, .answered d h 7 []⟩]) := by
  have made : handle s d = 0 → Makes o h := fun closed =>
    .inl ⟨d, (own.resolve_left fun same => some_ (same.symm.trans closed)).2, some_⟩
  have owns : ∀ d' h', Owns s' d' h' ↔ Owns s d' h' ∨ d' = d ∧ h' = h := by
    intro d' h'
    by_cases mine : d' = d
    · subst mine
      rw [Owns, is_]
      constructor
      · rintro ⟨-, same⟩
        exact .inr ⟨rfl, same.symm⟩
      · rintro (⟨real, old⟩ | ⟨-, same⟩)
        · rcases own with same | ⟨closed, -⟩
          · exact ⟨real, same.symm.trans old⟩
          · exact absurd (old.symm.trans closed) real
        · exact ⟨same ▸ some_, same.symm⟩
    · rw [Owns, others d' mine]
      exact (or_iff_left fun other => mine other.1).symm
  have opened : ∀ d' h', openedBy d' ⟨.createFile o, out, .answered d h 7 []⟩ h' ↔
      d' = d ∧ h' = h := by
    intro d' h'
    constructor
    · rintro ⟨_, _, answer⟩
      cases answer
      exact ⟨rfl, rfl⟩
    · rintro ⟨rfl, rfl⟩
      exact ⟨o, rfl, rfl⟩
  have new : ∀ d', Owns s d' h → d' = d := by
    intro d' owned
    rcases own with same | ⟨closed, -⟩
    · exact inv.apart d' d h owned ⟨some_, same⟩
    · exact absurd (inv.live d' h owned) (fresh h (made closed))
  refine ⟨ready, fun d' h' => ?_, fun d₁ d₂ h' => ?_, fun d' h' => ?_, fun d' h' => ?_,
    fun _ _ _ => on⟩
  · rw [owns, opened_concat, inv.opened, opened]
  · rw [owns, owns]
    rintro (old₁ | ⟨rfl, rfl⟩) (old₂ | ⟨rfl, same⟩)
    · exact inv.apart d₁ d₂ h' old₁ old₂
    · exact new d₁ (same ▸ old₁)
    · exact (new d₂ old₂).symm
    · rfl
  · rw [owns, live_concat]
    rintro (old | ⟨rfl, rfl⟩)
    · exact .inr ⟨inv.live d' h' old, nofun⟩
    · exact .inl rfl
  · rw [owns, live_concat]
    rintro owned (there | ⟨there, -⟩)
    · cases there
    · rcases owned with old | ⟨rfl, rfl⟩
      · exact inv.windows d' h' old there
      · rcases own with same | ⟨closed, -⟩
        · exact inv.windows d' h' ⟨some_, same⟩ there
        · exact fresh h' (made closed) (live_of_windows there)

theorem openedBy_off {x : Entry} {d : Device} {h : Word} (off : deviceOf x.done.outcome = none) :
    ¬ openedBy d x h := by
  rintro ⟨o, -, answer⟩
  rw [answer] at off
  cases off

theorem closed_open {o : Opening} {done : Done} (h : Word) : closed ⟨.createFile o, done⟩ ≠ some h :=
  (Option.some_ne_none h).symm

theorem inv_open {s : State} {history : List Entry} (inv : Inv settings s history) {o : Opening}
    (fresh : ∀ h, Makes o h → ¬ Live given closed history h) :
    Inv settings (step settings world s (.createFile o)).1
      (history ++ [⟨.createFile o, (step settings world s (.createFile o)).2⟩]) := by
  obtain ⟨opens, ready⟩ := createFile_opens settings inv.ready o
  simp only [step]
  generalize hleCreateFile settings s o = r at opens ready
  obtain ⟨s', out, outcome⟩ := r
  dsimp only at opens ready ⊢
  have foreign : ∀ d h, Owns s d h → givenByWindows ⟨.createFile o, out, outcome⟩ ≠ some h :=
    fun d h owned there => fresh h (makes_of_windows there) (inv.live d h owned)
  cases opens with
  | answered some_ on claims named is_ own others =>
    exact inv_answered inv fresh some_ on is_ own others ready
  | refused same =>
    exact inv_kept inv same ready (fun _ _ => openedBy_off rfl) (fun _ h _ => closed_open h) foreign
  | native same =>
    exact inv_kept inv same ready (fun _ _ => openedBy_off rfl) (fun _ h _ => closed_open h) foreign

/-! ## A run: the devices -/

/-- The card in a reader. -/
def withCard (r : Source.CardReader.Reader) (card : Source.CardReader.Card) :
    Source.CardReader.Reader := { r with card }

/-- Each device is where it would be with its own operations alone; the reader has its card from
the first open that came to it. -/
structure Alone (world : World) (s : State) (history : List Entry) : Prop where
  board : Source.Jvs.board.run Source.Jvs.Node.initial (history.flatMap boardOps) =
    (s.ports.board, history.flatMap fun x => boardOut x.done.out)
  closed : s.cardReady = false → ∀ card,
    (Source.CardReader.reader world).run ⟨Source.CardReader.CardPort.initial, card, 0, 0⟩
      (history.flatMap readerOps) =
        (withCard s.ports.reader card, history.flatMap fun x => readerOut x.done.out)
  opened : s.cardReady = true → ∃ x ∈ history, ∃ o, x.event = .createFile o ∧
    (Source.CardReader.reader world).run (Source.CardReader.Reader.start o.load)
      (history.flatMap readerOps) =
        (s.ports.reader, history.flatMap fun x => readerOut x.done.out)

/-- What is on a handle and does not end with the reader is nothing to it. -/
theorem readerOps_nil {e : Event} {h : Word} (on : handleOf e = some h) {out : List Output}
    {outcome : Outcome} (not : deviceOf outcome ≠ some .reader) :
    readerOps ⟨e, out, outcome⟩ = [] := by
  cases e with
  | createFile | jvsTicker | cardTicker | cardTap => cases on
  | setup | setCommTimeouts | getCommState | getCommTimeouts | getCommModemStatus
  | closeHandle => rfl
  | writeFile | writeFileEx | readFile | readFileEx | cancelIoEx =>
    cases outcome with
    | answered d eax argc stores =>
      cases d with
      | reader => exact absurd rfl not
      | board | drive => rfl
    | _ => rfl

/-- The reader gets nothing but taps until its port is open. -/
theorem readerOps_closed (settings : Settings) (world : World) {s : State} (ready : Ready s)
    (apart : Apart s) (shut : s.cardReady = false)
    {e : Event} (other : ∀ o, e ≠ .createFile o) :
    readerOps ⟨e, (step settings world s e).2⟩ = [] ∨ ∃ now, e = .cardTap now := by
  cases on : handleOf e with
  | some h =>
    obtain ⟨owner, is_, known⟩ := exists_asked ready apart h
    have ends := step_ends settings world on known
    refine .inl (readerOps_nil on ?_)
    intro mine
    generalize (step settings world s e).2.outcome = outcome at ends mine
    cases ends with
    | native => cases mine
    | answered d eax stores own served =>
      cases mine
      obtain ⟨some_, is_⟩ := (is_ .reader).mp own
      have open_ := ready.reader (is_.symm ▸ some_ : handle s .reader ≠ 0)
      rw [shut] at open_
      cases open_
  | none =>
    cases e with
    | createFile o => exact absurd rfl (other o)
    | jvsTicker t =>
      refine .inl ?_
      simp only [step]
      split <;> rfl
    | cardTicker env =>
      refine .inl ?_
      simp only [step, shut, Bool.false_eq_true, ↓reduceIte]
      rfl
    | cardTap now => exact .inr ⟨now, rfl⟩
    | _ => cases on

theorem flatMap_concat_nil {α β : Type} {f : α → List β} {xs : List α} {x : α} (nil : f x = []) :
    (xs ++ [x]).flatMap f = xs.flatMap f := by
  rw [List.flatMap_append, List.flatMap_singleton, nil, List.append_nil]

theorem alone_open {s : State} {history : List Entry} (alone : Alone world s history)
    (o : Opening) : Alone world (step settings world s (.createFile o)).1
      (history ++ [⟨.createFile o, (step settings world s (.createFile o)).2⟩]) := by
  obtain ⟨out, loads⟩ := createFile_loads settings s o
  simp only [step]
  generalize hleCreateFile settings s o = r at out loads
  obtain ⟨s', out', outcome⟩ := r
  dsimp only at out loads ⊢
  subst out
  have boards : s'.ports.board = s.ports.board := by
    rcases loads with same | ⟨-, -, board, -⟩
    · rw [same.ports]
    · exact board
  constructor
  · rw [flatMap_concat_nil rfl, flatMap_concat_nil rfl, alone.board, boards]
  · rw [flatMap_concat_nil rfl, flatMap_concat_nil rfl]
    rcases loads with same | ⟨-, open_, -⟩
    · rw [same.ports, same.reader]
      exact alone.closed
    · rw [open_]
      intro shut
      cases shut
  · rw [flatMap_concat_nil rfl, flatMap_concat_nil rfl]
    rcases loads with same | ⟨shut, -, -, reader⟩
    · rw [same.ports, same.reader]
      intro open_
      obtain ⟨x, member, found⟩ := alone.opened open_
      exact ⟨x, List.mem_append_left _ member, found⟩
    · intro
      rw [reader]
      exact ⟨_, List.mem_append_right _ (List.mem_singleton_self _), o, rfl,
        alone.closed shut (Source.CardReader.cardLoad o.load)⟩

theorem alone_other {s : State} {history : List Entry} (inv : Inv settings s history)
    (alone : Alone world s history) {e : Event} (other : ∀ o, e ≠ .createFile o) :
    Alone world (step settings world s e).1 (history ++ [⟨e, (step settings world s e).2⟩]) := by
  have acts := step_acts settings world s e other
  have same := step_sameHandles settings world s e other
  constructor
  · rw [List.flatMap_append, List.flatMap_append, List.flatMap_singleton, List.flatMap_singleton,
      Transducer.run_append, alone.board, acts.board]
  · rw [same.2.2]
    intro shut card
    rw [List.flatMap_append, List.flatMap_append, List.flatMap_singleton, List.flatMap_singleton,
      Transducer.run_append, alone.closed shut card]
    rcases readerOps_closed settings world inv.ready inv.apart shut other
      with none_ | ⟨now, rfl⟩
    · have still := acts.reader
      rw [none_, Transducer.run_nil] at still
      obtain ⟨kept, nothing⟩ := Prod.mk.inj still
      rw [none_, ← kept, ← nothing]
      rfl
    · simp only [step, onPort, Source.Writes.step, readerOps, Source.CardReader.step]
      rfl
  · rw [same.2.2]
    intro open_
    obtain ⟨x, member, o, event, run⟩ := alone.opened open_
    refine ⟨x, List.mem_append_left _ member, o, event, ?_⟩
    rw [List.flatMap_append, List.flatMap_append, List.flatMap_singleton, List.flatMap_singleton,
      Transducer.run_append, run, acts.reader]

/-! ## A run -/

/-- Each call on a handle ends with the device that once answered an open with it, if that serves
the call, and with Windows otherwise. -/
def Routed : List Entry → Prop :=
  Each fun before x => ∀ h, handleOf x.event = some h →
    ∃ owner : Option Device, (∀ d, owner = some d ↔ Opened before d h) ∧
      Ends x.event owner x.done.outcome

/-- A device that is open answers each open of its own port with the handle that it has. -/
def Reopens (settings : Settings) : List Entry → Prop :=
  Each fun before x => ∀ o name d h, x.event = .createFile o → o.name = some name →
    Opened before d h → Claims settings d name → (∀ d', d' ≠ d → ¬ Claims settings d' name) →
    x.done.outcome = .answered d h 7 []

/-- What the game has of the ports. -/
structure Separate (settings : Settings) (world : World)
    (r : State × List Entry) : Prop where
  routed : Routed r.2
  reopens : Reopens settings r.2
  /-- one handle for each device -/
  one : ∀ d h h', Opened r.2 d h → Opened r.2 d h' → h = h'
  /-- and none for two -/
  apart : ∀ d d' h, Opened r.2 d h → Opened r.2 d' h → d = d'
  /-- nor one that the game has from Windows -/
  windows : ∀ d h, Opened r.2 d h → ¬ Live givenByWindows closed r.2 h
  board : Source.Jvs.board.run Source.Jvs.Node.initial (r.2.flatMap boardOps) =
    (r.1.ports.board, r.2.flatMap fun x => boardOut x.done.out)
  reader : ∃ card,
    (∀ h, Opened r.2 .reader h → ∃ x ∈ r.2, ∃ o, x.event = .createFile o ∧
      card = Source.CardReader.cardLoad o.load) ∧
    (Source.CardReader.reader world).run ⟨Source.CardReader.CardPort.initial, card, 0, 0⟩
      (r.2.flatMap readerOps) =
        (r.1.ports.reader, r.2.flatMap fun x => readerOut x.done.out)

variable {card : Source.CardReader.Card}

theorem handle_initial (d : Device) : handle (State.initial card) d = 0 := by
  cases d <;> rfl

theorem inv_initial : Inv settings (State.initial card) [] := by
  have none_ : ∀ d h, ¬ Owns (State.initial card) d h := fun d h owned =>
    owned.1 (owned.2.symm.trans (handle_initial d))
  have unopened (d : Device) (h : Word) : ¬ Opened [] d h := by
    rintro ⟨x, member, -⟩
    cases member
  exact
    { ready := ⟨fun some_ => absurd rfl some_, fun some_ => absurd rfl some_⟩
      opened := fun d h => iff_of_false (none_ d h) (unopened d h)
      apart := fun d _ h owned => absurd owned (none_ d h)
      live := fun d h owned => absurd owned (none_ d h)
      windows := fun d h owned => absurd owned (none_ d h)
      on := fun d h owned => absurd owned (none_ d h) }

theorem alone_initial : Alone world (State.initial card) [] := ⟨rfl, fun _ _ => rfl, nofun⟩

theorem process_concat (s : State) (events : List Event) (e : Event) :
    (process settings world).run s (events ++ [e]) =
      ((step settings world ((process settings world).run s events).1 e).1,
        ((process settings world).run s events).2 ++
          [⟨e, (step settings world ((process settings world).run s events).1 e).2⟩]) := by
  rw [Transducer.run_concat]
  rfl

theorem run_inv (events : List Event)
    (fresh : Fresh ((process settings world).run (State.initial card) events).2) :
    let r := (process settings world).run (State.initial card) events
    Inv settings r.1 r.2 ∧ Alone world r.1 r.2 ∧ Routed r.2 ∧ Reopens settings r.2 := by
  induction events using List.reverseRecOn with
  | nil => exact ⟨inv_initial, alone_initial, each_nil, each_nil⟩
  | append_singleton events e ih =>
    rw [process_concat] at fresh ⊢
    obtain ⟨earlier, here⟩ := each_concat.mp fresh
    obtain ⟨inv, alone, routed, reopens⟩ := ih earlier
    generalize (process settings world).run (State.initial card) events = r at *
    obtain ⟨s, history⟩ := r
    dsimp only at *
    have both : Inv settings (step settings world s e).1
        (history ++ [⟨e, (step settings world s e).2⟩]) ∧
        Alone world (step settings world s e).1
          (history ++ [⟨e, (step settings world s e).2⟩]) := by
      by_cases open_ : ∃ o, e = .createFile o
      · obtain ⟨o, rfl⟩ := open_
        exact ⟨inv_open inv (here o rfl), alone_open alone o⟩
      · have other := not_exists.mp open_
        exact ⟨inv_other inv other, alone_other inv alone other⟩
    refine ⟨both.1, both.2, each_concat.mpr ⟨routed, fun h on => ?_⟩,
      each_concat.mpr ⟨reopens, ?_⟩⟩
    · obtain ⟨owner, is_, known⟩ := exists_asked inv.ready inv.apart h
      exact ⟨owner, fun d => (is_ d).trans (inv.opened d h), step_ends settings world on known⟩
    · rintro o name d h rfl named opened claims only
      have owned := (inv.opened d h).mpr opened
      exact createFile_reopens inv.ready (inv.on d h owned) named owned claims only

/-- The emulated ports through a run of the game: the calls on a handle reach the device that it
stands for and no other, and a device is where it would be had it been alone with them. -/
theorem ports_separate (settings : Settings) (world : World)
    (card : Source.CardReader.Card) (events : List Event)
    (fresh : Fresh ((process settings world).run (State.initial card) events).2) :
    Separate settings world ((process settings world).run (State.initial card) events) := by
  obtain ⟨inv, alone, routed, reopens⟩ := run_inv events fresh
  generalize (process settings world).run (State.initial card) events = r at *
  obtain ⟨s, history⟩ := r
  refine ⟨routed, reopens, fun d h h' => ?_, fun d d' h => ?_, fun d h => ?_, alone.board, ?_⟩
  · simp only [← inv.opened]
    exact fun owned other => owned.2.symm.trans other.2
  · simp only [← inv.opened]
    exact inv.apart d d' h
  · rw [← inv.opened]
    exact inv.windows d h
  · cases open_ : s.cardReady with
    | true =>
      obtain ⟨x, member, o, event, run⟩ := alone.opened open_
      exact ⟨Source.CardReader.cardLoad o.load, fun _ _ => ⟨x, member, o, event, rfl⟩, run⟩
    | false =>
      refine ⟨s.ports.reader.card, fun h opened => ?_, alone.closed open_ _⟩
      obtain ⟨some_, is_⟩ := (inv.opened .reader h).mpr opened
      have ready := inv.ready.reader (is_.symm ▸ some_ : handle s .reader ≠ 0)
      rw [open_] at ready
      cases ready

/-! The game opens its port, closes it and opens it again. -/

def cabinet : Settings := ⟨false, false, none, true, none, none⟩

/-- An open of COM1, which Windows has an event for. -/
def com1 (event : Word) : Opening where
  name := some ['C', 'O', 'M', '1']
  event d := if d = .board then event else 0
  load := ⟨none, none, false, 0, .good⟩
  native := 0xFFFFFFFF

def reopening : List Event := [.createFile (com1 0x64), .closeHandle 0x64, .createFile (com1 0x68)]

theorem makes_com1 {event h : Word} (makes : Makes (com1 event) h) : h = event := by
  rcases makes with ⟨d, same, some_⟩ | ⟨same, -, other⟩
  · cases d
    · exact same.symm
    · exact absurd same.symm some_
    · exact absurd same.symm some_
  · exact absurd same.symm other

theorem reopening_separate : Separate cabinet ⟨false, fun _ => ⟨0, .good⟩⟩
    ((process cabinet ⟨false, fun _ => ⟨0, .good⟩⟩).run
      (State.initial (.initial none)) reopening) := by
  refine ports_separate _ _ _ _ ?_
  have parts : reopening = (([] ++ [.createFile (com1 0x64)]) ++ [.closeHandle 0x64]) ++
    [.createFile (com1 0x68)] := rfl
  rw [parts]
  rw [process_concat]
  refine each_concat.mpr ⟨?_, ?_⟩
  · rw [process_concat]
    refine each_concat.mpr ⟨?_, nofun⟩
    rw [process_concat]
    exact each_concat.mpr ⟨each_nil, fun _ _ _ _ => not_live_nil⟩
  · intro o event h makes live
    rw [← Event.createFile.inj event] at makes
    rw [makes_com1 makes] at live
    exact absurd live.mem_given (by decide +kernel)

end Es3Recomp.Guarantees.SerialPorts
