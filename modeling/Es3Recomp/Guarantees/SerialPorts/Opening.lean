import Es3Recomp.Guarantees.SerialPorts.Calls

/-!
# Opening an emulated port

The devices are asked in turn (src/src/runtime/hle_callback.c:951-965). One that declines leaves
every handle as it was; one that answers has its handle for good.
-/
namespace Es3Recomp.Guarantees.SerialPorts
open Library Source.SerialPorts
open Source.Writes hiding step
open Source.Jvs (Word)
open Library.Atoi (atoi)

variable {settings : Settings}

/-! ## One device -/

/-- The port that a device is on, if it is on any. -/
def portOf (settings : Settings) : Device → Option Int
  | .board => if settings.noJvs then none else some ((settings.jvsPort.map atoi).getD 1)
  | .reader => if settings.card then some ((settings.cardPort.map atoi).getD 4) else none
  | .drive => settings.driveStub.map atoi

/-- The name is that of the device's port. -/
def Claims (settings : Settings) (d : Device) (name : Text) : Prop :=
  ∃ n : Nat, comPort name = some n ∧ portOf settings d = some (n : Int)

/-- One device has been asked for its handle, and gave `h`, null when it has none. -/
structure Asks (settings : Settings) (o : Opening) (name : Text) (d : Device)
    (s s' : State) (h : Word) : Prop where
  others : ∀ d', d' ≠ d → handle s' d' = handle s d'
  own : handle s' d = handle s d ∨ handle s d = 0 ∧ handle s' d = o.event d
  null : h = 0 → handle s' d = handle s d
  result : h ≠ 0 → handle s' d = h ∧ Claims settings d name
  ready : Ready s'

theorem asks_not {s : State} (ready : Ready s) (o : Opening) (name : Text) (d : Device) :
    Asks settings o name d s s 0 where
  others _ _ := rfl
  own := .inl rfl
  null _ := rfl
  result not := absurd rfl not
  ready := ready

theorem jvsOpen_asks {s : State} (ready : Ready s) (o : Opening) (name : Text) :
    Asks settings o name .board s (es3JvsOpen settings s o name).1
      (es3JvsOpen settings s o name).2 := by
  unfold es3JvsOpen
  split
  next => exact asks_not ready o name _
  next on =>
    split
    next => exact asks_not ready o name _
    next n com =>
      dsimp only
      split
      next => exact asks_not ready o name _
      next same =>
        have claims : Claims settings .board name :=
          ⟨n, com, by rw [portOf, if_neg on, ← not_not.mp same]⟩
        cases there : s.jvsReady with
        | true => exact ⟨fun _ _ => rfl, .inl rfl, fun _ => rfl, fun _ => ⟨rfl, claims⟩, ready⟩
        | false =>
          have closed : s.handles.jvs = 0 := by
            by_contra other
            rw [ready.board other] at there
            cases there
          refine ⟨?_, .inr ⟨closed, rfl⟩, fun null => null.trans closed.symm,
            fun _ => ⟨rfl, claims⟩, fun _ => rfl, ready.reader⟩
          intro d other
          cases d <;> first | rfl | exact absurd rfl other

theorem cardOpen_asks {s : State} (ready : Ready s) (o : Opening) (name : Text) :
    Asks settings o name .reader s (es3CardOpen settings s o name).1
      (es3CardOpen settings s o name).2 := by
  unfold es3CardOpen
  split
  next => exact asks_not ready o name _
  next on =>
    split
    next => exact asks_not ready o name _
    next n com =>
      dsimp only
      split
      next => exact asks_not ready o name _
      next same =>
        have claims : Claims settings .reader name :=
          ⟨n, com, by rw [portOf, if_pos (not_not.mp on), ← not_not.mp same]⟩
        cases there : s.cardReady with
        | true => exact ⟨fun _ _ => rfl, .inl rfl, fun _ => rfl, fun _ => ⟨rfl, claims⟩, ready⟩
        | false =>
          have closed : s.handles.card = 0 := by
            by_contra other
            rw [ready.reader other] at there
            cases there
          refine ⟨?_, .inr ⟨closed, rfl⟩, fun null => null.trans closed.symm,
            fun _ => ⟨rfl, claims⟩, ready.board, fun _ => rfl⟩
          intro d other
          cases d <;> first | rfl | exact absurd rfl other

theorem driveStubOpen_asks {s : State} (ready : Ready s) (o : Opening) (name : Text) :
    Asks settings o name .drive s (driveStubOpen settings s o name).1
      (driveStubOpen settings s o name).2 := by
  unfold driveStubOpen
  split
  next want n wanted com =>
    split
    next => exact asks_not ready o name _
    next same =>
      have claims : Claims settings .drive name :=
        ⟨n, com, by rw [portOf, wanted, Option.map_some, ← not_not.mp same]⟩
      dsimp only
      split
      next => exact ⟨fun _ _ => rfl, .inl rfl, fun _ => rfl, fun _ => ⟨rfl, claims⟩, ready⟩
      next closed =>
        refine ⟨?_, .inr ⟨not_not.mp closed, rfl⟩, fun null => null.trans (not_not.mp closed).symm,
          fun _ => ⟨rfl, claims⟩, ready.board, ready.reader⟩
        intro d other
        cases d <;> first | rfl | exact absurd rfl other
  next => exact asks_not ready o name _

/-- How an open ends, and what it does to the handles. -/
inductive Opens (settings : Settings) (o : Opening) (s s' : State) : Outcome → Prop where
  | answered {name : Text} {d : Device} {h : Word} (some_ : h ≠ 0)
      (on : settings.noCom = false) (claims : Claims settings d name) (named : o.name = some name)
      (is_ : handle s' d = h)
      (own : handle s d = h ∨ handle s d = 0 ∧ o.event d = h)
      (others : ∀ d', d' ≠ d → handle s' d' = handle s d') :
    Opens settings o s s' (.answered d h 7 [])
  | refused (same : ∀ d, handle s' d = handle s d) : Opens settings o s s' .refused
  | native (same : ∀ d, handle s' d = handle s d) : Opens settings o s s' .native

theorem Asks.same {o : Opening} {name : Text} {d : Device} {s s' : State}
    {h : Word} (asks : Asks settings o name d s s' h) (null : h = 0) (d' : Device) :
    handle s' d' = handle s d' := by
  by_cases own : d' = d
  · rw [own]
    exact asks.null null
  · exact asks.others d' own

theorem Asks.opens {o : Opening} {name : Text} {d : Device}
    {s s₁ s' : State} {h : Word} (asks : Asks settings o name d s₁ s' h)
    (before : ∀ d, handle s₁ d = handle s d) (named : o.name = some name) (some_ : h ≠ 0)
    (off : ¬ (settings.noCom = true ∧ (comPort name).isSome = true)) :
    Opens settings o s s' (.answered d h 7 []) := by
  obtain ⟨is_, n, com, port⟩ := asks.result some_
  have on : settings.noCom = false := by
    by_contra refused
    exact off ⟨Bool.of_not_eq_false refused, Option.isSome_of_mem com⟩
  refine .answered some_ on ⟨n, com, port⟩ named is_ ?_ fun d' other =>
    (asks.others d' other).trans (before d')
  rcases asks.own with same | ⟨closed, made⟩
  · exact .inl (((before d).symm.trans same.symm).trans is_)
  · exact .inr ⟨(before d).symm.trans closed, made.symm.trans is_⟩

theorem createFile_opens (settings : Settings) {s : State} (ready : Ready s) (o : Opening) :
    Opens settings o s (hleCreateFile settings s o).1 (hleCreateFile settings s o).2.outcome ∧
      Ready (hleCreateFile settings s o).1 := by
  unfold hleCreateFile
  cases named : o.name with
  | none => exact ⟨.native fun _ => rfl, ready⟩
  | some name =>
    dsimp only
    by_cases off : settings.noCom = true ∧ (comPort name).isSome = true
    · rw [if_pos off]
      exact ⟨.refused fun _ => rfl, ready⟩
    rw [if_neg off]
    have board : Asks settings o name .board s _ _ := jvsOpen_asks ready o name
    generalize es3JvsOpen settings s o name = r₁ at board ⊢
    by_cases none₁ : r₁.2 = 0
    · simp only [none₁, ne_eq, not_true_eq_false, ↓reduceIte]
      have same₁ := board.same none₁
      have reader : Asks settings o name .reader r₁.1 _ _ := cardOpen_asks board.ready o name
      generalize es3CardOpen settings r₁.1 o name = r₂ at reader ⊢
      by_cases none₂ : r₂.2 = 0
      · simp only [none₂, not_true_eq_false, ↓reduceIte]
        have same₂ := fun d => (reader.same none₂ d).trans (same₁ d)
        have drive : Asks settings o name .drive r₂.1 _ _ := driveStubOpen_asks reader.ready o name
        generalize driveStubOpen settings r₂.1 o name = r₃ at drive ⊢
        by_cases none₃ : r₃.2 = 0
        · simp only [none₃, not_true_eq_false, ↓reduceIte]
          exact ⟨.native fun d => (drive.same none₃ d).trans (same₂ d), drive.ready⟩
        · simp only [none₃, not_false_eq_true, ↓reduceIte]
          exact ⟨drive.opens same₂ named none₃ off, drive.ready⟩
      · simp only [none₂, not_false_eq_true, ↓reduceIte]
        exact ⟨reader.opens same₁ named none₂ off, reader.ready⟩
    · simp only [none₁, ne_eq, not_false_eq_true, ↓reduceIte]
      exact ⟨board.opens (fun _ => rfl) named none₁ off, board.ready⟩

theorem jvsOpen_open {s : State} (ready : Ready s) (o : Opening)
    {name : Text} (open_ : s.handles.jvs ≠ 0)
    (claims : Claims settings .board name) :
    (es3JvsOpen settings s o name).2 = s.handles.jvs := by
  obtain ⟨n, com, port⟩ := claims
  rw [portOf] at port
  split at port
  next => cases port
  next on =>
    rw [es3JvsOpen, if_neg on, com]
    simp only [Option.some.inj port, ne_eq, not_true_eq_false, ↓reduceIte, ready.board open_]

theorem cardOpen_open {s : State} (ready : Ready s) (o : Opening)
    {name : Text} (open_ : s.handles.card ≠ 0)
    (claims : Claims settings .reader name) :
    (es3CardOpen settings s o name).2 = s.handles.card := by
  obtain ⟨n, com, port⟩ := claims
  rw [portOf] at port
  split at port
  next on =>
    rw [es3CardOpen, if_neg (not_not.mpr on), com]
    simp only [Option.some.inj port, ne_eq, not_true_eq_false, ↓reduceIte, ready.reader open_]
  next => cases port

theorem driveStubOpen_open {s : State} (o : Opening) {name : Text}
    (open_ : s.handles.driveStub ≠ 0) (claims : Claims settings .drive name) :
    (driveStubOpen settings s o name).2 = s.handles.driveStub := by
  obtain ⟨n, com, port⟩ := claims
  obtain ⟨want, wanted, same⟩ := Option.map_eq_some_iff.mp port
  rw [driveStubOpen, wanted, com]
  simp only [same, ne_eq, not_true_eq_false, ↓reduceIte, open_, not_false_eq_true]

/-- A device that is open answers for its own port, if no other device is on it. -/
theorem createFile_reopens {s : State} (ready : Ready s) {o : Opening}
    {name : Text} {d : Device} {h : Word} (on : settings.noCom = false)
    (named : o.name = some name) (owned : Owns s d h) (claims : Claims settings d name)
    (alone : ∀ d', d' ≠ d → ¬ Claims settings d' name) :
    (hleCreateFile settings s o).2.outcome = .answered d h 7 [] := by
  obtain ⟨some_, rfl⟩ := owned
  have board : Asks settings o name .board s _ _ := jvsOpen_asks ready o name
  have reader : Asks settings o name .reader _ _ _ := cardOpen_asks board.ready o name
  have quiet : ∀ {d' s s' h}, Asks settings o name d' s s' h → d' ≠ d → h = 0 :=
    fun asks other => by_contra fun answer => alone _ other (asks.result answer).2
  unfold hleCreateFile
  rw [named]
  simp only [on, Bool.false_eq_true, false_and, ↓reduceIte]
  cases d with
  | board =>
    have here := jvsOpen_open ready o some_ claims
    rw [if_pos (here ▸ some_), here]
    rfl
  | reader =>
    have none₁ := quiet board (by decide)
    have kept := board.others .reader (by decide)
    have still : (es3JvsOpen settings s o name).1.handles.card ≠ 0 := fun null =>
      some_ (kept.symm.trans null)
    have here := cardOpen_open board.ready o still claims
    rw [if_neg (not_not.mpr none₁), if_pos (here.symm ▸ still), here]
    exact congrArg (Outcome.answered _ · 7 []) kept
  | drive =>
    have none₁ := quiet board (by decide)
    have none₂ := quiet reader (by decide)
    have kept := (reader.others .drive (by decide)).trans (board.others .drive (by decide))
    have still : (es3CardOpen settings (es3JvsOpen settings s o name).1 o name).1.handles.driveStub
        ≠ 0 := fun null => some_ (kept.symm.trans null)
    have here := driveStubOpen_open o still claims
    rw [if_neg (not_not.mpr none₁), if_neg (not_not.mpr none₂), if_pos (here.symm ▸ still), here]
    exact congrArg (Outcome.answered _ · 7 []) kept

/-! ## What an open does to the devices -/

structure SamePorts (s s' : State) : Prop where
  ports : s'.ports = s.ports
  reader : s'.cardReady = s.cardReady

/-- The card is loaded when the reader's port is opened for the first time. -/
def Loads (o : Opening) (s s' : State) : Prop :=
  SamePorts s s' ∨ s.cardReady = false ∧ s'.cardReady = true ∧
    s'.ports.board = s.ports.board ∧
    s'.ports.reader = { s.ports.reader with card := Source.CardReader.cardLoad o.load }

theorem jvsOpen_samePorts (settings : Settings) (s : State) (o : Opening) (name : Text) :
    SamePorts s (es3JvsOpen settings s o name).1 := by
  unfold es3JvsOpen
  repeat' split
  all_goals exact ⟨rfl, rfl⟩

theorem driveStubOpen_samePorts (settings : Settings) (s : State) (o : Opening) (name : Text) :
    SamePorts s (driveStubOpen settings s o name).1 := by
  unfold driveStubOpen
  repeat' split
  all_goals exact ⟨rfl, rfl⟩

theorem cardOpen_loads (settings : Settings) (s : State) (o : Opening) (name : Text) :
    Loads o s (es3CardOpen settings s o name).1 := by
  unfold es3CardOpen
  split
  next => exact .inl ⟨rfl, rfl⟩
  next =>
    split
    next => exact .inl ⟨rfl, rfl⟩
    next =>
      dsimp only
      split
      next => exact .inl ⟨rfl, rfl⟩
      next =>
        cases there : s.cardReady with
        | true => exact .inl ⟨rfl, rfl⟩
        | false => exact .inr ⟨there, rfl, rfl, rfl⟩

theorem Loads.around {o : Opening} {s s₁ s₂ s' : State} (before : SamePorts s s₁)
    (loads : Loads o s₁ s₂) (after : SamePorts s₂ s') : Loads o s s' := by
  rcases loads with same | ⟨closed, open_, board, reader⟩
  · exact .inl ⟨after.ports.trans (same.ports.trans before.ports),
      after.reader.trans (same.reader.trans before.reader)⟩
  · refine .inr ⟨before.reader.symm.trans closed, after.reader.trans open_, ?_, ?_⟩
    · rw [after.ports, board, before.ports]
    · rw [after.ports, reader, before.ports]

theorem createFile_loads (settings : Settings) (s : State) (o : Opening) :
    (hleCreateFile settings s o).2.out = [] ∧ Loads o s (hleCreateFile settings s o).1 := by
  have none_ : ∀ s : State, SamePorts s s := fun _ => ⟨rfl, rfl⟩
  unfold hleCreateFile
  split
  next => exact ⟨rfl, .inl (none_ s)⟩
  next name named =>
    split
    next => exact ⟨rfl, .inl (none_ s)⟩
    next =>
      have board : SamePorts s (es3JvsOpen settings s o name).1 :=
        jvsOpen_samePorts settings s o name
      dsimp only
      split
      next => exact ⟨rfl, .inl board⟩
      next =>
        have reader := cardOpen_loads settings (es3JvsOpen settings s o name).1 o name
        split
        next => exact ⟨rfl, reader.around board (none_ _)⟩
        next =>
          have drive := driveStubOpen_samePorts settings
            (es3CardOpen settings (es3JvsOpen settings s o name).1 o name).1 o name
          split
          all_goals exact ⟨rfl, reader.around board drive⟩

end Es3Recomp.Guarantees.SerialPorts
