import Es3Recomp.Library.Liveness
import Es3Recomp.Source.SerialPorts

/-!
# One call on an emulated port

What a history of calls says of the handles in it, and what one call on a handle does: which
device it ends with, what that device is asked to do, and that the handles stay what they were
(src/src/runtime/hle_callback.c:989-1267).
-/
namespace Es3Recomp.Guarantees.SerialPorts
open Library Library.Liveness Source.SerialPorts
open Source.Writes hiding step
open Source.CardReader (World)
open Source.Jvs (Word Effect Machine Env)

/-! ## What a history says -/

/-- The handle that a call is on. -/
def handleOf : Event → Option Word
  | .setup _ h | .setCommTimeouts h _ | .cancelIoEx h | .getCommState h _ | .getCommTimeouts h _
  | .getCommModemStatus h _ | .readFile h _ _ _ | .closeHandle h => some h
  | .writeFile _ _ call _ | .writeFileEx _ _ call _ => some call.handle
  | .readFileEx p => some p.handle
  | .createFile _ | .jvsTicker _ | .cardTicker _ | .cardTap _ => none

/-- The number of arguments, by the headers of Windows. -/
def arity : Event → Nat
  | .createFile _ => 7
  | .writeFile .. | .writeFileEx .. | .readFile .. | .readFileEx _ => 5
  | .setup .setupComm _ => 3
  | .setup .. | .setCommTimeouts .. | .cancelIoEx _ | .getCommState .. | .getCommTimeouts ..
  | .getCommModemStatus .. => 2
  | .closeHandle _ => 1
  | .jvsTicker _ | .cardTicker _ | .cardTap _ => 0

/-- The drive's port has no overlapped calls. -/
def serves : Event → Device → Bool
  | .writeFileEx .., .drive | .readFileEx _, .drive | .cancelIoEx _, .drive => false
  | _, _ => true

def deviceOf : Outcome → Option Device
  | .answered d _ _ _ => some d
  | _ => none

/-- The device answered a CreateFile with the handle. -/
def openedBy (d : Device) (x : Entry) (h : Word) : Prop :=
  ∃ o, x.event = .createFile o ∧ x.done.outcome = .answered d h 7 []

def Opened (history : List Entry) (d : Device) (h : Word) : Prop :=
  ∃ x ∈ history, openedBy d x h

/-- The handle that Windows answered a CreateFile with. -/
def givenByWindows (x : Entry) : Option Word :=
  match x.event, x.done.outcome with
  | .createFile o, .native => if o.native = 0 ∨ o.native = 0xFFFFFFFF then none else some o.native
  | _, _ => none

/-- The handle that a CreateFile came back with. -/
def given (x : Entry) : Option Word :=
  match x.event, x.done.outcome with
  | .createFile _, .answered _ h _ _ => some h
  | _, _ => givenByWindows x

/-- The handle that Windows was told to close. -/
def closed (x : Entry) : Option Word :=
  match x.event, x.done.outcome with
  | .closeHandle h, .native => some h
  | _, _ => none

/-- Windows makes the handle, for an event or for CreateFile. -/
def Makes (o : Opening) (h : Word) : Prop :=
  (∃ d, o.event d = h ∧ h ≠ 0) ∨ o.native = h ∧ h ≠ 0 ∧ h ≠ 0xFFFFFFFF

/-- Windows makes no handle that is open. -/
def Fresh : List Entry → Prop :=
  Each fun before x => ∀ o, x.event = .createFile o → ∀ h, Makes o h →
    ¬ Live given closed before h

/-- What an entry is to the board: the calls it gets, and what comes out of it. -/
def boardOps (x : Entry) : List Source.Jvs.Op :=
  match x.event, x.done.outcome with
  | .writeFile m env call _, .answered .board .. => [.write m env call.bytes]
  | .writeFileEx m env call _, .answered .board .. => [.write m env call.bytes]
  | .readFile _ buf n _, .answered .board .. => [.read buf n]
  | .readFileEx p, .answered .board .. =>
    [.postRead p.env p.thread p.posted p.buf p.n p.ovl p.routine]
  | .setCommTimeouts _ t, .answered .board .. =>
    if t.addr = 0 then [] else [.setTimeouts t.interval t.mult t.const]
  | .cancelIoEx _, .answered .board .. => [.cancel]
  | .jvsTicker t, .turn => [t.op]
  | _, _ => []

def boardOut (out : List Output) : List Source.Jvs.Output :=
  out.flatMap fun
    | .board o => [o]
    | _ => []

def readerOps (x : Entry) : List Source.CardReader.Op :=
  match x.event, x.done.outcome with
  | .writeFile _ env call _, .answered .reader .. => [.write env call.bytes]
  | .writeFileEx _ env call _, .answered .reader .. => [.write env call.bytes]
  | .readFile _ buf n _, .answered .reader .. => [.read buf n]
  | .readFileEx p, .answered .reader .. =>
    [.postRead p.env p.thread p.posted p.buf p.n p.ovl p.routine]
  | .cancelIoEx _, .answered .reader .. => [.cancel]
  | .cardTicker env, .turn => [.tick env]
  | .cardTap now, .turn => [.tap now]
  | _, _ => []

def readerOut (out : List Output) : List Source.CardReader.Output :=
  out.flatMap fun
    | .reader o => [o]
    | _ => []

/-! ## The devices -/

/-- The board and the reader have each done their own operations, with these outputs. -/
structure Acts (world : World) (before after : Ports) (out : List Output)
    (boardOps : List Source.Jvs.Op) (readerOps : List Source.CardReader.Op) : Prop where
  board : Source.Jvs.board.run before.board boardOps = (after.board, boardOut out)
  reader : (Source.CardReader.reader world).run before.reader readerOps =
    (after.reader, readerOut out)

variable {settings : Settings} {world : World}

theorem acts_none (p : Ports) : Acts world p p [] [] [] := ⟨rfl, rfl⟩

theorem acts_board (p : Ports) (op : Source.Jvs.Op) :
    Acts world p (Source.Writes.step world p (.board op)).1
      (Source.Writes.step world p (.board op)).2 [op] [] := by
  constructor
  · simp [Transducer.run_cons, Source.Jvs.board, Source.Writes.step, boardOut, List.flatMap_map]
  · simp [Source.Writes.step, readerOut, List.flatMap_map]

theorem acts_reader (p : Ports) (op : Source.CardReader.Op) :
    Acts world p (Source.Writes.step world p (.reader op)).1
      (Source.Writes.step world p (.reader op)).2 [] [op] := by
  constructor
  · simp [Source.Writes.step, boardOut, List.flatMap_map]
  · simp [Transducer.run_cons, Source.CardReader.reader, Source.Writes.step, readerOut,
      List.flatMap_map]

theorem acts_onBoard (s : State) (op : Source.Jvs.Op) (ends : List Output → Outcome) :
    Acts world s.ports (onPort world s (.board op) ends).1.ports
      (onPort world s (.board op) ends).2.out [op] [] := acts_board s.ports op

theorem acts_onReader (s : State) (op : Source.CardReader.Op) (ends : List Output → Outcome) :
    Acts world s.ports (onPort world s (.reader op) ends).1.ports
      (onPort world s (.reader op) ends).2.out [] [op] := acts_reader s.ports op

/-- A write is one operation of the device it goes to. -/
theorem acts_handOver (w : Setting) (p : Ports) (bytes : List UInt8) (target : Target)
    (told : List Told) :
    Acts world p (handOver world w p bytes target told).1 (handOver world w p bytes target told).2
      (if target = .jvs then [w.jvsWrite bytes] else [])
      (if target = .card then [w.cardWrite bytes] else []) := by
  cases target with
  | jvs =>
    constructor
    · simp [Transducer.run_cons, Source.Jvs.board, handOver, boardOut, List.flatMap_map]
    · simp [handOver, readerOut, List.flatMap_map]
  | card =>
    constructor
    · simp [handOver, boardOut, List.flatMap_map]
    · simp [Transducer.run_cons, Source.CardReader.reader, handOver, readerOut, List.flatMap_map]
  | driveStub => constructor <;> rfl
  | native => constructor <;> rfl

theorem onAnyPort_state (s : State) (h : Word) (argc : Nat) (stores : List Effect) :
    (onAnyPort s h argc stores).1 = s := by
  unfold onAnyPort
  repeat' split
  all_goals rfl

theorem onAnyPort_out (s : State) (h : Word) (argc : Nat) (stores : List Effect) :
    (onAnyPort s h argc stores).2.out = [] := by
  unfold onAnyPort
  repeat' split
  all_goals rfl

/-- The two hooks that write. -/
theorem acts_written (s : State) (m : Machine) (env : Env) (call : Call)
    (target : Target) (told : List Told) {e : Event}
    (hook : (∃ count, e = .writeFile m env call count) ∨ ∃ t, e = .writeFileEx m env call t) :
    let r := handOver world ⟨s.handles, m, env⟩ s.ports call.bytes target told
    Acts world s.ports r.1 r.2 (boardOps ⟨e, r.2, written target told⟩)
      (readerOps ⟨e, r.2, written target told⟩) := by
  have ops : Acts world _ _ _ _ _ :=
    acts_handOver ⟨s.handles, m, env⟩ s.ports call.bytes target told
  rcases hook with ⟨count, rfl⟩ | ⟨t, rfl⟩ <;> cases target <;> exact ops

/-- What becomes of an event that is not an open, to the two devices. -/
theorem step_acts (settings : Settings) (world : World) (s : State) (e : Event)
    (other : ∀ o, e ≠ .createFile o) :
    Acts world s.ports (step settings world s e).1.ports (step settings world s e).2.out
      (boardOps ⟨e, (step settings world s e).2⟩) (readerOps ⟨e, (step settings world s e).2⟩) := by
  have quiet : ∀ h argc stores, Acts world s.ports (onAnyPort s h argc stores).1.ports
      (onAnyPort s h argc stores).2.out [] [] := by
    intro h argc stores
    rw [onAnyPort_state, onAnyPort_out]
    exact acts_none _
  cases e with
  | createFile o => exact absurd rfl (other o)
  | setup f h => exact quiet h f.argc []
  | setCommTimeouts h t =>
    simp only [step, hleSetCommTimeouts]
    by_cases board : es3JvsIsPort s h = true
    · by_cases null : t.addr = 0
      · simp only [board, null, ne_eq, not_true_eq_false, and_false, ↓reduceIte, commOk, onAnyPort,
          boardOps]
        exact acts_none _
      · have still : es3JvsIsPort { s with ports := (Source.Writes.step world s.ports
            (.board (.setTimeouts t.interval t.mult t.const))).1 } h = true := board
        simp only [board, null, ne_eq, not_false_eq_true, and_self, ↓reduceIte, commOk, onAnyPort,
          still, boardOps, readerOps]
        exact acts_board s.ports (.setTimeouts t.interval t.mult t.const)
    · simp only [board, Bool.false_eq_true, false_and, ↓reduceIte, commOk, onAnyPort]
      repeat' split
      all_goals exact acts_none _
  | cancelIoEx h =>
    simp only [step, hleCancelIoEx]
    repeat' split
    · exact acts_onReader s _ _
    · exact acts_onBoard s _ _
    · exact acts_none _
  | getCommState h dcb => exact quiet h 2 _
  | getCommTimeouts h t => exact quiet h 2 _
  | getCommModemStatus h p => exact quiet h 2 _
  | writeFile m env call count =>
    exact acts_written s m env call (writeFileTarget s.handles call.handle) _ (.inl ⟨count, rfl⟩)
  | writeFileEx m env call t =>
    exact acts_written s m env call (writeFileExTarget s.handles call.handle) _ (.inr ⟨t, rfl⟩)
  | readFile h buf n read =>
    simp only [step, Source.SerialPorts.hleReadFile]
    repeat' split
    · exact acts_onBoard s _ _
    · exact acts_none _
    · exact acts_onReader s _ _
    · exact acts_none _
  | readFileEx p =>
    simp only [step, Source.SerialPorts.hleReadFileEx]
    repeat' split
    · exact acts_onReader s _ _
    · exact acts_onBoard s _ _
    · exact acts_none _
  | closeHandle h => exact quiet h 1 []
  | jvsTicker t =>
    simp only [step]
    split
    · exact acts_onBoard s _ _
    · exact acts_none _
  | cardTicker env =>
    simp only [step]
    split
    · exact acts_onReader s _ _
    · exact acts_none _
  | cardTap now => exact acts_onReader s _ _

/-! ## The handles -/

def handle (s : State) : Device → Word
  | .board => s.handles.jvs
  | .reader => s.handles.card
  | .drive => s.handles.driveStub

def Owns (s : State) (d : Device) (h : Word) : Prop := h ≠ 0 ∧ handle s d = h

/-- No two devices are open under one handle. -/
def Apart (s : State) : Prop := ∀ d d' h, Owns s d h → Owns s d' h → d = d'

/-- What is open is ready. -/
structure Ready (s : State) : Prop where
  board : s.handles.jvs ≠ 0 → s.jvsReady = true
  reader : s.handles.card ≠ 0 → s.cardReady = true

/-- Nothing of a state that the hooks look at has changed. -/
def SameHandles (s s' : State) : Prop :=
  s'.handles = s.handles ∧ s'.jvsReady = s.jvsReady ∧ s'.cardReady = s.cardReady

theorem sameHandles_onAnyPort (s : State) (h : Word) (argc : Nat)
    (stores : List Effect) : SameHandles s (onAnyPort s h argc stores).1 := by
  rw [onAnyPort_state]
  exact ⟨rfl, rfl, rfl⟩

/-- Only an open changes the handles. -/
theorem step_sameHandles (settings : Settings) (world : World) (s : State) (e : Event)
    (other : ∀ o, e ≠ .createFile o) : SameHandles s (step settings world s e).1 := by
  cases e with
  | createFile o => exact absurd rfl (other o)
  | setup f h => exact sameHandles_onAnyPort s h f.argc []
  | setCommTimeouts h t =>
    simp only [step, hleSetCommTimeouts, commOk, onAnyPort_state]
    split <;> exact ⟨rfl, rfl, rfl⟩
  | getCommState h dcb => exact sameHandles_onAnyPort s h 2 _
  | getCommTimeouts h t => exact sameHandles_onAnyPort s h 2 _
  | getCommModemStatus h p => exact sameHandles_onAnyPort s h 2 _
  | closeHandle h => exact sameHandles_onAnyPort s h 1 []
  | writeFile m env call count => exact ⟨rfl, rfl, rfl⟩
  | writeFileEx m env call t => exact ⟨rfl, rfl, rfl⟩
  | cardTap now =>
    simp only [step, onPort]
    exact ⟨rfl, rfl, rfl⟩
  | cancelIoEx h =>
    simp only [step, hleCancelIoEx]
    repeat' split
    all_goals exact ⟨rfl, rfl, rfl⟩
  | readFile h buf n read =>
    simp only [step, Source.SerialPorts.hleReadFile]
    repeat' split
    all_goals exact ⟨rfl, rfl, rfl⟩
  | readFileEx p =>
    simp only [step, Source.SerialPorts.hleReadFileEx]
    repeat' split
    all_goals exact ⟨rfl, rfl, rfl⟩
  | jvsTicker t =>
    simp only [step]
    split <;> exact ⟨rfl, rfl, rfl⟩
  | cardTicker env =>
    simp only [step]
    split <;> exact ⟨rfl, rfl, rfl⟩

/-! ## One call on a handle -/

theorem isHandle_iff {handle h : Word} : isHandle handle h = true ↔ h ≠ 0 ∧ handle = h := by
  rw [isHandle, Bool.and_eq_true, decide_eq_true_eq, decide_eq_true_eq, eq_comm (a := h)]

theorem es3JvsIsPort_iff {s : State} (ready : Ready s) {h : Word} :
    es3JvsIsPort s h = true ↔ Owns s .board h := by
  rw [es3JvsIsPort, Bool.and_eq_true, isHandle_iff]
  exact and_iff_right_of_imp fun owned => ready.board (owned.2 ▸ owned.1)

theorem es3CardIsPort_iff {s : State} (ready : Ready s) {h : Word} :
    es3CardIsPort s h = true ↔ Owns s .reader h := by
  rw [es3CardIsPort, Bool.and_eq_true, isHandle_iff]
  exact and_iff_right_of_imp fun owned => ready.reader (owned.2 ▸ owned.1)

/-- What the hooks find out about a handle. -/
structure Asked (s : State) (h : Word) (owner : Option Device) : Prop where
  board : es3JvsIsPort s h = decide (owner = some .board)
  reader : es3CardIsPort s h = decide (owner = some .reader)
  drive : isDriveStub s h = decide (owner = some .drive)
  jvs : isHandle s.handles.jvs h = decide (owner = some .board)
  card : isHandle s.handles.card h = decide (owner = some .reader)

theorem asked {s : State} (ready : Ready s) {h : Word} {owner : Option Device}
    (is_ : ∀ d, owner = some d ↔ Owns s d h) : Asked s h owner where
  board := by rw [Bool.eq_iff_iff, es3JvsIsPort_iff ready, decide_eq_true_eq, is_]
  reader := by rw [Bool.eq_iff_iff, es3CardIsPort_iff ready, decide_eq_true_eq, is_]
  drive := by rw [Bool.eq_iff_iff, isDriveStub, isHandle_iff, decide_eq_true_eq, is_]; rfl
  jvs := by rw [Bool.eq_iff_iff, isHandle_iff, decide_eq_true_eq, is_]; rfl
  card := by rw [Bool.eq_iff_iff, isHandle_iff, decide_eq_true_eq, is_]; rfl

/-- Where a call on a handle ends up: with the owner if that serves it, else with Windows. -/
inductive Ends (e : Event) (owner : Option Device) : Outcome → Prop where
  | answered (d : Device) (eax : Word) (stores : List Effect) (own : owner = some d)
    (served : serves e d = true) : Ends e owner (.answered d eax (arity e) stores)
  | native (not : ∀ d, owner = some d → serves e d = false) : Ends e owner .native

theorem ends_onAnyPort {s : State} {h : Word} {owner : Option Device} (known : Asked s h owner)
    (stores : List Effect) {e : Event} (all : ∀ d, serves e d = true) :
    Ends e owner (onAnyPort s h (arity e) stores).2.outcome := by
  unfold onAnyPort
  rw [known.board, known.reader, known.drive]
  rcases owner with - | d
  · exact .native nofun
  · cases d <;> exact .answered _ 1 stores rfl (all _)

/-- The target of a write that the device serves. -/
def targetOf : Option Device → Target
  | some .board => .jvs
  | some .reader => .card
  | some .drive => .driveStub
  | none => .native

theorem ends_written {told : List Told} {e : Event} (owner : Option Device) (five : arity e = 5) :
    Ends e owner (written (targetOf (owner.filter (serves e))) told) := by
  cases kept : owner.filter (serves e) with
  | none => exact .native fun d own => by simpa [own] using kept
  | some d =>
    obtain ⟨own, served⟩ := Option.filter_eq_some_iff.mp kept
    have answer := Ends.answered (e := e) d 1 (told.flatMap toldEffects) own served
    rw [five] at answer
    cases d <;> exact answer

theorem step_ends (settings : Settings) (world : World) {s : State} {e : Event} {h : Word}
    (on : handleOf e = some h) {owner : Option Device} (known : Asked s h owner) :
    Ends e owner (step settings world s e).2.outcome := by
  cases e with
  | createFile | jvsTicker | cardTicker | cardTap => cases on
  | setup f h' =>
    cases on
    cases f <;> exact ends_onAnyPort known [] fun _ => rfl
  | setCommTimeouts h' t =>
    cases on
    simp only [step, hleSetCommTimeouts, commOk]
    split
    next =>
      have still : Asked { s with ports := (Source.Writes.step world s.ports
          (.board (.setTimeouts t.interval t.mult t.const))).1 } h owner :=
        ⟨known.board, known.reader, known.drive, known.jvs, known.card⟩
      exact ends_onAnyPort still [] fun _ => rfl
    next => exact ends_onAnyPort known [] fun _ => rfl
  | getCommState h' dcb =>
    cases on
    exact ends_onAnyPort known _ fun _ => rfl
  | getCommTimeouts h' t =>
    cases on
    exact ends_onAnyPort known _ fun _ => rfl
  | getCommModemStatus h' p =>
    cases on
    exact ends_onAnyPort known _ fun _ => rfl
  | closeHandle h' =>
    cases on
    exact ends_onAnyPort known [] fun _ => rfl
  | writeFile m env call count =>
    cases on
    have target : writeFileTarget s.handles call.handle =
        targetOf (owner.filter (serves (.writeFile m env call count))) := by
      rw [writeFileTarget, known.jvs, known.card, ← isDriveStub, known.drive]
      rcases owner with - | d
      · rfl
      · cases d <;> rfl
    simp only [step, Source.SerialPorts.hleWriteFile, target]
    exact ends_written owner rfl
  | writeFileEx m env call t => 
    cases on
    have target : writeFileExTarget s.handles call.handle =
        targetOf (owner.filter (serves (.writeFileEx m env call t))) := by
      rw [writeFileExTarget, known.jvs, known.card]
      rcases owner with - | d
      · rfl
      · cases d <;> rfl
    simp only [step, Source.SerialPorts.hleWriteFileEx, target]
    exact ends_written owner rfl
  | cancelIoEx h' =>
    cases on
    simp only [step, hleCancelIoEx, known.board, known.reader]
    rcases owner with - | d
    · exact .native nofun
    · cases d
      · exact .answered .board 1 [] rfl rfl
      · exact .answered .reader 1 [] rfl rfl
      · exact .native fun _ own => by cases own; rfl
  | readFile h' buf n read => 
    cases on
    simp only [step, Source.SerialPorts.hleReadFile, known.board, known.reader, known.drive]
    rcases owner with - | d
    · exact .native nofun
    · cases d
      · exact .answered .board 1 _ rfl rfl
      · exact .answered .reader 1 _ rfl rfl
      · exact .answered .drive 1 _ rfl rfl
  | readFileEx p => 
    cases on
    simp only [step, Source.SerialPorts.hleReadFileEx, known.board, known.reader]
    rcases owner with - | d
    · exact .native nofun
    · cases d
      · exact .answered .board 1 [] rfl rfl
      · exact .answered .reader 1 [] rfl rfl
      · exact .native fun _ own => by cases own; rfl

end Es3Recomp.Guarantees.SerialPorts
