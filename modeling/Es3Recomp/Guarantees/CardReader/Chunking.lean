import Es3Recomp.Guarantees.CardReader.Reads
import Es3Recomp.Model.CardReader.Calls
import Es3Recomp.Model.CardReader.Pieces

/-!
# Reception does not depend on how the bytes are cut

A host may hand its frames to `es3_card_write` (src/src/runtime/card.c:718-730) in any number
of calls. The commands carried out, their answers and the card they leave are those of a
single call, unless a bare ACK is met on the way: `consume` drops its five bytes or six,
by whether the sixth has arrived.
-/
namespace Es3Recomp.Guarantees.CardReader
open Library Source.CardReader Model.CardReader
open Source.Jvs (Env bytesRead bytesRead_append)

/-! ## The commands by themselves -/

/-- A command without the port it came through: its body and the answer. -/
def exchangeOf (e : Executed) : Exchange := ⟨e.body, e.reply⟩

/-- Commands on the card, one after another, while the time it is there for stays. -/
def desk (world : World) (presentUntil : UInt64) : Transducer (Card × Nat) (List UInt8) Exchange where
  step s body :=
    let now := world.moment s.2
    let done := command (cardInField world.always now.tick presentUntil) now.save s.1 body
    ((done.1, s.2 + 1), [⟨body, done.2⟩])

/-- The bytes given to `out_push` for an answer. -/
def wire (e : Exchange) : List UInt8 := if e.reply = [] then [] else frame e.reply

theorem wire_answered {body reply : List UInt8} (answered : ¬ reply = []) :
    wire ⟨body, reply⟩ = frame reply := if_neg answered

def wires (es : List Executed) : List UInt8 := es.flatMap fun e => wire (exchangeOf e)

/-- From `r` to `q` these commands were carried out, and no tap. -/
structure Served (world : World) (r q : Reader) (executed : List Executed) : Prop where
  presentUntil : q.presentUntil = r.presentUntil
  card : (desk world r.presentUntil).run (r.card, r.commands) (executed.map Executed.body) =
    ((q.card, q.commands), executed.map exchangeOf)

theorem Served.refl (world : World) (r : Reader) : Served world r r [] := ⟨rfl, rfl⟩

theorem Served.trans {world : World} {r q s : Reader} {es es' : List Executed}
    (h : Served world r q es) (h' : Served world q s es') : Served world r s (es ++ es') := by
  refine ⟨h'.presentUntil.trans h.presentUntil, ?_⟩
  have later := h'.card
  rw [h.presentUntil] at later
  rw [List.map_append, List.map_append, Transducer.run_append, h.card, later]

theorem execute_served (world : World) (r : Reader) (body : List UInt8) (dcs : UInt8) :
    Served world r (execute world r body dcs).1 [(execute world r body dcs).2] := by
  unfold execute
  dsimp only
  split
  · rename_i silent
    exact ⟨rfl, by simp only [Transducer.run, desk, List.map, exchangeOf, silent, List.append_nil]⟩
  · exact ⟨rfl, rfl⟩

theorem execute_out (world : World) (r : Reader) (body : List UInt8) (dcs : UInt8) :
    (execute world r body dcs).1.port.out =
      r.port.out.pushAll (wire (exchangeOf (execute world r body dcs).2)) := by
  unfold execute
  dsimp only
  split
  · rfl
  · rename_i answered
    simp only [exchangeOf, wire_answered answered, sendFrame]

theorem consume_served (world : World) (r : Reader) :
    Served world r (consume world r).1 (consume world r).2 ∧
      (consume world r).1.port.out = r.port.out.pushAll (wires (consume world r).2) := by
  refine consume_induction world (motive := fun r result => Served world r result.1 result.2 ∧
    result.1.port.out = r.port.out.pushAll (wires result.2)) ?_ ?_ ?_ r
  · intro r _
    exact ⟨Served.refl world r, rfl⟩
  · intro r n result _ ih
    exact ⟨⟨ih.1.presentUntil, ih.1.card⟩, ih.2⟩
  · intro r body dcs result _ ih
    obtain ⟨served, out⟩ := ih
    have here := execute_served world r body dcs
    refine ⟨here.trans ⟨served.presentUntil, served.card⟩, ?_⟩
    have pushed : (behind (execute world r body dcs).1 body).port.out =
        r.port.out.pushAll (wire (exchangeOf (execute world r body dcs).2)) :=
      execute_out world r body dcs
    rw [out, pushed]
    exact List.foldl_append.symm

/-! ## Calls that only write -/

/-- One call of `es3_card_write`, with what Windows does during it. -/
structure WriteCall where
  env : Env
  bytes : List UInt8

def WriteCall.op (w : WriteCall) : Op := .write w.env w.bytes

theorem overlappedResult_bytes (p : CardPort) (got : UInt32) :
    bytesRead (overlappedResult p got) = [] := by
  unfold overlappedResult
  split <;> rfl

theorem queuedRoutine_bytes (env : Env) (p : CardPort) (got : UInt32) :
    bytesRead (queuedRoutine env p got) = [] := by
  unfold queuedRoutine
  split <;> rfl

/-- The pending read takes bytes off the front of the FIFO. -/
theorem finishRead_bytes (env : Env) (p : CardPort) :
    bytesRead (finishRead env p).2 ++ (finishRead env p).1.out.contents = p.out.contents := by
  unfold finishRead
  split
  · rfl
  · split
    · rfl
    · dsimp only
      rw [Source.Jvs.bytesRead_store, bytesRead_append, overlappedResult_bytes,
        queuedRoutine_bytes, List.append_nil, List.append_nil, Ring.take_fst, Ring.contents_take,
        List.take_append_drop]

/-- What a run of writes amounts to. -/
structure Written (world : World) (r : Reader) (result : Reader × List Output) : Prop where
  served : Served world r result.1 (executedOf result.2)
  /-- with no read pending the answers are in the FIFO -/
  unread : r.port.readPending = false →
    result.1.port.readPending = false ∧ effectsOf result.2 = [] ∧
      result.1.port.out = r.port.out.pushAll (wires (executedOf result.2))
  /-- answers that there is room for are with the game or in the FIFO, in order -/
  out : (wires (executedOf result.2)).length ≤ r.port.out.room →
    bytesRead (effectsOf result.2) ++ result.1.port.out.contents =
      r.port.out.contents ++ wires (executedOf result.2)

theorem step_written (world : World) (r : Reader) (w : WriteCall) :
    Written world r (step world r w.op) := by
  obtain ⟨served, out⟩ := consume_served world (received r w.bytes)
  have executed : executedOf (step world r w.op).2 = (consume world (received r w.bytes)).2 :=
    (step_spec world r w.op).executed
  have effects : effectsOf (step world r w.op).2 =
      (finishRead w.env (consume world (received r w.bytes)).1.port).2 := effectsOf_written _ _
  have same := (consume_port world (received r w.bytes)).2
  refine ⟨?_, ?_, ?_⟩
  · rw [executed]
    exact ⟨served.presentUntil, served.card⟩
  · intro quiet
    have quiet' : (consume world (received r w.bytes)).1.port.readPending = false :=
      same.pending.trans quiet
    have none : finishRead w.env (consume world (received r w.bytes)).1.port =
        ((consume world (received r w.bytes)).1.port, []) := by
      rw [finishRead, if_pos (by simp [quiet'])]
    have port : (step world r w.op).1.port = (consume world (received r w.bytes)).1.port :=
      congrArg Prod.fst none
    rw [effects, executed, port, none]
    exact ⟨quiet', rfl, out⟩
  · intro fits
    rw [executed] at fits ⊢
    have contents : (consume world (received r w.bytes)).1.port.out.contents =
        r.port.out.contents ++ wires (consume world (received r w.bytes)).2 := by
      rw [out, Ring.contents_pushAll]
      exact congrArg (r.port.out.contents ++ ·) (List.take_of_length_le fits)
    rw [effects, ← contents]
    exact finishRead_bytes w.env _

theorem Written.trans {world : World} {r : Reader} {a : Reader × List Output}
    {b : Reader × List Output} (h : Written world r a) (h' : Written world a.1 b) :
    Written world r (b.1, a.2 ++ b.2) := by
  have effects : effectsOf (a.2 ++ b.2) = effectsOf a.2 ++ effectsOf b.2 := List.flatMap_append
  have wired : wires (executedOf a.2 ++ executedOf b.2) =
      wires (executedOf a.2) ++ wires (executedOf b.2) := List.flatMap_append
  refine ⟨?_, ?_, ?_⟩
  · rw [executedOf_append]
    exact h.served.trans h'.served
  · intro quiet
    obtain ⟨stillQuiet, none, out⟩ := h.unread quiet
    obtain ⟨quiet', none', out'⟩ := h'.unread stillQuiet
    rw [effects, none, none', executedOf_append, wired]
    refine ⟨quiet', rfl, ?_⟩
    rw [out', out]
    exact List.foldl_append.symm
  · intro fits
    rw [executedOf_append, wired] at fits ⊢
    rw [List.length_append] at fits
    have first := h.out (by omega)
    have room : (wires (executedOf b.2)).length ≤ a.1.port.out.room := by
      have length := congrArg List.length first
      rw [List.length_append, List.length_append, Ring.length_contents, Ring.length_contents]
        at length
      have before := r.port.out.avail_add_room
      have after := a.1.port.out.avail_add_room
      omega
    rw [effects, bytesRead_append, List.append_assoc, h'.out room, ← List.append_assoc, first,
      List.append_assoc]

theorem written_run (world : World) (r : Reader) (calls : List WriteCall) :
    Written world r ((reader world).run r (calls.map WriteCall.op)) := by
  induction calls generalizing r with
  | nil =>
    refine ⟨Served.refl world r, fun quiet => ⟨quiet, rfl, rfl⟩, fun _ => ?_⟩
    exact (List.append_nil _).symm
  | cons w calls ih => exact (step_written world r w).trans (ih (step world r w.op).1)

/-- The frames of consecutive calls that all fit are those of the pieces. -/
theorem run_pieces (world : World) (r : Reader) (calls : List WriteCall)
    (fits : r.port.inp.length + (calls.map WriteCall.bytes).flatten.length ≤ FIFO) :
    (executedOf ((reader world).run r (calls.map WriteCall.op)).2).map frameOf =
      (framesOfPieces r.port.inp (calls.map WriteCall.bytes)).1 := by
  induction calls generalizing r with
  | nil => rfl
  | cons w calls ih =>
    simp only [List.map_cons, List.flatten_cons, List.length_append] at fits
    have all : (received r w.bytes).port.inp = r.port.inp ++ w.bytes := by
      have room : w.bytes.length ≤ FIFO - r.port.inp.length := by omega
      exact congrArg (r.port.inp ++ ·) (List.take_of_length_le room)
    have executed : executedOf (step world r w.op).2 = (consume world (received r w.bytes)).2 :=
      (step_spec world r w.op).executed
    have inp : (step world r w.op).1.port.inp = (consume world (received r w.bytes)).1.port.inp :=
      (step_spec world r w.op).inp
    obtain ⟨taken, left⟩ := consume_frames world (received r w.bytes)
    rw [all] at taken left
    rw [left] at inp
    have shorter := length_left (r.port.inp ++ w.bytes)
    rw [List.length_append] at shorter
    have rest := ih (step world r w.op).1 (by rw [inp]; omega)
    rw [inp] at rest
    simp only [List.map_cons, Transducer.run_cons, executedOf_append, List.map_append, framesOfPieces]
    rw [← taken, ← executed, ← rest]
    rfl

/-! ## Whole and in pieces -/

/-- Two receptions, from one state, that differ in nothing a host could notice: the same
commands with the same bodies were carried out in the same order and answered the same,
the card with its authentication is the same, and the same bytes went out. A read that
is pending may find its bytes earlier, and where the FIFO is full make room earlier; what
it took and what the FIFO holds are the same together if there was room for all. -/
structure SameReception (r : Reader) (a b : Reader × List Output) : Prop where
  commands : (executedOf a.2).map exchangeOf = (executedOf b.2).map exchangeOf
  card : a.1.card = b.1.card
  unread : r.port.readPending = false → a.1.port.out = b.1.port.out
  out : (wires (executedOf b.2)).length ≤ r.port.out.room →
    bytesRead (effectsOf a.2) ++ a.1.port.out.contents =
      bytesRead (effectsOf b.2) ++ b.1.port.out.contents

/-- The commands decide everything else. -/
theorem sameReception_iff {world : World} {r : Reader} {a b : Reader × List Output}
    (ha : Written world r a) (hb : Written world r b) :
    SameReception r a b ↔
      (executedOf a.2).map Executed.body = (executedOf b.2).map Executed.body := by
  constructor
  · intro same
    have bodies := congrArg (List.map Exchange.body) same.commands
    rwa [List.map_map, List.map_map] at bodies
  · intro bodies
    have both := ha.served.card
    rw [bodies, hb.served.card] at both
    obtain ⟨state, exchanges⟩ := Prod.mk.inj both
    have wired : wires (executedOf a.2) = wires (executedOf b.2) := by
      have := congrArg (List.flatMap wire) exchanges
      rw [List.flatMap_map, List.flatMap_map] at this
      exact this.symm
    refine ⟨exchanges.symm, (Prod.mk.inj state).1.symm, ?_, ?_⟩
    · intro quiet
      rw [(ha.unread quiet).2.2, (hb.unread quiet).2.2, wired]
    · intro fits
      rw [hb.out fits, ha.out (by rwa [wired]), wired]

/-- The bodies of the commands that consecutive calls carry out, on an empty buffer. -/
theorem run_bodies (world : World) (r : Reader) (fresh : r.port.inp = []) (calls : List WriteCall)
    (fits : (calls.map WriteCall.bytes).flatten.length ≤ FIFO) :
    (executedOf ((reader world).run r (calls.map WriteCall.op)).2).map Executed.body =
      (framesOfPieces [] (calls.map WriteCall.bytes)).1.map Prod.fst := by
  have taken := run_pieces world r calls (by rw [fresh]; exact (Nat.zero_add _).trans_le fits)
  rw [fresh] at taken
  rw [← taken, List.map_map]
  rfl

theorem framesOfPieces_one (bytes : List UInt8) : (framesOfPieces [] [bytes]).1 = (frames bytes).1 :=
  List.append_nil _

/-- Cutting makes no difference exactly to what the pieces hold by themselves. -/
theorem sameReception_pieces {world : World} {r : Reader} (fresh : r.port.inp = [])
    (whole : WriteCall) (fits : whole.bytes.length ≤ FIFO) (calls : List WriteCall)
    (cut : (calls.map WriteCall.bytes).flatten = whole.bytes) :
    SameReception r ((reader world).run r (calls.map WriteCall.op))
        ((reader world).run r [whole.op]) ↔
      (framesOfPieces [] (calls.map WriteCall.bytes)).1.map Prod.fst =
        (frames whole.bytes).1.map Prod.fst := by
  have inPieces := run_bodies world r fresh calls (by rwa [cut])
  have inOne := run_bodies world r fresh [whole] (by simpa using fits)
  have one : [whole].map WriteCall.bytes = [whole.bytes] := rfl
  rw [one, framesOfPieces_one] at inOne
  have written : Written world r ((reader world).run r [whole.op]) := written_run world r [whole]
  rw [sameReception_iff (written_run world r calls) written, inPieces]
  exact ⟨fun same => same.trans inOne, fun same => same.trans inOne.symm⟩

/-- Without a bare ACK every way of cutting makes no difference. A bare ACK in front of
the last frame always makes one: cut off from the frame it leaves it to be carried out. -/
theorem reception_independent_of_cutting (world : World) (r : Reader) (fresh : r.port.inp = [])
    (whole : WriteCall) (fits : whole.bytes.length ≤ FIFO) :
    (Spaced whole.bytes → ∀ calls : List WriteCall,
      (calls.map WriteCall.bytes).flatten = whole.bytes →
      SameReception r ((reader world).run r (calls.map WriteCall.op))
        ((reader world).run r [whole.op])) ∧
    ∀ len lcs body, IsAck len lcs → body.length ≤ 255 →
      bufferScan.Visits whole.bytes (bareAck len lcs ++ frame body) →
      ∃ calls : List WriteCall, (calls.map WriteCall.bytes).flatten = whole.bytes ∧
        ¬ SameReception r ((reader world).run r (calls.map WriteCall.op))
          ((reader world).run r [whole.op]) := by
  constructor
  · intro spaced calls cut
    refine (sameReception_pieces fresh whole fits calls cut).mpr (congrArg (List.map Prod.fst) ?_)
    rw [← cut] at spaced ⊢
    exact frames_of_pieces (turn_short (by decide)) spaced
  · intro len lcs body isAck short visits
    obtain ⟨front, parts, differ⟩ := frames_bare isAck short visits
    have cut : ([⟨whole.env, front ++ bareAck len lcs⟩, ⟨whole.env, frame body⟩].map
        WriteCall.bytes).flatten = whole.bytes := by
      simp [parts]
    exact ⟨_, cut, fun same => differ ((sameReception_pieces fresh whole fits _ cut).mp same)⟩

/-- An ACK with its postamble, and then GetFirmwareVersion. -/
def greeting : List UInt8 := bareAck 0x00 0xFF ++ [0x00] ++ frame [0xD4, 0x02]

theorem spaced_greeting : Spaced greeting := by
  have ack : turn greeting = .skip 6 := by decide
  have command : turn (greeting.drop 6) = .frame [0xD4, 0x02] 0x2A := by decide
  refine (spaced_skip ack).mpr ⟨by decide, (spaced_frame command).mpr ⟨by decide, ?_⟩⟩
  exact spaced_short (by decide)

/-- The greeting, cut behind the fifth byte of the ACK and inside the frame. -/
theorem greeting_independent_of_cutting :
    SameReception (Reader.start blankWorld)
      ((reader ⟨false, fun _ => ⟨0, SaveOutcome.good⟩⟩).run (Reader.start blankWorld)
        [.write ⟨5, true, true⟩ (greeting.take 5), .write ⟨6, true, true⟩ ((greeting.drop 5).take 4),
          .write ⟨9, true, true⟩ (greeting.drop 9)])
      ((reader ⟨false, fun _ => ⟨0, SaveOutcome.good⟩⟩).run (Reader.start blankWorld)
        [.write ⟨9, true, true⟩ greeting]) :=
  (reception_independent_of_cutting ⟨false, fun _ => ⟨0, SaveOutcome.good⟩⟩
    (Reader.start blankWorld) rfl ⟨⟨9, true, true⟩, greeting⟩ (by decide)).1 spaced_greeting
    [⟨⟨5, true, true⟩, greeting.take 5⟩, ⟨⟨6, true, true⟩, (greeting.drop 5).take 4⟩,
      ⟨⟨9, true, true⟩, greeting.drop 9⟩] (by decide)

/-- The same command behind an ACK without its postamble: carried out when it comes in a
call of its own, lost when it comes with the ACK. -/
theorem bare_ack_depends_on_cutting :
    ¬ SameReception (Reader.start blankWorld)
      ((reader ⟨false, fun _ => ⟨0, SaveOutcome.good⟩⟩).run (Reader.start blankWorld)
        [.write ⟨9, true, true⟩ [0x00, 0x00, 0xFF, 0x00, 0xFF],
          .write ⟨9, true, true⟩ [0x00, 0x00, 0xFF, 0x02, 0xFE, 0xD4, 0x02, 0x2A, 0x00]])
      ((reader ⟨false, fun _ => ⟨0, SaveOutcome.good⟩⟩).run (Reader.start blankWorld)
        [.write ⟨9, true, true⟩ [0x00, 0x00, 0xFF, 0x00, 0xFF,
          0x00, 0x00, 0xFF, 0x02, 0xFE, 0xD4, 0x02, 0x2A, 0x00]]) := by
  intro same
  have bodies := (sameReception_pieces rfl
    ⟨⟨9, true, true⟩, bareAck 0x00 0xFF ++ frame [0xD4, 0x02]⟩ (by decide)
    [⟨⟨9, true, true⟩, bareAck 0x00 0xFF⟩, ⟨⟨9, true, true⟩, frame [0xD4, 0x02]⟩]
    (by decide)).mp same
  exact absurd bodies (by decide)

end Es3Recomp.Guarantees.CardReader
