import Es3Recomp.Model.CardReader.Consume
import Es3Recomp.Model.Reads

/-!
# The reader's port is a read channel

As `Guarantees.Jvs.Reads` for the other port: a write brings the frames that the FIFO
has room for, a posted read is a request that is given up after 100 ms.
-/
namespace Es3Recomp.Guarantees.CardReader
open Library Source.CardReader Model.CardReader Model.Reads
open Source.Jvs (Word Effect Env bytesRead)

def ticketOf (p : CardPort) : Ticket := ⟨p.readBuf, p.readOvl, p.readRoutine, p.readThread⟩

def requestOf (p : CardPort) : ReadRequest :=
  ⟨p.readLen.toNat, deadlineOf p.readDeadline, ticketOf p⟩

def channelOf (p : CardPort) : Channel UInt8 Ticket UInt64 :=
  ⟨p.out.contents, if p.readPending then some (requestOf p) else none⟩

/-- What an operation is to the channel. -/
def moveOf (world : World) (r : Reader) : Op → ReadMove
  | .write env bytes =>
    .settle ((consume world (received r bytes)).2.flatMap Executed.sent) none env.tick
  | .postRead env thread posted buf n ovl routine =>
    .settle [] (some ⟨n.toNat, deadlineOf (posted + 100), ⟨buf, ovl, routine, thread⟩⟩) env.tick
  | .tick env => .settle [] none env.tick
  | .read buf n => .take n.toNat buf
  | .cancel => .cancel
  | .tap _ => .idle

/-- A pending read has all it needs to be told about. -/
def Tellable (p : CardPort) : Prop := p.readPending = true → (ticketOf p).Whole

/-- The assumptions on a call: Windows does what it is asked, and a posted read
carries an OVERLAPPED and a routine. -/
def WellPosted : Op → Prop
  | .write env _ => EnvOk env
  | .postRead env thread _ buf _ ovl routine => EnvOk env ∧ (⟨buf, ovl, routine, thread⟩ : Ticket).Whole
  | .tick env => EnvOk env
  | _ => True

theorem channelOf_idle {p : CardPort} (idle : ¬ p.readPending = true) :
    channelOf p = ⟨p.out.contents, none⟩ := by
  rw [channelOf, if_neg idle]

theorem channelOf_pending {p : CardPort} (pending : p.readPending = true) :
    channelOf p = ⟨p.out.contents, some (requestOf p)⟩ := by
  rw [channelOf, if_pos pending]

/-- The test of `finish_read` is the channel's. -/
theorem due_iff (p : CardPort) (now : UInt64) :
    (requestOf p).Due p.out.contents.length now ↔
      ¬ (p.out.avail < p.readLen.toNat ∧ (p.readDeadline = 0 ∨ now < p.readDeadline)) := by
  rw [requestOf, request_due_iff, Ring.length_contents, not_and_or, Nat.not_lt, not_or,
    UInt64.not_lt]

/-- A short read takes what there is, as a read of the whole length would. -/
theorem take_want (p : CardPort) (n : Nat) :
    p.out.contents.take (if p.out.avail < n then p.out.avail else n) = p.out.contents.take n ∧
      p.out.contents.drop (if p.out.avail < n then p.out.avail else n) = p.out.contents.drop n := by
  by_cases less : p.out.avail < n
  · rw [if_pos less, ← Ring.length_contents] at *
    have short : p.out.contents.length ≤ n := Nat.le_of_lt less
    rw [List.take_length, List.drop_length, List.take_of_length_le short,
      List.drop_of_length_le short]
    exact ⟨rfl, rfl⟩
  · rw [if_neg less]
    exact ⟨rfl, rfl⟩

/-- `finish_read` is the channel looking at its request. -/
theorem finishRead_settle {env : Env} (ok : EnvOk env) {p : CardPort} (tellable : Tellable p) :
    channelOf (finishRead env p).1 = (Channel.settle (δ := Word) env.tick (channelOf p)).1 ∧
      (finishRead env p).2 = (Channel.settle env.tick (channelOf p)).2.flatMap effects ∧
      Tellable (finishRead env p).1 := by
  unfold finishRead
  by_cases idle : ¬ p.readPending = true
  · rw [if_pos idle, channelOf_idle idle]
    exact ⟨rfl, rfl, tellable⟩
  · have pending := not_not.mp idle
    rw [if_neg idle, channelOf_pending pending]
    dsimp only [Channel.settle]
    split
    · rename_i wait
      rw [if_neg fun due => (due_iff p env.tick).mp due wait, channelOf_pending pending]
      exact ⟨rfl, rfl, tellable⟩
    · rename_i go
      rw [if_pos ((due_iff p env.tick).mpr go)]
      obtain ⟨hasOvl, hasRoutine, hasThread⟩ := tellable pending
      obtain ⟨front, back⟩ := take_want p p.readLen.toNat
      refine ⟨?_, ?_, nofun⟩
      · rw [channelOf_idle (by simp)]
        simp [Ring.contents_take, requestOf, back]
      · have ovl : p.readOvl ≠ 0 := hasOvl
        have routine : p.readRoutine ≠ 0 := hasRoutine
        have thread : p.readThread ≠ 0 := hasThread
        simp [effects, Ring.take_fst, overlappedResult, queuedRoutine, ovl, routine, thread,
          ok.1, ok.2, requestOf, ticketOf, front]

/-! ## What commands leave alone -/

structure SameRead (p q : CardPort) : Prop where
  pending : q.readPending = p.readPending
  request : requestOf q = requestOf p

theorem SameRead.trans {p q r : CardPort} (h : SameRead p q) (h' : SameRead q r) : SameRead p r :=
  ⟨h'.pending.trans h.pending, h'.request.trans h.request⟩

/-- A command sends its answer, and the pending read stays as it is. -/
theorem execute_port (world : World) (r : Reader) (body : List UInt8) (dcs : UInt8) :
    (execute world r body dcs).1.port.out.contents =
        r.port.out.contents ++ (execute world r body dcs).2.sent ∧
      SameRead r.port (execute world r body dcs).1.port := by
  unfold execute
  dsimp only
  split
  · exact ⟨by simp only [List.append_nil], rfl, rfl⟩
  · exact ⟨by simp only [sendFrame, Ring.contents_pushAll], rfl, rfl⟩

/-- What a call of `consume` does to the FIFO, and that reads do not notice. -/
theorem consume_port (world : World) (r : Reader) :
    (consume world r).1.port.out.contents =
        r.port.out.contents ++ (consume world r).2.flatMap Executed.sent ∧
      SameRead r.port (consume world r).1.port := by
  refine consume_induction world
    (motive := fun r result => result.1.port.out.contents =
        r.port.out.contents ++ result.2.flatMap Executed.sent ∧ SameRead r.port result.1.port)
    ?_ ?_ ?_ r
  · intro r _
    exact ⟨by simp, rfl, rfl⟩
  · intro r n result _ ih
    exact ⟨ih.1, ih.2.pending, ih.2.request⟩
  · intro r body dcs result _ ih
    obtain ⟨sent, same⟩ := execute_port world r body dcs
    refine ⟨?_, same.trans ⟨ih.2.pending, ih.2.request⟩⟩
    rw [List.flatMap_cons, ← List.append_assoc, ← sent]
    exact ih.1

theorem channelOf_sameRead {p q : CardPort} (same : SameRead p q) :
    channelOf q = ⟨q.out.contents, (channelOf p).pending⟩ := by
  rw [channelOf, same.pending, same.request]
  rfl

theorem tellable_sameRead {p q : CardPort} (same : SameRead p q) (tellable : Tellable p) :
    Tellable q := by
  intro pending
  have whole := tellable (same.pending ▸ pending)
  have tickets : ticketOf q = ticketOf p := congrArg Request.ticket same.request
  rwa [tickets]

/-! ## The refinement -/

/-- Commands carried out are no effects on the game. -/
def seen : Output → List Effect
  | .executed _ => []
  | .effect e => [e]

/-- What the game saw in a run, in order. -/
def effectsOf (out : List Output) : List Effect := out.flatMap seen

theorem effectsOf_effects (es : List Effect) : effectsOf (es.map .effect) = es := by
  induction es with
  | nil => rfl
  | cons e es ih =>
    rw [List.map_cons, effectsOf, List.flatMap_cons, ← effectsOf, ih]
    rfl

theorem effectsOf_written (executed : List Executed) (es : List Effect) :
    effectsOf (executed.map .executed ++ es.map .effect) = es := by
  have silent : (executed.map Output.executed).flatMap seen = [] := by
    simp [seen, List.flatMap_map]
  rw [effectsOf, List.flatMap_append, silent, List.nil_append]
  exact effectsOf_effects es

/-- Every call is its move. -/
theorem step_move {world : World} {r : Reader} {op : Op} (tellable : Tellable r.port)
    (ok : WellPosted op) :
    channelOf (step world r op).1.port =
        (Channel.step (channelOf r.port) (moveOf world r op)).1 ∧
      effectsOf (step world r op).2 =
        (Channel.step (channelOf r.port) (moveOf world r op)).2.flatMap effects ∧
      Tellable (step world r op).1.port := by
  cases op with
  | write env bytes =>
    obtain ⟨sent, same⟩ := consume_port world (received r bytes)
    obtain ⟨channel, told, kept⟩ := finishRead_settle ok (tellable_sameRead same tellable)
    rw [channelOf_sameRead same, sent] at channel told
    exact ⟨channel, (effectsOf_written _ _).trans told, kept⟩
  | postRead env thread posted buf n ovl routine =>
    obtain ⟨channel, told, kept⟩ := finishRead_settle ok.1 (p := { r.port with
      readThread := thread
      readPending := true
      readBuf := buf
      readLen := n
      readOvl := ovl
      readRoutine := routine
      readDeadline := posted + 100 }) fun _ => ok.2
    have asked : Channel.step (channelOf r.port) (moveOf world r (.postRead env thread posted buf n
        ovl routine)) = Channel.settle env.tick
          ⟨r.port.out.contents,
            some ⟨n.toNat, deadlineOf (posted + 100), ⟨buf, ovl, routine, thread⟩⟩⟩ := by
      simp [Channel.step, moveOf, channelOf]
    rw [asked]
    exact ⟨channel, (effectsOf_effects _).trans told, kept⟩
  | read buf n =>
    refine ⟨?_, ?_, tellable⟩
    · simp [step, es3CardRead, channelOf, moveOf, Channel.step, Ring.contents_take, requestOf,
        ticketOf]
    · simp [step, es3CardRead, channelOf, moveOf, Channel.step, Ring.take_fst, effects, effectsOf,
        seen]
  | tick env =>
    obtain ⟨channel, told, kept⟩ := finishRead_settle ok tellable
    have asked : Channel.step (channelOf r.port) (moveOf world r (.tick env)) =
        Channel.settle env.tick (channelOf r.port) := by
      simp [Channel.step, moveOf, channelOf]
    rw [asked]
    exact ⟨channel, (effectsOf_effects _).trans told, kept⟩
  | cancel => exact ⟨rfl, rfl, fun pending => absurd pending Bool.false_ne_true⟩
  | tap now =>
    have port : (step world r (.tap now)).1.port = r.port := by simp only [step]
    rw [port]
    exact ⟨rfl, by simp only [step, moveOf, Channel.step, effectsOf, List.flatMap_nil], tellable⟩

/-- The reader, as its reads see it, is a read channel. -/
def reads (world : World) : Refinement (reader world)
    (Channel.machine (α := UInt8) (κ := Ticket) (τ := UInt64) (δ := Word)) Effect where
  abs r := channelOf r.port
  input := moveOf world
  seen := seen
  shown := effects
  Inv r := Tellable r.port
  Ok := WellPosted
  inv_step := fun tellable ok => (step_move tellable ok).2.2
  state := fun tellable ok => (step_move tellable ok).1
  outputs := fun tellable ok => (step_move tellable ok).2.1

end Es3Recomp.Guarantees.CardReader
