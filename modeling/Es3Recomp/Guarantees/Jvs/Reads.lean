import Es3Recomp.Guarantees.Jvs.WholeReplies
import Es3Recomp.Model.Reads

/-!
# The JVS port is a read channel

Every call on the port is a move of the channel: a write brings the replies that the
FIFO has room for, a posted read is a request, the ticker looks at it.
-/
namespace Es3Recomp.Guarantees.Jvs
open Library Source.Jvs Model.Jvs Model.Reads

def ticketOf (p : JvsPort) : Ticket := ⟨p.readBuf, p.readOvl, p.readRoutine, p.readThread⟩

def requestOf (p : JvsPort) : ReadRequest :=
  ⟨p.readLen.toNat, deadlineOf p.readDeadline, ticketOf p⟩

def channelOf (p : JvsPort) : Channel UInt8 Ticket UInt64 :=
  ⟨p.out.contents, if p.readPending then some (requestOf p) else none⟩

/-- The request a call posts: its deadline is computed from the timeouts set before. -/
def postedBy (p : JvsPort) (thread : Word) (posted : UInt64) (buf : Word) (n : UInt32)
    (ovl routine : Word) : ReadRequest :=
  ⟨n.toNat, deadlineOf (readDeadlineFor posted p n), ⟨buf, ovl, routine, thread⟩⟩

/-- What an operation is to the channel. -/
def moveOf (s : Node) : Op → ReadMove
  | .write m env bytes =>
    .settle ((consumed s (.write m env bytes)).2.flatMap sentBy) none env.tick
  | .postRead env thread posted buf n ovl routine =>
    .settle [] (some (postedBy s.port thread posted buf n ovl routine)) env.tick
  | .tick env => .settle [] none env.tick
  | .read buf n => .take n.toNat buf
  | .cancel => .cancel
  | _ => .idle

/-- A pending read has all it needs to be told about. -/
def Tellable (p : JvsPort) : Prop := p.readPending = true → (ticketOf p).Whole

/-- The assumptions on a call: Windows does what it is asked, and a posted read
carries an OVERLAPPED and a routine. -/
def WellPosted : Op → Prop
  | .write _ env _ => EnvOk env
  | .postRead env thread _ buf _ ovl routine => EnvOk env ∧ (⟨buf, ovl, routine, thread⟩ : Ticket).Whole
  | .tick env => EnvOk env
  | _ => True

theorem channelOf_idle {p : JvsPort} (idle : ¬ p.readPending = true) :
    channelOf p = ⟨p.out.contents, none⟩ := by
  rw [channelOf, if_neg idle]

theorem channelOf_pending {p : JvsPort} (pending : p.readPending = true) :
    channelOf p = ⟨p.out.contents, some (requestOf p)⟩ := by
  rw [channelOf, if_pos pending]

/-- The test of `finish_read` is the channel's. -/
theorem due_iff (p : JvsPort) (now : UInt64) :
    (requestOf p).Due p.out.contents.length now ↔
      ¬ (outAvail p < p.readLen.toNat ∧ ¬ (p.readDeadline ≠ 0 ∧ p.readDeadline ≤ now)) := by
  rw [requestOf, request_due_iff, Ring.length_contents, not_and_or, Nat.not_lt, not_not]
  rfl

/-- `finish_read` is the channel looking at its request. -/
theorem finishRead_settle {env : Env} (ok : EnvOk env) {p : JvsPort} (tellable : Tellable p) :
    channelOf (finishRead env p).1 = (Channel.settle (δ := Word) env.tick (channelOf p)).1 ∧
      (finishRead env p).2 = (Channel.settle env.tick (channelOf p)).2.flatMap effects ∧
      Tellable (finishRead env p).1 := by
  unfold finishRead
  by_cases idle : ¬ p.readPending = true
  · rw [if_pos idle, channelOf_idle idle]
    exact ⟨rfl, rfl, tellable⟩
  · have pending := not_not.mp idle
    rw [if_neg idle, channelOf_pending pending]
    dsimp only [Channel.settle]
    split
    · rename_i wait
      rw [if_neg fun due => (due_iff p env.tick).mp due wait, channelOf_pending pending]
      exact ⟨rfl, rfl, tellable⟩
    · rename_i go
      rw [if_pos ((due_iff p env.tick).mpr go)]
      obtain ⟨hasOvl, hasRoutine, -⟩ := tellable pending
      refine ⟨?_, ?_, nofun⟩
      · rw [channelOf_idle (by simp)]
        simp [outTake, Ring.contents_take, requestOf]
      · have ovl : p.readOvl ≠ 0 := hasOvl
        have routine : p.readRoutine ≠ 0 := hasRoutine
        simp [effects, outTake, Ring.take_fst, overlappedResult, queuedRoutine, ovl, routine,
          ok.1, ok.2, requestOf, ticketOf]

/-! ## What handling packets leaves alone -/

/-- The read that is pending is the same, or none is pending in either. -/
structure SameRead (p q : JvsPort) : Prop where
  pending : q.readPending = p.readPending
  request : requestOf q = requestOf p

theorem SameRead.refl (p : JvsPort) : SameRead p p := ⟨rfl, rfl⟩

theorem SameRead.trans {p q r : JvsPort} (h : SameRead p q) (h' : SameRead q r) : SameRead p r :=
  ⟨h'.pending.trans h.pending, h'.request.trans h.request⟩

theorem effect_sameRead (c : Command) (p : JvsPort) : SameRead p (c.effect p) := by
  cases c with
  | coinDecrease slot hi lo =>
    simp only [Command.effect, Source.Jvs.coinDecrease]
    split <;> exact ⟨rfl, rfl⟩
  | _ => exact ⟨rfl, rfl⟩

theorem perform_sameRead (m : Machine) (inputs : Inputs) (cs : List Command) (p : JvsPort)
    (body : List UInt8) : SameRead p (perform m inputs cs p body).1 := by
  induction cs generalizing p body with
  | nil => exact SameRead.refl p
  | cons c cs ih => exact (effect_sameRead c p).trans (ih (c.effect p) _)

theorem replyIf_sameRead (p : JvsPort) (body : Option (List UInt8)) :
    SameRead p (replyIf p body) := by
  cases body with
  | none => exact SameRead.refl p
  | some body =>
    rw [replyIf, reply_eq]
    split <;> exact ⟨rfl, rfl⟩

theorem consumeInput_sameRead (m : Machine) (inputs : Inputs) (p : JvsPort) :
    SameRead p (consumeInput m inputs p).1 := by
  refine consumeInput_induction m inputs (motive := fun p result => SameRead p result.1) ?_ ?_ p
  · intro p _
    exact ⟨rfl, rfl⟩
  · intro p h q rest as ih
    refine SameRead.trans ?_ ih
    rw [as.after, as.before]
    have performed := perform_sameRead m inputs (commandsOf h) (p.setInp (findSync p.inp)) [0x01]
    have replied := performed.trans (replyIf_sameRead _ h.replied)
    exact ⟨replied.pending, replied.request⟩

theorem channelOf_sameRead {p q : JvsPort} (same : SameRead p q) :
    channelOf q = ⟨q.out.contents, (channelOf p).pending⟩ := by
  rw [channelOf, same.pending, same.request]
  rfl

theorem tellable_sameRead {p q : JvsPort} (same : SameRead p q) (tellable : Tellable p) :
    Tellable q := by
  intro pending
  have whole := tellable (same.pending ▸ pending)
  have tickets : ticketOf q = ticketOf p := congrArg Request.ticket same.request
  rwa [tickets]

/-! ## The refinement -/

/-- Handled packets are no effects on the game. -/
def seen : Output → List Effect
  | .handled _ => []
  | .effect e => [e]

theorem flatMap_seen (out : List Output) : out.flatMap seen = effectsOf out := by
  induction out with
  | nil => rfl
  | cons o out ih =>
    rw [List.flatMap_cons, ih]
    cases o <;> rfl

theorem effectsOf_written (handled : List Handled) (es : List Effect) :
    effectsOf (handled.map .handled ++ es.map .effect) = es := by
  simp

/-- Every call is its move. -/
theorem step_move {s : Node} {op : Op} (tellable : Tellable s.port) (ok : WellPosted op) :
    channelOf (board.step s op).1.port = (Channel.step (channelOf s.port) (moveOf s op)).1 ∧
      effectsOf (board.step s op).2 =
        (Channel.step (channelOf s.port) (moveOf s op)).2.flatMap effects ∧
      Tellable (board.step s op).1.port := by
  cases op with
  | write m env bytes =>
    have same := consumeInput_sameRead m s.inputs (s.port.setInp (s.port.inp ++ accepted s.port bytes))
    have sent := sent_consumed m s.inputs (s.port.setInp (s.port.inp ++ accepted s.port bytes))
    obtain ⟨channel, told, kept⟩ := finishRead_settle ok (tellable_sameRead same tellable)
    rw [channelOf_sameRead same, sent] at channel told
    exact ⟨channel, (effectsOf_written _ _).trans told, kept⟩
  | postRead env thread posted buf n ovl routine =>
    obtain ⟨channel, told, kept⟩ := finishRead_settle ok.1 (p := { s.port with
      readThread := thread
      readPending := true
      readDeadline := readDeadlineFor posted s.port n
      readBuf := buf
      readLen := n
      readOvl := ovl
      readRoutine := routine }) fun _ => ok.2
    have asked : Channel.step (channelOf s.port) (moveOf s (.postRead env thread posted buf n ovl
        routine)) = Channel.settle env.tick
          ⟨s.port.out.contents, some (postedBy s.port thread posted buf n ovl routine)⟩ := by
      simp [Channel.step, moveOf, channelOf]
    rw [asked]
    exact ⟨channel, (effectsOf_effects _).trans told, kept⟩
  | read buf n =>
    refine ⟨?_, ?_, tellable⟩
    · simp [board, step, es3JvsRead, outTake, channelOf, moveOf, Channel.step, Ring.contents_take,
        requestOf, ticketOf, JvsPort.setOut]
    · simp [board, step, es3JvsRead, outTake, channelOf, moveOf, Channel.step, Ring.take_fst,
        effects, effectsOf]
  | tick env =>
    obtain ⟨channel, told, kept⟩ := finishRead_settle ok tellable
    have asked : Channel.step (channelOf s.port) (moveOf s (.tick env)) =
        Channel.settle env.tick (channelOf s.port) := by
      simp [Channel.step, moveOf, channelOf]
    rw [asked]
    exact ⟨channel, (effectsOf_effects _).trans told, kept⟩
  | poll | insertCoin | setTimeouts => exact ⟨rfl, rfl, tellable⟩
  | cancel => exact ⟨rfl, rfl, fun pending => absurd pending Bool.false_ne_true⟩

/-- The board, as its reads see it, is a read channel. -/
def reads : Refinement board (Channel.machine (α := UInt8) (κ := Ticket) (τ := UInt64) (δ := Word))
    Effect where
  abs s := channelOf s.port
  input := moveOf
  seen := seen
  shown := effects
  Inv s := Tellable s.port
  Ok := WellPosted
  inv_step := fun tellable ok => (step_move tellable ok).2.2
  state := fun tellable ok => (step_move tellable ok).1
  outputs := fun tellable ok => (flatMap_seen _).trans (step_move tellable ok).2.1

end Es3Recomp.Guarantees.Jvs
