import Es3Recomp.Guarantees.CardReader.Reads
import Es3Recomp.Guarantees.Jvs.Reads

/-!
# Overlapped reads deliver every byte once, in order

Both ports share one pending read and one FIFO among five entry points
(src/src/runtime/jvs.c:429-461, 866-950, src/src/runtime/card.c:626-666, 718-789). Both are the
read channel of the library, so its laws hold of what the game sees of them. A read
posted over a pending one replaces it, so nothing is assumed about that.
-/
namespace Es3Recomp.Guarantees.Reads
open Library Library.Channel Model.Reads Source.Jvs

/-- What a run of moves delivers, against what the game saw and what still waits. -/
structure DeliveredOnce (moves : List ReadMove) (seen : List Effect) (waiting : List UInt8) :
    Prop where
  /-- the game sees the deliveries of the channel, and nothing else -/
  asChannel : seen = (machine.run empty moves).2.flatMap effects
  /-- its bytes, and then what waits, are what entered the FIFO -/
  inOrder : bytesRead seen ++ waiting = moves.flatMap Move.arrived
  /-- before the first posted read nothing is completed -/
  unposted : ∀ pre, pre <+: moves → NonePosted pre → completions (machine.run empty pre).2 = []
  /-- from the call that posts a read to the next such call: its fate, and once at most -/
  posted : ∀ pre arrived r now mid, pre ++ .settle arrived (some r) now :: mid <+: moves →
    NonePosted mid →
    completions (machine.run (machine.run empty pre).1 (.settle arrived (some r) now :: mid)).2 =
        fate r (machine.run empty pre).1.queue (.settle arrived (some r) now :: mid) ∧
      (fate r (machine.run empty pre).1.queue (.settle arrived (some r) now :: mid)).length ≤ 1
  /-- no more than was asked for, and the count that is told is the number of bytes -/
  counted : ∀ r bytes, .completed r bytes ∈ (machine.run empty moves).2 →
    bytes.length ≤ r.len ∧ (UInt32.ofNat bytes.length).toNat = bytes.length

theorem fate_once (r : ReadRequest) (queue : List UInt8) (moves : List ReadMove) :
    (fate r queue moves).length ≤ 1 := by
  rcases fate_cases r queue moves with none | ⟨bytes, one, -⟩
  · simp [none]
  · simp [one]

/-- Any port that is a read channel delivers as one. -/
theorem deliveredOnce {σ ι ω : Type} {t : Transducer σ ι ω}
    (port : Refinement t (machine (α := UInt8) (κ := Ticket) (τ := UInt64) (δ := Word)) Effect)
    (shown : port.shown = effects) {s : σ} {is : List ι} (start : port.Inv s)
    (quiet : port.abs s = empty) (ok : ∀ i ∈ is, port.Ok i)
    (short : ∀ s i, ∀ r ∈ (port.input s i).posted, r.len < 2 ^ 32) :
    DeliveredOnce (port.inputs s is) ((t.run s is).2.flatMap port.seen)
      (port.abs (t.run s is).1).queue := by
  obtain ⟨state, seen⟩ := port.run start ok
  rw [quiet] at state seen
  rw [shown] at seen
  refine ⟨seen, ?_, ?_, ?_, ?_⟩
  · rw [seen, bytesRead_effects, state]
    exact run_inOrder empty (port.inputs s is)
  · intro pre _ none
    exact completions_quiet rfl none
  · intro pre arrived r now mid _ none
    exact ⟨completions_posted _ arrived r now none, fate_once r _ _⟩
  · intro r bytes completed
    have length := run_length empty _ completed
    have bound : r.len < 2 ^ 32 := run_requests (P := fun r => r.len < 2 ^ 32)
      (fun _ pending => by cases pending) (port.forall_inputs short s is) completed
    refine ⟨length, ?_⟩
    rw [UInt32.toNat_ofNat', Nat.mod_eq_of_lt (Nat.lt_of_le_of_lt length bound)]

theorem jvs_short (s : Node) (op : Op) : ∀ r ∈ (Jvs.moveOf s op).posted, r.len < 2 ^ 32 := by
  intro r posted
  cases op with
  | postRead env thread posted' buf n ovl routine =>
    cases posted
    exact n.toNat_lt
  | _ => cases posted

theorem card_short (world : Source.CardReader.World) (s : Source.CardReader.Reader)
    (op : Source.CardReader.Op) :
    ∀ r ∈ (CardReader.moveOf world s op).posted, r.len < 2 ^ 32 := by
  intro r posted
  cases op with
  | postRead env thread posted' buf n ovl routine =>
    cases posted
    exact n.toNat_lt
  | _ => cases posted

open Source.CardReader in
/-- Both ports, from the state they start in, any calls in any order. -/
theorem reads_delivered_once :
    (∀ ops : List Source.Jvs.Op, (∀ op ∈ ops, Jvs.WellPosted op) →
      DeliveredOnce (Jvs.reads.inputs Node.initial ops)
        (Source.Jvs.effectsOf (board.run Node.initial ops).2)
        (board.run Node.initial ops).1.port.out.contents) ∧
    ∀ (world : World) (w : LoadWorld) (ops : List Source.CardReader.Op),
      (∀ op ∈ ops, CardReader.WellPosted op) →
      DeliveredOnce ((CardReader.reads world).inputs (Reader.start w) ops)
        (CardReader.effectsOf ((reader world).run (Reader.start w) ops).2)
        ((reader world).run (Reader.start w) ops).1.port.out.contents := by
  constructor
  · intro ops ok
    rw [← Jvs.flatMap_seen]
    exact deliveredOnce Jvs.reads rfl nofun rfl ok jvs_short
  · intro world w ops ok
    have idle : CardReader.channelOf CardPort.initial = empty := rfl
    exact deliveredOnce (CardReader.reads world) rfl nofun idle ok (card_short world)

/-- On each port a read is posted, the game asks something, and the ticker comes by. -/
def jvsExchange : List Source.Jvs.Op :=
  [.postRead ⟨5, true, true⟩ 7 5 0x1000 6 0x2000 0x3000,
    .write .x86 ⟨6, true, true⟩ [0xE0, 0xFF, 0x03, 0xF1, 0x01, 0xF4], .tick ⟨400, true, true⟩]

def cardExchange : List Source.CardReader.Op :=
  [.postRead ⟨5, true, true⟩ 7 5 0x1000 13 0x2000 0x3000,
    .write ⟨6, true, true⟩ [0x00, 0x00, 0xFF, 0x02, 0xFE, 0xD4, 0x02, 0x2A, 0x00], .cancel,
    .tick ⟨400, true, true⟩]

open Source.CardReader in
def quietWorld : World := ⟨false, fun _ => ⟨0, SaveOutcome.good⟩⟩

open Source.CardReader in
theorem exchanges_delivered_once :
    DeliveredOnce (Jvs.reads.inputs Node.initial jvsExchange)
        (Source.Jvs.effectsOf (board.run Node.initial jvsExchange).2)
        (board.run Node.initial jvsExchange).1.port.out.contents ∧
      DeliveredOnce
        ((CardReader.reads quietWorld).inputs (Reader.start Model.CardReader.blankWorld) cardExchange)
        (CardReader.effectsOf ((reader quietWorld).run (Reader.start Model.CardReader.blankWorld)
          cardExchange).2)
        ((reader quietWorld).run (Reader.start Model.CardReader.blankWorld)
          cardExchange).1.port.out.contents := by
  constructor
  · apply reads_delivered_once.1
    simp [jvsExchange, Jvs.WellPosted, EnvOk, Ticket.Whole]
  · apply reads_delivered_once.2
    simp [cardExchange, CardReader.WellPosted, EnvOk, Ticket.Whole]

end Es3Recomp.Guarantees.Reads
