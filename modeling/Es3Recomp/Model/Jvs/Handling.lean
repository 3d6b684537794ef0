import Es3Recomp.Model.Jvs.Encoding
import Es3Recomp.Model.Jvs.Reception
import Es3Recomp.Source.Jvs.Runs

/-!
# Receiving and answering together

`consume_input` interleaves two things that do not depend on each other: taking
packets off the input, and answering them. `consumePass_cases` separates them:
the packet and the rest of the input are those of the deframer, the answer is
that of the packet's commands, and the port changes in its address, its counters
and its output only. The last section carries this to runs of the whole board.
-/
namespace Es3Recomp.Model.Jvs
open Library Source.Jvs

/-! ## What answering leaves alone -/

/-- Equal but for the address and the coin counters. -/
structure SameWires (p q : JvsPort) : Prop where
  out : q.out = p.out
  inp : q.inp = p.inp
  pending : q.readPending = p.readPending

theorem SameWires.refl (p : JvsPort) : SameWires p p := ⟨rfl, rfl, rfl⟩

theorem SameWires.trans {p q r : JvsPort} (h : SameWires p q) (h' : SameWires q r) :
    SameWires p r :=
  ⟨h'.out.trans h.out, h'.inp.trans h.inp, h'.pending.trans h.pending⟩

theorem effect_sameWires (c : Command) (p : JvsPort) : SameWires p (c.effect p) := by
  cases c with
  | coinDecrease slot hi lo =>
    simp only [Command.effect, Source.Jvs.coinDecrease]
    split <;> exact ⟨rfl, rfl, rfl⟩
  | _ => exact ⟨rfl, rfl, rfl⟩

theorem perform_sameWires (m : Machine) (inputs : Inputs) (cs : List Command) (p : JvsPort)
    (body : List UInt8) : SameWires p (perform m inputs cs p body).1 := by
  induction cs generalizing p body with
  | nil => exact SameWires.refl p
  | cons c cs ih => exact (effect_sameWires c p).trans (ih (c.effect p) _)

@[simp] theorem replyIf_inp (p : JvsPort) (body : Option (List UInt8)) :
    (replyIf p body).inp = p.inp := by
  cases body with
  | none => rfl
  | some body =>
    rw [replyIf, reply_eq]
    split <;> rfl

@[simp] theorem replyIf_address (p : JvsPort) (body : Option (List UInt8)) :
    (replyIf p body).address = p.address := by
  cases body with
  | none => rfl
  | some body =>
    rw [replyIf, reply_eq]
    split <;> rfl

@[simp] theorem replyIf_coin (p : JvsPort) (body : Option (List UInt8)) :
    (replyIf p body).coin = p.coin := by
  cases body with
  | none => rfl
  | some body =>
    rw [replyIf, reply_eq]
    split <;> rfl

@[simp] theorem replyIf_pending (p : JvsPort) (body : Option (List UInt8)) :
    (replyIf p body).readPending = p.readPending := by
  cases body with
  | none => rfl
  | some body =>
    rw [replyIf, reply_eq]
    split <;> rfl

/-! ## One packet -/

/-- The commands a received packet makes the node execute: none for a sum error
or a packet for another node. -/
def commandsOf (h : Handled) : List Command :=
  match h.event with
  | .sumError _ _ => []
  | .packet dest data => if Accepts h.before dest then executed h.data data.length else []

/-- The body handed to `reply` for a received packet. -/
def bodyFor (m : Machine) (inputs : Inputs) (p : JvsPort) (e : Event) (data : Nat → UInt8) :
    Option (List UInt8) :=
  match e with
  | .sumError _ _ => some [0x03]
  | .packet dest bytes => if Accepts p dest then replyBody m inputs p data bytes.length else none

theorem length_event_data (body : List UInt8) (size : Nat) (length : body.length = size + 2) :
    (eventOf body size).data.length = size - 1 := by
  have taken : ((body.drop 2).take (size - 1)).length = size - 1 := by
    simp only [List.length_take, List.length_drop]
    omega
  simp only [eventOf]
  split <;> exact taken

/-- Answering one packet: perform its commands, then reply. -/
theorem answer_eq (m : Machine) (inputs : Inputs) (p : JvsPort) (body : List UInt8) (size : Nat)
    (length : body.length = size + 2) :
    let h : Handled := ⟨p, eventOf body size, bodyPointer m p body,
      bodyFor m inputs p (eventOf body size) (bodyPointer m p body)⟩
    answer m inputs p body size =
      (replyIf (perform m inputs (commandsOf h) p [0x01]).1 h.replied, h.replied) := by
  have count := length_event_data body size length
  simp only [answer, commandsOf, bodyFor]
  cases event : eventOf body size with
  | sumError dest data => rfl
  | packet dest data =>
    have size' : size - 1 = data.length := by rw [← count, event, Event.data]
    simp only [size']
    by_cases ours : Accepts p dest
    · simp only [if_pos ours, handlePacket_accepted m inputs p dest _ _ ours, performed]
    · simp only [if_neg ours, handlePacket_ignored m inputs p dest _ _ ours, perform, replyIf]

/-- A packet was handled as its bytes say, and left the port `q` behind. -/
structure HandledAs (m : Machine) (inputs : Inputs) (p : JvsPort) (h : Handled) (q : JvsPort) :
    Prop where
  before : h.before = p.setInp (findSync p.inp)
  found : nextPacket p.inp = some (h.event, q.inp)
  data : ∃ past, h.data = pointer h.event.data past
  replied : h.replied = bodyFor m inputs h.before h.event h.data
  after : q =
    (replyIf (perform m inputs (commandsOf h) h.before [0x01]).1 h.replied).setInp q.inp

theorem pointer_take (bytes : List UInt8) (past : Nat → UInt8) (k : Nat) :
    pointer bytes past = pointer (bytes.take k) (pointer bytes past) := by
  funext i
  by_cases inside : i < k
  · cases found : bytes[i]? <;> simp [pointer, inside, found]
  · have beyond : (bytes.take k)[i]? = none := by rw [List.getElem?_take, if_neg inside]
    change _ = (bytes.take k).getD i (pointer bytes past i)
    rw [List.getD_eq_getElem?_getD, beyond, Option.getD_none]

/-- One turn of `consume_input` waits or handles the deframer's packet. -/
theorem consumePass_cases (m : Machine) (inputs : Inputs) (p : JvsPort) :
    (nextPacket p.inp = none ∧
        consumePass m inputs p = (p.setInp (findSync p.inp), none)) ∨
      ∃ h q, consumePass m inputs p = (q, some h) ∧ HandledAs m inputs p h q := by
  rcases findSync_cases p.inp with empty | ⟨t, sync⟩
  · refine Or.inl ⟨?_, ?_⟩
    · simp [nextPacket, empty, scanPacket]
    · simp [consumePass, empty, scanPacket]
  · cases scanned : scanPacket (findSync p.inp) with
    | none =>
      refine Or.inl ⟨?_, ?_⟩
      · simp [nextPacket, scanned]
      · simp [consumePass, scanned]
    | some pair =>
      obtain ⟨body, size⟩ := pair
      have length := ((scanPacket_iff t body size).mp (sync ▸ scanned)).2.symm
      have answered := answer_eq m inputs (p.setInp (findSync p.inp)) body size length
      dsimp only at answered
      generalize hh : Handled.mk (p.setInp (findSync p.inp)) (eventOf body size)
        (bodyPointer m (p.setInp (findSync p.inp)) body)
        (bodyFor m inputs (p.setInp (findSync p.inp)) (eventOf body size)
          (bodyPointer m (p.setInp (findSync p.inp)) body)) = h at answered
      generalize hq : (replyIf (perform m inputs (commandsOf h) h.before [0x01]).1
        h.replied).setInp ((findSync p.inp).drop (size + 2)) = q
      have kept : ∀ cs, (perform m inputs cs h.before [0x01]).1.inp = findSync p.inp := fun cs => by
        rw [(perform_sameWires m inputs cs h.before [0x01]).inp, ← hh, setInp_inp]
      refine Or.inr ⟨h, q, ?_, ?_⟩
      · subst hh
        simp only [consumePass, setInp_inp, scanned, answered, replyIf_inp, kept, ← hq]
      · have found : nextPacket p.inp = some (eventOf body size, q.inp) := by
          simp only [nextPacket, scanned, ← hq, setInp_inp]
        have taken : (eventOf body size).data = (body.drop 2).take (size - 1) := by
          simp only [eventOf]
          split <;> rfl
        refine ⟨by rw [← hh], by rw [found, ← hh], ?_, by rw [← hh], by rw [← hq, setInp_inp]⟩
        refine ⟨bodyPointer m (p.setInp (findSync p.inp)) body, ?_⟩
        rw [← hh, taken]
        exact pointer_take _ _ _

/-! ## All the packets of a buffer -/

/-- A handled packet shortens the input. -/
theorem HandledAs.shorter {m : Machine} {inputs : Inputs} {p q : JvsPort} {h : Handled}
    (as : HandledAs m inputs p h q) : q.inp.length < p.inp.length :=
  jvsDeframer.next_shorter as.found

/-- Every turn that takes a packet shortens the buffer, so more turns than bytes
change nothing. -/
theorem consumeLoop_enough (m : Machine) (inputs : Inputs) (k l : Nat) (p : JvsPort)
    (enoughK : p.inp.length < k) (enoughL : p.inp.length < l) :
    consumeLoop m inputs k p = consumeLoop m inputs l p := by
  induction k generalizing p l with
  | zero => omega
  | succ k ih =>
    obtain ⟨l, rfl⟩ := Nat.exists_eq_succ_of_ne_zero (n := l) (by omega)
    rcases consumePass_cases m inputs p with ⟨-, waits⟩ | ⟨h, q, takes, as⟩
    · simp [consumeLoop, waits]
    · have shorter := as.shorter
      simp only [consumeLoop, takes]
      rw [ih l q (by omega) (by omega)]

theorem consumeInput_wait {m : Machine} {inputs : Inputs} {p : JvsPort}
    (waits : consumePass m inputs p = (p.setInp (findSync p.inp), none)) :
    consumeInput m inputs p = (p.setInp (findSync p.inp), []) := by
  simp [consumeInput, consumeLoop, waits]

theorem consumeInput_take {m : Machine} {inputs : Inputs} {p q : JvsPort} {h : Handled}
    (takes : consumePass m inputs p = (q, some h)) (as : HandledAs m inputs p h q) :
    consumeInput m inputs p =
      ((consumeInput m inputs q).1, h :: (consumeInput m inputs q).2) := by
  have enough := consumeLoop_enough m inputs p.inp.length (q.inp.length + 1) q as.shorter
    (Nat.lt_succ_self _)
  simp only [consumeInput, consumeLoop, takes, enough]

/-- Induction over the turns of `consume_input`. -/
theorem consumeInput_induction (m : Machine) (inputs : Inputs)
    {motive : JvsPort → JvsPort × List Handled → Prop}
    (wait : ∀ p, nextPacket p.inp = none → motive p (p.setInp (findSync p.inp), []))
    (take : ∀ p h q rest, HandledAs m inputs p h q → motive q rest →
      motive p (rest.1, h :: rest.2))
    (p : JvsPort) : motive p (consumeInput m inputs p) := by
  induction hn : p.inp.length using Nat.strongRecOn generalizing p with
  | _ n ih =>
    rcases consumePass_cases m inputs p with ⟨none, waits⟩ | ⟨h, q, takes, as⟩
    · rw [consumeInput_wait waits]
      exact wait p none
    · rw [consumeInput_take takes as]
      exact take p h q _ as (ih q.inp.length (hn ▸ as.shorter) q rfl)

/-- `consume_input` drains its input: the events and the rest are the deframer's. -/
theorem consumeInput_drain (m : Machine) (inputs : Inputs) (p : JvsPort) :
    (consumeInput m inputs p).2.map Handled.event = (jvsDeframer.drain p.inp).1 ∧
      (consumeInput m inputs p).1.inp = (jvsDeframer.drain p.inp).2 := by
  refine consumeInput_induction m inputs
    (motive := fun p result => result.2.map Handled.event = (jvsDeframer.drain p.inp).1 ∧
      result.1.inp = (jvsDeframer.drain p.inp).2) ?_ ?_ p
  · intro p none
    rw [jvsDeframer.drain_none none]
    exact ⟨rfl, rfl⟩
  · intro p h q rest as ⟨events, inp⟩
    rw [jvsDeframer.drain_some as.found]
    exact ⟨by rw [List.map_cons, events], inp⟩

/-- Noise is thrown away and nothing is handled. -/
theorem consumeInput_noise (m : Machine) (inputs : Inputs) (p : JvsPort)
    (quiet : JVS_SYNC ∉ p.inp) : consumeInput m inputs p = (p.setInp [], []) := by
  have none := findSync_eq_nil quiet
  rcases consumePass_cases m inputs p with ⟨-, waits⟩ | ⟨h, q, -, as⟩
  · rw [consumeInput_wait waits, none]
  · have found := as.found
    simp [nextPacket, none, scanPacket] at found

/-- One whole packet: it is handled, and the buffer is empty after it. -/
theorem consumeInput_packet (m : Machine) (inputs : Inputs) (p : JvsPort) (dest : UInt8)
    (data : List UInt8) (short : data.length ≤ 253) (here : p.inp = wire dest data) :
    ∃ h q, HandledAs m inputs p h q ∧ h.event = .packet dest data ∧
      consumeInput m inputs p = (q.setInp [], [h]) := by
  have next := nextPacket_wire dest data [] short
  rw [List.append_nil, List.append_nil, ← here] at next
  rcases consumePass_cases m inputs p with ⟨none, -⟩ | ⟨h, q, takes, as⟩
  · rw [none] at next
    cases next
  · have found := as.found
    rw [next, Option.some.injEq, Prod.mk.injEq] at found
    have quiet : JVS_SYNC ∉ q.inp := by
      rw [← found.2, here]
      exact sync_not_mem_drop_wire dest data (data.length + 2)
    refine ⟨h, q, as, found.1.symm, ?_⟩
    rw [consumeInput_take takes as, consumeInput_noise m inputs q quiet]

theorem accepted_all {p : JvsPort} {bytes : List UInt8}
    (fits : p.inp.length + bytes.length ≤ FIFO_SIZE) : accepted p bytes = bytes :=
  List.take_of_length_le (by omega)

/-- A packet always fits behind what can wait for the rest of a packet. -/
theorem accepted_wire {p : JvsPort} (dest : UInt8) {data : List UInt8}
    (short : data.length ≤ 253) (buffered : p.inp.length ≤ 514) :
    accepted p (wire dest data) = wire dest data := by
  have bound := (length_wire_bounds dest data).2
  apply accepted_all
  unfold FIFO_SIZE
  omega

/-- A whole packet written to a port with an empty buffer. -/
theorem step_packet (s : Node) (m : Machine) (env : Env) (dest : UInt8) (data : List UInt8)
    (quiet : s.port.inp = []) (short : data.length ≤ 253) :
    ∃ h q, HandledAs m s.inputs (s.port.setInp (wire dest data)) h q ∧
      h.event = .packet dest data ∧
      board.step s (.write m env (wire dest data)) =
        (⟨(finishRead env (q.setInp [])).1, s.inputs⟩,
          .handled h :: (finishRead env (q.setInp [])).2.map .effect) := by
  have all := accepted_wire (p := s.port) dest short (by simp [quiet])
  obtain ⟨h, q, as, event, consumed⟩ :=
    consumeInput_packet m s.inputs (s.port.setInp (wire dest data)) dest data short rfl
  refine ⟨h, q, as, event, ?_⟩
  simp only [board, step, es3JvsWrite, all, quiet, List.nil_append, consumed]
  rfl

/-! ## Runs of the board, as the receiver sees them -/

/-- What `consume_input` makes of an operation: a write calls it on the buffer with
what it accepts, any other operation does not. -/
def consumed (s : Node) : Op → JvsPort × List Handled
  | .write m _ bytes =>
    consumeInput m s.inputs (s.port.setInp (s.port.inp ++ accepted s.port bytes))
  | _ => (s.port, [])

/-- What any operation does: it handles packets, then waiting bytes may move to the
game, and the input and the address stay as the packets left them. -/
structure Stepped (s : Node) (op : Op) : Prop where
  handled : handledOf (board.step s op).2 = (consumed s op).2
  bytes : bytesRead (effectsOf (board.step s op).2) ++ (board.step s op).1.port.out.contents =
    (consumed s op).1.out.contents
  inp : (board.step s op).1.port.inp = (consumed s op).1.inp
  address : (board.step s op).1.port.address = (consumed s op).1.address

theorem step_spec (s : Node) (op : Op) : Stepped s op := by
  cases op with
  | write m env bytes =>
    obtain ⟨moved, same⟩ := finishRead_spec env (consumed s (.write m env bytes)).1
    refine ⟨?_, ?_, same.inp, same.address⟩
    · simp [board, step, es3JvsWrite, consumed]
    · simpa [board, step, es3JvsWrite, consumed] using moved
  | read buf n =>
    obtain ⟨moved, same⟩ := es3JvsRead_spec s.port buf n
    exact ⟨by simp [board, step, consumed], by simpa [board, step, consumed] using moved, same.inp,
      same.address⟩
  | postRead env thread posted buf n ovl routine =>
    obtain ⟨moved, same⟩ := es3JvsPostRead_spec env s.port thread posted buf n ovl routine
    exact ⟨by simp [board, step, consumed], by simpa [board, step, consumed] using moved, same.inp,
      same.address⟩
  | tick env =>
    obtain ⟨moved, same⟩ := finishRead_spec env s.port
    exact ⟨by simp [board, step, consumed], by simpa [board, step, consumed] using moved, same.inp,
      same.address⟩
  | poll | insertCoin | setTimeouts | cancel => exact ⟨rfl, rfl, rfl, rfl⟩

/-- The packets that came out of a run, without what became of them. -/
def eventsOf (out : List Output) : List Event := (handledOf out).map Handled.event

@[simp] theorem eventsOf_append (xs ys : List Output) :
    eventsOf (xs ++ ys) = eventsOf xs ++ eventsOf ys := by
  simp [eventsOf]

/-- What an operation means to the receiver: a write drains the buffer with what
it accepts, any other operation leaves the buffer alone. -/
def received (p : JvsPort) : Op → List Event × List UInt8
  | .write _ _ bytes => jvsDeframer.drain (p.inp ++ accepted p bytes)
  | _ => ([], p.inp)

theorem step_received (s : Node) (op : Op) :
    eventsOf (board.step s op).2 = (received s.port op).1 ∧
      (board.step s op).1.port.inp = (received s.port op).2 := by
  have spec := step_spec s op
  rw [eventsOf, spec.handled, spec.inp]
  cases op with
  | write m env bytes =>
    exact consumeInput_drain m s.inputs (s.port.setInp (s.port.inp ++ accepted s.port bytes))
  | _ => exact ⟨rfl, rfl⟩

end Es3Recomp.Model.Jvs
