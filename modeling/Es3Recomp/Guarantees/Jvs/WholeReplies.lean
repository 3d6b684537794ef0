import Es3Recomp.Model.Jvs.Handling

/-!
# Whether replies reach the game whole

`out_push` drops a byte when the FIFO is full, and `reply` does not ask for room
before it starts (src/src/runtime/jvs.c:138-184), so a reply that starts with some
room but not enough is cut. `stream_run` says what the game gets in any run: the
front of every reply, as far as there was room. So the stream is made of whole
replies in every state of a run exactly when every reply met either no room at
all or enough of it.
-/
namespace Es3Recomp.Guarantees.Jvs
open Library Source.Jvs Model.Jvs

/-- One complete reply packet and nothing else. -/
def IsReply (bytes : List UInt8) : Prop :=
  ∃ q : Packet, decodePacket bytes = some (q, []) ∧ q.WellFormedReply

def WholeReplies (stream : List UInt8) : Prop :=
  ∃ packets : List (List UInt8), stream = packets.flatten ∧ ∀ q ∈ packets, IsReply q

/-- What the game has read in a run, and then what still waits in the FIFO. -/
def stream (result : Node × List Output) : List UInt8 :=
  bytesRead (effectsOf result.2) ++ result.1.port.out.contents

/-- The condition on one call of `reply`: a body that is sent at all meets a FIFO
that is full already, or one with room for the whole of it. -/
def ReplyFits (h : Handled) : Prop :=
  ∀ body, h.replied = some body → body.length ≤ 254 →
    h.before.out.room = 0 ∨ (wire 0 body).length ≤ h.before.out.room

/-- What one call of `reply` adds to the FIFO. -/
def sentBy (h : Handled) : List UInt8 :=
  match h.replied with
  | none => []
  | some body => if 255 < body.length + 1 then [] else (wire 0 body).take h.before.out.room

/-! ## What the game gets in a run -/

theorem sent_handled {m : Machine} {inputs : Inputs} {p q : JvsPort} {h : Handled}
    (as : HandledAs m inputs p h q) :
    q.out.contents = p.out.contents ++ sentBy h := by
  have before : h.before.out = p.out := by rw [as.before, setInp_out]
  have kept := (perform_sameWires m inputs (commandsOf h) h.before [0x01]).out
  rw [as.after, setInp_out, sentBy, before]
  cases h.replied with
  | none => simp [replyIf, kept, before]
  | some body =>
    simp only [replyIf, reply_eq]
    split
    · simp [kept, before]
    · rw [setOut_out, Ring.contents_pushAll, kept, before]

theorem sent_consumed (m : Machine) (inputs : Inputs) (p : JvsPort) :
    (consumeInput m inputs p).1.out.contents =
      p.out.contents ++ (consumeInput m inputs p).2.flatMap sentBy := by
  refine consumeInput_induction m inputs
    (motive := fun p result => result.1.out.contents = p.out.contents ++ result.2.flatMap sentBy)
    ?_ ?_ p
  · intro p _
    simp
  · intro p h q rest as ih
    rw [ih, sent_handled as, List.flatMap_cons, List.append_assoc]

/-- One operation hands on what was waiting and the replies it brought about. -/
theorem stream_step (s : Node) (op : Op) :
    bytesRead (effectsOf (board.step s op).2) ++ (board.step s op).1.port.out.contents =
      s.port.out.contents ++ (handledOf (board.step s op).2).flatMap sentBy := by
  have spec := step_spec s op
  rw [spec.bytes, spec.handled]
  cases op with
  | write m env bytes =>
    exact sent_consumed m s.inputs (s.port.setInp (s.port.inp ++ accepted s.port bytes))
  | _ => simp [consumed]

theorem stream_from (s : Node) (ops : List Op) :
    stream (board.run s ops) =
      s.port.out.contents ++ (handledOf (board.run s ops).2).flatMap sentBy := by
  refine board.run_induction
    (motive := fun s' out => bytesRead (effectsOf out) ++ s'.port.out.contents =
      s.port.out.contents ++ (handledOf out).flatMap sentBy) s (by simp [effectsOf, handledOf]) ?_ ops
  intro s' out op ih
  have here := stream_step s' op
  rw [effectsOf_append, handledOf_append, bytesRead_append, List.append_assoc, here,
    ← List.append_assoc, ih, List.flatMap_append, List.append_assoc]

theorem stream_run (ops : List Op) :
    stream (board.run Node.initial ops) =
      (handledOf (board.run Node.initial ops).2).flatMap sentBy := by
  rw [stream_from]
  rfl

/-! ## Whole replies and cut ones -/

theorem isReply_wire (body : List UInt8) (short : body.length ≤ 254) : IsReply (wire 0 body) := by
  have read := decodePacket_wire 0 body [] (by omega)
  rw [List.append_nil] at read
  exact ⟨_, read, rfl, size_byte_toNat (by omega), rfl⟩

theorem wholeReplies_append {xs ys : List UInt8} (hx : WholeReplies xs) (hy : WholeReplies ys) :
    WholeReplies (xs ++ ys) := by
  obtain ⟨ps, rfl, all⟩ := hx
  obtain ⟨qs, rfl, all'⟩ := hy
  refine ⟨ps ++ qs, by simp, fun q member => ?_⟩
  rcases List.mem_append.mp member with front | back
  · exact all q front
  · exact all' q back

/-- The front of a stream of replies is read in one way only. -/
theorem wholeReplies_cancel {q rest : List UInt8} (reply : IsReply q)
    (whole : WholeReplies (q ++ rest)) : WholeReplies rest := by
  obtain ⟨packet, read, -⟩ := reply
  have front := decodePacket_append rest read
  obtain ⟨ps, split, all⟩ := whole
  cases ps with
  | nil =>
    rw [split] at front
    cases front
  | cons p ps =>
    obtain ⟨packet', read', -⟩ := all p (by simp)
    have front' := decodePacket_append ps.flatten read'
    rw [split, List.flatten_cons, front', Option.some.injEq, Prod.mk.injEq] at front
    exact ⟨ps, front.2.symm, fun q member => all q (by simp [member])⟩

/-- A stream that ends in a part of a reply is not made of whole replies. -/
theorem not_whole_of_cut {xs body : List UInt8} {k : Nat} (before : WholeReplies xs)
    (short : body.length ≤ 254) (some : 0 < k) (cut : k < (wire 0 body).length) :
    ¬ WholeReplies (xs ++ (wire 0 body).take k) := by
  obtain ⟨packets, rfl, all⟩ := before
  induction packets with
  | nil =>
    intro whole
    obtain ⟨ps, split, all'⟩ := whole
    rw [List.flatten_nil, List.nil_append] at split
    cases ps with
    | nil =>
      have := congrArg List.length split
      simp only [List.length_take, List.flatten_nil, List.length_nil] at this
      omega
    | cons p ps =>
      -- the whole reply would be read off its own part
      obtain ⟨packet, read, -⟩ := all' p (by simp)
      have early := decodePacket_append (ps.flatten ++ (wire 0 body).drop k) read
      have whole := decodePacket_wire 0 body [] (by omega)
      rw [List.append_nil, ← List.take_append_drop k (wire 0 body), split, List.flatten_cons,
        List.append_assoc, early, Option.some.injEq, Prod.mk.injEq] at whole
      have none := congrArg List.length whole.2
      simp only [List.nil_append, List.length_append, List.length_drop, List.length_nil] at none
      omega
  | cons q packets ih =>
    intro whole
    rw [List.flatten_cons, List.append_assoc] at whole
    exact ih (fun q' member => all q' (by simp [member]))
      (wholeReplies_cancel (all q (by simp)) whole)

theorem sentBy_fits {h : Handled} (fits : ReplyFits h) : WholeReplies (sentBy h) := by
  unfold sentBy
  cases replied : h.replied with
  | none => exact ⟨[], rfl, by simp⟩
  | some body =>
    by_cases long : 255 < body.length + 1
    · simp only [if_pos long]
      exact ⟨[], rfl, by simp⟩
    · simp only [if_neg long]
      rcases fits body replied (by omega) with none | room
      · rw [none, List.take_zero]
        exact ⟨[], rfl, by simp⟩
      · rw [List.take_of_length_le room]
        exact ⟨[wire 0 body], by simp, by simpa using isReply_wire body (by omega)⟩

theorem sentAll_fit {hs : List Handled} (fit : ∀ h ∈ hs, ReplyFits h) :
    WholeReplies (hs.flatMap sentBy) := by
  induction hs with
  | nil => exact ⟨[], rfl, by simp⟩
  | cons h hs ih =>
    rw [List.flatMap_cons]
    exact wholeReplies_append (sentBy_fits (fit h (by simp)))
      (ih fun h' member => fit h' (by simp [member]))

/-- What one call of `consume_input` sends ends in a part of a reply. -/
def EndsCut (sent : List UInt8) : Prop :=
  ∃ xs body k, sent = xs ++ (wire 0 body).take k ∧ WholeReplies xs ∧ body.length ≤ 254 ∧
    0 < k ∧ k < (wire 0 body).length

theorem cut_of_not_fits {h : Handled} (unfit : ¬ ReplyFits h) :
    ∃ body, sentBy h = (wire 0 body).take h.before.out.room ∧ body.length ≤ 254 ∧
      0 < h.before.out.room ∧ h.before.out.room < (wire 0 body).length := by
  simp only [ReplyFits, not_forall, not_or] at unfit
  obtain ⟨body, replied, short, some_room, little⟩ := unfit
  refine ⟨body, ?_, short, Nat.pos_of_ne_zero some_room,
    Nat.lt_of_not_le little⟩
  simp only [sentBy, replied]
  rw [if_neg (by omega)]

/-- A call of `consume_input` sends whole replies, or ends in a part of one: behind
a cut reply the FIFO is full. -/
theorem consumed_fit_or_cut (m : Machine) (inputs : Inputs) (p : JvsPort) :
    (∀ h ∈ (consumeInput m inputs p).2, ReplyFits h) ∨
      EndsCut ((consumeInput m inputs p).2.flatMap sentBy) := by
  refine (consumeInput_induction m inputs
    (motive := fun p result =>
      result.1.out.contents = p.out.contents ++ result.2.flatMap sentBy ∧
        ((∀ h ∈ result.2, ReplyFits h) ∨ EndsCut (result.2.flatMap sentBy))) ?_ ?_ p).2
  · intro p _
    exact ⟨by simp, Or.inl (by simp)⟩
  · intro p h q rest as ⟨sent, ih⟩
    have here := sent_handled as
    refine ⟨by rw [sent, here, List.flatMap_cons, List.append_assoc], ?_⟩
    rw [List.flatMap_cons]
    by_cases fits : ReplyFits h
    · rcases ih with all | ⟨xs, body, k, cut, whole, limits⟩
      · exact Or.inl (by simpa using ⟨fits, all⟩)
      · exact Or.inr ⟨sentBy h ++ xs, body, k, by rw [cut, List.append_assoc],
          wholeReplies_append (sentBy_fits fits) whole, limits⟩
    · obtain ⟨body, cut, short, some_room, little⟩ := cut_of_not_fits fits
      have before : h.before.out = p.out := by rw [as.before, setInp_out]
      -- the FIFO is full now, so nothing more is sent
      have silent : rest.2.flatMap sentBy = [] := by
        have first := congrArg List.length here
        have later := congrArg List.length sent
        have room := p.out.avail_add_room
        have bound := rest.1.out.avail_lt
        rw [before] at cut some_room little
        rw [cut] at first
        simp only [Ring.length_contents, List.length_append, List.length_take] at first later
        exact List.length_eq_zero_iff.mp (by omega)
      exact Or.inr ⟨[], body, _, by rw [silent, List.append_nil, List.nil_append, cut],
        ⟨[], rfl, by simp⟩, short, some_room, little⟩

theorem step_fit_or_cut (s : Node) (op : Op) :
    (∀ h ∈ handledOf (board.step s op).2, ReplyFits h) ∨
      EndsCut ((handledOf (board.step s op).2).flatMap sentBy) := by
  rw [(step_spec s op).handled]
  cases op with
  | write m env bytes =>
    exact consumed_fit_or_cut m s.inputs (s.port.setInp (s.port.inp ++ accepted s.port bytes))
  | _ => exact Or.inl (by simp [consumed])

/-- If every state of a run has whole replies only, every reply of it fitted. -/
theorem fits_of_whole (ops : List Op)
    (whole : ∀ pre, pre <+: ops → WholeReplies (stream (board.run Node.initial pre))) :
    ∀ h ∈ handledOf (board.run Node.initial ops).2, ReplyFits h := by
  induction ops using List.reverseRecOn with
  | nil => simp [handledOf]
  | append_singleton ops op ih =>
    have fit := ih fun pre front => whole pre (front.trans (List.prefix_append ops [op]))
    rcases step_fit_or_cut (board.run Node.initial ops).1 op with here | cut
    · rw [Transducer.run_concat, handledOf_append]
      intro h member
      rcases List.mem_append.mp member with front | back
      · exact fit h front
      · exact here h back
    · obtain ⟨xs, body, k, sent, whole', short, some_room, little⟩ := cut
      have now := whole (ops ++ [op]) List.prefix_rfl
      rw [stream_run, Transducer.run_concat, handledOf_append, List.flatMap_append, sent,
        ← List.append_assoc] at now
      exact absurd now (not_whole_of_cut (wholeReplies_append (sentAll_fit fit) whole')
        short some_room little)

/-- In every state of a run the stream is made of whole replies, exactly when every
reply of the run met a full FIFO or one with room for it. -/
theorem replies_whole_iff (ops : List Op) :
    (∀ pre, pre <+: ops → WholeReplies (stream (board.run Node.initial pre))) ↔
      ∀ h ∈ handledOf (board.run Node.initial ops).2, ReplyFits h := by
  constructor
  · exact fits_of_whole ops
  · intro fit pre front
    obtain ⟨post, rfl⟩ := front
    rw [stream_run]
    apply sentAll_fit
    intro h member
    apply fit h
    rw [Transducer.run_append, handledOf_append]
    exact List.mem_append_left _ member

/-! ## A reply that is cut -/

/-- All analog channels there could be, asked of every node: 126 of them. -/
def askAll : Op := .write .x86 ⟨0, true, true⟩ (wire 0xFF [0x22, 0x7E])

/-- The answer: 254 bytes, the longest body that is sent. -/
def allChannels : List UInt8 := 0x01 :: 0x01 :: adReadReport Inputs.initial 126

theorem length_allChannels : allChannels.length = 254 := by simp [allChannels]

theorem length_wire_allChannels : (wire 0 allChannels).length = 258 := by decide +kernel

theorem fifo_room (p : JvsPort) : p.out.avail + p.out.room = 4095 := p.out.avail_add_room

/-- A port the game never reads from, with the same question asked `k` times. -/
structure Unread (k : Nat) (s : Node) : Prop where
  inp : s.port.inp = []
  pending : s.port.readPending = false
  inputs : s.inputs = Inputs.initial
  waiting : s.port.out.avail = 258 * k

theorem step_askAll {k : Nat} {s : Node} (unread : Unread k s) :
    (∃ h, handledOf (board.step s askAll).2 = [h] ∧ h.replied = some allChannels ∧
        h.before.out = s.port.out) ∧
      (258 * (k + 1) ≤ 4095 → Unread (k + 1) (board.step s askAll).1) := by
  obtain ⟨h, q, as, event, step⟩ :=
    step_packet s .x86 ⟨0, true, true⟩ 0xFF [0x22, 0x7E] unread.inp (by decide)
  have before : h.before.out = s.port.out := by rw [as.before, setInp_out, setInp_out]
  have replied : h.replied = some allChannels := by
    obtain ⟨past, data⟩ := as.data
    have ours : Accepts h.before 0xFF := Or.inl rfl
    rw [as.replied, event, bodyFor, if_pos ours, data, event, unread.inputs]
    rfl
  have kept : q.readPending = false := by
    rw [as.after, setInp_readPending, replyIf_pending, (perform_sameWires _ _ _ _ _).pending,
      as.before, setInp_readPending, setInp_readPending, unread.pending]
  have idle : finishRead ⟨0, true, true⟩ (q.setInp []) = (q.setInp [], []) := by
    simp [finishRead, kept]
  rw [idle] at step
  refine ⟨⟨h, ?_, replied, before⟩, fun room => ?_⟩
  · rw [askAll, step]
    rfl
  · have sent := congrArg List.length (sent_handled as)
    have free := fifo_room s.port
    have waiting := unread.waiting
    simp only [sentBy, replied, before, length_allChannels] at sent
    rw [if_neg (by omega), List.take_of_length_le (by rw [length_wire_allChannels]; omega),
      List.length_append, Ring.length_contents, Ring.length_contents, setInp_out,
      length_wire_allChannels, waiting] at sent
    rw [askAll, step]
    exact ⟨rfl, kept, unread.inputs, by rw [setInp_out, sent]; omega⟩

theorem unread_askAll (k : Nat) (room : 258 * k ≤ 4095) :
    Unread k (board.run Node.initial (List.replicate k askAll)).1 := by
  induction k with
  | zero => exact ⟨rfl, rfl, rfl, rfl⟩
  | succ k ih =>
    rw [List.replicate_succ', Transducer.run_concat]
    exact (step_askAll (ih (by omega))).2 room

/-- Asked sixteen times without a read, the node cuts its last answer: 225 bytes of
it are left in the FIFO. -/
theorem replies_cut :
    ¬ ∀ pre, pre <+: List.replicate 16 askAll →
      WholeReplies (stream (board.run Node.initial pre)) := by
  intro whole
  have fits := fits_of_whole _ whole
  have unread := unread_askAll 15 (by decide)
  obtain ⟨h, handled, replied, before⟩ := (step_askAll unread).1
  have waiting := unread.waiting
  rw [List.replicate_succ' (n := 15), Transducer.run_concat, handledOf_append, handled] at fits
  have fit := fits h (by simp) allChannels replied (Nat.le_of_eq length_allChannels)
  rw [before, length_wire_allChannels] at fit
  have free := fifo_room (board.run Node.initial (List.replicate 15 askAll)).1.port
  omega

end Es3Recomp.Guarantees.Jvs
