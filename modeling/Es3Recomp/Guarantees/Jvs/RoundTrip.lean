import Es3Recomp.Model.Jvs.Handling

/-!
# Encoding a reply and decoding it again

`reply` writes the protocol's packet form (src/src/runtime/jvs.c:172-184); the
protocol's decoder and the source's own `consume_input` both take it back.
`consume_input` takes a packet in one pass and removes its last bytes, one more
than there are escapes, in the next, as noise: they hold no SYNC.
-/
namespace Es3Recomp.Guarantees.Jvs
open Library Source.Jvs Model.Jvs

/-- A written packet, whatever follows it: `consume_input` hands over the packet
and then goes on as if its buffer had begun after it. -/
theorem consumeInput_wire (m : Machine) (inputs : Inputs) (p : JvsPort) (dest : UInt8)
    (data rest : List UInt8) (short : data.length ≤ 253) (here : p.inp = wire dest data ++ rest) :
    (consumeInput m inputs p).2.map Handled.event =
        .packet dest data :: (consumeInput m inputs (p.setInp rest)).2.map Handled.event ∧
      (consumeInput m inputs p).1.inp = (consumeInput m inputs (p.setInp rest)).1.inp := by
  obtain ⟨events, inp⟩ := consumeInput_drain m inputs p
  obtain ⟨events', inp'⟩ := consumeInput_drain m inputs (p.setInp rest)
  rw [here, drain_wire dest data rest short] at events inp
  rw [setInp_inp] at events' inp'
  exact ⟨by rw [events, events'], by rw [inp, inp']⟩

theorem consumeInput_empty (m : Machine) (inputs : Inputs) (p : JvsPort) (empty : p.inp = []) :
    (consumeInput m inputs p).2.map Handled.event = [] ∧ (consumeInput m inputs p).1.inp = [] := by
  have drained : jvsDeframer.drain [] = ([], []) := rfl
  obtain ⟨events, inp⟩ := consumeInput_drain m inputs p
  rw [empty, drained] at events inp
  exact ⟨events, inp⟩

theorem contents_reply (p : JvsPort) (body : List UInt8) (accepted : body.length + 1 ≤ 255) :
    (reply p body).out.contents = p.out.contents ++ (wire 0 body).take p.out.room := by
  rw [reply_eq, if_neg (by omega), setOut_out, Ring.contents_pushAll]

/-- The reply round trip: what is appended is SYNC and bytes other than SYNC, both
decoders consume just that, and they yield the body with its size and sum. -/
theorem reply_round_trip (p : JvsPort) (body : List UInt8) (accepted : body.length + 1 ≤ 255)
    (room : (wire 0 body).length ≤ p.out.room) :
    ∃ sent : List UInt8,
      (reply p body).out.contents = p.out.contents ++ JVS_SYNC :: sent ∧
      JVS_SYNC ∉ sent ∧
      (∃ packet : Packet,
        (∀ rest, decodePacket (JVS_SYNC :: sent ++ rest) = some (packet, rest)) ∧
        packet.dest = 0x00 ∧ packet.size.toNat = body.length + 1 ∧ packet.body = body ∧
        packet.sum.toNat = (0x00 + (body.length + 1) + (body.map UInt8.toNat).sum) % 256) ∧
      (body.length ≤ 253 → ∀ (m : Machine) (inputs : Inputs) (q : JvsPort),
        q.inp = JVS_SYNC :: sent →
        (consumeInput m inputs q).2.map Handled.event = [.packet 0x00 body] ∧
        (consumeInput m inputs q).1.inp = []) := by
  refine ⟨jvsCode.encode (packetBytes 0 body), ?_, sync_not_mem_encode _, ?_, ?_⟩
  · rw [contents_reply p body accepted, List.take_of_length_le room]
    rfl
  · refine ⟨⟨0, UInt8.ofNat (body.length + 1), body, checksum 0 body⟩, ?_, rfl,
      size_byte_toNat accepted, rfl, ?_⟩
    · exact fun rest => decodePacket_wire 0 body rest accepted
    · rw [checksum, UInt8.toNat_ofNat', UInt8.toNat_zero]
      omega
  · intro short m inputs q fresh
    have whole := consumeInput_wire m inputs q 0 body [] short (by rw [fresh, List.append_nil]; rfl)
    have empty := consumeInput_empty m inputs (q.setInp []) rfl
    exact ⟨by rw [whole.1, empty.1], whole.2.trans empty.2⟩

/-- A body of bytes that all need escaping, sent on the empty port. -/
theorem reply_round_trip_escapes :
    ∃ sent : List UInt8,
      (reply JvsPort.initial [0x01, 0xE0, 0xD0]).out.contents = JVS_SYNC :: sent ∧
      JVS_SYNC ∉ sent := by
  obtain ⟨sent, pushed, plain, -⟩ :=
    reply_round_trip JvsPort.initial [0x01, 0xE0, 0xD0] (by decide) (by decide)
  exact ⟨sent, pushed, plain⟩

end Es3Recomp.Guarantees.Jvs
