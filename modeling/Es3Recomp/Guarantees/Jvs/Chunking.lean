import Es3Recomp.Model.Jvs.Handling

/-!
# Reception does not depend on how the bytes are cut

The game's driver may hand one packet to `es3_jvs_write` (src/src/runtime/jvs.c:866-878)
in any number of calls. As long as the buffer has room for all of it, the packets
parsed and the bytes left over are those of a single call.
-/
namespace Es3Recomp.Guarantees.Jvs
open Library Source.Jvs Model.Jvs

/-- One call of `es3_jvs_write`, with the machine and the clock it runs under. -/
structure WriteCall where
  m : Machine
  env : Env
  bytes : List UInt8

def WriteCall.op (w : WriteCall) : Op := .write w.m w.env w.bytes

/-- Consecutive calls that all fit feed the deframer piece by piece. -/
theorem run_writes (s : Node) (calls : List WriteCall)
    (fits : s.port.inp.length + ((calls.map WriteCall.bytes).flatten).length ≤ FIFO_SIZE) :
    eventsOf (board.run s (calls.map WriteCall.op)).2 =
        (jvsDeframer.feedAll s.port.inp (calls.map WriteCall.bytes)).1 ∧
      (board.run s (calls.map WriteCall.op)).1.port.inp =
        (jvsDeframer.feedAll s.port.inp (calls.map WriteCall.bytes)).2 := by
  induction calls generalizing s with
  | nil => exact ⟨rfl, rfl⟩
  | cons w calls ih =>
    simp only [List.map_cons, List.flatten_cons, List.length_append] at fits
    have here := step_received s w.op
    have all : accepted s.port w.bytes = w.bytes := accepted_all (by omega)
    simp only [WriteCall.op, received, all] at here
    have shorter := jvsDeframer.length_drain_le length_findSync_le (s.port.inp ++ w.bytes)
    rw [List.length_append] at shorter
    have rest := ih (board.step s w.op).1 (by rw [WriteCall.op, here.2]; omega)
    simp only [List.map_cons, Transducer.run_cons, Deframer.feedAll, eventsOf_append]
    rw [WriteCall.op] at rest ⊢
    rw [rest.1, rest.2, here.1, here.2]
    exact ⟨rfl, rfl⟩

/-- However a byte sequence is cut into calls, the packets and the remaining
input are those of writing it in one call. Past a report that overruns `body[256]`
both go on here as if the stray write had met nothing (`handlePacket_inBounds_iff`
says which packets have no such report). -/
theorem writes_independent_of_cutting (s : Node) (m : Machine) (calls : List WriteCall)
    (whole : WriteCall)
    (fixedPoint : (consumeInput m s.inputs s.port).1.inp = s.port.inp)
    (same : (calls.map WriteCall.bytes).flatten = whole.bytes)
    (fits : whole.bytes.length + s.port.inp.length ≤ FIFO_SIZE) :
    eventsOf (board.run s (calls.map WriteCall.op)).2 = eventsOf (board.step s whole.op).2 ∧
      (board.run s (calls.map WriteCall.op)).1.port.inp = (board.step s whole.op).1.port.inp := by
  have settled : jvsDeframer.Settled s.port.inp :=
    (consumeInput_drain m s.inputs s.port).2.symm.trans fixedPoint
  have pieces := run_writes s calls (by rw [same]; omega)
  have once := step_received s whole.op
  have all : accepted s.port whole.bytes = whole.bytes := accepted_all (by omega)
  simp only [WriteCall.op, received, all] at once
  rw [jvsDeframer.feedAll_eq_drain settled, same] at pieces
  exact ⟨pieces.1.trans once.1.symm, pieces.2.trans once.2.symm⟩

/-- A broadcast RESET cut in the middle, with noise before it. -/
theorem reset_independent_of_cutting :
    eventsOf (board.run Node.initial
        [.write .x86 ⟨0, true, true⟩ [0x55, 0xE0, 0xFF], .write .x86 ⟨9, true, true⟩ [0x03, 0xF0],
          .write .x86 ⟨9, true, true⟩ [0xD9, 0xCB]]).2 =
      eventsOf (board.step Node.initial
        (.write .x86 ⟨0, true, true⟩ [0x55, 0xE0, 0xFF, 0x03, 0xF0, 0xD9, 0xCB])).2 :=
  (writes_independent_of_cutting Node.initial .x86
    [⟨.x86, ⟨0, true, true⟩, [0x55, 0xE0, 0xFF]⟩, ⟨.x86, ⟨9, true, true⟩, [0x03, 0xF0]⟩,
      ⟨.x86, ⟨9, true, true⟩, [0xD9, 0xCB]⟩]
    ⟨.x86, ⟨0, true, true⟩, [0x55, 0xE0, 0xFF, 0x03, 0xF0, 0xD9, 0xCB]⟩
    rfl rfl (by decide)).1

end Es3Recomp.Guarantees.Jvs
