import Es3Recomp.Library.Escaping
import Es3Recomp.Source.Jvs.Port

/-!
# The protocol on the wire

The packet format as the protocol comment states it (src/src/runtime/jvs.c:21-32):
SYNC, then destination, size, data and checksum with SYNC and D0 escaped. `wire`
writes a packet, `decodePacket` reads one; neither is taken from the source's
loops. `reply_eq` connects them: a reply pushes the wire form of its body.
-/
namespace Es3Recomp.Model.Jvs
open Library Source.Jvs

/-- D0 escapes: the byte after it is one less than the byte meant. -/
def jvsCode : EscapeCode UInt8 where
  escape := JVS_ESCAPE
  reserved := fun b => b = JVS_SYNC ∨ b = JVS_ESCAPE
  mask := fun b => b - 1
  unmask := fun b => b + 1
  reserved_escape := by decide
  unmask_mask := fun b _ => by simp
  mask_plain := fun b h => by
    rcases of_decide_eq_true h with rfl | rfl <;> decide

/-- The bytes from the destination up to but not including the sum, modulo 256. -/
def checksum (dest : UInt8) (data : List UInt8) : UInt8 :=
  UInt8.ofNat ((dest.toNat + (data.length + 1) + (data.map UInt8.toNat).sum) % 256)

/-- The bytes of a packet before escaping, without SYNC. -/
def packetBytes (dest : UInt8) (data : List UInt8) : List UInt8 :=
  dest :: UInt8.ofNat (data.length + 1) :: (data ++ [checksum dest data])

def wire (dest : UInt8) (data : List UInt8) : List UInt8 :=
  JVS_SYNC :: jvsCode.encode (packetBytes dest data)

structure Packet where
  dest : UInt8
  size : UInt8
  body : List UInt8
  sum : UInt8
  deriving DecidableEq, Repr

/-- Read one packet off the front of a stream, after the protocol comment: the
size counts everything after itself, the checksum included. -/
def decodePacket : List UInt8 → Option (Packet × List UInt8)
  | [] => none
  | b :: rest =>
    if b ≠ JVS_SYNC then none
    else
      match jvsCode.readN 2 rest with
      | some ([dest, size], rest) =>
        if size = 0 then none
        else
          match jvsCode.readN (size.toNat - 1) rest with
          | none => none
          | some (body, rest) =>
            match jvsCode.readOne rest with
            | none => none
            | some (sum, rest) => some (⟨dest, size, body, sum⟩, rest)
      | _ => none

/-- The reply packets of a node: to the master, with a size and a checksum that
are right for the body. -/
structure Packet.WellFormedReply (q : Packet) : Prop where
  toMaster : q.dest = 0
  size : q.size.toNat = q.body.length + 1
  sum : q.sum = checksum q.dest q.body

@[simp] theorem length_packetBytes (dest : UInt8) (data : List UInt8) :
    (packetBytes dest data).length = data.length + 3 := by
  simp [packetBytes]

/-- Only the SYNC at the front travels raw. -/
theorem sync_not_mem_encode (xs : List UInt8) : JVS_SYNC ∉ jvsCode.encode xs := by
  intro member
  have same := jvsCode.encode_reserved xs JVS_SYNC member (by decide)
  exact absurd same (by decide)

theorem length_wire_bounds (dest : UInt8) (data : List UInt8) :
    data.length + 4 ≤ (wire dest data).length ∧ (wire dest data).length ≤ 2 * data.length + 7 := by
  have bounds := jvsCode.length_encode_bounds (packetBytes dest data)
  rw [length_packetBytes] at bounds
  simp only [wire, List.length_cons]
  omega

theorem size_byte_toNat {data : List UInt8} (short : data.length + 1 ≤ 255) :
    (UInt8.ofNat (data.length + 1)).toNat = data.length + 1 := by
  rw [UInt8.toNat_ofNat']
  exact Nat.mod_eq_of_lt (by omega)

/-- The decoder takes back what `wire` wrote and leaves what follows. -/
theorem decodePacket_wire (dest : UInt8) (data rest : List UInt8) (short : data.length + 1 ≤ 255) :
    decodePacket (wire dest data ++ rest) =
      some (⟨dest, UInt8.ofNat (data.length + 1), data, checksum dest data⟩, rest) := by
  have size := size_byte_toNat short
  have nonzero : UInt8.ofNat (data.length + 1) ≠ 0 := by
    intro zero
    rw [zero] at size
    exact absurd size (by simp)
  have split : jvsCode.encode (packetBytes dest data) ++ rest =
      jvsCode.encode [dest, UInt8.ofNat (data.length + 1)] ++
        (jvsCode.encode data ++ (jvsCode.encodeOne (checksum dest data) ++ rest)) := by
    simp [packetBytes, jvsCode.encode_append]
  have header := jvsCode.readN_encode [dest, UInt8.ofNat (data.length + 1)]
    (jvsCode.encode data ++ (jvsCode.encodeOne (checksum dest data) ++ rest))
  have body := jvsCode.readN_encode data (jvsCode.encodeOne (checksum dest data) ++ rest)
  have sum := jvsCode.readOne_encodeOne (checksum dest data) rest
  have length : (UInt8.ofNat (data.length + 1)).toNat - 1 = data.length := by omega
  simp only [List.length_cons, List.length_nil, Nat.zero_add] at header
  simp only [wire, List.cons_append, decodePacket, ne_eq, not_true_eq_false, if_false, split,
    header, if_neg nonzero, length, body, sum]

/-- Bytes after a packet do not change how it is read. -/
theorem decodePacket_append {xs rest : List UInt8} {q : Packet} (later : List UInt8)
    (h : decodePacket xs = some (q, rest)) :
    decodePacket (xs ++ later) = some (q, rest ++ later) := by
  cases xs with
  | nil => cases h
  | cons b xs =>
    simp only [decodePacket, List.cons_append] at h ⊢
    split at h
    · cases h
    · next sync =>
      rw [if_neg sync]
      split at h
      · next dest size mid header =>
        rw [jvsCode.readN_append later header]
        split at h
        · cases h
        · next nonzero =>
          simp only [if_neg nonzero]
          split at h
          · cases h
          · next body mid' data =>
            rw [jvsCode.readN_append later data]
            split at h
            · cases h
            · next sum end' last =>
              cases h
              simp only [jvsCode.readOne_append later last]
      · cases h

/-! ## What the source's writers push -/

theorem outByte_eq (p : JvsPort) (b : UInt8) :
    outByte p b = p.setOut (p.out.pushAll (jvsCode.encodeOne b)) := by
  unfold outByte EscapeCode.encodeOne
  by_cases special : b = JVS_SYNC ∨ b = JVS_ESCAPE
  · have reserved : jvsCode.reserved b = true := decide_eq_true special
    rw [if_pos special, if_pos reserved]
    rfl
  · have plain : ¬ jvsCode.reserved b = true := fun h => special (of_decide_eq_true h)
    rw [if_neg special, if_neg plain]
    rfl

theorem foldl_outByte (body : List UInt8) (p : JvsPort) :
    body.foldl outByte p = p.setOut (p.out.pushAll (jvsCode.encode body)) := by
  induction body generalizing p with
  | nil => rfl
  | cons b body ih =>
    rw [List.foldl_cons, ih, outByte_eq]
    simp [Ring.pushAll, JvsPort.setOut]

/-- A body that is too long is not sent at all; any other is pushed in wire form. -/
theorem reply_eq (p : JvsPort) (body : List UInt8) :
    reply p body =
      if 255 < body.length + 1 then p else p.setOut (p.out.pushAll (wire 0 body)) := by
  by_cases long : 255 < body.length + 1
  · simp only [reply, if_pos long]
  · simp only [reply, if_neg long, outByte_eq, foldl_outByte, setOut_out]
    simp [wire, packetBytes, checksum, jvsCode.encode_append, Ring.pushAll, JvsPort.setOut,
      outPush]

end Es3Recomp.Model.Jvs
