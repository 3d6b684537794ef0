import Es3Recomp.Library.Deframer
import Es3Recomp.Model.Jvs.Wire
import Es3Recomp.Source.Jvs.Receive

/-!
# Reception as deframing

The receive side of the port, without the answers: `nextPacket` is what one pass
of `consume_input` finds and what it leaves. `nextPacket_iff` characterises it
through the protocol's own reading of symbols (`PacketAt`), so the source's
un-escape loop is looked into only here; `jvsDeframer` makes it an instance of the
deframing library, and `consumeInput_drain` says that `consume_input` drains it.
-/
namespace Es3Recomp.Model.Jvs
open Library Source.Jvs

def nextPacket (inp : List UInt8) : Option (Event × List UInt8) :=
  let inp := findSync inp
  match scanPacket inp with
  | none => none
  | some (body, size) => some (eventOf body size, inp.drop (size + 2))

/-- `bytes` are the un-escaped bytes of a packet that `consume_input` can take:
they can be read off `t`, their number is the one the size byte announces, and
the size byte is neither 0 nor too large for the 256 bytes of `body`. -/
structure PacketAt (t bytes rest : List UInt8) : Prop where
  read : jvsCode.readN bytes.length t = some (bytes, rest)
  size : bytes.length = (bytes.getD 1 0).toNat + 2
  nonzero : 1 ≤ (bytes.getD 1 0).toNat
  fits : bytes.length ≤ 256

/-! ## The un-escape loop -/

/-- The size byte as the loop knows it: 0 until the second byte is stored. -/
def sizeOf (body : List UInt8) : Nat := if 2 ≤ body.length then (body.getD 1 0).toNat else 0

theorem storeByte_eq (body : List UInt8) (b : UInt8) :
    storeByte body (sizeOf body) b = (body ++ [b], sizeOf (body ++ [b])) := by
  unfold storeByte sizeOf
  match body with
  | [] => simp
  | [a] => simp
  | a :: a' :: rest => simp

theorem sizeOf_append {body : List UInt8} (started : 2 ≤ body.length) (xs : List UInt8) :
    sizeOf (body ++ xs) = sizeOf body := by
  unfold sizeOf
  match body, started with
  | a :: a' :: rest, _ => simp

theorem complete_iff (body : List UInt8) :
    complete body (sizeOf body) = true ↔ sizeOf body ≠ 0 ∧ body.length = sizeOf body + 2 := by
  unfold complete sizeOf
  split
  next h => simp [h]
  next h => simp [h]

/-- One turn of the loop, in terms of the protocol's symbols. -/
theorem unescape_step (t body : List UInt8) (size : Nat) (room : body.length < 256) (more : t ≠ []) :
    unescape t body size =
      match jvsCode.readOne t with
      | none => none
      | some (b, rest) =>
        if complete (storeByte body size b).1 (storeByte body size b).2 then
          some (storeByte body size b)
        else unescape rest (storeByte body size b).1 (storeByte body size b).2 := by
  match t, more with
  | [b], _ =>
    by_cases escaped : b = JVS_ESCAPE <;>
      simp [unescape, EscapeCode.readOne, jvsCode, escaped, room]
  | b :: c :: rest, _ =>
    by_cases escaped : b = JVS_ESCAPE <;>
      simp [unescape, EscapeCode.readOne, jvsCode, escaped, room]

theorem unescape_full (t body : List UInt8) (size : Nat) (full : ¬ body.length < 256) :
    unescape t body size = some (body, size) := by
  match t with
  | [] => rfl
  | [b] => simp [unescape, full]
  | b :: c :: rest => simp [unescape, full]

/-- A packet whose symbols can all be read is found. -/
theorem unescape_of_read {n : Nat} (acc : List UInt8) {t xs rest : List UInt8}
    (read : jvsCode.readN (n + 1) t = some (xs, rest))
    (size : (acc ++ xs).length = sizeOf (acc ++ xs) + 2) (nonzero : sizeOf (acc ++ xs) ≠ 0)
    (fits : (acc ++ xs).length ≤ 256) :
    unescape t acc (sizeOf acc) = some (acc ++ xs, sizeOf (acc ++ xs)) := by
  induction n generalizing t acc xs with
  | zero =>
    obtain ⟨b, mid, tail, one, more, rfl⟩ := jvsCode.readN_succ_some read
    simp only [EscapeCode.readN, Option.some.injEq, Prod.mk.injEq] at more
    obtain ⟨rfl, rfl⟩ := more
    have room : acc.length < 256 := by
      simp only [List.length_append, List.length_cons, List.length_nil] at fits
      omega
    have some_left : t ≠ [] := by
      intro empty
      subst empty
      simp [EscapeCode.readOne] at one
    rw [unescape_step t acc _ room some_left, one]
    simp only [storeByte_eq]
    rw [if_pos ((complete_iff _).mpr ⟨nonzero, size⟩)]
  | succ n ih =>
    obtain ⟨b, mid, tail, one, more, rfl⟩ := jvsCode.readN_succ_some read
    have count := (jvsCode.readN_length more).1
    have room : acc.length < 256 := by
      simp only [List.length_append, List.length_cons] at fits
      omega
    have some_left : t ≠ [] := by
      intro empty
      subst empty
      simp [EscapeCode.readOne] at one
    have regroup : acc ++ b :: tail = (acc ++ [b]) ++ tail := by simp
    have early : ¬ complete (acc ++ [b]) (sizeOf (acc ++ [b])) = true := by
      rw [complete_iff]
      intro done
      have short := done.2
      have started : 2 ≤ (acc ++ [b]).length := by omega
      have same := sizeOf_append started tail
      rw [regroup, same] at size
      simp only [List.length_append, List.length_cons] at size short
      omega
    rw [unescape_step t acc _ room some_left, one]
    simp only [storeByte_eq, if_neg early]
    rw [regroup] at size nonzero fits ⊢
    exact ih _ more size nonzero fits

/-- What the loop finds, the protocol can read. The accumulator is short of its
announced length at every turn; that is what carries the induction. -/
theorem read_of_unescape (acc : List UInt8) {t body : List UInt8} {size : Nat}
    (found : unescape t acc (sizeOf acc) = some (body, size))
    (short : sizeOf acc ≠ 0 → acc.length < sizeOf acc + 2)
    (nonzero : size ≠ 0) (long : size + 2 ≤ body.length) :
    ∃ n xs rest, jvsCode.readN (n + 1) t = some (xs, rest) ∧ body = acc ++ xs ∧
      size = sizeOf body ∧ body.length = size + 2 ∧ body.length ≤ 256 := by
  induction hn : t.length using Nat.strongRecOn generalizing t acc with
  | _ n ih =>
    have stuck : ¬ (body, size) = (acc, sizeOf acc) := by
      intro same
      obtain ⟨rfl, rfl⟩ := Prod.mk.inj same
      have := short nonzero
      omega
    by_cases room : acc.length < 256
    · by_cases more : t = []
      · subst more
        simp only [unescape, Option.some.injEq] at found
        exact absurd found.symm stuck
      · rw [unescape_step t acc _ room more] at found
        cases one : jvsCode.readOne t with
        | none => simp [one] at found
        | some pair =>
          obtain ⟨b, rest⟩ := pair
          have shorter := jvsCode.readOne_length one
          simp only [one, storeByte_eq] at found
          by_cases done : complete (acc ++ [b]) (sizeOf (acc ++ [b])) = true
          · rw [if_pos done, Option.some.injEq, Prod.mk.injEq] at found
            obtain ⟨rfl, rfl⟩ := found
            have ended := (complete_iff _).mp done
            refine ⟨0, [b], rest, jvsCode.readN_succ_of one rfl, rfl, rfl, ended.2, ?_⟩
            simp only [List.length_append, List.length_cons, List.length_nil]
            omega
          · rw [if_neg done] at found
            have still : sizeOf (acc ++ [b]) ≠ 0 →
                (acc ++ [b]).length < sizeOf (acc ++ [b]) + 2 := by
              intro known
              have unequal : (acc ++ [b]).length ≠ sizeOf (acc ++ [b]) + 2 := fun equal =>
                done ((complete_iff _).mpr ⟨known, equal⟩)
              by_cases started : 2 ≤ acc.length
              · rw [sizeOf_append started] at known unequal ⊢
                have := short known
                simp only [List.length_append, List.length_cons, List.length_nil] at unequal ⊢
                omega
              · simp only [List.length_append, List.length_cons, List.length_nil] at unequal ⊢
                omega
            obtain ⟨k, xs, rest', read, whole, sized, length, fits⟩ :=
              ih rest.length (by omega) _ found still rfl
            refine ⟨k + 1, b :: xs, rest', jvsCode.readN_succ_of one read, ?_, sized, length, fits⟩
            rw [whole]
            simp
    · rw [unescape_full t acc _ room, Option.some.injEq] at found
      exact absurd found.symm stuck

theorem PacketAt.sizeOf_eq {t bytes rest : List UInt8} (h : PacketAt t bytes rest) :
    sizeOf bytes = (bytes.getD 1 0).toNat := by
  have := h.size
  unfold sizeOf
  rw [if_pos (by omega)]

theorem PacketAt.three_le {t bytes rest : List UInt8} (h : PacketAt t bytes rest) :
    3 ≤ bytes.length := by
  have := h.size
  have := h.nonzero
  omega

/-- What the scan finds is a packet that the protocol can read. -/
theorem packetAt_of_scan {t bytes : List UInt8} {size : Nat}
    (found : scanPacket (JVS_SYNC :: t) = some (bytes, size)) :
    (∃ rest, PacketAt t bytes rest) ∧ size + 2 = bytes.length := by
  unfold scanPacket at found
  simp only [List.length_cons, List.drop_succ_cons, List.drop_zero] at found
  split at found
  · cases found
  · cases looped : unescape t [] 0 with
    | none => simp [looped] at found
    | some pair =>
      obtain ⟨body, size'⟩ := pair
      simp only [looped] at found
      split at found
      · cases found
      next done =>
        simp only [Option.some.injEq, Prod.mk.injEq] at found
        obtain ⟨rfl, rfl⟩ := found
        rw [not_or] at done
        obtain ⟨n, xs, rest, read, whole, sized, length, fits⟩ :=
          read_of_unescape [] looped (by simp [sizeOf]) done.1 (by omega)
        rw [List.nil_append] at whole
        subst whole
        have count := (jvsCode.readN_length read).1
        have byte : sizeOf body = (body.getD 1 0).toNat := by
          unfold sizeOf
          rw [if_pos (by omega)]
        refine ⟨⟨rest, ?_, by omega, by omega, fits⟩, length.symm⟩
        rwa [count]

/-- The scan finds every such packet. -/
theorem scan_of_packetAt {t bytes rest : List UInt8} (h : PacketAt t bytes rest) :
    scanPacket (JVS_SYNC :: t) = some (bytes, bytes.length - 2) := by
  have three := h.three_le
  have bytesLong := jvsCode.readN_length h.read
  obtain ⟨n, hn⟩ := Nat.exists_eq_succ_of_ne_zero (n := bytes.length) (by omega)
  have read := h.read
  rw [hn] at read
  have sized := h.sizeOf_eq
  have announced := h.size
  have nonzero := h.nonzero
  have found := unescape_of_read [] (n := n) read
    (by rw [List.nil_append, sized]; exact announced)
    (by rw [List.nil_append, sized]; omega) (by simpa using h.fits)
  have start : sizeOf [] = 0 := rfl
  rw [List.nil_append, start] at found
  unfold scanPacket
  simp only [List.length_cons, List.drop_succ_cons, List.drop_zero, found]
  rw [if_neg (by omega), if_neg (by omega)]
  simp only [Option.some.injEq, Prod.mk.injEq, true_and]
  omega

/-- `consume_input` takes a packet exactly when the protocol can read one there
whose size byte is neither 0 nor 255. -/
theorem scanPacket_iff (t bytes : List UInt8) (size : Nat) :
    scanPacket (JVS_SYNC :: t) = some (bytes, size) ↔
      (∃ rest, PacketAt t bytes rest) ∧ size + 2 = bytes.length := by
  constructor
  · exact packetAt_of_scan
  · intro readable
    obtain ⟨⟨rest, packet⟩, length⟩ := readable
    rw [scan_of_packetAt packet, ← length, Nat.add_sub_cancel]

/-! ## The pass as a deframer -/

theorem findSync_cons (b : UInt8) (t : List UInt8) :
    findSync (b :: t) = if b = JVS_SYNC then b :: t else findSync t := by
  unfold findSync
  rw [List.dropWhile_cons]
  by_cases sync : b = JVS_SYNC <;> simp [sync]

/-- What is left after the noise: nothing, or a buffer that begins with SYNC. -/
theorem findSync_cases (inp : List UInt8) :
    findSync inp = [] ∨ ∃ t, findSync inp = JVS_SYNC :: t := by
  induction inp with
  | nil => exact Or.inl rfl
  | cons b t ih =>
    rw [findSync_cons]
    by_cases sync : b = JVS_SYNC
    · exact Or.inr ⟨t, by rw [if_pos sync, sync]⟩
    · rw [if_neg sync]
      exact ih

theorem findSync_append (inp later : List UInt8) :
    findSync (inp ++ later) =
      if findSync inp = [] then findSync later else findSync inp ++ later := by
  induction inp with
  | nil => rfl
  | cons b t ih =>
    rw [List.cons_append, findSync_cons, findSync_cons, ih]
    by_cases sync : b = JVS_SYNC <;> simp [sync]

theorem findSync_findSync_append (inp later : List UInt8) :
    findSync (findSync inp ++ later) = findSync (inp ++ later) := by
  rcases findSync_cases inp with empty | ⟨t, sync⟩
  · rw [findSync_append inp, if_pos empty, empty, List.nil_append]
  · rw [findSync_append inp, sync, if_neg (List.cons_ne_nil _ _), List.cons_append, findSync_cons,
      if_pos rfl]

theorem length_findSync_le (inp : List UInt8) : (findSync inp).length ≤ inp.length :=
  (List.dropWhile_suffix _).length_le

/-- One pass of `consume_input`, told by the protocol. -/
theorem nextPacket_iff (inp : List UInt8) (e : Event) (r : List UInt8) :
    nextPacket inp = some (e, r) ↔
      ∃ t bytes rest, findSync inp = JVS_SYNC :: t ∧ PacketAt t bytes rest ∧
        e = eventOf bytes (bytes.length - 2) ∧ r = (findSync inp).drop bytes.length := by
  rcases findSync_cases inp with empty | ⟨t, sync⟩
  · simp [nextPacket, empty, scanPacket]
  · simp only [nextPacket, sync]
    constructor
    · intro found
      cases scanned : scanPacket (JVS_SYNC :: t) with
      | none => simp [scanned] at found
      | some pair =>
        obtain ⟨bytes, size⟩ := pair
        obtain ⟨⟨rest, packet⟩, length⟩ := (scanPacket_iff t bytes size).mp scanned
        simp only [scanned, Option.some.injEq, Prod.mk.injEq, length] at found
        refine ⟨t, bytes, rest, rfl, packet, ?_, found.2.symm⟩
        rw [← found.1, ← length, Nat.add_sub_cancel]
    · intro readable
      obtain ⟨t', bytes, rest, same, packet, rfl, rfl⟩ := readable
      obtain rfl : t = t' := by simpa using same
      have long := packet.three_le
      have scanned := (scanPacket_iff t bytes (bytes.length - 2)).mpr
        ⟨⟨rest, packet⟩, by omega⟩
      rw [scanned]
      simp only [show bytes.length - 2 + 2 = bytes.length by omega]

theorem PacketAt.append {t bytes rest : List UInt8} (h : PacketAt t bytes rest)
    (later : List UInt8) : PacketAt (t ++ later) bytes (rest ++ later) :=
  ⟨jvsCode.readN_append later h.read, h.size, h.nonzero, h.fits⟩

/-- A packet's un-escaped bytes are no more than its bytes on the wire. -/
theorem PacketAt.length_le {t bytes rest : List UInt8} (h : PacketAt t bytes rest) :
    bytes.length ≤ t.length := by
  have := jvsCode.readN_length h.read
  omega

/-- The receive side of the port as a deframer: noise is all that a waiting pass
removes. -/
def jvsDeframer : Deframer UInt8 Event where
  next := nextPacket
  trim := findSync
  next_shorter := by
    intro b e r h
    obtain ⟨t, bytes, rest, sync, packet, -, rfl⟩ := (nextPacket_iff b e r).mp h
    have := packet.three_le
    have := packet.length_le
    have shorter := length_findSync_le b
    rw [sync] at shorter
    simp only [sync, List.length_drop, List.length_cons] at shorter ⊢
    omega
  next_append := by
    intro b e r later h
    obtain ⟨t, bytes, rest, sync, packet, rfl, rfl⟩ := (nextPacket_iff b e r).mp h
    have fits := packet.length_le
    refine (nextPacket_iff _ _ _).mpr ⟨t ++ later, bytes, rest ++ later, ?_, packet.append later,
      rfl, ?_⟩
    · rw [findSync_append, sync]
      rfl
    · rw [findSync_append, sync, if_neg (List.cons_ne_nil _ _),
        List.drop_append_of_le_length (by simp only [List.length_cons]; omega)]
  next_trim := by
    intro b later _
    simp only [nextPacket, findSync_findSync_append]
  trim_append := fun {b} later _ => findSync_findSync_append b later

@[simp] theorem jvsDeframer_trim (b : List UInt8) : jvsDeframer.trim b = findSync b := rfl

/-- Draining looks at a buffer from its first SYNC on. -/
theorem drain_congr {b c : List UInt8} (same : findSync b = findSync c) :
    jvsDeframer.drain b = jvsDeframer.drain c := by
  have next : nextPacket c = nextPacket b := by simp only [nextPacket, same]
  cases found : nextPacket b with
  | none =>
    rw [jvsDeframer.drain_none found, jvsDeframer.drain_none (next.trans found), jvsDeframer_trim,
      jvsDeframer_trim, same]
  | some pair =>
    obtain ⟨e, r⟩ := pair
    rw [jvsDeframer.drain_some found, jvsDeframer.drain_some (next.trans found)]

theorem findSync_eq_nil {noise : List UInt8} (quiet : JVS_SYNC ∉ noise) : findSync noise = [] := by
  induction noise with
  | nil => rfl
  | cons b noise ih =>
    simp only [List.mem_cons, not_or] at quiet
    rw [findSync_cons, if_neg (Ne.symm quiet.1), ih quiet.2]

theorem drain_noise {noise : List UInt8} (quiet : JVS_SYNC ∉ noise) (b : List UInt8) :
    jvsDeframer.drain (noise ++ b) = jvsDeframer.drain b :=
  drain_congr (by rw [findSync_append, if_pos (findSync_eq_nil quiet)])

/-! ## Packets as they are written -/

theorem packetAt_wire (dest : UInt8) (data rest : List UInt8) (short : data.length ≤ 253) :
    PacketAt (jvsCode.encode (packetBytes dest data) ++ rest) (packetBytes dest data) rest := by
  have size : ((packetBytes dest data).getD 1 0).toNat = data.length + 1 :=
    size_byte_toNat (by omega)
  refine ⟨jvsCode.readN_encode _ rest, ?_, ?_, ?_⟩
  · rw [size, length_packetBytes]
  · omega
  · rw [length_packetBytes]
    omega

theorem eventOf_packetBytes (dest : UInt8) (data : List UInt8) (short : data.length ≤ 253) :
    eventOf (packetBytes dest data) (data.length + 1) = .packet dest data := by
  have size : (UInt8.ofNat (data.length + 1)).toNat = data.length + 1 := size_byte_toNat (by omega)
  have sum : bodySum (packetBytes dest data) (data.length + 1) =
      dest.toNat + (data.length + 1) + (data.map UInt8.toNat).sum := by
    simp only [bodySum, packetBytes, List.take_succ_cons, List.take_left', List.map_cons,
      List.sum_cons, size]
    omega
  have received : (packetBytes dest data).getD (data.length + 1 + 1) 0 = checksum dest data := by
    simp [packetBytes]
  have carried : ((packetBytes dest data).drop 2).take (data.length + 1 - 1) = data := by
    simp [packetBytes]
  have equal : bodySum (packetBytes dest data) (data.length + 1) % 256 =
      (checksum dest data).toNat := by
    rw [sum, checksum, UInt8.toNat_ofNat']
    omega
  simp only [eventOf, received, carried, equal, ne_eq, not_true_eq_false, if_false]
  rfl

/-- One pass takes a written packet, and drops as many bytes as the packet had
before escaping: SYNC is not counted, and neither are the escapes. -/
theorem nextPacket_wire (dest : UInt8) (data rest : List UInt8) (short : data.length ≤ 253) :
    nextPacket (wire dest data ++ rest) =
      some (.packet dest data, (wire dest data).drop (data.length + 3) ++ rest) := by
  have sync : findSync (wire dest data ++ rest) =
      JVS_SYNC :: (jvsCode.encode (packetBytes dest data) ++ rest) := by
    simp [wire, findSync_cons]
  have long := (length_wire_bounds dest data).1
  refine (nextPacket_iff _ _ _).mpr ⟨_, _, rest, sync, packetAt_wire dest data rest short, ?_, ?_⟩
  · rw [length_packetBytes, show data.length + 3 - 2 = data.length + 1 by omega,
      eventOf_packetBytes dest data short]
  · rw [length_packetBytes, sync, ← List.cons_append, ← wire,
      List.drop_append_of_le_length (by omega)]

/-- What a pass leaves of a packet is noise: the next pass removes it. -/
theorem sync_not_mem_drop_wire (dest : UInt8) (data : List UInt8) (k : Nat) :
    JVS_SYNC ∉ (wire dest data).drop (k + 1) := by
  intro member
  rw [wire, List.drop_succ_cons] at member
  exact sync_not_mem_encode _ (List.mem_of_mem_drop member)

/-- Draining a written packet gives the packet and goes on with what follows it. -/
theorem drain_wire (dest : UInt8) (data rest : List UInt8) (short : data.length ≤ 253) :
    jvsDeframer.drain (wire dest data ++ rest) =
      (.packet dest data :: (jvsDeframer.drain rest).1, (jvsDeframer.drain rest).2) := by
  rw [jvsDeframer.drain_some (nextPacket_wire dest data rest short),
    drain_noise (sync_not_mem_drop_wire dest data (data.length + 2))]

end Es3Recomp.Model.Jvs
