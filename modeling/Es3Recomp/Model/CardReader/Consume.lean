import Es3Recomp.Library.Scan
import Es3Recomp.Model.CardReader.Sessions
import Es3Recomp.Source.CardReader.Port

/-!
# Taking frames off the buffer

`consume` (src/src/runtime/card.c:574-609) turn by turn: each turn stops, moves on, or
carries out one command. Which frames it takes, and what it leaves in the buffer, does
not depend on what the commands do; `frames` is that part of it by itself.
-/
namespace Es3Recomp.Model.CardReader
open Library Source.CardReader

/-! ## One turn -/

/-- Three bytes of start code, then `len` and `lcs` of an ACK or of a NACK. -/
def IsAck (len lcs : UInt8) : Prop := (len = 0x00 ∧ lcs = 0xFF) ∨ (len = 0xFF ∧ lcs = 0x00)

instance (len lcs : UInt8) : Decidable (IsAck len lcs) := inferInstanceAs (Decidable (_ ∨ _))

/-- The bytes at the front are a start code. -/
def IsStart (a b c : UInt8) : Prop := a = 0x00 ∧ b = 0x00 ∧ c = 0xFF

instance (a b c : UInt8) : Decidable (IsStart a b c) := inferInstanceAs (Decidable (_ ∧ _))

theorem five_or_more (inp : List UInt8) :
    inp.length < 5 ∨ ∃ a b c len lcs rest, inp = a :: b :: c :: len :: lcs :: rest := by
  match inp with
  | a :: b :: c :: len :: lcs :: rest => exact Or.inr ⟨a, b, c, len, lcs, rest, rfl⟩
  | [] | [_] | [_, _] | [_, _, _] | [_, _, _, _] => exact Or.inl (by simp)

theorem turn_short {inp : List UInt8} (short : inp.length < 5) : turn inp = .wait := if_pos short

/-- A turn on at least five bytes. -/
theorem turn_five (a b c len lcs : UInt8) (rest : List UInt8) :
    turn (a :: b :: c :: len :: lcs :: rest) =
      if ¬ IsStart a b c then .skip 1
      else if IsAck len lcs then .skip (if rest = [] then 5 else 6)
      else if len + lcs ≠ 0 then .skip 1
      else if rest.length < len.toNat + 2 then .wait
      else .frame (rest.take len.toNat) (rest.getD len.toNat 0) := by
  have long : ¬ (a :: b :: c :: len :: lcs :: rest).length < 5 := by
    simp only [List.length_cons]
    omega
  have ack : ackLength (a :: b :: c :: len :: lcs :: rest) = if rest = [] then 5 else 6 := by
    cases rest <;> simp [ackLength]
  have needs : (a :: b :: c :: len :: lcs :: rest).length < 5 + len.toNat + 2 ↔
      rest.length < len.toNat + 2 := by
    simp only [List.length_cons]
    omega
  have checksum : (a :: b :: c :: len :: lcs :: rest).getD (5 + len.toNat) 0 =
      rest.getD len.toNat 0 := by
    rw [show 5 + len.toNat = len.toNat + 1 + 1 + 1 + 1 + 1 by omega]
    rfl
  rw [turn, if_neg long, ack]
  simp only [List.getD_cons_zero, List.getD_cons_succ, needs, checksum, List.drop_succ_cons,
    List.drop_zero]
  by_cases start : IsStart a b c
  · have bytes : a = 0x00 ∧ b = 0x00 ∧ c = 0xFF := start
    rw [if_neg (not_not.mpr bytes), if_neg (not_not.mpr start)]
    by_cases isAck : len = 0x00 ∧ lcs = 0xFF
    · have either : IsAck len lcs := Or.inl isAck
      rw [if_pos isAck, if_pos either]
    · rw [if_neg isAck]
      by_cases isNack : len = 0xFF ∧ lcs = 0x00
      · have either : IsAck len lcs := Or.inr isNack
        rw [if_pos isNack, if_pos either]
      · have neither : ¬ IsAck len lcs := not_or.mpr ⟨isAck, isNack⟩
        rw [if_neg isNack, if_neg neither]
  · have bytes : ¬ (a = 0x00 ∧ b = 0x00 ∧ c = 0xFF) := start
    rw [if_pos bytes, if_pos start]

/-- A turn that moves on does so inside the buffer. -/
theorem turn_skip {inp : List UInt8} {n : Nat} (h : turn inp = .skip n) :
    0 < n ∧ n ≤ inp.length := by
  rcases five_or_more inp with short | ⟨a, b, c, len, lcs, rest, rfl⟩
  · rw [turn_short short] at h
    cases h
  · rw [turn_five] at h
    split at h
    · cases h
      simp
    · split at h
      · cases h
        split
        · simp
        · rename_i more
          have := List.length_pos_iff.mpr more
          simp only [List.length_cons]
          omega
      · split at h
        · cases h
          simp
        · split at h <;> cases h

/-- A frame is in the buffer, its checksum and postamble included. -/
theorem turn_frame {inp body : List UInt8} {dcs : UInt8} (h : turn inp = .frame body dcs) :
    5 + body.length + 2 ≤ inp.length := by
  rcases five_or_more inp with short | ⟨a, b, c, len, lcs, rest, rfl⟩
  · rw [turn_short short] at h
    cases h
  · rw [turn_five] at h
    split at h
    · cases h
    · split at h
      · cases h
      · split at h
        · cases h
        · split at h
          · cases h
          · cases h
            simp only [List.length_cons, List.length_take]
            omega

/-! ## The loop -/

theorem execute_inp (world : World) (r : Reader) (body : List UInt8) (dcs : UInt8) :
    (execute world r body dcs).1.port.inp = r.port.inp := by
  unfold execute
  dsimp only
  split <;> rfl

/-- The buffer after the frame that a turn found. -/
def behind (r : Reader) (body : List UInt8) : Reader :=
  r.setInp (r.port.inp.drop (5 + body.length + 2))

/-- The `while` of `consume` as a loop over the reader. -/
def readerScan (world : World) : Scan Reader Executed where
  size r := r.port.inp.length
  next r :=
    match turn r.port.inp with
    | .wait => none
    | .skip n => some (none, r.setInp (r.port.inp.drop n))
    | .frame body dcs =>
      some (some (execute world r body dcs).2, behind (execute world r body dcs).1 body)
  shorter := by
    intro r taken rest h
    split at h
    · cases h
    · rename_i n found
      cases h
      have bounds := turn_skip found
      simp only [Reader.setInp, List.length_drop]
      omega
    · rename_i body dcs found
      cases h
      have bounds := turn_frame found
      simp only [behind, Reader.setInp, execute_inp, List.length_drop]
      omega

theorem consumeLoop_loop (world : World) (k : Nat) (r : Reader) :
    consumeLoop world k r = (((readerScan world).loop k r).2, ((readerScan world).loop k r).1) := by
  induction k generalizing r with
  | zero => rfl
  | succ k ih =>
    rw [consumeLoop, Scan.loop]
    cases found : turn r.port.inp with
    | wait => simp only [readerScan, found]
    | skip n =>
      have next : (readerScan world).next r = some (none, r.setInp (r.port.inp.drop n)) := by
        simp only [readerScan, found]
      simp only [next, ih]
      rfl
    | frame body dcs =>
      have next : (readerScan world).next r = some (some (execute world r body dcs).2,
          behind (execute world r body dcs).1 body) := by
        simp only [readerScan, found]
      simp only [next, ih]
      rfl

theorem consume_all (world : World) (r : Reader) :
    consume world r = (((readerScan world).all r).2, ((readerScan world).all r).1) :=
  consumeLoop_loop world _ r

/-- Induction over the turns of `consume`. -/
theorem consume_induction (world : World) {motive : Reader → Reader × List Executed → Prop}
    (wait : ∀ r, turn r.port.inp = .wait → motive r (r, []))
    (skip : ∀ r n result, turn r.port.inp = .skip n →
      motive (r.setInp (r.port.inp.drop n)) result → motive r result)
    (take : ∀ r body dcs result, turn r.port.inp = .frame body dcs →
      motive (behind (execute world r body dcs).1 body) result →
      motive r (result.1, (execute world r body dcs).2 :: result.2))
    (r : Reader) : motive r (consume world r) := by
  rw [consume_all]
  refine (readerScan world).all_induction
    (motive := fun r result => motive r (result.2, result.1)) ?_ ?_ r
  · intro r stop
    simp only [readerScan] at stop
    split at stop
    · rename_i found
      exact wait r found
    · cases stop
    · cases stop
  · intro r taken rest result next ih
    simp only [readerScan] at next
    split at next
    · cases next
    · rename_i n found
      cases next
      exact skip r n _ found ih
    · rename_i body dcs found
      cases next
      exact take r body dcs _ found ih

/-! ## The frames by themselves -/

/-- A frame: its body and the data checksum byte behind it. -/
abbrev Frame := List UInt8 × UInt8

/-- The same loop over the bytes. -/
def bufferScan : Scan (List UInt8) Frame where
  size := List.length
  next inp :=
    match turn inp with
    | .wait => none
    | .skip n => some (none, inp.drop n)
    | .frame body dcs => some (some (body, dcs), inp.drop (5 + body.length + 2))
  shorter := by
    intro inp taken rest h
    split at h
    · cases h
    · rename_i n found
      cases h
      have bounds := turn_skip found
      rw [List.length_drop]
      omega
    · rename_i body dcs found
      cases h
      have bounds := turn_frame found
      rw [List.length_drop]
      omega

/-- The frames of a buffer, in order, and what is left of it. -/
def frames (inp : List UInt8) : List Frame × List UInt8 := bufferScan.all inp

/-- The frame a command came in. -/
def frameOf (e : Executed) : Frame := (e.body, e.dcs)

theorem execute_frame (world : World) (r : Reader) (body : List UInt8) (dcs : UInt8) :
    frameOf (execute world r body dcs).2 = (body, dcs) := by
  unfold execute
  dsimp only
  split <;> rfl

/-- `consume` carries out the frames of its buffer, and leaves what they leave. -/
theorem consume_frames (world : World) (r : Reader) :
    (consume world r).2.map frameOf = (frames r.port.inp).1 ∧
      (consume world r).1.port.inp = (frames r.port.inp).2 := by
  have same := (readerScan world).all_map bufferScan (fun r => r.port.inp) frameOf (by
    intro r
    simp only [bufferScan, readerScan]
    cases turn r.port.inp with
    | wait | skip n => rfl
    | frame body dcs =>
      simp only [Option.map_some, execute_frame, behind, execute_inp]
      rfl) r
  rw [consume_all, frames, same]
  exact ⟨rfl, rfl⟩

/-- The body and the checksum byte add up to zero. -/
def SumRight (f : Frame) : Prop := f.1.sum + f.2 = 0

instance (f : Frame) : Decidable (SumRight f) := inferInstanceAs (Decidable (_ = _))

theorem notAck_complement (n : UInt8) : ¬ IsAck n (0 - n) := by
  unfold IsAck
  rintro (⟨rfl, h⟩ | ⟨rfl, h⟩) <;> exact absurd h (by decide)

/-- A frame that was sent is taken whole, and its checksum is right. -/
theorem frame_turn (body rest : List UInt8) (short : body.length ≤ 255) :
    turn (frame body ++ rest) = .frame body (0 - body.sum) ∧ SumRight (body, 0 - body.sum) := by
  have length : (UInt8.ofNat body.length).toNat = body.length := by
    rw [UInt8.toNat_ofNat', Nat.mod_eq_of_lt (by omega)]
  have whole : frame body ++ rest = 0x00 :: 0x00 :: 0xFF :: UInt8.ofNat body.length ::
      (0 - UInt8.ofNat body.length) :: (body ++ ((0 - body.sum) :: 0x00 :: rest)) := by
    simp [frame]
  have start : IsStart 0x00 0x00 0xFF := ⟨rfl, rfl, rfl⟩
  have sums : UInt8.ofNat body.length + (0 - UInt8.ofNat body.length) = 0 := by
    rw [UInt8.zero_sub, UInt8.add_right_neg]
  have enough : ¬ (body ++ ((0 - body.sum) :: 0x00 :: rest)).length < body.length + 2 := by
    simp only [List.length_append, List.length_cons]
    omega
  refine ⟨?_, ?_⟩
  · rw [whole, turn_five, if_neg (not_not.mpr start), if_neg (notAck_complement _),
      if_neg (not_not.mpr sums), length, if_neg enough, List.take_left]
    simp [List.getD_eq_getElem?_getD]
  · show body.sum + (0 - body.sum) = 0
    rw [UInt8.zero_sub, UInt8.add_right_neg]

end Es3Recomp.Model.CardReader
