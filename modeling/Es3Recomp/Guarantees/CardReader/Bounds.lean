import Es3Recomp.Source.CardReader.Accesses
import Mathlib.Data.List.GetD

/-!
# Commands stay inside their arrays

Whatever bytes a frame has, `command` and `mifare` (src/src/runtime/card.c:388-441, 452-569)
touch `p`, `g_card` and `r` only inside. The lengths they subtract from are tested before
(`n > 3 ? n - 3 : 0`), or follow from the byte that chose the case.
-/
namespace Es3Recomp.Guarantees.CardReader
open Library Library.Traced Source.CardReader Source.CardReader.Touching

/-- The body is `n` bytes, `g_card` 1024, `r` 64, `g_uid` and the pattern four. -/
def InBounds (n : Nat) : Access → Prop
  | .readBody offset size => offset + size ≤ n
  | .readCard offset size | .writeCard offset size => offset + size ≤ CARD_BYTES
  | .readAnswer offset size | .writeAnswer offset size => offset + size ≤ 64
  | .readUid offset size | .readPattern offset size => offset + size ≤ 4

/-- The memory from a frame's body on, with anything behind it. -/
def bodyAt (body : List UInt8) (behind : Memory) : Memory := fun i => body.getD i (behind i)

/-- A card, and an answer that stands in `r[0 .. rn)`. -/
structure Gives (expected : Card × List UInt8) (a : Answer) : Prop where
  card : a.1 = expected.1
  count : a.2.2.toNat = expected.2.length
  bytes : load a.2.1 ⟨0, expected.2.length⟩ = expected.2
  short : expected.2.length ≤ 64

variable {body : List UInt8} {behind r : Memory} {inField : Bool} {o : SaveOutcome} {c : Card}

/-! ## Single accesses -/

theorem yields_put {n i : Nat} {bytes : List UInt8} {post : Memory → Prop} :
    (put r i bytes).Yields (InBounds n) post ↔ i + bytes.length ≤ 64 ∧ post (store r i bytes) :=
  yields_find

/-- A byte that is not there counts as zero, and is not read. -/
theorem yields_byteAt {base i : Nat} {n : UInt32} {post : UInt8 → Prop}
    (length : n.toNat = body.length - base) :
    (byteAt (bodyAt body behind) base n i).Yields (InBounds body.length) post ↔
      post ((body.drop base).getD i 0) := by
  rw [List.getD_eq_getElem?_getD, List.getElem?_drop, ← List.getD_eq_getElem?_getD]
  unfold byteAt
  by_cases inside : i < n.toNat
  · have there : base + i < body.length := by omega
    have byte : bodyAt body behind (base + i) = body.getD (base + i) 0 := by
      rw [bodyAt, List.getD_eq_getElem _ _ there, List.getD_eq_getElem _ _ there]
    rw [if_pos inside, yields_find, byte]
    exact and_iff_right there
  · have past : body.length ≤ base + i := by omega
    rw [if_neg inside, yields_pure, List.getD_eq_default _ _ past]

theorem load_bodyAt {start size : Nat} (inside : start + size ≤ body.length) :
    load (bodyAt body behind) ⟨start, size⟩ = (body.drop start).take size := by
  have count : (load (bodyAt body behind) ⟨start, size⟩).length = size := length_load _ _
  apply List.ext_getElem
  · rw [count, List.length_take, List.length_drop]
    omega
  · intro k here there
    rw [count] at here
    have within : start + k < body.length := by omega
    simp only [load, List.getElem_map, List.getElem_range, bodyAt, List.getElem_take,
      List.getElem_drop, List.getD_eq_getElem _ _ within]

/-- What a fixed answer amounts to. -/
theorem gives_fixed (c : Card) (r : Memory) {bytes : List UInt8} (short : bytes.length ≤ 64) :
    Gives (c, bytes) (c, store r 0 bytes, UInt32.ofNat bytes.length) := by
  refine ⟨rfl, ?_, ?_, short⟩
  · exact UInt32.toNat_ofNat_of_lt' (Nat.lt_of_le_of_lt short (by decide))
  · dsimp only
    rw [load_store_take _ _ _ _ (Nat.le_refl _), List.take_length]

theorem yields_fixed {n : Nat} {bytes : List UInt8} (short : bytes.length ≤ 64) :
    (fixed c r bytes).Yields (InBounds n) (Gives (c, bytes)) := by
  rw [fixed, yields_bind, yields_put, yields_pure]
  exact ⟨by omega, gives_fixed c r short⟩

/-- Where both take the same branch. -/
theorem yields_either {n : Nat} {P : Prop} [Decidable P] {x y : Handling Answer}
    {a b : Card × List UInt8} (yes : P → x.Yields (InBounds n) (Gives a))
    (no : ¬P → y.Yields (InBounds n) (Gives b)) :
    (if P then x else y).Yields (InBounds n) (Gives (if P then a else b)) := by
  by_cases holds : P
  · rw [if_pos holds, if_pos holds]
    exact yes holds
  · rw [if_neg holds, if_neg holds]
    exact no holds

/-! ## MIFARE -/

/-- The three bytes every MIFARE answer begins with, and the third stored again. -/
theorem gives_refused (c : Card) (r : Memory) (b : UInt8) :
    Gives (c, [0xD5, 0x41, b]) (c, store (store r 0 [0xD5, 0x41, 0x00]) 2 [b], 3) :=
  ⟨rfl, rfl, rfl, Nat.le_of_ble_eq_true rfl⟩

theorem gives_success (c : Card) (r : Memory) :
    Gives (c, MIFARE_SUCCESS) (c, store r 0 [0xD5, 0x41, 0x00], 3) :=
  ⟨rfl, rfl, rfl, Nat.le_of_ble_eq_true rfl⟩

theorem length_block (c : Card) (b : Nat) : (c.block b).length = BLOCK_BYTES := length_load _ _

theorem block_inside {b : Nat} (inside : b < BLOCKS) :
    b * BLOCK_BYTES + BLOCK_BYTES ≤ CARD_BYTES := by
  have blocks : BLOCKS = 64 := rfl
  simp only [BLOCK_BYTES, CARD_BYTES]
  omega

/-- A block behind the three bytes. -/
theorem gives_read (c : Card) (r : Memory) (b : Nat) :
    Gives ({ c with nReads := c.nReads + 1 }, MIFARE_SUCCESS ++ c.block b)
      ({ c with nReads := c.nReads + 1 }, store (store r 0 [0xD5, 0x41, 0x00]) 3 (c.block b), 19) := by
  have block : (c.block b).length = 16 := length_block c b
  have length : (MIFARE_SUCCESS ++ c.block b).length = 3 + (c.block b).length :=
    List.length_append
  refine ⟨rfl, ?_, ?_, ?_⟩
  · rw [length, block]
    rfl
  · rw [length]
    exact load_store_store r 0 MIFARE_SUCCESS (c.block b)
  · rw [length, block]
    decide

theorem yields_refused {n : Nat} :
    (refused c (store r 0 [0xD5, 0x41, 0x00])).Yields (InBounds n) (Gives (c, MIFARE_REFUSED)) := by
  rw [refused, yields_bind, yields_put, yields_pure]
  exact ⟨by decide, gives_refused c r 0x14⟩

theorem yields_cardSave {n : Nat} {post : Card → Prop} :
    (Touching.cardSave o c).Yields (InBounds n) post ↔ post (Source.CardReader.cardSave o c) := by
  unfold Touching.cardSave Source.CardReader.cardSave
  split
  · exact yields_pure
  · split
    · exact yields_pure
    · rw [yields_find]
      exact and_iff_right (Nat.le_refl _)

theorem mifare_in_bounds {base : Nat} {n : UInt32} (length : n.toNat = body.length - base) :
    (Touching.mifare inField o (bodyAt body behind) base n c r).Yields (InBounds body.length)
      (Gives (Source.CardReader.mifare inField o c (body.drop base))) := by
  have count : (body.drop base).length = n.toNat := by rw [List.length_drop, length]
  unfold Touching.mifare Source.CardReader.mifare
  rw [yields_bind, yields_byteAt length, yields_bind, yields_byteAt length, yields_bind, yields_put]
  refine ⟨by decide, ?_⟩
  generalize (body.drop base).getD 0 0 = cmd
  generalize ((body.drop base).getD 1 0).toNat = blk
  dsimp only
  rw [count]
  split
  · rw [yields_bind, yields_put, yields_pure]
    exact ⟨by decide, gives_refused c r 0x01⟩
  · split
    · split
      · exact yields_refused
      · rw [yields_pure]
        exact gives_success _ r
    · split
      · split
        · exact yields_refused
        · rename_i block
          split
          · exact yields_refused
          · rw [yields_bind, yields_find, yields_bind, yields_put, yields_pure]
            refine ⟨block_inside (Nat.not_le.mp block), ?_, gives_read c r blk⟩
            rw [length_block]
            decide
      · split
        · split
          · exact yields_refused
          · rename_i allowed
            obtain ⟨block, enough⟩ := not_or.mp allowed
            split
            · exact yields_refused
            · split
              · rw [yields_pure]
                exact gives_success c r
              · rw [yields_bind, yields_find, yields_bind, yields_find, yields_bind]
                have span : base + 2 + BLOCK_BYTES ≤ body.length := by
                  simp only [BLOCK_BYTES] at enough ⊢
                  omega
                rw [load_bodyAt span, yields_cardSave, yields_pure, List.drop_drop]
                exact ⟨span, block_inside (Nat.not_le.mp block), gives_success _ r⟩
        · exact yields_refused

/-! ## The commands -/

/-- `n > k ? n - k : 0` -/
theorem toNat_sub_guarded {n k : UInt32} {length : Nat} (same : n.toNat = length) :
    (if k < n then n - k else 0).toNat = length - k.toNat := by
  split
  · rename_i more
    rw [UInt32.toNat_sub_of_le _ _ (UInt32.le_of_lt more), same]
  · rename_i less
    have bound := UInt32.le_iff_toNat_le.mp (UInt32.not_lt.mp less)
    rw [UInt32.toNat_zero]
    omega

theorem load_store_next (r : Memory) (k : Nat) (b : UInt8) :
    load (store r k [b]) ⟨0, k + 1⟩ = load r ⟨0, k⟩ ++ [b] := by
  have apart : Span.Apart ⟨k, [b].length⟩ ⟨0, k⟩ := Or.inr (Nat.le_of_eq (Nat.zero_add k))
  rw [load_append, load_store_clear _ apart, Nat.zero_add,
    load_store_take _ _ _ _ (Nat.le_refl 1)]
  rfl

/-- From `i` on, one value of the pattern for every register that is left. -/
theorem yields_fillRegisters {n regs turns i : Nat} (enough : 62 ≤ turns + i)
    (filled : i ≤ min regs 62) :
    (fillRegisters regs turns i r).Yields (InBounds n) fun out => out.2 = min regs 62 ∧
      load out.1 ⟨0, 2 + min regs 62⟩ = load r ⟨0, 2 + i⟩ ++ (registerBytes regs).drop i := by
  have count : (registerBytes regs).length = min regs 62 := by
    rw [registerBytes, List.length_map, List.length_range]
  have done : ∀ i (r : Memory), i = min regs 62 →
      (pure (r, i) : Handling (Memory × Nat)).Yields (InBounds n) fun out =>
        out.2 = min regs 62 ∧
          load out.1 ⟨0, 2 + min regs 62⟩ = load r ⟨0, 2 + i⟩ ++ (registerBytes regs).drop i := by
    intro i r all
    rw [yields_pure, List.drop_of_length_le (Nat.le_of_eq (count.trans all.symm)),
      List.append_nil, all]
    exact ⟨rfl, rfl⟩
  induction turns generalizing i r with
  | zero => exact done i r (by omega)
  | succ turns ih =>
    rw [fillRegisters]
    split
    · rename_i more
      rw [yields_bind, yields_find, yields_bind, yields_put]
      have inPattern : i % 4 + 1 ≤ 4 := Nat.mod_lt _ (by decide)
      have inAnswer : 2 + i + 1 ≤ 64 := by omega
      have here : (registerBytes regs).drop i =
          [0x77, 0x1C, 0x11, 0xF1].getD (i % 4) 0 :: (registerBytes regs).drop (i + 1) := by
        have inside : i < (registerBytes regs).length := by omega
        rw [List.drop_eq_getElem_cons inside]
        simp only [registerBytes, List.getElem_map, List.getElem_range]
      refine ⟨inPattern, inAnswer, (ih (by omega) (by omega)).mono ?_⟩
      intro out filled
      refine ⟨filled.1, filled.2.trans ?_⟩
      rw [here, ← Nat.add_assoc, load_store_next, List.append_assoc]
      rfl
    · exact done i r (by omega)

/-- One byte of the answer stored again. -/
theorem load_store_set (r : Memory) (b : UInt8) (n : Nat) :
    load (store r 1 [b]) ⟨0, n⟩ = (load r ⟨0, n⟩).set 1 b := by
  apply List.ext_getElem
  · rw [List.length_set, length_load, length_load]
  · intro k here there
    simp only [load, List.getElem_map, List.getElem_range, List.getElem_set, store, Nat.zero_add]
    by_cases one : k = 1
    · subst one
      rfl
    · rw [if_neg (Ne.symm one)]
      split
      next past => exact List.getD_eq_default _ _ (by rw [List.length_singleton]; omega)
      next => rfl

theorem yields_answer {n : UInt32} (length : n.toNat = body.length) :
    (answer inField o (bodyAt body behind) n c r).Yields (InBounds body.length)
      (Gives (Source.CardReader.command inField o c body)) := by
  have cmdByte : n.toNat = body.length - 0 := length
  have long : body.getD 1 0 ≠ 0 → 2 ≤ body.length := by
    intro there
    by_contra short
    exact there (List.getD_eq_default _ _ (by omega))
  unfold answer Source.CardReader.command
  rw [yields_bind, yields_byteAt cmdByte, List.drop_zero]
  generalize body.getD 1 0 = cmd at long ⊢
  dsimp only
  refine yields_either (fun _ => yields_fixed (by decide)) fun _ => ?_
  refine yields_either (fun registers => ?_) fun _ => ?_
  · have two : 2 ≤ n.toNat := length ▸ long (by rw [registers]; decide)
    have regs : ((n - 2) / 2).toNat = (body.length - 2) / 2 := by
      have le : 2 ≤ n := UInt32.le_iff_toNat_le.mpr two
      rw [UInt32.toNat_div, UInt32.toNat_sub_of_le _ _ le, length]
      rfl
    rw [yields_bind, yields_put, yields_bind, regs]
    refine ⟨by decide, (yields_fillRegisters (by decide) (Nat.zero_le _)).mono ?_⟩
    rintro ⟨r', i⟩ ⟨rfl, filled⟩
    rw [yields_pure]
    have count : ([0xD5, 0x07] ++ registerBytes ((body.length - 2) / 2)).length =
        2 + min ((body.length - 2) / 2) 62 := by
      rw [List.length_append, registerBytes, List.length_map, List.length_range]
      rfl
    refine ⟨rfl, ?_, ?_, ?_⟩
    · rw [count]
      exact UInt32.toNat_ofNat_of_lt' (Nat.lt_of_le_of_lt (m := 64) (by omega) (by decide))
    · rw [count]
      exact filled
    · rw [count]
      omega
  refine yields_either (fun _ => yields_fixed (by decide)) fun _ => ?_
  refine yields_either (fun _ => yields_fixed (by decide)) fun _ => ?_
  refine yields_either (fun _ => yields_fixed (by decide)) fun _ => ?_
  refine yields_either (fun _ => yields_fixed (by decide)) fun _ => ?_
  refine yields_either (fun _ => yields_fixed (by decide)) fun _ => ?_
  refine yields_either (fun _ => yields_fixed (by decide)) fun _ => ?_
  refine yields_either (fun _ => yields_fixed (by decide)) fun _ => ?_
  refine yields_either (fun _ => ?_) fun _ => ?_
  · refine yields_either (fun _ => yields_fixed (by decide)) fun _ => ?_
    have uid : c.uid.val.length = 4 := c.uid.property
    rw [yields_bind, yields_put, yields_bind, yields_find, yields_bind, yields_put, yields_pure]
    refine ⟨by decide, Nat.le_refl _, by rw [uid]; decide, rfl, ?_, ?_, ?_⟩
    · rw [List.length_append, uid]
      rfl
    · rw [List.length_append]
      exact load_store_store r 0 [0xD5, 0x4B, 0x01, 0x01, 0x00, 0x04, 0x08, 0x04] c.uid.val
    · rw [List.length_append, uid]
      decide
  refine yields_either (fun _ => ?_) fun _ => ?_
  · exact mifare_in_bounds (toNat_sub_guarded length)
  refine yields_either (fun _ => ?_) fun _ => ?_
  · rw [yields_bind]
    refine (mifare_in_bounds (toNat_sub_guarded length)).mono ?_
    rintro ⟨c', r', rn⟩ ⟨card, count, bytes, short⟩
    rw [yields_bind, yields_put, yields_pure]
    refine ⟨by decide, card, ?_, ?_, ?_⟩
    · rw [List.length_set]
      exact count
    · rw [List.length_set]
      exact (load_store_set r' 0x45 _).trans (congrArg (List.set · 1 0x45) bytes)
    · rw [List.length_set]
      exact short
  refine yields_either (fun _ => ?_) fun _ => ?_
  · rw [yields_bind]
    refine (yields_fixed (by decide)).mono ?_
    rintro ⟨c', r', rn⟩ ⟨rfl, count, bytes, short⟩
    rw [yields_pure]
    exact ⟨rfl, count, bytes, short⟩
  · exact yields_fixed (Nat.le_of_ble_eq_true rfl)

theorem yields_command {n : UInt32} (length : n.toNat = body.length) :
    (Touching.command inField o (bodyAt body behind) n c r).Yields (InBounds body.length)
      fun out => out = Source.CardReader.command inField o c body ∧ out.2.length ≤ 64 := by
  rw [Touching.command, yields_bind]
  refine (yields_answer length).mono ?_
  rintro ⟨c', r', rn⟩ ⟨card, count, bytes, short⟩
  have same : (c', load r' ⟨0, rn.toNat⟩) = Source.CardReader.command inField o c body := by
    rw [count, bytes]
    exact congrArg (·, _) card
  dsimp only
  split
  · rename_i none
    rw [none] at same
    rw [yields_pure]
    exact ⟨same, Nat.zero_le _⟩
  · have inside : 0 + rn.toNat ≤ 64 := by rwa [Nat.zero_add, count]
    rw [yields_find, same]
    exact ⟨inside, rfl, short⟩

/-- Every body of every length, in every state of the card and the stack: the accesses are
inside, and the card and the answer are those of `command`, which has at most 64 bytes. -/
theorem command_in_bounds (body : List UInt8) (behind : Memory) (inField : Bool) (o : SaveOutcome)
    (c : Card) (r : Memory) (short : body.length ≤ 255) :
    let run := Touching.command inField o (bodyAt body behind) (UInt32.ofNat body.length) c r
    (∀ access ∈ run.events, InBounds body.length access) ∧
      run.outcome = .ok (Source.CardReader.command inField o c body) ∧
      (Source.CardReader.command inField o c body).2.length ≤ 64 := by
  have length : (UInt32.ofNat body.length).toNat = body.length :=
    UInt32.toNat_ofNat_of_lt' (Nat.lt_of_le_of_lt short (by decide))
  have run : (Touching.command inField o (bodyAt body behind) (UInt32.ofNat body.length) c
      r).Yields _ _ := yields_command length
  obtain ⟨inside, out, ends, rfl, few⟩ := run
  exact ⟨inside, ends, few⟩

/-- A write that ends before its block does. -/
theorem short_write_in_bounds :
    let body : List UInt8 := [0xD4, 0x40, 0x01, 0xA0, 0x04, 0x11]
    let run := Touching.command true SaveOutcome.good (bodyAt body fun _ => 0xCC)
      (UInt32.ofNat body.length) (Card.initial none) fun _ => 0
    (∀ access ∈ run.events, InBounds body.length access) ∧
      run.outcome = .ok (Source.CardReader.command true SaveOutcome.good (Card.initial none) body) ∧
      (Source.CardReader.command true SaveOutcome.good (Card.initial none) body).2.length ≤ 64 :=
  command_in_bounds _ _ _ _ _ _ (by decide)

end Es3Recomp.Guarantees.CardReader
