/-!
# Text as UTF-8, and the bytes of ASCII in it

A byte below 0x80 is a character of its own wherever it stands, and no part of another one.
So a text can be cut at such a byte, whatever surrounds it.
-/
namespace Es3Recomp.Library

def utf8 (text : List Char) : List UInt8 := text.flatMap String.utf8EncodeChar

theorem utf8_nil : utf8 [] = [] := rfl

theorem utf8_cons (c : Char) (text : List Char) :
    utf8 (c :: text) = String.utf8EncodeChar c ++ utf8 text := rfl

theorem utf8_append (s t : List Char) : utf8 (s ++ t) = utf8 s ++ utf8 t := List.flatMap_append

def Ascii (c : Char) : Prop := c.toNat < 0x80

instance (c : Char) : Decidable (Ascii c) := inferInstanceAs (Decidable (_ < _))

theorem encode_ascii {c : Char} (ascii : Ascii c) :
    String.utf8EncodeChar c = [UInt8.ofNat c.toNat] := by
  have small : c.val.toNat ≤ 0x7F := Nat.le_of_lt_succ ascii
  fun_cases String.utf8EncodeChar c with
  | case1 => rfl
  | case2 _ large => exact absurd small large
  | case3 _ large => exact absurd small large
  | case4 _ large => exact absurd small large

theorem encode_large {c : Char} (large : ¬Ascii c) :
    ∀ b ∈ String.utf8EncodeChar c, 0x80 ≤ b.toNat := by
  have more : ¬c.val.toNat ≤ 0x7F := fun small => large (Nat.lt_succ_of_le small)
  fun_cases String.utf8EncodeChar c with
  | case1 _ small => exact absurd small more
  | case2 =>
    intro b member
    simp only [List.mem_cons, List.not_mem_nil, or_false] at member
    rcases member with rfl | rfl <;> rw [UInt8.toNat_ofNat'] <;> omega
  | case3 =>
    intro b member
    simp only [List.mem_cons, List.not_mem_nil, or_false] at member
    rcases member with rfl | rfl | rfl <;> rw [UInt8.toNat_ofNat'] <;> omega
  | case4 =>
    intro b member
    simp only [List.mem_cons, List.not_mem_nil, or_false] at member
    rcases member with rfl | rfl | rfl | rfl <;> rw [UInt8.toNat_ofNat'] <;> omega

/-- Two texts with the same bytes are the same. -/
theorem utf8_inj {s t : List Char} : utf8 s = utf8 t ↔ s = t := by
  refine ⟨fun same => ?_, congrArg utf8⟩
  have bytes : (String.ofList s).toByteArray = (String.ofList t).toByteArray := by
    rw [String.toByteArray_ofList, String.toByteArray_ofList, List.utf8Encode, List.utf8Encode]
    exact congrArg List.toByteArray same
  exact String.ofList_inj.mp (String.toByteArray_inj.mp bytes)

theorem ofNat_ascii_inj {c q : Char} (left : Ascii c) (right : Ascii q)
    (same : UInt8.ofNat c.toNat = UInt8.ofNat q.toNat) : c = q := by
  have equal := congrArg UInt8.toNat same
  unfold Ascii at left right
  rw [UInt8.toNat_ofNat', UInt8.toNat_ofNat'] at equal
  apply Char.toNat_inj.mp
  omega

/-- Where the bytes of a text hold the byte of an ASCII character, the text has it there. -/
theorem utf8_split {q : Char} (ascii : Ascii q) {text : List Char} {xs ys : List UInt8}
    (same : utf8 text = xs ++ UInt8.ofNat q.toNat :: ys) :
    ∃ front back, text = front ++ q :: back ∧ utf8 front = xs ∧ utf8 back = ys := by
  induction text generalizing xs with
  | nil => exact absurd same.symm (List.append_ne_nil_of_right_ne_nil _ (List.cons_ne_nil _ _))
  | cons c text ih =>
    rw [utf8_cons] at same
    rcases List.append_eq_append_iff.mp same with ⟨l, rfl, later⟩ | ⟨l, here, later⟩
    · obtain ⟨front, back, rfl, rfl, rfl⟩ := ih later
      exact ⟨c :: front, back, rfl, rfl, rfl⟩
    · cases l with
      | nil =>
        rw [List.append_nil] at here
        obtain ⟨front, back, rfl, none, rfl⟩ := ih (show utf8 text = [] ++ _ from later.symm)
        exact ⟨c :: front, back, rfl, by rw [utf8_cons, none, here, List.append_nil], rfl⟩
      | cons b l =>
        obtain ⟨rfl, rest⟩ := List.cons.inj later
        have member : UInt8.ofNat q.toNat ∈ String.utf8EncodeChar c :=
          here ▸ List.mem_append_right xs List.mem_cons_self
        have isAscii : Ascii c := by
          apply Classical.byContradiction
          intro large
          have high := encode_large large _ member
          unfold Ascii at ascii
          rw [UInt8.toNat_ofNat'] at high
          omega
        rw [encode_ascii isAscii] at here member
        obtain rfl := ofNat_ascii_inj ascii isAscii (List.mem_singleton.mp member)
        obtain ⟨rfl, rfl⟩ : xs = [] ∧ l = [] := by
          have length := congrArg List.length here
          simp only [List.length_append, List.length_cons, List.length_nil] at length
          exact ⟨List.length_eq_zero_iff.mp (by omega), List.length_eq_zero_iff.mp (by omega)⟩
        exact ⟨[], text, rfl, rfl, rest.symm⟩

end Es3Recomp.Library
