import Es3Recomp.Source.Passport

/-!
# What the state document is, and that it fits

The document is an opening, the path as it is, and the blocks. `body` has room for the longest of
them, and holds the document and its terminator when it is sent.
-/
namespace Es3Recomp.Model.Passport
open Library Library.Traced Source.CardReader Source.Passport

/-! ## Characters of the document -/

/-- What the document is made of, besides the path. -/
def Shown (c : Char) : Prop := 0x20 ≤ c.toNat ∧ c.toNat < 0x7F

instance (c : Char) : Decidable (Shown c) := inferInstanceAs (Decidable (_ ∧ _))

theorem shown_of_all {text : List Char} (all : text.all (fun c => Shown c) = true) :
    ∀ c ∈ text, Shown c := List.all_iff_forall_prop.mp all

theorem mem_hexText {bytes : List UInt8} {c : Char} (member : c ∈ hexText bytes) :
    ∃ d < 16, c = hexDigit d := by
  obtain ⟨b, -, two⟩ := List.mem_flatMap.mp member
  have low := b.toNat_lt
  simp only [hex02, List.mem_cons, List.not_mem_nil, or_false] at two
  rcases two with high | low
  · exact ⟨b.toNat / 16, by omega, high⟩
  · exact ⟨b.toNat % 16, by omega, low⟩

theorem shown_hexText (bytes : List UInt8) : ∀ c ∈ hexText bytes, Shown c := by
  have all : ∀ d < 16, Shown (hexDigit d) := by decide
  intro c member
  obtain ⟨d, digit, rfl⟩ := mem_hexText member
  exact all d digit

theorem shown_digit {c : Char} (digit : c.isDigit = true) : Shown c := by
  rw [Char.isDigit, Bool.and_eq_true, decide_eq_true_eq, decide_eq_true_eq] at digit
  have low := UInt32.le_iff_toNat_le.mp digit.1
  have high := UInt32.le_iff_toNat_le.mp digit.2
  exact ⟨Nat.le_trans (by decide) low, Nat.lt_of_le_of_lt high (by decide)⟩

theorem shown_toDigits (n : Nat) : ∀ c ∈ Nat.toDigits 10 n, Shown c :=
  fun _ member => shown_digit (Nat.isDigit_of_mem_toDigits (by decide) (by decide) member)

theorem shown_decimal (i : Int) : ∀ c ∈ Json.decimal i, Shown c := by
  unfold Json.decimal
  split
  · exact List.forall_mem_cons.mpr ⟨by decide, shown_toDigits _⟩
  · exact shown_toDigits _

theorem shown_opening (s : CardState) : ∀ c ∈ opening s, Shown c := by
  have flag : ∀ c ∈ (if s.present then "true".toList else "false".toList), Shown c := by
    cases s.present <;> exact shown_of_all (by decide +kernel)
  unfold opening
  simp only [List.forall_mem_append]
  exact ⟨shown_of_all (by decide +kernel), shown_hexText _, shown_of_all (by decide +kernel), flag,
    shown_of_all (by decide +kernel), shown_decimal _, shown_of_all (by decide +kernel),
    shown_decimal _, shown_of_all (by decide +kernel)⟩

/-! ## Lengths -/

theorem length_utf8 {text : List Char} (shown : ∀ c ∈ text, Shown c) :
    (utf8 text).length = text.length := by
  induction text with
  | nil => rfl
  | cons c text ih =>
    obtain ⟨here, later⟩ := List.forall_mem_cons.mp shown
    have ascii : Ascii c := Nat.lt_succ_of_lt here.2
    rw [utf8_cons, encode_ascii ascii, List.length_append, ih later, List.length_cons]
    exact Nat.add_comm 1 _

theorem length_hexText (bytes : List UInt8) : (hexText bytes).length = 2 * bytes.length := by
  induction bytes with
  | nil => rfl
  | cons b bytes ih =>
    rw [hexText, List.flatMap_cons, List.length_append, ← hexText, ih, List.length_cons]
    simp only [hex02, List.length_cons, List.length_nil]
    omega

theorem length_decimal_le (i : Int32) : (Json.decimal i.toInt).length ≤ 11 := by
  have low := i.le_toInt
  have high := i.toInt_lt
  have digits : (Nat.toDigits 10 i.toInt.natAbs).length ≤ 10 :=
    (Nat.length_toDigits_le_iff (by decide) (by decide)).mpr (by omega)
  unfold Json.decimal
  split
  · exact Nat.succ_le_succ digits
  · exact Nat.le_succ_of_le digits

theorem length_opening_le (s : CardState) : (opening s).length ≤ 83 := by
  have reads := length_decimal_le s.reads
  have writes := length_decimal_le s.writes
  have uid := s.uid.property
  have flag : (if s.present then "true".toList else "false".toList).length ≤ 5 := by
    cases s.present <;> decide +kernel
  unfold opening
  simp only [List.length_append, length_hexText, uid]
  have texts : "\x7b\"uid\":\"".toList.length = 8 ∧ "\",\"present\":".toList.length = 12 ∧
      ",\"reads\":".toList.length = 9 ∧ ",\"writes\":".toList.length = 10 ∧
      ",\"file\":\"".toList.length = 9 := by decide +kernel
  omega

/-! ## The body -/

/-- The text and its terminator are at the front. -/
def Holds (body : Memory) (text : List UInt8) : Prop :=
  load body ⟨0, text.length + 1⟩ = text ++ [0]

theorem Holds.front {body : Memory} {text : List UInt8} (holds : Holds body text) :
    load body ⟨0, text.length⟩ = text := by
  have all := congrArg (List.take text.length) holds
  rwa [take_load _ _ (Nat.le_succ _), List.take_left] at all

theorem holds_store {body : Memory} {text : List UInt8}
    (front : load body ⟨0, text.length⟩ = text) (added : List UInt8) :
    Holds (store body text.length (added ++ [0])) (text ++ added) := by
  have before : load (store body text.length (added ++ [0])) ⟨0, text.length⟩ = text :=
    (load_store_clear body (Or.inr (Nat.le_of_eq (Nat.zero_add _)))).trans front
  have behind : load (store body text.length (added ++ [0])) ⟨text.length, added.length + 1⟩ =
      added ++ [0] := by
    rw [load_store_take _ _ _ _ (by simp), List.take_of_length_le (by simp)]
  rw [Holds, List.length_append, Nat.add_assoc, load_append, before, Nat.zero_add, behind,
    List.append_assoc]

def InBody (n : Nat) (w : Nat × List UInt8) : Prop := w.1 + w.2.length ≤ n

/-- Where the body holds `text`, the program puts `added` after it, inside of `n` bytes. -/
structure Prints (n : Nat) (text added : List UInt8) (x : Print Nat) (k : Nat) : Prop where
  outcome : x.outcome = .ok k
  inside : x.Keeps (InBody n)
  holds : ∀ body, Holds body text → Holds (storeAll body x.events) (text ++ added)

theorem sprintf_fits {n used : Nat} {added : List UInt8} (fits : used + added.length < n) :
    sprintf_s n used added = find (used, added ++ [0]) added.length := if_pos fits

theorem inBody_find {n used : Nat} {added : List UInt8} (fits : used + added.length < n) :
    (find (used, added ++ [0]) added.length : Print Nat).Keeps (InBody n) := by
  rw [keeps_find, InBody, List.length_append, List.length_singleton]
  exact fits

theorem prints_sprintf {n : Nat} {text added : List UInt8}
    (fits : text.length + added.length < n) :
    Prints n text added (sprintf_s n text.length added) added.length := by
  rw [sprintf_fits fits]
  exact ⟨rfl, inBody_find fits, fun body holds => holds_store holds.front added⟩

/-- One program after another. -/
theorem Prints.bind {n : Nat} {text added more : List UInt8} {x : Print Nat} {k m : Nat}
    {f : Nat → Print Nat} (first : Prints n text added x k)
    (second : Prints n (text ++ added) more (f k) m) :
    Prints n text (added ++ more) (x >>= f) m := by
  refine ⟨?_, (keeps_bind _ _).mpr ⟨first.inside, fun a found => ?_⟩, fun body holds => ?_⟩
  · rw [bind_of_ok first.outcome]
    exact second.outcome
  · cases first.outcome.symm.trans found
    exact second.inside
  · rw [bind_of_ok first.outcome, storeAll_append, ← List.append_assoc]
    exact second.holds _ (first.holds body holds)

theorem length_hex02 (b : UInt8) : (utf8 (hex02 b)).length = 2 := by
  have shown := shown_hexText [b]
  rw [hexText, List.flatMap_singleton] at shown
  rw [length_utf8 shown]
  rfl

/-- The loop over the image, by induction on it. -/
theorem prints_blocks {n : Nat} {text : List UInt8} {image : List UInt8}
    (fits : text.length + 2 * image.length < n) :
    Prints n text (utf8 (hexText image)) (print_blocks n image text.length)
      (text.length + 2 * image.length) := by
  induction image generalizing text with
  | nil => exact ⟨rfl, keeps_pure _, fun body holds => (List.append_nil text).symm ▸ holds⟩
  | cons b image ih =>
    rw [List.length_cons] at fits
    have two := length_hex02 b
    have here := prints_sprintf (show text.length + (utf8 (hex02 b)).length < n by omega)
    have used : text.length + (utf8 (hex02 b)).length = (text ++ utf8 (hex02 b)).length :=
      List.length_append.symm
    have later := ih (show (text ++ utf8 (hex02 b)).length + 2 * image.length < n by
      rw [List.length_append]
      omega)
    have split : utf8 (hexText (b :: image)) = utf8 (hex02 b) ++ utf8 (hexText image) :=
      utf8_append _ _
    have total : text.length + 2 * (b :: image).length =
        (text ++ utf8 (hex02 b)).length + 2 * image.length := by
      rw [List.length_append, List.length_cons]
      omega
    rw [split, total]
    exact here.bind (used ▸ later)

/-! ## The document -/

/-- The bytes that the writes of `state_json` come to. -/
def document (s : CardState) (path : CardPath) : List UInt8 :=
  utf8 (opening s) ++ (path.bytes ++ utf8 beforeBlocks) ++
    (utf8 (hexText s.image.val) ++ utf8 closing)

theorem length_document_lt (s : CardState) (path : CardPath) :
    (document s path).length < BODY_BYTES := by
  have opened := length_opening_le s
  have short : path.bytes.length < 260 := path.short
  have blocks : (utf8 (hexText s.image.val)).length = 2048 := by
    rw [length_utf8 (shown_hexText _), length_hexText, s.image.property]
    rfl
  have texts : (utf8 beforeBlocks).length = 12 ∧ (utf8 closing).length = 2 := by decide +kernel
  have room : BODY_BYTES = 2560 := rfl
  rw [document, List.length_append, List.length_append, List.length_append, List.length_append,
    length_utf8 (shown_opening s), blocks, texts.1, texts.2, room]
  omega

/-- The blocks and the closing, after the first `sprintf_s`. -/
theorem prints_rest {n : Nat} {front image : List UInt8}
    (fits : front.length + 2 * image.length + (utf8 closing).length < n) :
    Prints n front (utf8 (hexText image) ++ utf8 closing)
      (print_blocks n image front.length >>= fun used => sprintf_s n used (utf8 closing))
      (utf8 closing).length := by
  have used : front.length + 2 * image.length = (front ++ utf8 (hexText image)).length := by
    rw [List.length_append, length_utf8 (shown_hexText image), length_hexText]
  have last := prints_sprintf (used ▸ fits)
  exact (prints_blocks (Nat.lt_of_le_of_lt (Nat.le_add_right _ _) fits)).bind (used ▸ last)

/-- Whatever `body` held before, it holds the document, and no write leaves it. -/
theorem state_json_spec (s : CardState) (path : CardPath) :
    (∃ k, (state_json BODY_BYTES s path).outcome = .ok k) ∧
      (state_json BODY_BYTES s path).Keeps (InBody BODY_BYTES) ∧
      ∀ body, Holds (storeAll body (state_json BODY_BYTES s path).events) (document s path) := by
  have room := length_document_lt s path
  unfold document at room ⊢
  unfold state_json
  generalize utf8 (opening s) ++ (path.bytes ++ utf8 beforeBlocks) = front at room ⊢
  rw [List.length_append, List.length_append, length_utf8 (shown_hexText s.image.val),
    length_hexText, ← Nat.add_assoc] at room
  have first : 0 + front.length < BODY_BYTES := by omega
  obtain ⟨outcome, inside, holds⟩ := prints_rest room
  rw [sprintf_fits first, bind_of_ok rfl]
  refine ⟨⟨_, outcome⟩, List.forall_mem_append.mpr ⟨inBody_find first, inside⟩, fun body => ?_⟩
  have empty : load body ⟨0, ([] : List UInt8).length⟩ = [] := rfl
  rw [storeAll_append]
  exact holds _ (holds_store empty front)

theorem shown_ne_zero {text : List Char} (shown : ∀ c ∈ text, Shown c) :
    ∀ b ∈ utf8 text, b ≠ 0 := by
  intro b member
  obtain ⟨c, there, encoded⟩ := List.mem_flatMap.mp member
  obtain ⟨low, high⟩ := shown c there
  rw [encode_ascii (Nat.lt_succ_of_lt high), List.mem_singleton] at encoded
  rintro rfl
  have zero := congrArg UInt8.toNat encoded
  rw [UInt8.toNat_ofNat', UInt8.toNat_zero] at zero
  omega

theorem document_ne_zero (s : CardState) (path : CardPath) :
    ∀ b ∈ document s path, b ≠ 0 := by
  have named : ∀ b ∈ path.bytes, b ≠ 0 := fun b member zero => path.whole (zero ▸ member)
  have opened := shown_ne_zero (shown_opening s)
  have blocks := shown_ne_zero (shown_hexText s.image.val)
  have texts : (∀ b ∈ utf8 beforeBlocks, b ≠ 0) ∧ ∀ b ∈ utf8 closing, b ≠ 0 := by decide +kernel
  simp only [document, List.forall_mem_append]
  exact ⟨⟨opened, named, texts.1⟩, blocks, texts.2⟩

/-- Where the terminator is in the buffer, `strlen` finds the text. -/
theorem Holds.string {body : Memory} {text : List UInt8} (holds : Holds body text)
    (solid : ∀ b ∈ text, b ≠ 0) {n : Nat} (room : text.length < n) :
    ((load body ⟨0, n⟩).takeWhile fun b => b ≠ 0) = text := by
  obtain ⟨m, rfl⟩ := Nat.exists_eq_add_of_le (Nat.succ_le_of_lt room)
  have decided : ∀ b ∈ text, decide (b ≠ 0) = true := fun b member =>
    decide_eq_true (solid b member)
  rw [load_append, holds, List.append_assoc, List.takeWhile_append_of_pos decided]
  simp

/-- `body` is sent whole. -/
theorem sent_eq (s : CardState) (path : CardPath) (body : Memory) :
    sent body (state_json BODY_BYTES s path) = some (document s path) := by
  obtain ⟨⟨k, outcome⟩, -, holds⟩ := state_json_spec s path
  unfold sent
  rw [outcome]
  exact congrArg some ((holds body).string (document_ne_zero s path) (length_document_lt s path))

end Es3Recomp.Model.Passport
