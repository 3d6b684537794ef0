import Es3Recomp.Model.Passport

/-!
# When the state document says what the card is

`state_json` (src/src/runtime/passport.c:190-209) puts the path of the card file between quotes
as it is. The document fits its buffer for every path; it is JSON that says the state if and only
if nothing in the path needs an escape.
-/
namespace Es3Recomp.Guarantees.Passport
open Library Library.Traced Library.Json Source.CardReader Source.Passport Model.Passport

/-! ## What the page reads -/

/-- The members of the document as the page takes them, with the hex digits read. -/
structure PageState where
  uid : List UInt8
  present : Bool
  reads : Int
  writes : Int
  file : List UInt16
  blocks : List UInt8

def unhex : List UInt16 → Option (List UInt8)
  | [] => some []
  | a :: b :: rest => do
    let high ← hexValue (Char.ofNat a.toNat)
    let low ← hexValue (Char.ofNat b.toNat)
    let bytes ← unhex rest
    some (UInt8.ofNat (high * 16 + low) :: bytes)
  | _ => none

def names : List (List Char) :=
  ["uid".toList, "present".toList, "reads".toList, "writes".toList, "file".toList,
    "blocks".toList]

def pageState : Value → Option PageState
  | .object [(k1, .string uid), (k2, .bool present), (k3, .number reads 0),
      (k4, .number writes 0), (k5, .string file), (k6, .string blocks)] =>
    if [k1, k2, k3, k4, k5, k6] = names.map utf16 then do
      let uid ← unhex uid
      let blocks ← unhex blocks
      some ⟨uid, present, reads, writes, file, blocks⟩
    else none
  | _ => none

/-- The document is UTF-8 and JSON, and says exactly this state and this path. -/
def Faithful (s : CardState) (path : CardPath) (doc : List UInt8) : Prop :=
  ∃ text name v, utf8 text = doc ∧ utf8 name = path.bytes ∧ Says text v ∧
    pageState v = some ⟨s.uid.val, s.present, s.reads.toInt, s.writes.toInt, utf16 name,
      s.image.val⟩

/-- UTF-8 without a quote, a backslash and a control character. -/
def PlainPath (path : CardPath) : Prop :=
  ∃ name, utf8 name = path.bytes ∧ ∀ c ∈ name, Plain c

theorem unhex_hexText (bytes : List UInt8) : unhex (utf16 (hexText bytes)) = some bytes := by
  have digit : ∀ d < 16, utf16Char (hexDigit d) = [UInt16.ofNat (hexDigit d).toNat] ∧
      hexValue (Char.ofNat (UInt16.ofNat (hexDigit d).toNat).toNat) = some d := by decide
  induction bytes with
  | nil => rfl
  | cons b bytes ih =>
    have low := b.toNat_lt
    obtain ⟨unit, high⟩ := digit (b.toNat / 16) (by omega)
    obtain ⟨unit', rest⟩ := digit (b.toNat % 16) (by omega)
    have front : utf16 (hexText (b :: bytes)) =
        utf16Char (hexDigit (b.toNat / 16)) ++ (utf16Char (hexDigit (b.toNat % 16)) ++
          utf16 (hexText bytes)) := rfl
    have whole : b.toNat / 16 * 16 + b.toNat % 16 = b.toNat := Nat.div_add_mod' _ _
    rw [front, unit, unit']
    simp only [List.cons_append, List.nil_append, unhex, high, rest, ih, whole,
      UInt8.ofNat_toNat, Option.bind_eq_bind, Option.bind_some]

/-! ## What comes before the path -/

theorem plain_hexText (bytes : List UInt8) : ∀ c ∈ hexText bytes, Plain c := by
  have all : ∀ d < 16, Plain (hexDigit d) := by decide
  intro c member
  obtain ⟨d, digit, rfl⟩ := mem_hexText member
  exact all d digit

/-- The four members that stand before the path. -/
def front (s : CardState) : List (List UInt16 × Value) :=
  [(utf16 "uid".toList, .string (utf16 (hexText s.uid.val))),
    (utf16 "present".toList, .bool s.present),
    (utf16 "reads".toList, .number s.reads.toInt 0),
    (utf16 "writes".toList, .number s.writes.toInt 0)]

theorem opening_append (s : CardState) (rest : List Char) :
    opening s ++ rest = '\x7b' :: member "uid".toList (quoted (hexText s.uid.val) (',' ::
      member "present".toList ((if s.present then "true".toList else "false".toList) ++ ',' ::
        member "reads".toList (Json.decimal s.reads.toInt ++ ',' ::
          member "writes".toList (Json.decimal s.writes.toInt ++ ',' ::
            member "file".toList ('\x22' :: rest)))))) := by
  have uid : "\x7b\"uid\":\"".toList =
      '\x7b' :: '\x22' :: ("uid".toList ++ ['\x22', ':', '\x22']) := by decide +kernel
  have present : "\",\"present\":".toList =
      '\x22' :: ',' :: '\x22' :: ("present".toList ++ ['\x22', ':']) := by decide +kernel
  have reads : ",\"reads\":".toList = ',' :: '\x22' :: ("reads".toList ++ ['\x22', ':']) := by
    decide +kernel
  have writes : ",\"writes\":".toList = ',' :: '\x22' :: ("writes".toList ++ ['\x22', ':']) := by
    decide +kernel
  have file : ",\"file\":\"".toList =
      ',' :: '\x22' :: ("file".toList ++ ['\x22', ':', '\x22']) := by decide +kernel
  unfold opening
  rw [uid, present, reads, writes, file]
  simp only [member, quoted, List.append_assoc, List.cons_append, List.nil_append]

theorem value_flag (present : Bool) (fuel : Nat) (rest : List Char) :
    value (fuel + 1) ((if present then "true".toList else "false".toList) ++ rest) =
      some (.bool present, rest) := by
  cases present
  · exact value_false fuel rest
  · exact value_true fuel rest

/-- The opening reads as its four members, whatever comes after. -/
theorem value_opening (s : CardState) (fuel : Nat) (rest : List Char) :
    value (fuel + 8) (opening s ++ rest) =
      (members (fuel + 3) (member "file".toList ('\x22' :: rest))).map fun r =>
        (.object (front s ++ r.1), r.2) := by
  have uid : ∀ c ∈ "uid".toList, Plain c := plain_of_all (by decide +kernel)
  have present : ∀ c ∈ "present".toList, Plain c := plain_of_all (by decide +kernel)
  have reads : ∀ c ∈ "reads".toList, Plain c := plain_of_all (by decide +kernel)
  have writes : ∀ c ∈ "writes".toList, Plain c := plain_of_all (by decide +kernel)
  rw [opening_append, value_object,
    members_comma uid (value_quoted (plain_hexText s.uid.val) (fuel + 5) _),
    members_comma present (value_flag s.present (fuel + 4) _),
    members_comma reads (value_decimal s.reads.toInt (fuel + 3) _),
    members_comma writes (value_decimal s.writes.toInt (fuel + 2) _)]
  simp only [Option.map_map]
  rfl

/-! ## The path and the blocks -/

def blocksMember (s : CardState) : List Char :=
  member "blocks".toList (quoted (hexText s.image.val) ['\x7d'])

theorem ending_eq (s : CardState) :
    beforeBlocks ++ (hexText s.image.val ++ closing) = '\x22' :: ',' :: blocksMember s := by
  have texts : beforeBlocks = '\x22' :: ',' :: '\x22' :: ("blocks".toList ++ ['\x22', ':', '\x22']) ∧
      closing = ['\x22', '\x7d'] := by decide +kernel
  rw [texts.1, texts.2]
  simp only [blocksMember, member, quoted, List.append_assoc, List.cons_append, List.nil_append]

/-- After a plain path the two members that are left are read, and nothing is left over. -/
theorem members_plain (s : CardState) {name : List Char} (plain : ∀ c ∈ name, Plain c)
    (fuel : Nat) :
    members (fuel + 3) (member "file".toList (quoted name (',' :: blocksMember s))) =
      some ([(utf16 "file".toList, .string (utf16 name)),
        (utf16 "blocks".toList, .string (utf16 (hexText s.image.val)))], []) := by
  have file : ∀ c ∈ "file".toList, Plain c := plain_of_all (by decide +kernel)
  have key : ∀ c ∈ "blocks".toList, Plain c := plain_of_all (by decide +kernel)
  have blocks := members_close key (value_quoted (plain_hexText s.image.val) fuel ['\x7d'])
  rw [members_comma file (value_quoted plain (fuel + 1) _), blocksMember, blocks]
  rfl

theorem comma_notMem (s : CardState) : ',' ∉ blocksMember s := by
  have digits : ∀ d < 16, ',' ≠ hexDigit d := by decide
  have hex : ',' ∉ hexText s.image.val := by
    intro there
    obtain ⟨d, digit, same⟩ := mem_hexText there
    exact digits d digit same
  simp [blocksMember, member, quoted, hex]

/-- A path that is read back, with a member after it, is plain: a literal that goes on past the
path ends where no comma is left. -/
theorem plain_of_members (s : CardState) {name : List Char} {fuel : Nat}
    {k : List UInt16} {b : List UInt16 × Value} {rest : List Char}
    (read : members (fuel + 3) (member "file".toList (quoted name (',' :: blocksMember s))) =
      some ([(k, .string (utf16 name)), b], rest)) : ∀ c ∈ name, Plain c := by
  have key : ∀ c ∈ "file".toList, Plain c := plain_of_all (by decide +kernel)
  rw [members_name key, quoted, value_string] at read
  obtain ⟨⟨v, left⟩, found, next⟩ := Option.bind_eq_some_iff.mp read
  obtain ⟨⟨units, left'⟩, body, same⟩ := Option.map_eq_some_iff.mp found
  obtain ⟨rfl, rfl⟩ := Prod.mk.inj same
  obtain ⟨item, comma⟩ := more_two next
  obtain rfl : utf16 name = units := Value.string.inj (Prod.mk.inj item).2
  rcases stringBody_own body with plain | ⟨raw, further⟩
  · exact plain
  · cases raw with
    | nil => exact absurd (List.cons.inj further).1 (by decide)
    | cons c raw =>
      have behind : ',' ∈ raw ++ '\x22' :: left' :=
        List.mem_append_right raw (List.mem_cons_of_mem _ comma)
      exact absurd ((List.cons.inj further).2 ▸ behind) (comma_notMem s)

/-! ## The document -/

/-- The document of a path that is the UTF-8 of `name`. -/
def textOf (s : CardState) (name : List Char) : List Char :=
  opening s ++ (name ++ '\x22' :: ',' :: blocksMember s)

theorem utf8_textOf (s : CardState) (path : CardPath) {name : List Char}
    (same : utf8 name = path.bytes) : utf8 (textOf s name) = document s path := by
  rw [textOf, ← ending_eq, document, ← same]
  simp only [utf8_append, List.append_assoc]

/-- The document is UTF-8 only if the path is. -/
theorem textOf_of_utf8 (s : CardState) (path : CardPath) {text : List Char}
    (same : utf8 text = document s path) :
    ∃ name, utf8 name = path.bytes ∧ text = textOf s name := by
  have ascii : Ascii '\x22' := by decide
  obtain ⟨front, opened⟩ : ∃ front, opening s = front ++ ['\x22'] := by
    have file : ",\"file\":\"".toList = ",\"file\":".toList ++ ['\x22'] := by decide +kernel
    unfold opening
    rw [file]
    simp only [← List.append_assoc]
    exact ⟨_, rfl⟩
  have cut : document s path = utf8 front ++ UInt8.ofNat '\x22'.toNat ::
      (path.bytes ++ UInt8.ofNat '\x22'.toNat :: utf8 (',' :: blocksMember s)) := by
    have ending := congrArg utf8 (ending_eq s)
    rw [utf8_append, utf8_append, utf8_cons, encode_ascii ascii] at ending
    rw [document, opened, utf8_append, utf8_cons, encode_ascii ascii]
    simp only [List.append_assoc, List.cons_append, List.nil_append, utf8_nil] at ending ⊢
    rw [ending]
  rw [cut] at same
  obtain ⟨front', back, rfl, opens, behind⟩ := utf8_split ascii same
  obtain ⟨name, rest, rfl, named, closes⟩ := utf8_split ascii behind
  obtain rfl := utf8_inj.mp opens
  obtain rfl := utf8_inj.mp closes
  refine ⟨name, named, ?_⟩
  rw [textOf, opened]
  simp only [List.append_assoc, List.cons_append, List.nil_append]

theorem parse_textOf (s : CardState) (name : List Char) (fuel : Nat) :
    value (fuel + 8) (textOf s name) =
      (members (fuel + 3) (member "file".toList (quoted name (',' :: blocksMember s)))).map fun r =>
        (.object (front s ++ r.1), r.2) := value_opening s fuel _

/-- Six members are asked for, so two come after the opening. -/
theorem two_of_pageState {s : CardState} {ms : List (List UInt16 × Value)} {p : PageState}
    (read : pageState (.object (front s ++ ms)) = some p) :
    ∃ k b, ms = [(k, .string p.file), b] := by
  unfold pageState at read
  split at read
  next k1 uid k2 present k3 reads k4 writes k5 file k6 blocks whole =>
    split at read
    next =>
      simp only [Option.bind_eq_bind, Option.bind_eq_some_iff, Option.some.injEq] at read
      obtain ⟨-, -, -, -, rfl⟩ := read
      have split := Value.object.inj whole
      simp only [front, List.cons_append, List.nil_append, List.cons.injEq] at split
      exact ⟨k5, (k6, .string blocks), split.2.2.2.2⟩
    next => cases read
  next => cases read

theorem pageState_front (s : CardState) (name : List Char) :
    pageState (.object (front s ++ [(utf16 "file".toList, .string (utf16 name)),
      (utf16 "blocks".toList, .string (utf16 (hexText s.image.val)))])) =
      some ⟨s.uid.val, s.present, s.reads.toInt, s.writes.toInt, utf16 name, s.image.val⟩ := by
  have named : [utf16 "uid".toList, utf16 "present".toList, utf16 "reads".toList,
      utf16 "writes".toList, utf16 "file".toList, utf16 "blocks".toList] = names.map utf16 := rfl
  unfold pageState front
  simp only [List.cons_append, List.nil_append, if_pos named, unhex_hexText, Option.bind_eq_bind,
    Option.bind_some]

theorem faithful_iff (s : CardState) (path : CardPath) :
    Faithful s path (document s path) ↔ PlainPath path := by
  constructor
  · rintro ⟨text, name, v, same, named, ⟨enough, reads⟩, read⟩
    obtain ⟨name', named', rfl⟩ := textOf_of_utf8 s path same
    obtain rfl := utf8_inj.mp (named.trans named'.symm)
    refine ⟨name, named, ?_⟩
    have found := reads (enough + 8) (Nat.le_add_right _ _)
    rw [parse, parse_textOf] at found
    obtain ⟨⟨v', rest⟩, read', ends⟩ := Option.bind_eq_some_iff.mp found
    obtain ⟨⟨ms, rest'⟩, members, same'⟩ := Option.map_eq_some_iff.mp read'
    obtain ⟨rfl, rfl⟩ := Prod.mk.inj same'
    have whole := (Option.ite_none_right_eq_some.mp ends).2
    obtain rfl := Option.some.inj whole
    obtain ⟨k, b, rfl⟩ := two_of_pageState read
    exact plain_of_members s members
  · rintro ⟨name, named, plain⟩
    refine ⟨textOf s name, name, .object (front s ++ [(utf16 "file".toList, .string (utf16 name)),
      (utf16 "blocks".toList, .string (utf16 (hexText s.image.val)))]), utf8_textOf s path named,
      named, ⟨8, fun fuel enough => ?_⟩, ?_⟩
    · obtain ⟨fuel, rfl⟩ := Nat.exists_eq_add_of_le' enough
      rw [parse, parse_textOf, members_plain s plain]
      rfl
    · exact pageState_front s name

/-- No write leaves the buffer, and what is sent says the state and the path if and only if the
path is plain. -/
theorem state_document (s : CardState) (path : CardPath) (body : Memory) :
    (state_json BODY_BYTES s path).Keeps (InBody BODY_BYTES) ∧
      ((∃ doc, sent body (state_json BODY_BYTES s path) = some doc ∧ Faithful s path doc) ↔
        PlainPath path) := by
  refine ⟨(state_json_spec s path).2.1, ?_⟩
  rw [← faithful_iff s path, sent_eq]
  constructor
  · rintro ⟨doc, same, faithful⟩
    exact Option.some.inj same ▸ faithful
  · exact fun faithful => ⟨_, rfl, faithful⟩

def windowsPath : CardPath where
  bytes := utf8 "C:\\card.bin".toList
  whole := by decide +kernel
  short := by decide +kernel

def freshState : CardState := es3_card_state (Card.initial none) false

/-- The backslash begins an escape that JSON does not have. -/
theorem backslash_not_read :
    ¬∃ doc, sent (fun _ => 0) (state_json BODY_BYTES freshState windowsPath) = some doc ∧
      Faithful freshState windowsPath doc := by
  rintro ⟨doc, same, faithful⟩
  rw [sent_eq] at same
  obtain rfl := Option.some.inj same
  obtain ⟨name, named, plain⟩ := (faithful_iff freshState windowsPath).mp faithful
  obtain rfl := utf8_inj.mp named
  exact absurd (plain '\x5c' (by decide +kernel)) (by decide)

end Es3Recomp.Guarantees.Passport
