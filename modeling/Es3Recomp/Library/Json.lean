import Mathlib.Data.Bool.AllAny
import Mathlib.Data.List.TakeDrop

/-!
# JSON texts, and what they say

The grammar of JSON without extensions. A string is its UTF-16 units, as in the language JSON
comes from, so that an escape for half of a pair says that half; a number is a decimal, mantissa
and exponent of ten. The reader descends by fuel, and a text says a value if the reader finds it
with any fuel from some amount on.
-/
namespace Es3Recomp.Library.Json

inductive Value where
  | null
  | bool (b : Bool)
  | number (mantissa exponent : Int)
  | string (units : List UInt16)
  | array (items : List Value)
  | object (members : List (List UInt16 × Value))

/-! ## Strings -/

/-- A character past 0xFFFF is a pair of units. -/
def utf16Char (c : Char) : List UInt16 :=
  if c.toNat < 0x10000 then [UInt16.ofNat c.toNat]
  else [UInt16.ofNat (0xD800 + (c.toNat - 0x10000) / 0x400),
    UInt16.ofNat (0xDC00 + (c.toNat - 0x10000) % 0x400)]

def utf16 (text : List Char) : List UInt16 := text.flatMap utf16Char

def hexValue (c : Char) : Option Nat :=
  if '0' ≤ c ∧ c ≤ '9' then some (c.toNat - 48)
  else if 'a' ≤ c ∧ c ≤ 'f' then some (c.toNat - 87)
  else if 'A' ≤ c ∧ c ≤ 'F' then some (c.toNat - 55)
  else none

def unitOf (a b c d : Char) : Option UInt16 := do
  let a ← hexValue a
  let b ← hexValue b
  let c ← hexValue c
  let d ← hexValue d
  some (UInt16.ofNat (((a * 16 + b) * 16 + c) * 16 + d))

/-- The escapes of one letter. -/
def escaped : Char → Option UInt16
  | '\x22' => some 0x22
  | '\x5c' => some 0x5C
  | '/' => some 0x2F
  | 'b' => some 8
  | 'f' => some 0xC
  | 'n' => some 0xA
  | 'r' => some 0xD
  | 't' => some 9
  | _ => none

/-- The rest of a string whose opening quote is read. -/
def stringBody : List Char → Option (List UInt16 × List Char)
  | [] => none
  | '\x22' :: rest => some ([], rest)
  | '\x5c' :: 'u' :: a :: b :: c :: d :: rest => do
    let unit ← unitOf a b c d
    let (units, rest) ← stringBody rest
    some (unit :: units, rest)
  | '\x5c' :: e :: rest => do
    let unit ← escaped e
    let (units, rest) ← stringBody rest
    some (unit :: units, rest)
  | c :: rest =>
    if c.toNat < 0x20 then none
    else do
      let (units, rest) ← stringBody rest
      some (utf16Char c ++ units, rest)

/-! ## Numbers -/

def wholePart (text : List Char) : Option (List Char × List Char) :=
  match text.span Char.isDigit with
  | ([], _) => none
  | ('0' :: _ :: _, _) => none
  | found => some found

def fraction : List Char → Option (List Char × List Char)
  | '.' :: rest =>
    match rest.span Char.isDigit with
    | ([], _) => none
    | found => some found
  | text => some ([], text)

def tenth : List Char → Option (Int × List Char)
  | '-' :: rest =>
    match rest.span Char.isDigit with
    | ([], _) => none
    | (ds, rest) => some (-(Nat.ofDigitChars 10 ds 0 : Int), rest)
  | text =>
    match (if text.head? = some '+' then text.tail else text).span Char.isDigit with
    | ([], _) => none
    | (ds, rest) => some ((Nat.ofDigitChars 10 ds 0 : Int), rest)

def exponent : List Char → Option (Int × List Char)
  | 'e' :: rest => tenth rest
  | 'E' :: rest => tenth rest
  | text => some (0, text)

def unsigned (text : List Char) : Option ((Nat × Int) × List Char) := do
  let (whole, rest) ← wholePart text
  let (frac, rest) ← fraction rest
  let (e, rest) ← exponent rest
  some ((Nat.ofDigitChars 10 (whole ++ frac) 0, e - frac.length), rest)

def number : List Char → Option (Value × List Char)
  | '-' :: rest => (unsigned rest).map fun r => (.number (-(r.1.1 : Int)) r.1.2, r.2)
  | text => (unsigned text).map fun r => (.number r.1.1 r.1.2, r.2)

/-! ## Values -/

def isSpace (c : Char) : Bool := c = ' ' || c = '\t' || c = '\n' || c = '\r'

def skip (text : List Char) : List Char := text.dropWhile isSpace

/-- What comes after the comma or the closing character of a list whose first item is read. -/
def more {α : Type} (close : Char) (item : α) (next : List Char → Option (List α × List Char))
    (text : List Char) : Option (List α × List Char) :=
  match skip text with
  | [] => none
  | c :: rest =>
    if c = close then some ([item], rest)
    else if c = ',' then (next rest).map fun r => (item :: r.1, r.2)
    else none

def colon (text : List Char) : Option (List Char) :=
  match skip text with
  | ':' :: rest => some rest
  | _ => none

mutual

def value : Nat → List Char → Option (Value × List Char)
  | 0, _ => none
  | fuel + 1, text =>
    match skip text with
    | '\x7b' :: rest =>
      match skip rest with
      | '\x7d' :: rest => some (.object [], rest)
      | rest => (members fuel rest).map fun r => (.object r.1, r.2)
    | '[' :: rest =>
      match skip rest with
      | ']' :: rest => some (.array [], rest)
      | rest => (items fuel rest).map fun r => (.array r.1, r.2)
    | '\x22' :: rest => (stringBody rest).map fun r => (.string r.1, r.2)
    | 'n' :: 'u' :: 'l' :: 'l' :: rest => some (.null, rest)
    | 't' :: 'r' :: 'u' :: 'e' :: rest => some (.bool true, rest)
    | 'f' :: 'a' :: 'l' :: 's' :: 'e' :: rest => some (.bool false, rest)
    | rest => number rest

def items : Nat → List Char → Option (List Value × List Char)
  | 0, _ => none
  | fuel + 1, text => do
    let (v, rest) ← value fuel text
    more ']' v (items fuel) rest

def members : Nat → List Char → Option (List (List UInt16 × Value) × List Char)
  | 0, _ => none
  | fuel + 1, text =>
    match skip text with
    | '\x22' :: rest => do
      let (key, rest) ← stringBody rest
      let rest ← colon rest
      let (v, rest) ← value fuel rest
      more '\x7d' (key, v) (members fuel) rest
    | _ => none

end

/-- The text is one value, with nothing but space around it. -/
def parse (fuel : Nat) (text : List Char) : Option Value := do
  let (v, rest) ← value fuel text
  if skip rest = [] then some v else none

def Says (text : List Char) (v : Value) : Prop :=
  ∃ enough, ∀ fuel, enough ≤ fuel → parse fuel text = some v

/-! ## What a string literal says -/

/-- The characters that may stand in a literal as they are. -/
def Plain (c : Char) : Prop := c ≠ '\x22' ∧ c ≠ '\x5c' ∧ 0x20 ≤ c.toNat

instance (c : Char) : Decidable (Plain c) := inferInstanceAs (Decidable (_ ∧ _))

-- deciding over a given text, not over all characters
theorem plain_of_all {text : List Char} (all : text.all (fun c => Plain c) = true) :
    ∀ c ∈ text, Plain c := List.all_iff_forall_prop.mp all

theorem utf16_append (s t : List Char) : utf16 (s ++ t) = utf16 s ++ utf16 t := List.flatMap_append

theorem utf16_cons (c : Char) (text : List Char) : utf16 (c :: text) = utf16Char c ++ utf16 text :=
  rfl

theorem length_utf16Char_pos (c : Char) : 0 < (utf16Char c).length := by
  unfold utf16Char
  split <;> exact Nat.succ_pos _

theorem stringBody_plain_cons {c : Char} (plain : Plain c) (rest : List Char) :
    stringBody (c :: rest) = (stringBody rest).map fun r => (utf16Char c ++ r.1, r.2) := by
  obtain ⟨notQuote, notBackslash, printable⟩ := plain
  rw [stringBody.eq_5 c rest notQuote (fun _ _ _ _ _ same => absurd same notBackslash)
    fun _ _ same => absurd same notBackslash, if_neg (Nat.not_lt.mpr printable)]
  cases stringBody rest <;> rfl

theorem stringBody_plain {name : List Char} (plain : ∀ c ∈ name, Plain c) (rest : List Char) :
    stringBody (name ++ '\x22' :: rest) = some (utf16 name, rest) := by
  induction name with
  | nil => rfl
  | cons c name ih =>
    obtain ⟨here, later⟩ := List.forall_mem_cons.mp plain
    rw [List.cons_append, stringBody_plain_cons here, ih later]
    rfl

theorem length_le_utf16 (text : List Char) : text.length ≤ (utf16 text).length := by
  induction text with
  | nil => exact Nat.le_refl 0
  | cons c text ih =>
    have positive := length_utf16Char_pos c
    rw [utf16_cons, List.length_append, List.length_cons]
    omega

/-- What a literal of the characters `raw` can say: at most as many units as it has, and as many
only where it has no escape. -/
def Literal (raw : List Char) (v : List UInt16) : Prop :=
  v.length ≤ (utf16 raw).length ∧ (v.length = (utf16 raw).length → ∀ c ∈ raw, Plain c)

theorem Literal.escape {raw : List Char} {v : List UInt16} (literal : Literal raw v)
    (front : List Char) (long : 2 ≤ front.length) (unit : UInt16) :
    Literal (front ++ raw) (unit :: v) := by
  have most := literal.1
  have units := length_le_utf16 front
  have fewer : (unit :: v).length < (utf16 (front ++ raw)).length := by
    rw [utf16_append, List.length_append, List.length_cons]
    omega
  exact ⟨Nat.le_of_lt fewer, fun same => absurd same (Nat.ne_of_lt fewer)⟩

theorem Literal.plain {raw : List Char} {v : List UInt16} (literal : Literal raw v) {c : Char}
    (plain : Plain c) : Literal (c :: raw) (utf16Char c ++ v) := by
  rw [Literal, utf16_cons, List.length_append, List.length_append, Nat.add_left_cancel_iff]
  refine ⟨Nat.add_le_add_left literal.1 _, fun same => List.forall_mem_cons.mpr ⟨plain, ?_⟩⟩
  exact literal.2 same

theorem stringBody_spec {text : List Char} {v : List UInt16} {rest : List Char}
    (read : stringBody text = some (v, rest)) :
    ∃ raw, text = raw ++ '\x22' :: rest ∧ Literal raw v := by
  fun_induction stringBody text generalizing v rest with
  | case1 => cases read
  | case2 rest' =>
    cases read
    exact ⟨[], rfl, Nat.le_refl 0, fun _ c none => absurd none List.not_mem_nil⟩
  | case3 a b c d rest' ih =>
    simp only [Option.bind_eq_bind, Option.bind_eq_some_iff, Option.some.injEq] at read
    obtain ⟨unit, -, ⟨units, rest⟩, found, ends⟩ := read
    obtain ⟨rfl, rfl⟩ := Prod.mk.inj ends
    obtain ⟨raw, rfl, literal⟩ := ih found
    have further := literal.escape ['\x5c', 'u', a, b, c, d] (Nat.le_add_left 2 4) unit
    exact ⟨_, rfl, further⟩
  | case4 e rest' _ ih =>
    simp only [Option.bind_eq_bind, Option.bind_eq_some_iff, Option.some.injEq] at read
    obtain ⟨unit, -, ⟨units, rest⟩, found, ends⟩ := read
    obtain ⟨rfl, rfl⟩ := Prod.mk.inj ends
    obtain ⟨raw, rfl, literal⟩ := ih found
    have further := literal.escape ['\x5c', e] (Nat.le_refl 2) unit
    exact ⟨_, rfl, further⟩
  | case5 => cases read
  | case6 c rest' notQuote _ notEscape printable ih =>
    simp only [Option.bind_eq_bind, Option.bind_eq_some_iff, Option.some.injEq] at read
    obtain ⟨⟨units, rest⟩, found, ends⟩ := read
    obtain ⟨rfl, rfl⟩ := Prod.mk.inj ends
    have plain : Plain c := by
      refine ⟨notQuote, fun backslash => ?_, Nat.not_lt.mp printable⟩
      cases rest' with
      | nil => cases found
      | cons e rest' => exact notEscape e rest' backslash rfl
    obtain ⟨raw, rfl, literal⟩ := ih found
    exact ⟨c :: raw, rfl, literal.plain plain⟩

/-- A literal spliced around `name` says `name` only if that is plain, or if it ends further on. -/
theorem stringBody_own {name tail rest : List Char}
    (read : stringBody (name ++ '\x22' :: tail) = some (utf16 name, rest)) :
    (∀ c ∈ name, Plain c) ∨ ∃ raw, tail = raw ++ '\x22' :: rest := by
  obtain ⟨raw, same, literal⟩ := stringBody_spec read
  rcases List.append_eq_append_iff.mp same with ⟨l, rfl, later⟩ | ⟨l, rfl, later⟩
  · cases l with
    | nil =>
      rw [List.append_nil] at literal
      exact Or.inl (literal.2 rfl)
    | cons q l => exact Or.inr ⟨l, (List.cons.inj later).2⟩
  · cases l with
    | nil =>
      rw [List.append_nil] at literal ⊢
      exact Or.inl (literal.2 rfl)
    | cons q l =>
      have most := literal.1
      have units := length_le_utf16 (q :: l)
      rw [utf16_append, List.length_append] at most
      rw [List.length_cons] at units
      omega

/-! ## Reading one thing after another -/

theorem skip_solid {c : Char} (solid : isSpace c = false) (rest : List Char) :
    skip (c :: rest) = c :: rest := by
  simp [skip, solid]

/-- A string with what comes after it, where it needs no escape. -/
def quoted (text rest : List Char) : List Char := '\x22' :: (text ++ '\x22' :: rest)

/-- The name of a member, with what comes after the colon. -/
def member (name text : List Char) : List Char := quoted name (':' :: text)

theorem value_string (fuel : Nat) (text : List Char) :
    value (fuel + 1) ('\x22' :: text) = (stringBody text).map fun r => (.string r.1, r.2) := rfl

theorem value_quoted {text : List Char} (plain : ∀ c ∈ text, Plain c) (fuel : Nat)
    (rest : List Char) :
    value (fuel + 1) (quoted text rest) = some (.string (utf16 text), rest) := by
  rw [quoted, value_string, stringBody_plain plain]
  rfl

theorem value_true (fuel : Nat) (rest : List Char) :
    value (fuel + 1) ("true".toList ++ rest) = some (.bool true, rest) := rfl

theorem value_false (fuel : Nat) (rest : List Char) :
    value (fuel + 1) ("false".toList ++ rest) = some (.bool false, rest) := rfl

theorem value_object (fuel : Nat) (name text : List Char) :
    value (fuel + 1) ('\x7b' :: member name text) =
      (members fuel (member name text)).map fun r => (.object r.1, r.2) := rfl

theorem more_comma {α : Type} (close : Char) (item : α) (notClose : ',' ≠ close)
    (next : List Char → Option (List α × List Char)) (rest : List Char) :
    more close item next (',' :: rest) = (next rest).map fun r => (item :: r.1, r.2) := by
  rw [more, skip_solid rfl]
  simp only [notClose, if_false, if_true]

theorem more_close {α : Type} (close : Char) (solid : isSpace close = false) (item : α)
    (next : List Char → Option (List α × List Char)) (rest : List Char) :
    more close item next (close :: rest) = some ([item], rest) := by
  rw [more, skip_solid solid]
  simp only [if_true]

theorem members_name {name : List Char} (plain : ∀ c ∈ name, Plain c) (fuel : Nat)
    (text : List Char) :
    members (fuel + 1) (member name text) =
      (value fuel text).bind fun r => more '\x7d' (utf16 name, r.1) (members fuel) r.2 := by
  rw [members, member, quoted, skip_solid rfl]
  simp only [stringBody_plain plain, Option.bind_eq_bind, Option.bind_some]
  rfl

theorem members_comma {name : List Char} (plain : ∀ c ∈ name, Plain c) {fuel : Nat}
    {text rest : List Char} {v : Value} (read : value fuel text = some (v, ',' :: rest)) :
    members (fuel + 1) (member name text) =
      (members fuel rest).map fun r => ((utf16 name, v) :: r.1, r.2) := by
  rw [members_name plain, read]
  exact more_comma '\x7d' (utf16 name, v) (by decide) (members fuel) rest

theorem members_close {name : List Char} (plain : ∀ c ∈ name, Plain c) {fuel : Nat}
    {text rest : List Char} {v : Value} (read : value fuel text = some (v, '\x7d' :: rest)) :
    members (fuel + 1) (member name text) =
      some ([(utf16 name, v)], rest) := by
  rw [members_name plain, read]
  exact more_close '\x7d' rfl (utf16 name, v) (members fuel) rest

/-- Where two items are read, a comma came after the first. -/
theorem more_two {α : Type} {close : Char} {item a b : α}
    {next : List Char → Option (List α × List Char)} {text rest : List Char} {l : List α}
    (read : more close item next text = some (a :: b :: l, rest)) :
    a = item ∧ ',' ∈ text := by
  unfold more at read
  split at read
  next => cases read
  next c rest' there =>
    split at read
    next => cases read
    next =>
      split at read
      next comma =>
        obtain ⟨r, -, same⟩ := Option.map_eq_some_iff.mp read
        have member : c ∈ skip text := there ▸ List.mem_cons_self
        refine ⟨(List.cons.inj (Prod.mk.inj same).1).1.symm, ?_⟩
        exact comma ▸ (List.dropWhile_sublist isSpace).mem member
      next => cases read

/-! ## Numbers -/

def decimal (i : Int) : List Char :=
  if i < 0 then '-' :: Nat.toDigits 10 i.natAbs else Nat.toDigits 10 i.natAbs

theorem toDigits_head {n : Nat} (positive : 0 < n) :
    ∃ c cs, Nat.toDigits 10 n = c :: cs ∧ c ≠ '0' := by
  induction n using Nat.strongRecOn with
  | _ n ih =>
    by_cases one : n < 10
    · refine ⟨n.digitChar, [], Nat.toDigits_of_lt_base one, ?_⟩
      have all : ∀ d < 10, 0 < d → d.digitChar ≠ '0' := by decide
      exact all n one positive
    · obtain ⟨c, cs, front, notZero⟩ := ih (n / 10) (by omega) (by omega)
      refine ⟨c, cs ++ [(n % 10).digitChar], ?_, notZero⟩
      rw [Nat.toDigits_of_base_le (by decide) (Nat.not_lt.mp one), front, List.cons_append]

theorem span_toDigits (n : Nat) {c : Char} (stop : c.isDigit = false) (rest : List Char) :
    (Nat.toDigits 10 n ++ c :: rest).span Char.isDigit = (Nat.toDigits 10 n, c :: rest) := by
  have digits : ∀ d ∈ Nat.toDigits 10 n, d.isDigit = true :=
    fun d member => Nat.isDigit_of_mem_toDigits (by decide) (by decide) member
  rw [List.span_eq_takeWhile_dropWhile, List.takeWhile_append_of_pos digits,
    List.dropWhile_append_of_pos digits, List.takeWhile_cons_of_neg (by simp [stop]),
    List.dropWhile_cons_of_neg (by simp [stop]), List.append_nil]

theorem wholePart_toDigits (n : Nat) {c : Char} (stop : c.isDigit = false) (rest : List Char) :
    wholePart (Nat.toDigits 10 n ++ c :: rest) = some (Nat.toDigits 10 n, c :: rest) := by
  rw [wholePart, span_toDigits n stop]
  rcases Nat.eq_zero_or_pos n with rfl | positive
  · rfl
  · obtain ⟨d, ds, front, notZero⟩ := toDigits_head positive
    rw [front]
    split
    next none => exact nomatch none
    next leading =>
      cases leading
      exact absurd rfl notZero
    next => rfl

theorem unsigned_toDigits (n : Nat) (rest : List Char) :
    unsigned (Nat.toDigits 10 n ++ ',' :: rest) = some ((n, 0), ',' :: rest) := by
  have fracless : fraction (',' :: rest) = some ([], ',' :: rest) := rfl
  have expless : exponent (',' :: rest) = some (0, ',' :: rest) := rfl
  simp only [unsigned, wholePart_toDigits n (show Char.isDigit ',' = false from rfl), fracless,
    expless, Option.bind_eq_bind, Option.bind_some, List.append_nil, Nat.ofDigitChars_ten_toDigits]
  rfl

/-- What begins with a digit or a sign is read as a number. -/
theorem value_number {c : Char} (starts : c = '-' ∨ c.isDigit = true) (fuel : Nat)
    (rest : List Char) : value (fuel + 1) (c :: rest) = number (c :: rest) := by
  have solid : isSpace c = false := by
    cases spaced : isSpace c with
    | false => rfl
    | true =>
      simp only [isSpace, Bool.or_eq_true, decide_eq_true_eq] at spaced
      rcases spaced with ((rfl | rfl) | rfl) | rfl <;> exact absurd starts (by decide)
  rw [value, skip_solid solid]
  split
  case h_7 => rfl
  all_goals
    next same =>
      cases same
      exact absurd starts (by decide)

theorem value_decimal (i : Int) (fuel : Nat) (rest : List Char) :
    value (fuel + 1) (decimal i ++ ',' :: rest) = some (.number i 0, ',' :: rest) := by
  by_cases negative : i < 0
  · have size : -(i.natAbs : Int) = i := by omega
    rw [decimal, if_pos negative, List.cons_append, value_number (Or.inl rfl), number,
      unsigned_toDigits, Option.map_some, size]
  · have size : (i.natAbs : Int) = i := by omega
    rw [decimal, if_neg negative]
    obtain ⟨c, cs, front⟩ := List.exists_cons_of_ne_nil (Nat.toDigits_ne_nil (n := i.natAbs) (b := 10))
    have digit : c.isDigit = true :=
      Nat.isDigit_of_mem_toDigits (by decide) (by decide) (front ▸ List.mem_cons_self)
    have unsign : number (Nat.toDigits 10 i.natAbs ++ ',' :: rest) =
        some (.number i 0, ',' :: rest) := by
      rw [number, unsigned_toDigits, Option.map_some, size]
      rintro _ same
      rw [front] at same
      cases same
      exact absurd digit (by decide)
    rw [front] at unsign ⊢
    exact (value_number (Or.inr digit) fuel _).trans unsign

end Es3Recomp.Library.Json
