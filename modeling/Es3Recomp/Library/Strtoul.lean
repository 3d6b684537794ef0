import Es3Recomp.Library.Atoi
import Mathlib.Data.UInt

/-!
# Numbers as C reads them

`strtoul` is C's function of that name with an `unsigned long` of 32 bits: white space, a sign,
in base 16 `0x` if a digit follows, then as many digits as there are. What it gives for a
hexadecimal `Numeral` is its value, whatever stands behind it (`strtoul_numeral`), and it does
not look beyond a character that has no place in a number (`strtoul_append`).
-/
namespace Es3Recomp.Library.Strtoul
open Atoi (isSpace)

/-- The value of a digit in a base up to 36. -/
def digitVal (base : Nat) (c : Char) : Option Nat :=
  let v := if '0' ≤ c ∧ c ≤ '9' then c.toNat - 0x30
    else if 'A' ≤ c ∧ c ≤ 'Z' then c.toNat - 0x41 + 10
    else if 'a' ≤ c ∧ c ≤ 'z' then c.toNat - 0x61 + 10
    else base
  if v < base then some v else none

def isDigit (base : Nat) (c : Char) : Bool := (digitVal base c).isSome

abbrev isHex : Char → Bool := isDigit 16

def value (base : Nat) (digits : Text) : Nat :=
  digits.foldl (fun v c => base * v + (digitVal base c).getD 0) 0

def unsigned (s : Text) : Text := if s.head? = some '+' ∨ s.head? = some '-' then s.tail else s

/-- Without `0x`, which is one only before a digit. -/
def unbased (base : Nat) (s : Text) : Text :=
  if base = 16 ∧ s[0]? = some '0' ∧ (s[1]? = some 'x' ∨ s[1]? = some 'X') ∧ s[2]?.any isHex then
    s.drop 2
  else s

/-- From the first digit on. -/
def digits (base : Nat) (s : Text) : Text := unbased base (unsigned (s.dropWhile isSpace))

def number (base : Nat) (s : Text) : UInt32 :=
  let v := value base ((digits base s).takeWhile (isDigit base))
  if 2 ^ 32 ≤ v then 0xFFFFFFFF
  else if (s.dropWhile isSpace).head? = some '-' then 0 - UInt32.ofNat v
  else UInt32.ofNat v

/-- The number, and where it ends: at the start when there is none. -/
def strtoul (base : Nat) (s : Text) : UInt32 × Text :=
  if (digits base s).takeWhile (isDigit base) = [] then (0, s)
  else (number base s, (digits base s).dropWhile (isDigit base))

/-! ## Whether there is a number -/

/-- White space, a sign at most, and a digit. -/
def Starts (s : Text) : Prop :=
  ∃ blanks sign d rest, s = blanks ++ sign ++ d :: rest ∧ (∀ c ∈ blanks, isSpace c = true) ∧
    sign ∈ [[], ['+'], ['-']] ∧ isHex d = true

theorem zero_le_of_hex {c : Char} (hex : isHex c = true) : '0' ≤ c := by
  by_contra low
  have below : ∀ a : Char, '0' ≤ a → ¬ a ≤ c := fun a above le => low (Char.le_trans above le)
  have none : digitVal 16 c = none := by
    simp [digitVal, low, below 'A' (by decide), below 'a' (by decide)]
  rw [isHex, isDigit, none] at hex
  cases hex

theorem solid_of_hex {c : Char} (hex : isHex c = true) : isSpace c = false := by
  have above := zero_le_of_hex hex
  have apart : ∀ a : Char, ¬ '0' ≤ a → ¬ c ≤ a := fun a low le => low (Char.le_trans above le)
  have blank : c ≠ ' ' := fun same => absurd above (by rw [same]; decide)
  simp [isSpace, blank, apart '\r' (by decide)]

theorem plain_of_hex {c : Char} (hex : isHex c = true) :
    c ≠ '+' ∧ c ≠ '-' ∧ c ≠ 'x' ∧ c ≠ 'X' ∧ c ≠ '*' := by
  have others : ['+', '-', 'x', 'X', '*'].all (fun a => !isHex a) = true := by decide
  have apart : ∀ a ∈ ['+', '-', 'x', 'X', '*'], c ≠ a := by
    intro a member same
    have other := List.all_eq_true.mp others a member
    rw [← same, hex] at other
    cases other
  simpa only [List.mem_cons, List.not_mem_nil, or_false, forall_eq_or_imp, forall_eq] using apart

theorem unbased_head (s : Text) :
    (unbased 16 s).takeWhile isHex = [] ↔ s.takeWhile isHex = [] := by
  rw [unbased]
  split
  · rename_i based
    obtain ⟨-, zero, -, digit⟩ := based
    match s, zero, digit with
    | a :: b :: d :: rest, zero, digit =>
      cases zero
      have hex : isHex d = true := digit
      have zero_hex : isHex '0' = true := by decide
      simp [hex, zero_hex]
  · rfl

/-- A text that begins with a digit is its digits, whatever is behind them. -/
theorem unsigned_of_hex {d : Char} (hex : isHex d = true) (rest : Text) :
    (d :: rest).dropWhile isSpace = d :: rest ∧ unsigned (d :: rest) = d :: rest := by
  obtain ⟨plus, minus, _⟩ := plain_of_hex hex
  refine ⟨List.dropWhile_cons_of_neg (by rw [solid_of_hex hex]; decide), if_neg ?_⟩
  simp [plus, minus]

theorem unsigned_split (t : Text) : ∃ sign ∈ [[], ['+'], ['-']], t = sign ++ unsigned t := by
  rw [unsigned]
  split
  · rename_i signed
    cases t with
    | nil => simp at signed
    | cons a t =>
      refine ⟨[a], ?_, rfl⟩
      rcases signed with plus | minus
      · simp [Option.some.inj plus]
      · simp [Option.some.inj minus]
  · exact ⟨[], by simp, rfl⟩

theorem starts_iff (s : Text) : (digits 16 s).takeWhile isHex ≠ [] ↔ Starts s := by
  rw [Ne, digits, unbased_head]
  constructor
  · intro some_
    have blanks : ∀ c ∈ s.takeWhile isSpace, isSpace c = true := fun c member =>
      List.mem_takeWhile_imp member
    have split : s = s.takeWhile isSpace ++ s.dropWhile isSpace :=
      List.takeWhile_append_dropWhile.symm
    cases front : unsigned (s.dropWhile isSpace) with
    | nil => exact absurd (by rw [front]; rfl) some_
    | cons d rest =>
      have hex : isHex d = true := by
        by_contra other
        exact some_ (by rw [front, List.takeWhile_cons_of_neg other])
      obtain ⟨sign, sign_ok, parts⟩ := unsigned_split (s.dropWhile isSpace)
      rw [front] at parts
      exact ⟨s.takeWhile isSpace, sign, d, rest, by rw [List.append_assoc, ← parts, ← split],
        blanks, sign_ok, hex⟩
  · intro starts
    obtain ⟨blanks, sign, d, rest, rfl, blank, sign_ok, hex⟩ := starts
    obtain ⟨start, plain⟩ := unsigned_of_hex hex rest
    rw [List.append_assoc, List.dropWhile_append_of_pos blank]
    have front : unsigned ((sign ++ d :: rest).dropWhile isSpace) = d :: rest := by
      simp only [List.mem_cons, List.not_mem_nil, or_false] at sign_ok
      rcases sign_ok with rfl | rfl | rfl
      · rw [List.nil_append, start, plain]
      · rfl
      · rfl
    rw [front, List.takeWhile_cons_of_pos hex]
    exact List.cons_ne_nil _ _

theorem digits_suffix (s : Text) : digits 16 s <:+ s := by
  have unbased_suffix : ∀ t : Text, unbased 16 t <:+ t := by
    intro t
    rw [unbased]
    split
    · exact List.drop_suffix 2 t
    · exact List.suffix_refl t
  have unsigned_suffix : ∀ t : Text, unsigned t <:+ t := by
    intro t
    rw [unsigned]
    split
    · exact List.tail_suffix t
    · exact List.suffix_refl t
  exact (unbased_suffix _).trans ((unsigned_suffix _).trans (List.dropWhile_suffix isSpace))

/-- It ends where it starts just when there is no number. -/
theorem strtoul_start_iff (s : Text) : (strtoul 16 s).2 = s ↔ ¬ Starts s := by
  rw [← starts_iff, not_not, strtoul]
  split
  · rename_i none
    exact iff_of_true rfl none
  · rename_i some_
    refine iff_of_false (fun same => ?_) some_
    have split : (digits 16 s).takeWhile isHex ++ (digits 16 s).dropWhile isHex = digits 16 s :=
      List.takeWhile_append_dropWhile
    have whole := congrArg List.length split
    have taken : 0 < ((digits 16 s).takeWhile isHex).length := List.length_pos_iff.mpr some_
    have shorter := (digits_suffix s).length_le
    have end_ : (digits 16 s).dropWhile isHex = s := same
    rw [List.length_append, end_] at whole
    omega

/-! ## Beyond a character of no number -/

def Foreign (c : Char) : Prop :=
  isSpace c = false ∧ isHex c = false ∧ c ∉ ['+', '-', 'x', 'X']

instance (c : Char) : Decidable (Foreign c) := inferInstanceAs (Decidable (_ ∧ _ ∧ _))

theorem takeWhile_append_cons {p : Char → Bool} {c : Char} (off : p c = false) (s rest : Text) :
    (s ++ c :: rest).takeWhile p = s.takeWhile p := by
  induction s with
  | nil => exact List.takeWhile_cons_of_neg (by rw [off]; decide)
  | cons a s ih =>
    rw [List.cons_append, List.takeWhile_cons, List.takeWhile_cons, ih]

theorem dropWhile_append_cons {p : Char → Bool} {c : Char} (off : p c = false) (s rest : Text) :
    (s ++ c :: rest).dropWhile p = s.dropWhile p ++ c :: rest := by
  induction s with
  | nil => exact List.dropWhile_cons_of_neg (by rw [off]; decide)
  | cons a s ih =>
    rw [List.cons_append, List.dropWhile_cons, List.dropWhile_cons, ih]
    split <;> rfl

variable {c : Char}

theorem head_append (foreign : Foreign c) (s rest : Text) {a : Char} (sign : a ∈ ['+', '-']) :
    (s ++ c :: rest).head? = some a ↔ s.head? = some a := by
  cases s with
  | nil =>
    have apart : c ≠ a := by
      intro same
      exact foreign.2.2 (same ▸ List.mem_append_left ['x', 'X'] sign)
    simp [apart]
  | cons b s => rfl

theorem unsigned_append (foreign : Foreign c) (s rest : Text) :
    unsigned (s ++ c :: rest) = unsigned s ++ c :: rest := by
  have sign : (s ++ c :: rest).head? = some '+' ∨ (s ++ c :: rest).head? = some '-' ↔
      s.head? = some '+' ∨ s.head? = some '-' :=
    or_congr (head_append foreign s rest (by simp)) (head_append foreign s rest (by simp))
  simp only [unsigned, sign]
  split
  · rename_i signed
    cases s with
    | nil => simp at signed
    | cons a s => rfl
  · rfl

theorem unbased_append (foreign : Foreign c) (s rest : Text) :
    unbased 16 (s ++ c :: rest) = unbased 16 s ++ c :: rest := by
  obtain ⟨_, hex, others⟩ := foreign
  have zero : c ≠ '0' := fun same => absurd hex (by rw [same]; decide)
  simp only [List.mem_cons, List.not_mem_nil, or_false, not_or] at others
  match s with
  | [] => simp [unbased, zero]
  | [a] => simp [unbased, others]
  | [a, b] => simp [unbased, hex]
  | a :: b :: d :: s =>
    simp only [unbased, List.cons_append, List.getElem?_cons_zero, List.getElem?_cons_succ]
    split <;> rfl

theorem digits_append (foreign : Foreign c) (s rest : Text) :
    digits 16 (s ++ c :: rest) = digits 16 s ++ c :: rest := by
  rw [digits, dropWhile_append_cons foreign.1, unsigned_append foreign, unbased_append foreign]
  rfl

theorem strtoul_append (foreign : Foreign c) (s rest : Text) :
    strtoul 16 (s ++ c :: rest) = ((strtoul 16 s).1, (strtoul 16 s).2 ++ c :: rest) := by
  have same : number 16 (s ++ c :: rest) = number 16 s := by
    have minus : ((s ++ c :: rest).dropWhile isSpace).head? = some '-' ↔
        (s.dropWhile isSpace).head? = some '-' := by
      rw [dropWhile_append_cons foreign.1, head_append foreign _ rest (by simp)]
    simp only [number, digits_append foreign, takeWhile_append_cons foreign.2.1, minus]
  rw [strtoul, strtoul, digits_append foreign, takeWhile_append_cons foreign.2.1,
    dropWhile_append_cons foreign.2.1, same]
  split <;> rfl

/-! ## Numerals -/

/-- A number of 32 bits as one writes it. -/
structure Numeral where
  base : Text
  hexDigits : Text
  is_base : base ∈ [[], ['0', 'x'], ['0', 'X']]
  some_ : hexDigits ≠ []
  hex : ∀ c ∈ hexDigits, isHex c = true
  fits : value 16 hexDigits < 2 ^ 32

namespace Numeral

def text (n : Numeral) : Text := n.base ++ n.hexDigits

def toWord (n : Numeral) : UInt32 := UInt32.ofNat (value 16 n.hexDigits)

theorem digit_first (n : Numeral) : ∃ d more, n.hexDigits = d :: more ∧ isHex d = true := by
  obtain ⟨d, more, split⟩ := List.exists_cons_of_ne_nil n.some_
  exact ⟨d, more, split, n.hex d (split ▸ List.mem_cons_self)⟩

theorem text_first (n : Numeral) : ∃ d more, n.text = d :: more ∧ isHex d = true := by
  obtain ⟨d, more, split, hex⟩ := n.digit_first
  have base := n.is_base
  simp only [List.mem_cons, List.not_mem_nil, or_false] at base
  rcases base with none | lower | upper
  · exact ⟨d, more, by rw [text, none, split]; rfl, hex⟩
  · exact ⟨'0', 'x' :: n.hexDigits, by rw [text, lower]; rfl, by decide⟩
  · exact ⟨'0', 'X' :: n.hexDigits, by rw [text, upper]; rfl, by decide⟩

end Numeral

/-- What can stand behind a numeral. -/
def Ends (rest : Text) : Prop := ∀ c, rest.head? = some c → isHex c = false ∧ c ≠ 'x' ∧ c ≠ 'X'

theorem unbased_digits {n : Numeral} {rest : Text} (ends : Ends rest) :
    unbased 16 (n.hexDigits ++ rest) = n.hexDigits ++ rest := by
  refine if_neg fun based => ?_
  obtain ⟨-, -, mark, _⟩ := based
  have all := n.hex
  obtain ⟨d, more, split, _⟩ := n.digit_first
  rw [split] at mark all
  cases more with
  | nil =>
    have second : rest.head? = some 'x' ∨ rest.head? = some 'X' := by
      rw [List.head?_eq_getElem?]
      exact mark
    exact second.elim (fun x => (ends 'x' x).2.1 rfl) fun x => (ends 'X' x).2.2 rfl
  | cons e more =>
    have plain := plain_of_hex (all e (by simp))
    have second : e = 'x' ∨ e = 'X' := by simpa using mark
    exact second.elim plain.2.2.1 plain.2.2.2.1

theorem unbased_numeral (n : Numeral) {rest : Text} (ends : Ends rest) :
    unbased 16 (n.text ++ rest) = n.hexDigits ++ rest := by
  obtain ⟨d, more, split, hex⟩ := n.digit_first
  have base := n.is_base
  simp only [List.mem_cons, List.not_mem_nil, or_false] at base
  rcases base with none | lower | upper
  · rw [Numeral.text, none, List.nil_append, unbased_digits ends]
  · simp [Numeral.text, lower, split, unbased, hex]
  · simp [Numeral.text, upper, split, unbased, hex]

theorem digits_numeral (n : Numeral) {rest : Text} (ends : Ends rest) :
    digits 16 (n.text ++ rest) = n.hexDigits ++ rest := by
  rw [← unbased_numeral n ends, digits]
  obtain ⟨d, more, split, hex⟩ := n.text_first
  obtain ⟨start, plain⟩ := unsigned_of_hex hex (more ++ rest)
  rw [split, List.cons_append, start, plain]

/-- A numeral is read whole, and has its value. -/
theorem strtoul_numeral (n : Numeral) {rest : Text} (ends : Ends rest) :
    strtoul 16 (n.text ++ rest) = (n.toWord, rest) := by
  have stop : rest.takeWhile isHex = [] ∧ rest.dropWhile isHex = rest := by
    cases rest with
    | nil => exact ⟨rfl, rfl⟩
    | cons c rest =>
      have off : ¬ isHex c = true := by
        rw [(ends c rfl).1]
        decide
      exact ⟨List.takeWhile_cons_of_neg off, List.dropWhile_cons_of_neg off⟩
  have taken : (digits 16 (n.text ++ rest)).takeWhile isHex = n.hexDigits := by
    rw [digits_numeral n ends, List.takeWhile_append_of_pos n.hex, stop.1, List.append_nil]
  have left : (digits 16 (n.text ++ rest)).dropWhile isHex = rest := by
    rw [digits_numeral n ends, List.dropWhile_append_of_pos n.hex, stop.2]
  have minus : ((n.text ++ rest).dropWhile isSpace).head? ≠ some '-' := by
    obtain ⟨d, more, split, hex⟩ := n.text_first
    rw [split, List.cons_append, (unsigned_of_hex hex _).1]
    exact fun same => (plain_of_hex hex).2.1 (Option.some.inj same)
  rw [strtoul, taken, if_neg n.some_, left, number, taken]
  simp only [if_neg (Nat.not_le.mpr n.fits), if_neg minus, Numeral.toWord]

end Es3Recomp.Library.Strtoul
