import Es3Recomp.Library.TextPattern
import Mathlib.Data.List.TakeWhile

/-!
# Decimal numbers in a text, as C reads them

`atoi` passes over white space and a sign and takes the digits behind them; what comes behind the
digits is not looked at. Microsoft's stops at the ends of `int`.
-/
namespace Es3Recomp.Library.Atoi

def isSpace (c : Char) : Bool := c = ' ' || ('\t' ≤ c && c ≤ '\r')

def sign : Text → Bool × Text
  | '-' :: s => (true, s)
  | '+' :: s => (false, s)
  | s => (false, s)

/-- The digits at the front. -/
def magnitude (s : Text) : Nat := Nat.ofDigitChars 10 (s.takeWhile Char.isDigit) 0

def INT_MAX : Int := 2147483647
def INT_MIN : Int := -2147483648

def atoi (s : Text) : Int :=
  let (negative, s) := sign (s.dropWhile isSpace)
  max INT_MIN (min INT_MAX (if negative then -(magnitude s : Int) else magnitude s))

theorem magnitude_append {c : Char} (stop : c.isDigit = false) (s rest : Text) :
    magnitude (s ++ c :: rest) = magnitude s := by
  rw [magnitude, magnitude]
  congr 1
  induction s with
  | nil => rw [List.nil_append, List.takeWhile_cons_of_neg (by simp [stop]), List.takeWhile_nil]
  | cons d s ih =>
    cases digit : d.isDigit with
    | true => simp [digit, ih]
    | false => simp [digit]

theorem sign_append {s : Text} (some_ : s ≠ []) (rest : Text) :
    sign (s ++ rest) = ((sign s).1, (sign s).2 ++ rest) := by
  obtain ⟨c, s, rfl⟩ := List.exists_cons_of_ne_nil some_
  by_cases minus : c = '-'
  · rw [minus]
    rfl
  · by_cases plus : c = '+'
    · rw [plus]
      rfl
    · simp [sign, minus, plus]

theorem dropWhile_append {s : Text} (solid : ∃ c ∈ s, isSpace c = false) (rest : Text) :
    (s ++ rest).dropWhile isSpace = s.dropWhile isSpace ++ rest := by
  induction s with
  | nil =>
    obtain ⟨c, member, -⟩ := solid
    cases member
  | cons d s ih =>
    cases space : isSpace d with
    | false => simp [space]
    | true =>
      obtain ⟨c, member, plain⟩ := solid
      have later : c ∈ s := by
        rcases List.mem_cons.mp member with rfl | later
        · rw [space] at plain
          cases plain
        · exact later
      simp only [List.cons_append, List.dropWhile_cons, space, if_true]
      exact ih ⟨c, later, plain⟩

theorem dropWhile_ne_nil {s : Text} (solid : ∃ c ∈ s, isSpace c = false) :
    s.dropWhile isSpace ≠ [] := by
  obtain ⟨c, member, plain⟩ := solid
  intro none
  have spaces := List.dropWhile_eq_nil_iff.mp none c member
  rw [plain] at spaces
  cases spaces

/-- A number is not changed by what comes behind a character that is none of its digits. -/
theorem atoi_append {s : Text} (solid : ∃ c ∈ s, isSpace c = false) {c : Char}
    (stop : c.isDigit = false) (rest : Text) : atoi (s ++ c :: rest) = atoi s := by
  simp only [atoi, dropWhile_append solid, sign_append (dropWhile_ne_nil solid),
    magnitude_append stop]

theorem isSpace_digit {d : Char} (digit : d.isDigit = true) : isSpace d = false := by
  have low : '0'.val ≤ d.val := by
    simp only [Char.isDigit, ge_iff_le, Bool.and_eq_true, decide_eq_true_eq] at digit
    exact digit.1
  rw [isSpace, Bool.or_eq_false_iff, Bool.and_eq_false_iff, decide_eq_false_iff_not,
    decide_eq_false_iff_not, decide_eq_false_iff_not]
  refine ⟨fun blank => ?_, .inr fun control => ?_⟩
  · rw [blank] at low
    exact absurd low (by decide)
  · exact absurd (UInt32.le_trans low control) (by decide)

/-- What was printed without a sign has none. -/
theorem sign_toDigits (n : Nat) (rest : Text) :
    sign (Nat.toDigits 10 n ++ rest) = (false, Nat.toDigits 10 n ++ rest) := by
  obtain ⟨d, ds, front⟩ := List.exists_cons_of_ne_nil (Nat.toDigits_ne_nil (n := n) (b := 10))
  have digit : d.isDigit = true :=
    Nat.isDigit_of_mem_toDigits (by decide) (by decide) (front ▸ List.mem_cons_self)
  have minus : d ≠ '-' := by
    rintro rfl
    cases digit
  have plus : d ≠ '+' := by
    rintro rfl
    cases digit
  rw [front, List.cons_append]
  simp [sign, minus, plus]

/-- What was printed is read back, also with a blank in front. -/
theorem atoi_toDigits {n : Nat} (small : n ≤ 2147483647) :
    atoi (' ' :: Nat.toDigits 10 n) = n := by
  have digits : ∀ d ∈ Nat.toDigits 10 n, d.isDigit = true :=
    fun d member => Nat.isDigit_of_mem_toDigits (by decide) (by decide) member
  have value : magnitude (Nat.toDigits 10 n) = n := by
    rw [magnitude, List.takeWhile_eq_self_iff.mpr digits, Nat.ofDigitChars_ten_toDigits]
  obtain ⟨d, ds, front⟩ := List.exists_cons_of_ne_nil (Nat.toDigits_ne_nil (n := n) (b := 10))
  have digit : d.isDigit = true := digits d (front ▸ List.mem_cons_self)
  have unsigned : sign (Nat.toDigits 10 n) = (false, Nat.toDigits 10 n) := by
    simpa using sign_toDigits n []
  have solid : isSpace d = false := isSpace_digit digit
  have skipped : (' ' :: Nat.toDigits 10 n).dropWhile isSpace = Nat.toDigits 10 n := by
    rw [front]
    simp [show isSpace ' ' = true from rfl, solid]
  simp only [atoi, skipped, unsigned, value, Bool.false_eq_true, if_false, INT_MAX, INT_MIN]
  omega

end Es3Recomp.Library.Atoi
