import Es3Recomp.Library.Scan
import Es3Recomp.Library.Strtoul
import Mathlib.Data.List.Count

/-!
# String literals as C reads them

Before anything else a backslash at the end of a line goes, and the end of the line with it
(`splice`). Between its quotes a literal has characters and escapes, but not the end of a line;
literals that stand side by side are one string. Which characters end a line is up to the
compiler, and a parameter. A text that is put between two quotes as it is comes back as the C
string that it was just when it is `Plain` (`read_printed`, `plain_of_read`).
-/
namespace Es3Recomp.Library.CLiteral
open Strtoul (isDigit value)

/-! ## Escapes -/

/-- The digits of an escape that begins with this character. -/
def run (c : Char) (t : Text) : Text :=
  if isDigit 8 c then (t.take 2).takeWhile (isDigit 8)
  else if c = 'x' then t.takeWhile (isDigit 16)
  else if c = 'u' then (t.take 4).takeWhile (isDigit 16)
  else if c = 'U' then (t.take 8).takeWhile (isDigit 16)
  else []

def byte (n : Nat) : Option Char := if n < 0x100 then some (Char.ofNat n) else none

def simple : List (Char × Char) :=
  [('a', '\x07'), ('b', '\x08'), ('f', '\x0c'), ('n', '\n'), ('r', '\r'), ('t', '\t'), ('v', '\x0b')]

/-- What the escape stands for: one that C does not know, for the character itself. -/
def meaning (c : Char) (digits : Text) : Option Char :=
  if isDigit 8 c then byte (value 8 (c :: digits))
  else if c = 'x' then if digits = [] then none else byte (value 16 digits)
  else if c = 'u' then if digits.length = 4 then some (Char.ofNat (value 16 digits)) else none
  else if c = 'U' then if digits.length = 8 then some (Char.ofNat (value 16 digits)) else none
  else some ((simple.lookup c).getD c)

/-- What is behind a backslash: the character it stands for, and the rest. -/
def escape : Text → Option (Char × Text)
  | [] => none
  | c :: t => (meaning c (run c t)).map fun d => (d, t.drop (run c t).length)

theorem run_front (c : Char) (t : Text) : run c t <+: t := by
  have short (n : Nat) (p : Char → Bool) : (t.take n).takeWhile p <+: t :=
    (List.takeWhile_prefix p).trans (List.take_prefix n t)
  unfold run
  split
  · exact short 2 _
  · split
    · exact List.takeWhile_prefix _
    · split
      · exact short 4 _
      · split
        · exact short 8 _
        · exact List.nil_prefix

theorem run_digits {c : Char} {t : Text} {d : Char} (member : d ∈ run c t) :
    isDigit 8 d = true ∨ isDigit 16 d = true := by
  unfold run at member
  split at member
  · exact Or.inl (List.mem_takeWhile_imp member)
  · split at member
    · exact Or.inr (List.mem_takeWhile_imp member)
    · split at member
      · exact Or.inr (List.mem_takeWhile_imp member)
      · split at member
        · exact Or.inr (List.mem_takeWhile_imp member)
        · cases member

theorem not_mem_run {c a : Char} (octal : isDigit 8 a = false) (hex : isDigit 16 a = false)
    (t : Text) : a ∉ run c t := by
  intro member
  rcases run_digits member with digit | digit
  · rw [octal] at digit
    cases digit
  · rw [hex] at digit
    cases digit

theorem prefix_of_not_mem {u s rest : Text} {c : Char} (front : u <+: s ++ c :: rest)
    (off : c ∉ u) : u <+: s := by
  rcases List.prefix_or_prefix_of_prefix front (List.prefix_append s (c :: rest)) with h | h
  · exact h
  · obtain ⟨more, rfl⟩ := h
    cases more with
    | nil => rw [List.append_nil]
    | cons d more =>
      obtain ⟨tail, whole⟩ := front
      rw [List.append_assoc, List.append_cancel_left_eq, List.cons_append, List.cons.injEq] at whole
      exact absurd (List.mem_append_right s (whole.1 ▸ List.mem_cons_self)) off

/-- An escape that begins before a quote ends before it, and takes no comma without giving one. -/
theorem escape_before {s rest r : Text} {d : Char} (some_ : s ≠ [])
    (h : escape (s ++ '\x22' :: rest) = some (d, r)) :
    ∃ s', r = s' ++ '\x22' :: rest ∧ s'.length < s.length ∧
      s.count ',' ≤ (d :: s').count ',' := by
  obtain ⟨a, s, rfl⟩ := List.exists_cons_of_ne_nil some_
  rw [List.cons_append, escape] at h
  obtain ⟨d', means, same⟩ := Option.map_eq_some_iff.mp h
  cases same
  have front : run a (s ++ '\x22' :: rest) <+: s :=
    prefix_of_not_mem (run_front _ _) (not_mem_run (by decide) (by decide) _)
  have commaless : ',' ∉ run a (s ++ '\x22' :: rest) := not_mem_run (by decide) (by decide) _
  have comma : a = ',' → d = ',' := by
    rintro rfl
    exact (Option.some.inj means).symm
  generalize run a (s ++ '\x22' :: rest) = ds at front commaless
  obtain ⟨s', rfl⟩ := front
  refine ⟨s', ?_, ?_, ?_⟩
  · rw [List.append_assoc, List.drop_left]
  · rw [List.length_cons, List.length_append]
    omega
  · rw [List.count_cons, List.count_append, List.count_eq_zero_of_not_mem commaless,
      List.count_cons]
    by_cases here : a = ','
    · simp [here, comma here]
    · simp [here]

theorem escape_shorter {t r : Text} {d : Char} (h : escape t = some (d, r)) :
    r.length < t.length := by
  cases t with
  | nil => cases h
  | cons c t =>
    obtain ⟨_, -, same⟩ := Option.map_eq_some_iff.mp h
    cases same
    rw [List.length_drop, List.length_cons]
    omega

variable (lineEnd : Char → Bool)

/-! ## Literals -/

def isBlank (c : Char) : Bool := c = ' ' || c = '\t'

/-- The literals that stand side by side; the flag says whether one is open. -/
def literals : Scan (Bool × Text) Char where
  size s := s.2.length
  next
    | (_, []) => none
    | (true, c :: t) =>
      if c = '\x22' then some (none, false, t)
      else if c = '\x5c' then (escape t).map fun e => (some e.1, true, e.2)
      else if lineEnd c then none
      else some (some c, true, t)
    | (false, c :: t) =>
      if c = '\x22' then some (none, true, t)
      else if isBlank c then some (none, false, t)
      else none
  shorter := by
    rintro ⟨inside, t⟩ taken rest h
    cases t with
    | nil => cases inside <;> cases h
    | cons c t =>
      cases inside with
      | true =>
        simp only at h
        split at h
        · cases h
          exact Nat.lt_succ_self _
        · split at h
          · obtain ⟨e, read, same⟩ := Option.map_eq_some_iff.mp h
            cases same
            exact Nat.lt_succ_of_lt (escape_shorter read)
          · split at h
            · cases h
            · cases h
              exact Nat.lt_succ_self _
      | false =>
        simp only at h
        split at h
        · cases h
          exact Nat.lt_succ_self _
        · split at h
          · cases h
            exact Nat.lt_succ_self _
          · cases h

/-- The string that a text begins with, and what is behind it. -/
def read : Text → Option (Text × Text)
  | '\x22' :: t =>
    match (literals lineEnd).all (true, t) with
    | (v, false, rest) => some (v, rest)
    | (_, true, _) => none
  | _ => none

variable {lineEnd}

theorem literals_close (t : Text) :
    (literals lineEnd).all (true, '\x22' :: t) = (literals lineEnd).all (false, t) := by
  have next : (literals lineEnd).next (true, '\x22' :: t) = some (none, false, t) := rfl
  exact Scan.all_next _ next

theorem literals_open (t : Text) :
    (literals lineEnd).all (false, '\x22' :: t) = (literals lineEnd).all (true, t) := by
  have next : (literals lineEnd).next (false, '\x22' :: t) = some (none, true, t) := rfl
  exact Scan.all_next _ next

theorem literals_blank {c : Char} (blank : isBlank c = true) (t : Text) :
    (literals lineEnd).all (false, c :: t) = (literals lineEnd).all (false, t) := by
  have other : c ≠ '\x22' := fun same => by
    rw [same] at blank
    cases blank
  have next : (literals lineEnd).next (false, c :: t) = some (none, false, t) := by
    simp [literals, other, blank]
  exact Scan.all_next _ next

theorem literals_stop {c : Char} (other : c ≠ '\x22') (solid : isBlank c = false) (t : Text) :
    (literals lineEnd).all (false, c :: t) = ([], false, c :: t) :=
  Scan.all_stop _ (by simp [literals, other, solid])

theorem literals_escape {t r : Text} {d : Char} (h : escape t = some (d, r)) :
    (literals lineEnd).all (true, '\x5c' :: t) =
      (d :: ((literals lineEnd).all (true, r)).1, ((literals lineEnd).all (true, r)).2) := by
  have next : (literals lineEnd).next (true, '\x5c' :: t) = some (some d, true, r) := by
    simp [literals, h]
  exact Scan.all_next _ next

theorem literals_char {c : Char} (plain : c ≠ '\x22' ∧ c ≠ '\x5c' ∧ lineEnd c = false) (t : Text) :
    (literals lineEnd).all (true, c :: t) =
      (c :: ((literals lineEnd).all (true, t)).1, ((literals lineEnd).all (true, t)).2) := by
  have next : (literals lineEnd).next (true, c :: t) = some (some c, true, t) := by
    simp [literals, plain]
  exact Scan.all_next _ next

theorem literals_broken {c : Char} {t : Text}
    (broken : c = '\x5c' ∧ escape t = none ∨ c ≠ '\x22' ∧ c ≠ '\x5c' ∧ lineEnd c = true) :
    (literals lineEnd).all (true, c :: t) = ([], true, c :: t) := by
  apply Scan.all_stop
  rcases broken with ⟨rfl, none⟩ | ⟨other, other', ends⟩
  · simp [literals, none]
  · simp [literals, other, other', ends]

/-! ## What was printed between two quotes -/

variable (lineEnd)

/-- A character that stands for itself in a literal. -/
def Literal (c : Char) : Prop := c ≠ '\x22' ∧ c ≠ '\x5c' ∧ lineEnd c = false

instance (c : Char) : Decidable (Literal lineEnd c) := inferInstanceAs (Decidable (_ ∧ _ ∧ _))

/-- A C string that can be printed as it is. -/
def Plain (t : Text) : Prop := ∀ c ∈ t, Literal lineEnd c ∧ c ≠ '\x00'

-- deciding over the given text, not over all characters
instance (t : Text) : Decidable (Plain lineEnd t) :=
  List.decidableBAll (fun c => Literal lineEnd c ∧ c ≠ '\x00') t

/-- What becomes of the text `s` before a quote, where `v` is what is read of it and `r` what is
behind: it is `v`, or longer than `v`, or `v` goes on behind the quote with a comma. -/
def Fate (rest s : Text) (inside : Bool) (v r : Text) : Prop :=
  (inside = true ∧ v = s ∧ (∀ c ∈ s, Literal lineEnd c) ∧ r = ',' :: rest) ∨
    v.length + inside.toNat ≤ s.length ∨
    ∃ v₁ v₂, v = v₁ ++ ',' :: v₂ ∧ v₁.length ≤ s.length ∧ s.count ',' ≤ v₁.count ','

variable {lineEnd}

theorem Fate.char {rest s v r : Text} (h : Fate lineEnd rest s true v r) {c : Char}
    (literal : Literal lineEnd c) : Fate lineEnd rest (c :: s) true (c :: v) r := by
  rcases h with ⟨-, rfl, literals, rfl⟩ | shorter | ⟨v₁, v₂, rfl, fits, commas⟩
  · exact Or.inl ⟨rfl, rfl, List.forall_mem_cons.mpr ⟨literal, literals⟩, rfl⟩
  · exact Or.inr (Or.inl (Nat.succ_le_succ shorter))
  · refine Or.inr (Or.inr ⟨c :: v₁, v₂, rfl, Nat.succ_le_succ fits, ?_⟩)
    rw [List.count_cons, List.count_cons]
    exact Nat.add_le_add_right commas _

/-- An escape takes more than it gives. -/
theorem Fate.escaped {rest s s' v r : Text} (h : Fate lineEnd rest s' true v r) {c d : Char}
    (other : c ≠ ',') (shorter : s'.length < s.length)
    (commas : s.count ',' ≤ (d :: s').count ',') : Fate lineEnd rest (c :: s) true (d :: v) r := by
  rcases h with ⟨-, rfl, -, -⟩ | fewer | ⟨v₁, v₂, rfl, fits, within⟩
  · exact Or.inr (Or.inl (Nat.succ_le_succ shorter))
  · refine Or.inr (Or.inl ?_)
    rw [List.length_cons, List.length_cons]
    omega
  · refine Or.inr (Or.inr ⟨d :: v₁, v₂, rfl, by rw [List.length_cons, List.length_cons]; omega, ?_⟩)
    rw [List.count_cons_of_ne other]
    rw [List.count_cons] at commas ⊢
    omega

/-- What stands for nothing: a quote, or a blank between two literals. -/
theorem Fate.skip {rest s v r : Text} {inside : Bool} (h : Fate lineEnd rest s inside v r) {c : Char}
    (other : c ≠ ',') (inside' : Bool) : Fate lineEnd rest (c :: s) inside' v r := by
  have flag : inside'.toNat ≤ 1 := Bool.toNat_le inside'
  rcases h with ⟨-, rfl, -, -⟩ | fewer | ⟨v₁, v₂, rfl, fits, commas⟩
  · exact Or.inr (Or.inl (Nat.add_le_add_left flag _))
  · refine Or.inr (Or.inl ?_)
    rw [List.length_cons]
    omega
  · refine Or.inr (Or.inr ⟨v₁, v₂, rfl, Nat.le_succ_of_le fits, ?_⟩)
    rwa [List.count_cons_of_ne other]

/-- Inside a literal a comma is a comma. -/
theorem literals_comma (comma : lineEnd ',' = false) (t : Text) :
    ((literals lineEnd).all (true, ',' :: t)).1 =
      ',' :: ((literals lineEnd).all (true, t)).1 := by
  rw [literals_char ⟨by decide, by decide, comma⟩]

/-- One character inside a literal that is no quote. -/
theorem fate_inside (comma : lineEnd ',' = false) (rest : Text) {c : Char} {s v r : Text}
    (quote : c ≠ '\x22')
    (h : (literals lineEnd).all (true, c :: (s ++ '\x22' :: ',' :: rest)) = (v, false, r))
    (later : ∀ s' v r, s'.length ≤ s.length →
      (literals lineEnd).all (true, s' ++ '\x22' :: ',' :: rest) = (v, false, r) →
      Fate lineEnd rest s' true v r) :
    Fate lineEnd rest (c :: s) true v r := by
  by_cases slash : c = '\x5c'
  · subst slash
    cases read : escape (s ++ '\x22' :: ',' :: rest) with
    | none =>
      rw [literals_broken (Or.inl ⟨rfl, read⟩)] at h
      cases h
    | some e =>
      obtain ⟨d, r'⟩ := e
      rw [literals_escape read] at h
      cases s with
      | nil =>
        -- the escape is the quote that was to close the literal
        have quoted : escape ('\x22' :: ',' :: rest) = some ('\x22', ',' :: rest) := rfl
        rw [List.nil_append, quoted] at read
        cases read
        have front := (Prod.mk.inj h).1.symm
        rw [literals_comma comma rest] at front
        exact Or.inr (Or.inr ⟨['\x22'], _, front, Nat.le_refl _, Nat.zero_le _⟩)
      | cons a s =>
        obtain ⟨s', rfl, shorter, commas⟩ := escape_before (List.cons_ne_nil a s) read
        have fate := later s' _ _ (Nat.le_of_lt shorter) (Prod.ext rfl (Prod.mk.inj h).2)
        rw [← (Prod.mk.inj h).1]
        exact fate.escaped (by decide) shorter commas
  · cases ends : lineEnd c with
    | true =>
      rw [literals_broken (Or.inr ⟨quote, slash, ends⟩)] at h
      cases h
    | false =>
      rw [literals_char ⟨quote, slash, ends⟩] at h
      have fate := later s _ _ (Nat.le_refl _) (Prod.ext rfl (Prod.mk.inj h).2)
      rw [← (Prod.mk.inj h).1]
      exact fate.char ⟨quote, slash, ends⟩

theorem fate (comma : lineEnd ',' = false) (rest : Text) {s v r : Text} {inside : Bool}
    (h : (literals lineEnd).all (inside, s ++ '\x22' :: ',' :: rest) = (v, false, r)) :
    Fate lineEnd rest s inside v r := by
  induction hn : s.length using Nat.strongRecOn generalizing s v r inside with
  | _ n ih =>
    cases s with
    | nil =>
      cases inside with
      | true =>
        rw [List.nil_append, literals_close, literals_stop (by decide) (by decide)] at h
        cases h
        exact Or.inl ⟨rfl, rfl, nofun, rfl⟩
      | false =>
        rw [List.nil_append, literals_open] at h
        have front := literals_comma comma rest
        rw [h] at front
        exact Or.inr (Or.inr ⟨[], _, front, Nat.le_refl _, Nat.le_refl _⟩)
    | cons c s =>
      rw [List.length_cons] at hn
      rw [List.cons_append] at h
      by_cases quote : c = '\x22'
      · subst quote
        cases inside with
        | true =>
          rw [literals_close] at h
          exact (ih s.length (by omega) h rfl).skip (by decide) true
        | false =>
          rw [literals_open] at h
          exact (ih s.length (by omega) h rfl).skip (by decide) false
      · cases inside with
        | true =>
          exact fate_inside comma rest quote h fun s' v r le read =>
            ih s'.length (by omega) read rfl
        | false =>
          cases blank : isBlank c with
          | true =>
            rw [literals_blank blank] at h
            have other : c ≠ ',' := fun same => by
              rw [same] at blank
              cases blank
            exact (ih s.length (by omega) h rfl).skip other false
          | false =>
            rw [literals_stop quote blank] at h
            cases h
            exact Or.inr (Or.inl (Nat.zero_le _))

/-! ## Ends of lines -/

variable (lineEnd) in
/-- Without the backslashes at the ends of lines, and those ends. -/
def splice : Text → Text
  | '\x5c' :: c :: t => if lineEnd c then splice t else '\x5c' :: splice (c :: t)
  | c :: t => c :: splice t
  | [] => []

theorem splice_cons {c : Char} (other : c ≠ '\x5c') (t : Text) :
    splice lineEnd (c :: t) = c :: splice lineEnd t := by
  rw [splice]
  rintro _ _ same
  exact absurd same other

theorem splice_slash {c : Char} (stays : lineEnd c = false) (t : Text) :
    splice lineEnd ('\x5c' :: c :: t) = '\x5c' :: splice lineEnd (c :: t) := by
  rw [splice, if_neg (by simp [stays])]

/-- Nothing goes across a character that ends no line. -/
theorem splice_append {c : Char} (stays : lineEnd c = false) (s t : Text) :
    splice lineEnd (s ++ c :: t) = splice lineEnd s ++ splice lineEnd (c :: t) := by
  fun_induction splice lineEnd s with
  | case1 d s ends ih =>
    rw [List.cons_append, List.cons_append, splice, if_pos ends, ih]
  | case2 d s ends ih =>
    rw [List.cons_append, List.cons_append, splice, if_neg ends, List.cons_append, ← ih]
    rfl
  | case3 d s other ih =>
    by_cases slash : d = '\x5c'
    · subst slash
      cases s with
      | nil => exact splice_slash stays t
      | cons e s => exact absurd rfl (other e s rfl)
    · rw [List.cons_append, splice_cons slash, ih, List.cons_append]
  | case4 => rfl

theorem splice_sublist (t : Text) : (splice lineEnd t).Sublist t := by
  fun_induction splice lineEnd t with
  | case1 c t ends ih => exact (ih.cons c).cons '\x5c'
  | case2 c t ends ih => exact ih.cons_cons '\x5c'
  | case3 c t other ih => exact ih.cons_cons c
  | case4 => exact List.Sublist.refl []

theorem splice_count {c : Char} (other : c ≠ '\x5c') (stays : lineEnd c = false) (t : Text) :
    (splice lineEnd t).count c = t.count c := by
  fun_induction splice lineEnd t with
  | case1 d t ends ih =>
    have apart : d ≠ c := fun same => by
      rw [same, stays] at ends
      cases ends
    rw [List.count_cons_of_ne other.symm, List.count_cons_of_ne apart, ih]
  | case2 d t ends ih => rw [List.count_cons_of_ne other.symm, List.count_cons_of_ne other.symm, ih]
  | case3 d t _ ih => rw [List.count_cons, List.count_cons, ih]
  | case4 => rfl

theorem splice_plain_append {s : Text} (plain : ∀ c ∈ s, c ≠ '\x5c') (t : Text) :
    splice lineEnd (s ++ t) = s ++ splice lineEnd t := by
  induction s with
  | nil => rfl
  | cons c s ih =>
    obtain ⟨here, later⟩ := List.forall_mem_cons.mp plain
    rw [List.cons_append, splice_cons here, ih later, List.cons_append]

theorem splice_plain {t : Text} (plain : ∀ c ∈ t, c ≠ '\x5c') : splice lineEnd t = t := by
  have whole : splice lineEnd (t ++ []) = t ++ splice lineEnd [] := splice_plain_append plain []
  rwa [List.append_nil, splice, List.append_nil] at whole

/-! ## There and back -/

/-- A C string ends at its first zero. -/
def cString (t : Text) : Text := t.takeWhile (· ≠ '\x00')

theorem cString_length (t : Text) : (cString t).length ≤ t.length :=
  (List.takeWhile_sublist _).length_le

/-- What is printed as it is and can be is read as it was. -/
theorem read_printed {t : Text} (plain : Plain lineEnd t) (rest : Text) :
    read lineEnd ('\x22' :: (splice lineEnd t ++ '\x22' :: ',' :: rest)) = some (t, ',' :: rest) ∧
      cString t = t := by
  have whole : splice lineEnd t = t := splice_plain fun c member => (plain c member).1.2.1
  have loop : (literals lineEnd).all (true, t ++ '\x22' :: ',' :: rest) =
      (t, false, ',' :: rest) := by
    induction t with
    | nil =>
      rw [List.nil_append, literals_close, literals_stop (by decide) (by decide)]
    | cons c t ih =>
      obtain ⟨here, later⟩ := List.forall_mem_cons.mp plain
      have tail := ih later (splice_plain fun c member => (later c member).1.2.1)
      rw [List.cons_append, literals_char here.1, tail]
  constructor
  · rw [whole, read, loop]
  · exact List.takeWhile_eq_self_iff.mpr fun c member => decide_eq_true (plain c member).2

/-- And only what can be is. -/
theorem plain_of_read (comma : lineEnd ',' = false) {t rest v r : Text}
    (h : read lineEnd ('\x22' :: (splice lineEnd t ++ '\x22' :: ',' :: rest)) = some (v, r))
    (same : cString v = t) : Plain lineEnd t ∧ r = ',' :: rest := by
  have loop : (literals lineEnd).all (true, splice lineEnd t ++ '\x22' :: ',' :: rest) =
      (v, false, r) := by
    rw [read] at h
    split at h
    · rename_i v' r' all
      cases h
      exact all
    · cases h
  have short : (splice lineEnd t).length ≤ t.length := (splice_sublist t).length_le
  have cut : t.length ≤ v.length := same ▸ cString_length v
  rcases fate comma rest loop with ⟨-, rfl, literal, rfl⟩ | fewer | ⟨v₁, v₂, rfl, fits, commas⟩
  · have whole : splice lineEnd t = t := (splice_sublist t).eq_of_length_le cut
    rw [whole] at same literal
    refine ⟨fun c member => ⟨literal c member, ?_⟩, rfl⟩
    exact of_decide_eq_true (List.takeWhile_eq_self_iff.mp same c member)
  · rw [Bool.toNat_true] at fewer
    omega
  · exfalso
    rw [splice_count (by decide) comma] at commas
    rw [cString, List.takeWhile_append] at same
    split at same
    · -- read past the comma, there is one comma more than was printed
      rw [List.takeWhile_cons_of_pos (by decide)] at same
      have counted := congrArg (List.count ',') same
      rw [List.count_append, List.count_cons_self] at counted
      omega
    · rename_i early
      have counted := congrArg List.length same
      have le : (v₁.takeWhile (· ≠ '\x00')).length ≤ v₁.length :=
        (List.takeWhile_sublist _).length_le
      omega

end Es3Recomp.Library.CLiteral
