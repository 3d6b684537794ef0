import Es3Recomp.Library.Scan

/-!
# Patterns of fixed length in a text, and replacing them

A pattern says of each place which characters may stand there. `hits` lists what is met of
a pattern, wherever it begins; `sub` replaces, from the left, what does not overlap. Two
patterns clash where no text suits both. From clashes alone follows what a replacement does
to the hits of other patterns: none appears or disappears across its edges.
-/
namespace Es3Recomp.Library

abbrev Text := List Char

abbrev Pattern := List (List Char)

namespace Pattern

/-- The pattern that only this text suits. -/
def only (t : Text) : Pattern := t.map fun c => [c]

/-- What the text begins with, if that suits the pattern. -/
def front : Pattern → Text → Option Text
  | [], _ => some []
  | _ :: _, [] => none
  | a :: p, c :: t => if c ∈ a then (front p t).map (c :: ·) else none

/-- All that is met of a pattern, in the order of the places where it begins. -/
def hits (p : Pattern) : Text → List Text
  | [] => []
  | c :: t => (front p (c :: t)).toList ++ hits p t

/-- Somewhere no character suits both. -/
def clash : Pattern → Pattern → Bool
  | a :: p, b :: q => a.all (fun c => c ∉ b) || clash p q
  | _, _ => false

theorem front_eq_some {p : Pattern} {t m : Text} (h : front p t = some m) :
    ∃ rest, t = m ++ rest ∧ m.length = p.length ∧ ∀ more, front p (m ++ more) = some m := by
  induction p generalizing t m with
  | nil =>
    cases h
    exact ⟨t, rfl, rfl, fun _ => rfl⟩
  | cons a p ih =>
    cases t with
    | nil => cases h
    | cons c t =>
      rw [front] at h
      split at h
      · rename_i suits
        obtain ⟨m', found, rfl⟩ := Option.map_eq_some_iff.mp h
        obtain ⟨rest, rfl, length, again⟩ := ih found
        refine ⟨rest, rfl, by rw [List.length_cons, length, List.length_cons], fun more => ?_⟩
        rw [List.cons_append, front, if_pos suits, again more]
        rfl
      · cases h

theorem front_tail {p : Pattern} {a : List Char} {c : Char} {t : Text}
    (h : front (a :: p) (c :: t) = some (c :: t)) : front p t = some t := by
  rw [front] at h
  split at h
  · obtain ⟨m, found, same⟩ := Option.map_eq_some_iff.mp h
    rw [found, (List.cons.inj same).2]
  · cases h

theorem front_none_of_clash {p q : Pattern} (apart : clash p q = true) {t m : Text}
    (h : front q t = some m) : front p t = none := by
  induction p generalizing q t m with
  | nil => cases apart
  | cons a p ih =>
    cases q with
    | nil => cases apart
    | cons b q =>
      cases t with
      | nil => rfl
      | cons c t =>
        rw [front] at h
        split at h
        · rename_i suits
          obtain ⟨m', found, -⟩ := Option.map_eq_some_iff.mp h
          rw [front]
          split
          · rename_i both
            simp only [clash, Bool.or_eq_true, List.all_eq_true, decide_eq_true_eq] at apart
            rcases apart with never | later
            · exact absurd suits (never c both)
            · rw [ih later found]
              rfl
          · rfl
        · cases h

theorem front_none_of_hits {p : Pattern} {t : Text} (none : hits p t = []) {c : Char} {u : Text}
    (suffix : c :: u <:+ t) : front p (c :: u) = Option.none := by
  induction t with
  | nil => exact absurd (List.suffix_nil.mp suffix) (List.cons_ne_nil c u)
  | cons d t ih =>
    rw [hits] at none
    obtain ⟨here, later⟩ := List.append_eq_nil_iff.mp none
    rcases List.suffix_cons_iff.mp suffix with whole | inside
    · rw [whole]
      exact Option.toList_eq_nil_iff.mp here
    · exact ih later inside

/-! ## Patterns put together -/

theorem front_only (t : Text) : front (only t) t = some t := by
  induction t with
  | nil => rfl
  | cons c t ih =>
    have next : only (c :: t) = [c] :: only t := rfl
    rw [next, front, if_pos (List.mem_singleton.mpr rfl), ih]
    rfl

theorem front_class {a t : List Char} (all : ∀ c ∈ t, c ∈ a) {n : Nat} (length : t.length = n) :
    front (List.replicate n a) t = some t := by
  subst length
  induction t with
  | nil => rfl
  | cons c t ih =>
    obtain ⟨here, rest⟩ := List.forall_mem_cons.mp all
    rw [List.length_cons, List.replicate_succ, front, if_pos here, ih rest]
    rfl

theorem front_concat {p q : Pattern} {s t : Text} (left : front p s = some s)
    (right : front q t = some t) : front (p ++ q) (s ++ t) = some (s ++ t) := by
  induction p generalizing s with
  | nil =>
    cases left
    exact right
  | cons a p ih =>
    cases s with
    | nil => cases left
    | cons c s =>
      have rest := ih (front_tail left)
      rw [front] at left
      split at left
      · rename_i suits
        rw [List.cons_append, List.cons_append, front, if_pos suits, rest]
        rfl
      · cases left

/-! ## Texts put together -/

/-- No end of the pattern but the empty one goes on in this text. -/
def Cut (p : Pattern) (t : Text) : Prop := ∀ k < p.length, front (p.drop k) t = none

theorem Cut.tail {a : List Char} {p : Pattern} {t : Text} (cut : Cut (a :: p) t) : Cut p t :=
  fun k inside => cut (k + 1) (Nat.succ_lt_succ inside)

theorem front_append {p : Pattern} {t : Text} (cut : Cut p t) (s : Text) :
    front p (s ++ t) = front p s := by
  induction p generalizing s with
  | nil => rfl
  | cons a p ih =>
    cases s with
    | nil => exact cut 0 (Nat.succ_pos _)
    | cons c s => rw [List.cons_append, front, front, ih cut.tail]

/-- Where nothing of the pattern runs over the edge, each side has its own hits. -/
theorem hits_append {p : Pattern} {t : Text} (cut : Cut p.tail t) (s : Text) :
    hits p (s ++ t) = hits p s ++ hits p t := by
  induction s with
  | nil => rfl
  | cons c s ih =>
    have same : front p (c :: (s ++ t)) = front p (c :: s) := by
      cases p with
      | nil => rfl
      | cons a p =>
        have inside : Cut p t := cut
        rw [front, front, front_append inside]
    rw [List.cons_append, hits, hits, same, ih, List.append_assoc]

/-- The pattern begins nowhere inside what suits `q`. -/
def Free (p q : Pattern) : Prop := ∀ j < q.length, clash p (q.drop j) = true

instance (p q : Pattern) : Decidable (Free p q) := inferInstanceAs (Decidable (∀ _ < _, _))

theorem hits_free {p q : Pattern} (free : Free p q) {b : Text} (suits : front q b = some b)
    (rest : Text) : hits p (b ++ rest) = hits p rest := by
  induction q generalizing b with
  | nil =>
    cases suits
    rfl
  | cons a q ih =>
    obtain ⟨-, -, length, again⟩ := front_eq_some suits
    cases b with
    | nil => cases length
    | cons c b =>
      have here := front_none_of_clash (free 0 (Nat.succ_pos _)) (again rest)
      rw [List.cons_append] at here ⊢
      rw [hits, here, ih (fun j inside => free (j + 1) (Nat.succ_lt_succ inside)) (front_tail suits)]
      rfl

/-- It may begin where that does. -/
theorem hits_first {p q : Pattern} (free : Free p q.tail) {b : Text} (suits : front q b = some b)
    (rest : Text) (ne : q ≠ []) :
    hits p (b ++ rest) = (front p (b ++ rest)).toList ++ hits p rest := by
  cases q with
  | nil => exact absurd rfl ne
  | cons a q =>
    cases b with
    | nil => cases suits
    | cons c b => rw [List.cons_append, hits, hits_free free (front_tail suits)]

/-- Begun before what suits `b`, `q` does not run into it. -/
def Before (q b : Pattern) : Prop := ∀ k < q.length, k = 0 ∨ clash (q.drop k) b = true

instance (q b : Pattern) : Decidable (Before q b) := inferInstanceAs (Decidable (∀ _ < _, _))

theorem Before.cut {q b : Pattern} (before : Before q b) {m : Text} (suits : front b m = some m)
    (rest : Text) : Cut q.tail (m ++ rest) := by
  intro k inside
  rw [List.length_tail] at inside
  obtain ⟨-, -, -, again⟩ := front_eq_some suits
  have apart := (before (k + 1) (by omega)).resolve_left (Nat.succ_ne_zero k)
  rw [← List.drop_one, List.drop_drop, Nat.add_comm 1 k]
  exact front_none_of_clash apart (again rest)

/-! ## Replacing -/

inductive Piece where
  | char (c : Char)
  | found (m : Text)

def Piece.render (f : Text → Text) : Piece → Text
  | .char c => [c]
  | .found m => f m

/-- The text from the left, a character or what is found of a pattern at a time; the
pattern is not the empty one. -/
def pieces (p : Pattern) : Scan Text Piece where
  size := List.length
  next
    | [] => none
    | c :: t =>
      match front p (c :: t) with
      | some m => some (some (.found m), t.drop (p.length - 1))
      | none => some (some (.char c), t)
  shorter := by
    intro t taken rest h
    split at h
    · cases h
    · split at h
      · cases h
        rw [List.length_drop, List.length_cons]
        omega
      · cases h
        exact Nat.lt_succ_self _

/-- Everything that is found replaced. -/
def sub (p : Pattern) (f : Text → Text) (t : Text) : Text :=
  ((pieces p).all t).1.flatMap (Piece.render f)

section Pieces
variable {p : Pattern}

theorem next_char {c : Char} {t : Text} (h : front p (c :: t) = none) :
    (pieces p).next (c :: t) = some (some (.char c), t) := by
  simp only [pieces, h]

theorem next_found {m rest : Text} (ne : p ≠ []) (h : front p m = some m) :
    (pieces p).next (m ++ rest) = some (some (.found m), rest) := by
  obtain ⟨-, -, length, again⟩ := front_eq_some h
  have full : m.length ≠ 0 := by
    rw [length]
    exact fun none => ne (List.length_eq_zero_iff.mp none)
  cases m with
  | nil => exact absurd rfl full
  | cons c m =>
    have whole := again rest
    rw [List.cons_append] at whole ⊢
    have behind : (m ++ rest).drop (p.length - 1) = rest := by
      apply List.drop_left'
      rw [← length, List.length_cons, Nat.add_sub_cancel]
    simp only [pieces, whole, behind]

/-- Induction over the pieces of a text. -/
theorem piece_induction (ne : p ≠ []) {motive : Text → Prop} (nil : motive [])
    (char : ∀ c t, front p (c :: t) = none → motive t → motive (c :: t))
    (found : ∀ m rest, front p m = some m → motive rest → motive (m ++ rest))
    (t : Text) : motive t := by
  induction hn : t.length using Nat.strongRecOn generalizing t with
  | _ n ih =>
    cases t with
    | nil => exact nil
    | cons c t =>
      cases h : front p (c :: t) with
      | none => exact char c t h (ih t.length (by rw [← hn]; exact Nat.lt_succ_self _) t rfl)
      | some m =>
        obtain ⟨rest, whole, length, again⟩ := front_eq_some h
        have here : front p m = some m := by simpa using again []
        have shorter : rest.length < n := by
          have full : p.length ≠ 0 := fun none => ne (List.length_eq_zero_iff.mp none)
          rw [← hn, whole, List.length_append]
          omega
        rw [whole]
        exact found m rest here (ih rest.length shorter rest rfl)

/-! ## Finding all -/

def Piece.text? : Piece → Option Text
  | .char _ => none
  | .found m => some m

/-- What is found from the left, one after another. -/
def findall (p : Pattern) (t : Text) : List Text := ((pieces p).all t).1.filterMap Piece.text?

/-- A pattern that does not begin inside itself is found wherever it is met. -/
theorem findall_eq_hits (ne : p ≠ []) (free : Free p p.tail) (t : Text) :
    findall p t = hits p t := by
  refine piece_induction ne (motive := fun t => findall p t = hits p t) ?_ ?_ ?_ t
  · rw [findall, (pieces p).all_stop rfl]
    rfl
  · intro c t none ih
    rw [findall, (pieces p).all_next (next_char none), hits, none, ← ih]
    rfl
  · intro m rest found ih
    obtain ⟨-, -, -, again⟩ := front_eq_some found
    rw [findall, (pieces p).all_next (next_found ne found), hits_first free found rest ne,
      again rest, ← ih]
    rfl

end Pieces

section Sub
variable {p : Pattern} {f : Text → Text}

@[simp] theorem sub_nil : sub p f [] = [] := by
  rw [sub, (pieces p).all_stop rfl]
  rfl

theorem sub_char {c : Char} {t : Text} (h : front p (c :: t) = none) :
    sub p f (c :: t) = c :: sub p f t := by
  rw [sub, (pieces p).all_next (next_char h)]
  rfl

theorem sub_found {m rest : Text} (ne : p ≠ []) (h : front p m = some m) :
    sub p f (m ++ rest) = f m ++ sub p f rest := by
  rw [sub, (pieces p).all_next (next_found ne h)]
  rfl

/-- Induction over the pieces of a text and what replaces them. -/
theorem sub_induction (ne : p ≠ []) {motive : Text → Text → Prop} (nil : motive [] [])
    (char : ∀ c t, front p (c :: t) = none → motive t (sub p f t) →
      motive (c :: t) (c :: sub p f t))
    (found : ∀ m rest, front p m = some m → motive rest (sub p f rest) →
      motive (m ++ rest) (f m ++ sub p f rest))
    (t : Text) : motive t (sub p f t) := by
  refine piece_induction ne (motive := fun t => motive t (sub p f t)) ?_ ?_ ?_ t
  · simpa only [sub_nil] using nil
  · intro c t none ih
    rw [sub_char none]
    exact char c t none ih
  · intro m rest here ih
    rw [sub_found ne here]
    exact found m rest here ih

/-! ### Hits of another pattern -/

/-- What is found stays as it is or is replaced by something that suits `r`. -/
def Replaces (p r : Pattern) (f : Text → Text) : Prop :=
  ∀ m, front p m = some m → f m = m ∨ front r (f m) = some (f m)

variable {q r : Pattern}

theorem front_drop_found {b : Pattern} (before : Before q b) {k : Nat} (positive : 0 < k)
    {m rest rest' : Text} {b' : Pattern} (before' : Before q b') {m' : Text}
    (suits : front b m = some m) (suits' : front b' m' = some m') :
    front (q.drop k) (m ++ rest) = front (q.drop k) (m' ++ rest') := by
  by_cases inside : k < q.length
  · obtain ⟨-, -, -, again⟩ := front_eq_some suits
    obtain ⟨-, -, -, again'⟩ := front_eq_some suits'
    have apart := (before k inside).resolve_left (Nat.ne_of_gt positive)
    have apart' := (before' k inside).resolve_left (Nat.ne_of_gt positive)
    rw [front_none_of_clash apart (again rest), front_none_of_clash apart' (again' rest')]
  · rw [List.drop_of_length_le (Nat.not_lt.mp inside)]
    rfl

/-- What a pattern begun earlier needs is there after the replacement if it was before. -/
theorem front_sub (ne : p ≠ []) (replaces : Replaces p r f) (before : Before q p)
    (before' : Before q r) (t : Text) :
    ∀ k, 0 < k → front (q.drop k) (sub p f t) = front (q.drop k) t := by
  refine sub_induction ne
    (motive := fun t out => ∀ k, 0 < k → front (q.drop k) out = front (q.drop k) t) ?_ ?_ ?_ t
  · intro k _
    rfl
  · intro c t _ ih k positive
    have next := ih (k + 1) (Nat.succ_pos k)
    rw [← List.tail_drop] at next
    cases h : q.drop k with
    | nil => rfl
    | cons a q' =>
      rw [h, List.tail_cons] at next
      rw [front, front, next]
  · intro m rest found _ k positive
    rcases replaces m found with same | other
    · rw [same]
      exact front_drop_found before positive before found found
    · exact front_drop_found before' positive before other found

theorem front_sub_char (ne : p ≠ []) (replaces : Replaces p r f) (before : Before q p)
    (before' : Before q r) (c : Char) (t : Text) :
    front q (c :: sub p f t) = front q (c :: t) := by
  have next := front_sub ne replaces before before' t 1 Nat.one_pos
  cases q with
  | nil => rfl
  | cons a q =>
    have same : front q (sub p f t) = front q t := next
    rw [front, front, same]

/-- A pattern that has no place in common with either has the same hits as before. -/
theorem hits_sub_free (ne : p ≠ []) (replaces : Replaces p r f) (before : Before q p)
    (before' : Before q r) (free : Free q p) (free' : Free q r) (t : Text) :
    hits q (sub p f t) = hits q t := by
  refine sub_induction ne (motive := fun t out => hits q out = hits q t) rfl ?_ ?_ t
  · intro c t _ ih
    rw [hits, hits, ih, front_sub_char ne replaces before before' c t]
  · intro m rest found ih
    rw [hits_free free found, ← ih]
    rcases replaces m found with same | other
    · rw [same, hits_free free found]
    · rw [hits_free free' other]

/-- A pattern that is not met besides what is found is met afterwards only where a found
text, replaced or not, begins. -/
theorem hits_sub_found (ne : p ≠ []) (ne' : r ≠ []) (replaces : Replaces p r f)
    (before : Before q p) (before' : Before q r) (free : Free q p.tail) (free' : Free q r.tail)
    (t : Text)
    (quiet : ∀ c u, c :: u <:+ t → front p (c :: u) = none → front q (c :: u) = none) :
    ∀ h ∈ hits q (sub p f t), ∃ m rest, front p m = some m ∧ front q (f m ++ rest) = some h := by
  revert quiet
  refine sub_induction ne (motive := fun t out =>
    (∀ c u, c :: u <:+ t → front p (c :: u) = none → front q (c :: u) = none) →
      ∀ h ∈ hits q out, ∃ m rest, front p m = some m ∧ front q (f m ++ rest) = some h) ?_ ?_ ?_ t
  · nofun
  · intro c t none ih quiet h member
    rw [hits, front_sub_char ne replaces before before' c t,
      quiet c t (List.suffix_refl _) none] at member
    exact ih (fun c' u suffix => quiet c' u (suffix.trans (List.suffix_cons c t))) h member
  · intro m rest found ih quiet h member
    have first : hits q (f m ++ sub p f rest) =
        (front q (f m ++ sub p f rest)).toList ++ hits q (sub p f rest) := by
      rcases replaces m found with same | other
      · rw [same]
        exact hits_first free found _ ne
      · exact hits_first free' other _ ne'
    rw [first] at member
    rcases List.mem_append.mp member with here | later
    · exact ⟨m, _, found, Option.mem_toList.mp here⟩
    · exact ih (fun c u suffix => quiet c u (suffix.trans (List.suffix_append m rest))) h later

end Sub
end Pattern
end Es3Recomp.Library
