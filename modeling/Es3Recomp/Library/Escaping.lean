import Mathlib.Data.List.Basic

/-!
# Escape coding of a symbol stream

A code keeps some symbols from travelling raw: each reserved symbol is sent as
the escape symbol followed by a masked form of it. The decoder reads one symbol
at a time and returns what is left of the stream, so that a format can be read
off a stream whose end it does not know yet. `readN_encode` is the round trip,
`readN_append` says that a read never depends on what comes after it.
-/
namespace Es3Recomp.Library

/-- An escape symbol, the symbols that must not travel raw, and their masking. -/
structure EscapeCode (α : Type) where
  escape : α
  reserved : α → Bool
  mask : α → α
  unmask : α → α
  reserved_escape : reserved escape = true
  unmask_mask : ∀ a, reserved a = true → unmask (mask a) = a
  mask_plain : ∀ a, reserved a = true → reserved (mask a) = false

namespace EscapeCode
variable {α : Type} (code : EscapeCode α)

def encodeOne (a : α) : List α :=
  if code.reserved a then [code.escape, code.mask a] else [a]

def encode (xs : List α) : List α := xs.flatMap code.encodeOne

@[simp] theorem encode_nil : code.encode [] = [] := rfl

@[simp] theorem encode_cons (a : α) (xs : List α) :
    code.encode (a :: xs) = code.encodeOne a ++ code.encode xs := rfl

theorem encode_append (xs ys : List α) :
    code.encode (xs ++ ys) = code.encode xs ++ code.encode ys := by
  simp [encode]

/-- Of the reserved symbols only the escape itself occurs in an encoding. -/
theorem encode_reserved (xs : List α) (a : α) (member : a ∈ code.encode xs)
    (reserved : code.reserved a = true) : a = code.escape := by
  obtain ⟨x, -, inOne⟩ := List.mem_flatMap.mp member
  unfold encodeOne at inOne
  split at inOne
  next hx =>
    rcases List.mem_pair.mp inOne with same | masked
    · exact same
    · rw [masked, code.mask_plain x hx] at reserved
      cases reserved
  next hx =>
    rw [List.mem_singleton.mp inOne] at reserved
    exact absurd reserved hx

theorem length_encodeOne_bounds (a : α) :
    1 ≤ (code.encodeOne a).length ∧ (code.encodeOne a).length ≤ 2 := by
  unfold encodeOne
  split <;> simp

theorem length_encode_bounds (xs : List α) :
    xs.length ≤ (code.encode xs).length ∧ (code.encode xs).length ≤ 2 * xs.length := by
  induction xs with
  | nil => simp
  | cons x xs ih =>
    have one := code.length_encodeOne_bounds x
    simp only [encode_cons, List.length_append, List.length_cons]
    omega

section Reading
variable [DecidableEq α]

/-- Read one symbol, un-escaped; `none` while the stream ends too early. -/
def readOne : List α → Option (α × List α)
  | [] => none
  | [a] => if a = code.escape then none else some (a, [])
  | a :: b :: rest =>
    if a = code.escape then some (code.unmask b, rest) else some (a, b :: rest)

def readN : Nat → List α → Option (List α × List α)
  | 0, xs => some ([], xs)
  | n + 1, xs =>
    match code.readOne xs with
    | none => none
    | some (a, rest) =>
      match readN n rest with
      | none => none
      | some (as, rest) => some (a :: as, rest)

theorem readOne_encodeOne (a : α) (rest : List α) :
    code.readOne (code.encodeOne a ++ rest) = some (a, rest) := by
  unfold encodeOne
  split
  next h => simp [readOne, code.unmask_mask a h]
  next h =>
    have plain : a ≠ code.escape := by
      intro same
      subst same
      exact h code.reserved_escape
    cases rest <;> simp [readOne, plain]

theorem readN_succ_of {n : Nat} {xs mid tail rest : List α} {a : α}
    (one : code.readOne xs = some (a, mid)) (more : code.readN n mid = some (tail, rest)) :
    code.readN (n + 1) xs = some (a :: tail, rest) := by
  simp [readN, one, more]

/-- Reading back an encoding returns it and leaves what follows. -/
theorem readN_encode (xs rest : List α) :
    code.readN xs.length (code.encode xs ++ rest) = some (xs, rest) := by
  induction xs with
  | nil => rfl
  | cons x xs ih =>
    rw [encode_cons, List.append_assoc]
    exact code.readN_succ_of (code.readOne_encodeOne x _) ih

/-- A symbol that could be read does not depend on what arrives later. -/
theorem readOne_append {xs rest : List α} {a : α} (later : List α)
    (h : code.readOne xs = some (a, rest)) :
    code.readOne (xs ++ later) = some (a, rest ++ later) := by
  match xs, h with
  | [b], h =>
    by_cases e : b = code.escape
    · simp [readOne, e] at h
    · simp only [readOne, if_neg e, Option.some.injEq, Prod.mk.injEq] at h
      obtain ⟨rfl, rfl⟩ := h
      cases later <;> simp [readOne, e]
  | b :: c :: tail, h =>
    by_cases e : b = code.escape
    · simp only [readOne, if_pos e, Option.some.injEq, Prod.mk.injEq] at h
      obtain ⟨rfl, rfl⟩ := h
      simp [readOne, e]
    · simp only [readOne, if_neg e, Option.some.injEq, Prod.mk.injEq] at h
      obtain ⟨rfl, rfl⟩ := h
      simp [readOne, e]

theorem readOne_length {xs rest : List α} {a : α} (h : code.readOne xs = some (a, rest)) :
    rest.length + 1 ≤ xs.length ∧ xs.length ≤ rest.length + 2 := by
  match xs, h with
  | [b], h =>
    simp only [readOne] at h
    split at h
    · cases h
    · cases h
      simp
  | b :: c :: tail, h =>
    simp only [readOne] at h
    split at h <;> cases h <;> simp

theorem readN_succ_some {n : Nat} {xs as rest : List α}
    (h : code.readN (n + 1) xs = some (as, rest)) :
    ∃ a mid tail, code.readOne xs = some (a, mid) ∧ code.readN n mid = some (tail, rest) ∧
      as = a :: tail := by
  simp only [readN] at h
  cases one : code.readOne xs with
  | none => simp [one] at h
  | some p =>
    obtain ⟨a, mid⟩ := p
    cases more : code.readN n mid with
    | none => simp [one, more] at h
    | some q =>
      obtain ⟨tail, rest'⟩ := q
      simp only [one, more, Option.some.injEq, Prod.mk.injEq] at h
      exact ⟨a, mid, tail, rfl, by rw [more, h.2], h.1.symm⟩

theorem readN_length {n : Nat} {xs as rest : List α} (h : code.readN n xs = some (as, rest)) :
    as.length = n ∧ rest.length + n ≤ xs.length ∧ xs.length ≤ rest.length + 2 * n := by
  induction n generalizing xs as with
  | zero =>
    simp only [readN, Option.some.injEq, Prod.mk.injEq] at h
    obtain ⟨rfl, rfl⟩ := h
    simp
  | succ n ih =>
    obtain ⟨a, mid, tail, one, more, rfl⟩ := code.readN_succ_some h
    have head := code.readOne_length one
    have body := ih more
    simp only [List.length_cons]
    omega

/-- A read of `n` symbols does not depend on what arrives later. -/
theorem readN_append {n : Nat} {xs as rest : List α} (later : List α)
    (h : code.readN n xs = some (as, rest)) :
    code.readN n (xs ++ later) = some (as, rest ++ later) := by
  induction n generalizing xs as with
  | zero =>
    simp only [readN, Option.some.injEq, Prod.mk.injEq] at h
    obtain ⟨rfl, rfl⟩ := h
    rfl
  | succ n ih =>
    obtain ⟨a, mid, tail, one, more, rfl⟩ := code.readN_succ_some h
    exact code.readN_succ_of (code.readOne_append later one) (ih more)

/-- Reading in two goes is reading at once. -/
theorem readN_join {m n : Nat} {xs as bs mid rest : List α}
    (front : code.readN m xs = some (as, mid)) (back : code.readN n mid = some (bs, rest)) :
    code.readN (m + n) xs = some (as ++ bs, rest) := by
  induction m generalizing xs as with
  | zero =>
    simp only [readN, Option.some.injEq, Prod.mk.injEq] at front
    obtain ⟨rfl, rfl⟩ := front
    simpa using back
  | succ m ih =>
    obtain ⟨a, mid', tail, one, more, rfl⟩ := code.readN_succ_some front
    rw [Nat.succ_add]
    exact code.readN_succ_of one (ih more)

theorem readN_split {m n : Nat} {xs cs rest : List α}
    (whole : code.readN (m + n) xs = some (cs, rest)) :
    ∃ as bs mid, code.readN m xs = some (as, mid) ∧ code.readN n mid = some (bs, rest) ∧
      cs = as ++ bs := by
  induction m generalizing xs cs with
  | zero => exact ⟨[], cs, xs, rfl, by simpa using whole, rfl⟩
  | succ m ih =>
    rw [Nat.succ_add] at whole
    obtain ⟨a, mid', tail, one, more, rfl⟩ := code.readN_succ_some whole
    obtain ⟨as, bs, mid, front, back, rfl⟩ := ih more
    exact ⟨a :: as, bs, mid, code.readN_succ_of one front, back, rfl⟩

/-- The first symbols of a read can be read alone. -/
theorem readN_take {k n : Nat} {xs as rest : List α} (h : code.readN n xs = some (as, rest))
    (le : k ≤ n) : ∃ mid, code.readN k xs = some (as.take k, mid) := by
  obtain ⟨m, rfl⟩ := Nat.exists_eq_add_of_le le
  obtain ⟨front, back, mid, first, -, rfl⟩ := code.readN_split h
  have count := (code.readN_length first).1
  exact ⟨mid, by rw [first, ← count, List.take_left]⟩

/-- Every stream is some symbols and a tail from which no symbol can be read: an
empty one, or an escape that waits for its byte. -/
theorem exists_readN (xs : List α) :
    ∃ as tail, code.readN as.length xs = some (as, tail) ∧ (tail = [] ∨ tail = [code.escape]) := by
  induction hn : xs.length using Nat.strongRecOn generalizing xs with
  | _ n ih =>
    cases one : code.readOne xs with
    | none =>
      refine ⟨[], xs, rfl, ?_⟩
      match xs, one with
      | [], _ => exact Or.inl rfl
      | [a], one =>
        by_cases e : a = code.escape
        · exact Or.inr (by rw [e])
        · simp [readOne, e] at one
      | a :: b :: rest, one =>
        by_cases e : a = code.escape <;> simp [readOne, e] at one
    | some pair =>
      obtain ⟨a, mid⟩ := pair
      have shorter := code.readOne_length one
      obtain ⟨as, tail, read, ends⟩ := ih mid.length (by omega) mid rfl
      exact ⟨a :: as, tail, code.readN_succ_of one read, ends⟩

end Reading
end EscapeCode
end Es3Recomp.Library
