import Mathlib.Data.List.TakeDrop

/-!
# A stream that comes in pieces

What a call reads of a stream is some of what is left of it, at least one element while there is
any. Two loops read it: `gather` until something is recognised in what was read so far, `drain`
until so many have been read. What they find does not depend on the pieces.
-/
namespace Es3Recomp.Library.CutStream

/-- All that will come, and how many elements are there at each call. -/
structure Stream (τ : Type) where
  all : List τ
  ready : List Nat

variable {τ δ : Type}

def Stream.read (s : Stream τ) (n : Nat) : List τ × Stream τ :=
  let k := min n (max 1 (s.ready.headD n))
  (s.all.take k, ⟨s.all.drop k, s.ready.tail⟩)

theorem read_append (s : Stream τ) (n : Nat) : (s.read n).1 ++ (s.read n).2.all = s.all :=
  List.take_append_drop ..

theorem length_read_le (s : Stream τ) (n : Nat) : (s.read n).1.length ≤ n := by
  simp only [Stream.read, List.length_take]
  omega

/-- Nothing is read only at the end. -/
theorem all_of_read_nil {s : Stream τ} {n : Nat} (some_ : 0 < n) (none : (s.read n).1 = []) :
    s.all = [] := by
  rcases List.take_eq_nil_iff.mp none with zero | ended
  · omega
  · exact ended

theorem length_read_pos {s : Stream τ} {n : Nat} (some_ : (s.read n).1 ≠ []) :
    (s.read n).2.all.length < s.all.length := by
  have split := congrArg List.length (read_append s n)
  rw [List.length_append] at split
  have := List.length_pos_iff.mpr some_
  omega

/-! ## Until it is recognised -/

/-- Fills a buffer with room for `cap` elements until `done` finds in it what it looks for. -/
def gather (done : List τ → Option δ) (cap : Nat) :
    Nat → List τ → Stream τ → List τ × Option δ × Stream τ
  | 0, buf, s => (buf, none, s)
  | turns + 1, buf, s =>
    if buf.length < cap then
      let r := s.read (cap - buf.length)
      if r.1 = [] then (buf, none, r.2)
      else
        match done (buf ++ r.1) with
        | some d => (buf ++ r.1, some d, r.2)
        | none => gather done cap turns (buf ++ r.1) r.2
    else (buf, none, s)

/-- What is found stays found when more comes behind. -/
def Stable (done : List τ → Option δ) : Prop :=
  ∀ buf more d, done buf = some d → done (buf ++ more) = some d

variable {done : List τ → Option δ} {cap : Nat}

theorem gather_append (turns : Nat) (buf : List τ) (s : Stream τ) :
    (gather done cap turns buf s).1 ++ (gather done cap turns buf s).2.2.all = buf ++ s.all := by
  induction turns generalizing buf s with
  | zero => rfl
  | succ turns ih =>
    rw [gather]
    dsimp only
    split
    next =>
      have split := read_append s (cap - buf.length)
      split
      next none =>
        rw [none, List.nil_append] at split
        rw [split]
      next =>
        split
        next =>
          rw [List.append_assoc, split]
        next =>
          rw [ih, List.append_assoc, split]
    next => rfl

theorem length_gather_le (turns : Nat) {buf : List τ} (fits : buf.length ≤ cap) (s : Stream τ) :
    (gather done cap turns buf s).1.length ≤ cap := by
  induction turns generalizing buf s with
  | zero => exact fits
  | succ turns ih =>
    rw [gather]
    dsimp only
    split
    next =>
      have short := length_read_le s (cap - buf.length)
      have longer : (buf ++ (s.read (cap - buf.length)).1).length ≤ cap := by
        rw [List.length_append]
        omega
      split
      next => exact fits
      next =>
        split
        next => exact longer
        next => exact ih longer _
    next => exact fits

/-- The loop finds what is in the first `cap` elements, whatever the pieces. -/
theorem gather_found (stable : Stable done) {turns : Nat} {buf : List τ} {s : Stream τ}
    (enough : cap ≤ turns + buf.length) (fits : buf.length ≤ cap) (fresh : done buf = none) :
    (gather done cap turns buf s).2.1 = done ((buf ++ s.all).take cap) := by
  induction turns generalizing buf s with
  | zero =>
    have full : (buf ++ s.all).take cap = buf := by
      have length : cap = buf.length := by omega
      rw [length, List.take_left]
    rw [full, fresh]
    rfl
  | succ turns ih =>
    rw [gather]
    dsimp only
    split
    next room =>
      have split := read_append s (cap - buf.length)
      have short := length_read_le s (cap - buf.length)
      have longer : (buf ++ (s.read (cap - buf.length)).1).length ≤ cap := by
        rw [List.length_append]
        omega
      split
      next none =>
        have ended := all_of_read_nil (Nat.sub_pos_of_lt room) none
        rw [ended, List.append_nil, List.take_of_length_le fits, fresh]
      next some_ =>
        have regroup : buf ++ s.all = (buf ++ (s.read (cap - buf.length)).1) ++
            (s.read (cap - buf.length)).2.all := by
          rw [List.append_assoc, split]
        split
        next d found =>
          rw [regroup, List.take_append, List.take_of_length_le longer]
          exact (stable _ _ d found).symm
        next unfound =>
          have grown := List.length_pos_iff.mpr some_
          rw [ih (by rw [List.length_append]; omega) longer unfound, regroup]
    next full =>
      have length : cap = buf.length := by omega
      rw [length, List.take_left, fresh]

/-- It is found in what was read. -/
theorem gather_done {turns : Nat} {buf : List τ} {s : Stream τ} {d : δ}
    (found : (gather done cap turns buf s).2.1 = some d) :
    done (gather done cap turns buf s).1 = some d := by
  induction turns generalizing buf s with
  | zero => cases found
  | succ turns ih =>
    rw [gather] at found ⊢
    dsimp only at found ⊢
    split
    next room =>
      rw [if_pos room] at found
      split
      next none =>
        rw [if_pos none] at found
        cases found
      next some_ =>
        rw [if_neg some_] at found
        split
        next here =>
          rw [here] at found
          exact here.trans found
        next later =>
          rw [later] at found
          exact ih found
    next full =>
      rw [if_neg full] at found
      cases found

/-! ## Until there are enough -/

/-- Reads at most `piece` elements at a time until `want` have been read, or no more come. -/
def drain (piece want : Nat) : Nat → Nat → Stream τ → List τ × Stream τ
  | 0, _, s => ([], s)
  | turns + 1, got, s =>
    if got < want then
      let r := s.read piece
      if r.1 = [] then ([], r.2)
      else
        let rest := drain piece want turns (got + r.1.length) r.2
        (r.1 ++ rest.1, rest.2)
    else ([], s)

variable {piece want : Nat}

theorem drain_append (turns got : Nat) (s : Stream τ) :
    (drain piece want turns got s).1 ++ (drain piece want turns got s).2.all = s.all := by
  induction turns generalizing got s with
  | zero => rfl
  | succ turns ih =>
    rw [drain]
    dsimp only
    split
    next =>
      have split := read_append s piece
      split
      next none =>
        rw [none, List.nil_append] at split
        exact split
      next =>
        rw [List.append_assoc, ih, split]
    next => rfl

/-- There were enough, or nothing is left. -/
theorem drain_enough (some_ : 0 < piece) {turns got : Nat} {s : Stream τ}
    (turns_ : s.all.length < turns) :
    want ≤ got + (drain piece want turns got s).1.length ∨
      (drain piece want turns got s).2.all = [] := by
  induction turns generalizing got s with
  | zero => omega
  | succ turns ih =>
    rw [drain]
    dsimp only
    split
    next =>
      split
      next none =>
        have split := read_append s piece
        rw [none, List.nil_append, all_of_read_nil some_ none] at split
        exact .inr split
      next more =>
        have shorter := length_read_pos more
        have rest : want ≤ got + (s.read piece).1.length +
              (drain piece want turns (got + (s.read piece).1.length) (s.read piece).2).1.length ∨
            (drain piece want turns (got + (s.read piece).1.length) (s.read piece).2).2.all = [] :=
          ih (by omega)
        rcases rest with enough | ended
        · rw [List.length_append]
          exact .inl (by omega)
        · exact .inr ended
    next => exact .inl (by omega)

/-- All of it is read, where no more comes than is wanted. -/
theorem drain_all (some_ : 0 < piece) {got : Nat} {s : Stream τ}
    (fits : got + s.all.length ≤ want) :
    (drain piece want (s.all.length + 1) got s).1 = s.all ∧
      (drain piece want (s.all.length + 1) got s).2.all = [] := by
  have parts := @drain_append _ piece want (s.all.length + 1) got s
  have ended : (drain piece want (s.all.length + 1) got s).2.all = [] := by
    have turns : s.all.length < s.all.length + 1 := Nat.lt_succ_self _
    rcases @drain_enough _ piece want some_ _ got s turns with enough | ended
    · have lengths := congrArg List.length parts
      rw [List.length_append] at lengths
      exact List.length_eq_zero_iff.mp (by omega)
    · exact ended
  refine ⟨?_, ended⟩
  rw [ended, List.append_nil] at parts
  exact parts

end Es3Recomp.Library.CutStream
