import Es3Recomp.Guarantees.TraceCalls
import Es3Recomp.Source.Allnet

/-!
# First occurrences

What `strstr` finds in a text it finds again when more comes behind, and it finds a name behind a
text in which no occurrence begins. A buffer read as a C string ends at its first zero.
-/
namespace Es3Recomp.Guarantees.Allnet
open Library Source.Allnet
open Source.TraceCalls (strstr)
open Guarantees.TraceCalls (strstr_here strstr_cons strstr_spec strstr_none_iff prefix_append_sep)

variable {name : Text}

theorem strstr_append {s a p : Text} (found : strstr s name = some (a, p)) (more : Text) :
    strstr (s ++ more) name = some (a, p ++ more) := by
  induction s generalizing a with
  | nil =>
    obtain ⟨split, starts⟩ := strstr_spec found
    obtain ⟨rfl, rfl⟩ := List.append_eq_nil_iff.mp split.symm
    exact strstr_here (starts.trans (List.prefix_append _ _))
  | cons c s ih =>
    by_cases starts : name <+: c :: s
    · rw [strstr_here starts] at found
      cases found
      exact strstr_here (starts.trans (List.prefix_append _ _))
    · rw [strstr_cons starts] at found
      obtain ⟨⟨b, q⟩, there, same⟩ := Option.map_eq_some_iff.mp found
      cases same
      have short : ¬ name <+: c :: (s ++ more) := by
        intro longer
        obtain ⟨split, inside⟩ := strstr_spec there
        have fits : name.length ≤ (c :: s).length := by
          have := inside.length_le
          rw [split, List.length_cons, List.length_append]
          omega
        exact starts (List.prefix_of_prefix_length_le longer (List.prefix_append _ _) fits)
      rw [List.cons_append, strstr_cons short, ih there]
      rfl

/-- Nothing of the name begins in what is before it. -/
theorem strstr_first {a : Text} (before : strstr (a ++ name.dropLast) name = none) (rest : Text) :
    strstr (a ++ (name ++ rest)) name = some (a, name ++ rest) := by
  induction a with
  | nil => exact strstr_here (List.prefix_append _ _)
  | cons c a ih =>
    have off := (strstr_none_iff _).mp before
    have here : ¬ name <+: c :: (a ++ (name ++ rest)) := by
      intro starts
      have fits : name.length ≤ (c :: (a ++ name.dropLast)).length := by
        rw [List.length_cons, List.length_append, List.length_dropLast]
        omega
      have front : c :: (a ++ name.dropLast) <+: c :: (a ++ (name ++ rest)) := by
        refine List.cons_prefix_cons.mpr ⟨rfl, (List.prefix_append_right_inj a).mpr ?_⟩
        exact (List.dropLast_prefix name).trans (List.prefix_append _ _)
      exact off (List.prefix_of_prefix_length_le starts front fits).isInfix
    have later : strstr (a ++ name.dropLast) name = none := by
      refine (strstr_none_iff _).mpr fun inside => off ?_
      exact List.infix_cons inside
    rw [List.cons_append, strstr_cons here, ih later]
    rfl

/-- A character that is not in the name parts a text. -/
theorem infix_sep {c : Char} (plain : c ∉ name) (a b : Text) :
    name <:+: a ++ c :: b ↔ name <:+: a ∨ name <:+: b := by
  induction a with
  | nil =>
    rw [List.nil_append, List.infix_cons_iff, List.infix_nil]
    have front : name <+: [] ++ c :: b ↔ name <+: [] := prefix_append_sep plain
    rw [List.nil_append, List.prefix_nil] at front
    rw [front]
  | cons d a ih =>
    have front : name <+: d :: (a ++ c :: b) ↔ name <+: d :: a := by
      rw [← List.cons_append]
      exact prefix_append_sep plain
    rw [List.cons_append, List.infix_cons_iff, List.infix_cons_iff, ih, front, or_assoc]

/-- So does a text with none of its characters. -/
theorem infix_between {m : Text} (some_ : m ≠ []) (plain : ∀ c ∈ m, c ∉ name) {a b : Text}
    (left : ¬ name <:+: a) (right : ¬ name <:+: b) (notNil : name ≠ []) :
    ¬ name <:+: a ++ (m ++ b) := by
  obtain ⟨c, m, rfl⟩ := List.exists_cons_of_ne_nil some_
  obtain ⟨here, later⟩ := List.forall_mem_cons.mp plain
  rw [List.cons_append, infix_sep here]
  rintro (inLeft | inRight)
  · exact left inLeft
  · clear some_ plain here
    induction m with
    | nil => exact right inRight
    | cons d m ih =>
      obtain ⟨here, later⟩ := List.forall_mem_cons.mp later
      have parted := (infix_sep here [] (m ++ b)).mp inRight
      rcases parted with none | some_
      · exact notNil (List.infix_nil.mp none)
      · exact ih later some_

/-! ## C strings -/

theorem cstr_append {a : Text} (plain : '\x00' ∉ a) (b : Text) : cstr (a ++ b) = a ++ cstr b := by
  refine List.takeWhile_append_of_pos fun c member => ?_
  exact decide_eq_true fun same => plain (same ▸ member)

/-- With more behind it a buffer is a string at least as long. -/
theorem cstr_prefix (buf more : Text) : ∃ rest, cstr (buf ++ more) = cstr buf ++ rest := by
  rw [cstr, cstr, List.takeWhile_append]
  split
  next whole =>
    rw [(List.takeWhile_prefix _).eq_of_length whole]
    exact ⟨_, rfl⟩
  next => exact ⟨[], (List.append_nil _).symm⟩

theorem not_mem_cstr (buf : Text) : '\x00' ∉ cstr buf := by
  intro member
  unfold cstr at member
  exact absurd (List.mem_takeWhile_imp member) (by decide)

theorem headEnd_stable : CutStream.Stable headEnd := by
  intro buf more head found
  obtain ⟨⟨a, p⟩, there, rfl⟩ := Option.map_eq_some_iff.mp found
  obtain ⟨rest, longer⟩ := cstr_prefix buf more
  rw [headEnd, longer, strstr_append there]
  rfl

end Es3Recomp.Guarantees.Allnet
