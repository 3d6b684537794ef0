import Mathlib.Data.List.Basic

/-!
# Lists of entries, read one after the other

A text is fields with a separator between them. `loop` takes an entry off the front of what is
left, passes over one separator and goes on, without a look at the fields; `loop_reads_iff` says
when its values are those of the fields all the same: just when the first field that is not a
good entry is not taken for one.
-/
namespace Es3Recomp.Library.Fields

variable {τ α : Type} {sep : τ}

/-- A text is one field, or a field with a separator and a text behind it. -/
theorem field_induction {motive : List τ → Prop} (last : ∀ f, sep ∉ f → motive f)
    (more : ∀ f rest, sep ∉ f → motive rest → motive (f ++ sep :: rest)) (text : List τ) :
    motive text := by
  classical
  induction h : text.length using Nat.strongRecOn generalizing text with
  | ind n ih =>
    by_cases parted : sep ∈ text
    · obtain ⟨f, rest, split, plain⟩ := List.eq_append_cons_of_mem parted
      have shorter : rest.length < n := by
        rw [← h, split, List.length_append, List.length_cons]
        omega
      rw [split]
      exact more f rest plain (ih rest.length shorter rest rfl)
    · exact last text parted

/-- A separator in front is passed over. -/
def skip [DecidableEq τ] (sep : τ) : List τ → List τ
  | [] => []
  | c :: rest => if c = sep then rest else c :: rest

/-- Entries from the front of a text, until there is no room, no text or no entry. -/
def loop [DecidableEq τ] (sep : τ) (parse : List τ → Option (α × List τ)) : Nat → List τ → List α
  | 0, _ => []
  | room + 1, e =>
    if e = [] then []
    else
      match parse e with
      | none => []
      | some (a, e) => a :: loop sep parse room (skip sep e)

/-- The values are those of the fields, each of the field in its place, up to the first one that
is no good entry. -/
structure Reads (good : List τ → α → Prop) (room : Nat) (fields : List (List τ)) (as : List α) :
    Prop where
  each : ∀ (k : Nat) (a : α), as[k]? = some a → ∃ f, fields[k]? = some f ∧ good f a
  fits : as.length ≤ room
  stops : as.length < room → ∀ f, fields[as.length]? = some f → ∀ a, ¬ good f a

/-- The first field that is no good entry, if there is room for it, is not taken. -/
def Refuses (good : List τ → α → Prop) (taken : List τ → Prop) (room : Nat)
    (fields : List (List τ)) : Prop :=
  ∀ (k : Nat) (f : List τ), k < room → fields[k]? = some f →
    (∀ (j : Nat) (g : List τ), j < k → fields[j]? = some g → ∃ a, good g a) →
      (∀ a, ¬ good f a) → ¬ taken f

/-- Reading stays inside a field, does not start without one, and takes every good entry whole. -/
structure Parser (sep : τ) (good : List τ → α → Prop) (parse : List τ → Option (α × List τ)) :
    Prop where
  inside : ∀ f rest, sep ∉ f →
    parse (f ++ sep :: rest) = (parse f).map fun r => (r.1, r.2 ++ sep :: rest)
  empty : parse [] = none
  whole : ∀ f a, good f a → ∃ b, parse f = some (b, []) ∧ good f b

section Reading

variable {good : List τ → α → Prop} {taken : List τ → Prop} {room : Nat}

theorem reads_nil : Reads good room [] [] :=
  ⟨fun _ _ absurd => (nomatch absurd), Nat.zero_le _, fun _ _ absurd => (nomatch absurd)⟩

theorem reads_cons {f : List τ} {fields : List (List τ)} {a : α} {as : List α} :
    Reads good (room + 1) (f :: fields) (a :: as) ↔ good f a ∧ Reads good room fields as := by
  constructor
  · intro reads
    obtain ⟨g, here, is_good⟩ := reads.each 0 a rfl
    cases here
    refine ⟨is_good, fun k b there => reads.each (k + 1) b there, Nat.le_of_succ_le_succ reads.fits,
      fun short g there => reads.stops (Nat.succ_lt_succ short) g there⟩
  · intro both
    obtain ⟨is_good, reads⟩ := both
    refine ⟨fun k b there => ?_, Nat.succ_le_succ reads.fits,
      fun short g there => reads.stops (Nat.lt_of_succ_lt_succ short) g there⟩
    cases k with
    | zero =>
      cases there
      exact ⟨f, rfl, is_good⟩
    | succ k => exact reads.each k b there

theorem reads_stop {f : List τ} {fields : List (List τ)} :
    Reads good (room + 1) (f :: fields) [] ↔ ∀ a, ¬ good f a := by
  constructor
  · exact fun reads => reads.stops (Nat.zero_lt_succ _) f rfl
  · intro bad
    refine ⟨fun _ _ absurd => (nomatch absurd), Nat.zero_le _, fun _ g here => ?_⟩
    cases here
    exact bad

theorem refuses_cons {f : List τ} {fields : List (List τ)} :
    Refuses good taken (room + 1) (f :: fields) ↔
      ((∀ a, ¬ good f a) → ¬ taken f) ∧ ((∃ a, good f a) → Refuses good taken room fields) := by
  constructor
  · intro refuses
    refine ⟨refuses 0 f (Nat.zero_lt_succ _) rfl fun j g before => (nomatch before), ?_⟩
    intro is_good k g inside there before
    refine refuses (k + 1) g (Nat.succ_lt_succ inside) there fun j h earlier at_j => ?_
    cases j with
    | zero =>
      cases at_j
      exact is_good
    | succ j => exact before j h (Nat.lt_of_succ_lt_succ earlier) at_j
  · intro both k g inside there before
    cases k with
    | zero =>
      cases there
      exact both.1
    | succ k =>
      have first := before 0 f (Nat.zero_lt_succ _) rfl
      exact both.2 first k g (Nat.lt_of_succ_lt_succ inside) there
        fun j h earlier at_j => before (j + 1) h (Nat.succ_lt_succ earlier) at_j

theorem refuses_nil : Refuses good taken room [] := fun _ _ _ absurd => (nomatch absurd)

end Reading

/-! ## The loop -/

section Loop

variable {good : List τ → α → Prop} {parse : List τ → Option (α × List τ)}

/-- One turn, on a field and what there is behind it. -/
theorem turn_iff (parser : Parser sep good parse) {room : Nat} {f : List τ}
    {fields : List (List τ)} (rest : List τ → List α)
    (later : Reads good room fields (rest []) ↔
      Refuses good (fun f => (parse f).isSome) room fields) :
    Reads good (room + 1) (f :: fields) (((parse f).map fun r => r.1 :: rest r.2).getD []) ↔
      Refuses good (fun f => (parse f).isSome) (room + 1) (f :: fields) := by
  rw [refuses_cons]
  by_cases is_good : ∃ a, good f a
  · obtain ⟨a, here⟩ := is_good
    obtain ⟨b, whole, value⟩ := parser.whole f a here
    have known : ¬ ∀ a, ¬ good f a := fun none => none a here
    have some_ : ∃ a, good f a := ⟨a, here⟩
    rw [whole]
    simp only [Option.map_some, Option.getD_some, reads_cons, value, true_and, later, known,
      false_imp_iff, some_, true_imp_iff]
  · have bad := not_exists.mp is_good
    cases parsed : parse f with
    | none => simp [reads_stop, bad]
    | some r => simp [reads_cons, bad]

variable [DecidableEq τ]

theorem loop_succ (parser : Parser sep good parse) (room : Nat) (e : List τ) :
    loop sep parse (room + 1) e =
      ((parse e).map fun r => r.1 :: loop sep parse room (skip sep r.2)).getD [] := by
  rw [loop]
  by_cases empty : e = []
  · rw [if_pos empty, empty, parser.empty]
    rfl
  · rw [if_neg empty]
    cases parse e <;> rfl

theorem loop_nil (room : Nat) : loop sep parse room [] = [] := by
  cases room <;> rfl

theorem loop_reads_iff (parser : Parser sep good parse) (room : Nat) (text : List τ) :
    Reads good room (text.splitOn sep) (loop sep parse room text) ↔
      Refuses good (fun f => (parse f).isSome) room (text.splitOn sep) := by
  induction room generalizing text with
  | zero =>
    have nothing : Reads good 0 (text.splitOn sep) (loop sep parse 0 text) :=
      ⟨fun _ _ absurd => (nomatch absurd), Nat.le_refl _, fun absurd => (nomatch absurd)⟩
    exact iff_of_true nothing fun k f absurd => (nomatch absurd)
  | succ room ih =>
    rw [loop_succ parser]
    refine field_induction
      (motive := fun text : List τ => Reads good (room + 1) (text.splitOn sep)
        (((parse text).map fun r => r.1 :: loop sep parse room (skip sep r.2)).getD []) ↔
          Refuses good (fun f => (parse f).isSome) (room + 1) (text.splitOn sep))
      (fun f (plain : sep ∉ f) => ?_)
      (fun f rest (plain : sep ∉ f) _ => ?_) text
    · rw [List.splitOn_eq_singleton plain]
      have nothing : Reads good room [] (loop sep parse room (skip sep [])) := by
        rw [skip, loop_nil]
        exact reads_nil
      exact turn_iff parser (fun e => loop sep parse room (skip sep e))
        (iff_of_true nothing refuses_nil)
    · rw [List.splitOn_append_cons_self_of_not_mem plain, parser.inside f rest plain,
        Option.map_map]
      have behind : loop sep parse room (skip sep ([] ++ sep :: rest)) =
          loop sep parse room rest := by
        rw [List.nil_append, skip, if_pos rfl]
      have later := ih rest
      rw [← behind] at later
      exact turn_iff parser (fun e => loop sep parse room (skip sep (e ++ sep :: rest))) later

end Loop

end Es3Recomp.Library.Fields
