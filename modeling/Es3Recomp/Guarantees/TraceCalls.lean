import Es3Recomp.Library.Fields
import Es3Recomp.Source.TraceCalls

/-!
# Which imports a list selects

The test for an import looks at the first place of its name in the list, whatever field that is
in, and does not go on from there (src/src/runtime/hle_native.c:639-645). So a field that
contains the name hides those behind it, although such a field is what the comment there says
the test is about.
-/
namespace Es3Recomp.Guarantees.TraceCalls
open Library Library.Fields Source.TraceCalls

variable {name : Text}

/-- The name is a field, and a field before the first such one contains it. -/
def Hidden (fields : List Text) (name : Text) : Prop :=
  ∃ before behind, fields = before ++ name :: behind ∧ name ∉ before ∧ ∃ f ∈ before, name <:+: f

/-- The first field that contains the name is the name. -/
def First (name : Text) : List Text → Prop
  | [] => False
  | f :: fields => name = f ∨ ¬ name <:+: f ∧ First name fields

theorem first_iff (fields : List Text) :
    First name fields ↔ name ∈ fields ∧ ¬ Hidden fields name := by
  induction fields with
  | nil => simp [First]
  | cons f fields ih =>
    rw [First, ih, List.mem_cons]
    by_cases here : name = f
    · have unhidden : ¬ Hidden (f :: fields) name := by
        intro hidden
        obtain ⟨before, behind, split, new, g, member, _⟩ := hidden
        cases before with
        | nil => cases member
        | cons b before =>
          rw [List.cons_append, List.cons.injEq] at split
          exact new (by rw [here, split.1]; exact List.mem_cons_self)
      exact iff_of_true (Or.inl here) ⟨Or.inl here, unhidden⟩
    · have step : Hidden (f :: fields) name ↔
          name ∈ fields ∧ (name <:+: f ∨ Hidden fields name) := by
        constructor
        · intro hidden
          obtain ⟨before, behind, split, new, g, member, part⟩ := hidden
          cases before with
          | nil => exact absurd (List.cons.inj split).1.symm here
          | cons b before =>
            obtain ⟨same, split⟩ := List.cons.inj split
            have new' : name ∉ before := fun late => new (List.mem_cons_of_mem _ late)
            refine ⟨by rw [split]; simp, ?_⟩
            cases member with
            | head => exact Or.inl (same ▸ part)
            | tail _ late => exact Or.inr ⟨before, behind, split, new', g, late, part⟩
        · intro both
          obtain ⟨member, hides⟩ := both
          have later : ∀ before behind, fields = before ++ name :: behind → name ∉ before →
              (∃ g ∈ f :: before, name <:+: g) → Hidden (f :: fields) name := by
            intro before behind split new part
            refine ⟨f :: before, behind, by rw [split, List.cons_append], ?_, part⟩
            exact fun member => (List.mem_cons.mp member).elim here new
          rcases hides with part | hidden
          · obtain ⟨before, behind, split, new⟩ := List.eq_append_cons_of_mem member
            exact later before behind split new ⟨f, List.mem_cons_self, part⟩
          · obtain ⟨before, behind, split, new, g, inside, part⟩ := hidden
            exact later before behind split new ⟨g, List.mem_cons_of_mem _ inside, part⟩
      rw [step]
      tauto

/-! ## The first place of the name -/

theorem prefix_append_sep {f rest : Text} {sep : Char} (plain : sep ∉ name) :
    name <+: f ++ sep :: rest ↔ name <+: f := by
  constructor
  · intro starts
    induction f generalizing name with
    | nil =>
      cases name with
      | nil => exact List.nil_prefix
      | cons c name =>
        have same : c = sep := (List.cons_prefix_cons.mp starts).1
        exact absurd (by rw [same]; exact List.mem_cons_self) plain
    | cons b f ih =>
      cases name with
      | nil => exact List.nil_prefix
      | cons c name =>
        obtain ⟨same, starts⟩ := List.cons_prefix_cons.mp starts
        exact List.cons_prefix_cons.mpr
          ⟨same, ih (fun late => plain (List.mem_cons_of_mem _ late)) starts⟩
  · exact fun starts => starts.trans (List.prefix_append _ _)

theorem strstr_here {list : Text} (starts : name <+: list) :
    strstr list name = some ([], list) := by
  rw [strstr.eq_def, if_pos starts]

theorem strstr_cons {c : Char} {list : Text} (off : ¬ name <+: c :: list) :
    strstr (c :: list) name = (strstr list name).map fun found => (c :: found.1, found.2) := by
  rw [strstr.eq_def, if_neg off]

theorem strstr_spec {list before p : Text} (found : strstr list name = some (before, p)) :
    list = before ++ p ∧ name <+: p := by
  induction list generalizing before with
  | nil =>
    by_cases starts : name <+: []
    · rw [strstr_here starts] at found
      cases found
      exact ⟨rfl, starts⟩
    · rw [strstr.eq_def, if_neg starts] at found
      cases found
  | cons c list ih =>
    by_cases starts : name <+: c :: list
    · rw [strstr_here starts] at found
      cases found
      exact ⟨rfl, starts⟩
    · rw [strstr_cons starts] at found
      obtain ⟨later, there, same⟩ := Option.map_eq_some_iff.mp found
      cases same
      obtain ⟨split, starts⟩ := ih there
      exact ⟨congrArg (c :: ·) split, starts⟩

theorem strstr_none_iff (list : Text) : strstr list name = none ↔ ¬ name <:+: list := by
  induction list with
  | nil =>
    rw [strstr.eq_def, List.infix_nil, ← List.prefix_nil]
    by_cases starts : name <+: [] <;> simp [starts]
  | cons c list ih =>
    rw [List.infix_cons_iff]
    by_cases starts : name <+: c :: list
    · simp [strstr_here starts, starts]
    · simp [strstr_cons starts, starts, ih]

/-- The first place is in the first field, or else the first place in the rest. -/
theorem strstr_field (some_ : name ≠ []) (plain : ',' ∉ name) (f rest : Text) :
    strstr (f ++ ',' :: rest) name =
      ((strstr f name).map fun found => (found.1, found.2 ++ ',' :: rest)).or
        ((strstr rest name).map fun found => (f ++ ',' :: found.1, found.2)) := by
  induction f with
  | nil =>
    have off : ¬ name <+: [] := fun starts => some_ (List.prefix_nil.mp starts)
    have off' : ¬ name <+: [] ++ ',' :: rest := fun starts =>
      off ((prefix_append_sep plain).mp starts)
    have inside : strstr [] name = none := by rw [strstr.eq_def, if_neg off]
    rw [List.nil_append] at off' ⊢
    rw [strstr_cons off', inside, Option.map_none, Option.none_or]
    rfl
  | cons c f ih =>
    by_cases starts : name <+: c :: f
    · rw [strstr_here starts, strstr_here ((prefix_append_sep plain).mpr starts)]
      rfl
    · have off : ¬ name <+: c :: (f ++ ',' :: rest) := fun later =>
        starts ((prefix_append_sep (f := c :: f) plain).mp later)
      rw [List.cons_append, strstr_cons off, strstr_cons starts, ih]
      cases strstr f name with
      | none => cases strstr rest name <;> rfl
      | some found => rfl

/-! ## The test -/

/-- No field goes on, on either side of the name. -/
def Alone (name before p : Text) : Prop :=
  (before = [] ∨ before.getLast? = some ',') ∧
    ((p.drop name.length).head? = none ∨ (p.drop name.length).head? = some ',')

theorem watched_iff (list : Text) :
    watched list name = true ↔
      ∃ found, strstr list name = some found ∧ Alone name found.1 found.2 := by
  rw [watched]
  cases strstr list name with
  | none => simp
  | some found => simp only [Option.some.injEq, exists_eq_left', Alone, Bool.and_eq_true,
      Bool.or_eq_true, decide_eq_true_eq]

theorem alone_here (before behind : Text) :
    Alone name before (name ++ behind) ↔
      (before = [] ∨ before.getLast? = some ',') ∧
        (behind.head? = none ∨ behind.head? = some ',') := by
  rw [Alone, List.drop_left]

/-- Both sides of a place in a text without a comma are free just when they are empty. -/
theorem sides_iff {before behind : Text} (plain : ',' ∉ before ++ name ++ behind) (rest : Text)
    (stop : rest = [] ∨ rest.head? = some ',') :
    (before = [] ∨ before.getLast? = some ',') ∧
        ((behind ++ rest).head? = none ∨ (behind ++ rest).head? = some ',') ↔
      name = before ++ name ++ behind := by
  have no_last : before.getLast? ≠ some ',' := fun last =>
    plain (List.mem_append_left _ (List.mem_append_left _ (List.mem_of_getLast? last)))
  have empty : name = before ++ name ++ behind ↔ before = [] ∧ behind = [] := by
    constructor
    · intro same
      have lengths := congrArg List.length same
      rw [List.length_append, List.length_append] at lengths
      exact ⟨List.length_eq_zero_iff.mp (by omega), List.length_eq_zero_iff.mp (by omega)⟩
    · intro both
      rw [both.1, both.2, List.nil_append, List.append_nil]
  rw [empty]
  cases behind with
  | nil =>
    rcases stop with none | comma
    · simp [no_last, none]
    · simp [no_last, comma]
  | cons c behind =>
    have other : c ≠ ',' := fun same => plain (by rw [same]; simp)
    simp [other]

theorem watched_last {f : Text} (plain : ',' ∉ f) : watched f name = true ↔ name = f := by
  rw [watched_iff]
  constructor
  · intro test
    obtain ⟨found, here, alone⟩ := test
    obtain ⟨split, behind, shape⟩ := strstr_spec here
    have whole : f = found.1 ++ name ++ behind := by rw [split, ← shape, List.append_assoc]
    rw [← shape, alone_here, ← List.append_nil behind] at alone
    rw [whole] at plain ⊢
    exact (sides_iff plain [] (Or.inl rfl)).mp alone
  · intro same
    have alone : Alone name [] (name ++ []) := (alone_here [] []).mpr ⟨Or.inl rfl, Or.inl rfl⟩
    rw [List.append_nil, same] at alone
    exact ⟨([], f), strstr_here (same ▸ List.prefix_refl f), same ▸ alone⟩

theorem watched_field (some_ : name ≠ []) (plain_name : ',' ∉ name) {f : Text}
    (plain : ',' ∉ f) (rest : Text) :
    watched (f ++ ',' :: rest) name = true ↔
      name = f ∨ ¬ name <:+: f ∧ watched rest name = true := by
  rw [watched_iff, strstr_field some_ plain_name]
  cases here : strstr f name with
  | none =>
    have apart := (strstr_none_iff f).mp here
    have other : name ≠ f := fun same => apart (same ▸ List.infix_refl f)
    simp only [other, apart, false_or, not_false_eq_true, true_and, watched_iff, Option.map_none,
      Option.none_or]
    cases strstr rest name with
    | none => simp
    | some found =>
      have last : (f ++ ',' :: found.1).getLast? = some ',' ↔
          found.1 = [] ∨ found.1.getLast? = some ',' := by
        cases found.1 <;> simp [List.getLast?_append]
      simp only [Option.map_some, Option.some.injEq, exists_eq_left', Alone, last,
        List.append_eq_nil_iff, reduceCtorEq, and_false, false_or]
  | some found =>
    obtain ⟨split, behind, shape⟩ := strstr_spec here
    have whole : f = found.1 ++ name ++ behind := by rw [split, ← shape, List.append_assoc]
    have part : name <:+: f := ⟨found.1, behind, whole.symm⟩
    have sides := sides_iff (whole ▸ plain) (',' :: rest) (Or.inr rfl)
    rw [← whole, ← alone_here, ← List.append_assoc, shape] at sides
    simp only [part, not_true_eq_false, false_and, or_false, ← sides, Option.map_some,
      Option.some_or, Option.some.injEq, exists_eq_left']

theorem watched_first (some_ : name ≠ []) (plain_name : ',' ∉ name) (list : Text) :
    watched list name = true ↔ First name (list.splitOn ',') := by
  refine field_induction (motive := fun list : Text => watched list name = true ↔
    First name (list.splitOn ',')) (fun f (plain : ',' ∉ f) => ?_)
    (fun f rest (plain : ',' ∉ f) ih => ?_) list
  · rw [watched_last plain, List.splitOn_eq_singleton plain]
    simp [First]
  · rw [watched_field some_ plain_name plain, ih, List.splitOn_append_cons_self_of_not_mem plain,
      First]

/-- An import is traced just when it is in the list, unless the list hides it. -/
theorem watch_init_iff (list : Text) (names : List Text) (i : Nat) (at_i : names[i]? = some name)
    (some_ : name ≠ []) (plain : ',' ∉ name) :
    ((watchInit (some list) names)[i]? = some true ↔ name ∈ list.splitOn ',') ↔
      ¬ Hidden (list.splitOn ',') name := by
  have traced : (watchInit (some list) names)[i]? = some true ↔
      First name (list.splitOn ',') := by
    rw [watchInit, List.getElem?_map, at_i, ← watched_first some_ plain, Option.map_some,
      Option.some.injEq]
  have member : Hidden (list.splitOn ',') name → name ∈ list.splitOn ',' := by
    intro hidden
    obtain ⟨before, behind, split, _⟩ := hidden
    rw [split]
    exact List.mem_append_right _ List.mem_cons_self
  rw [traced, first_iff]
  tauto

theorem sleep_after_another :
    ((watchInit (some "CreateFileW,Sleep".toList) ["Sleep".toList])[0]? = some true ↔
        "Sleep".toList ∈ "CreateFileW,Sleep".toList.splitOn ',') ↔
      ¬ Hidden ("CreateFileW,Sleep".toList.splitOn ',') "Sleep".toList :=
  watch_init_iff _ _ 0 rfl (by decide) (by decide)

theorem sleep_ex_hides_sleep :
    ¬ ((watchInit (some "SleepEx,Sleep".toList) ["Sleep".toList])[0]? = some true ↔
      "Sleep".toList ∈ "SleepEx,Sleep".toList.splitOn ',') := by
  decide +kernel

end Es3Recomp.Guarantees.TraceCalls
