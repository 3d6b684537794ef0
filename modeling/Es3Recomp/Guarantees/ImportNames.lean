import Es3Recomp.Guarantees.ImportRows

/-!
# When recomp_imports.h can be compiled

The driver makes an enumerator out of the name of an import, or out of the stem of its DLL
and its name where several DLLs export the name (src/tools/recomp/driver.py:472-482), and
puts `_` for everything that is no letter and no digit (52-53). Imports are told apart by
DLL and name; two of them can still come to one enumerator. The enumerators share their
names with `HLE_COUNT` and with macros (src/src/runtime/es3_rt.h:139-152), and stand in rows
that the compiler has to be able to read (`Guarantees.ImportRows`).
-/
namespace Es3Recomp.Guarantees.ImportNames
open Library Source.Imports Source.ImportRows ImportRows

variable (isalnum : Char → Bool)

/-- What an enumerator is made of. -/
def label (pairs : List Import) (i : Import) : List Char :=
  if 1 < (pairs.filter fun q => q.name = i.name).length then
    (splitextRoot i.dll).toList ++ '_' :: i.name.toList
  else i.name.toList

/-- The characters that an enumerator still shows. -/
def Shown (c : Char) : Prop := isalnum c = true ∧ c ≠ '_'

instance (c : Char) : Decidable (Shown isalnum c) := inferInstanceAs (Decidable (_ ∧ _))

/-- Equally long, and different only where neither has a character that is shown. -/
def Alike (s t : List Char) : Prop :=
  List.Forall₂ (fun c d => c = d ∨ ¬Shown isalnum c ∧ ¬Shown isalnum d) s t

/-! ## One enumerator -/

theorem shown_char (c : Char) :
    (if isalnum c then c else '_') = if Shown isalnum c then c else '_' := by
  by_cases alnum : isalnum c = true
  · by_cases under : c = '_'
    · rw [under, ite_self, ite_self]
    · rw [if_pos alnum, if_pos (show Shown isalnum c from ⟨alnum, under⟩)]
  · rw [if_neg alnum, if_neg fun shown => alnum shown.1]

theorem shown_eq_iff (c d : Char) :
    (if Shown isalnum c then c else '_') = (if Shown isalnum d then d else '_') ↔
      c = d ∨ ¬Shown isalnum c ∧ ¬Shown isalnum d := by
  by_cases left : Shown isalnum c
  · by_cases right : Shown isalnum d
    · simp [left, right]
    · have apart : c ≠ d := fun same => right (same ▸ left)
      simp [left, right, apart, left.2]
  · by_cases right : Shown isalnum d
    · have apart : c ≠ d := fun same => left (same ▸ right)
      simp [left, right, apart, right.2.symm]
    · simp [left, right]

theorem ident_eq_iff (s t : String) :
    ident isalnum s = ident isalnum t ↔ Alike isalnum s.toList t.toList := by
  rw [ident, ident, String.ofList_inj]
  simp only [shown_char]
  rw [Alike, ← List.forall₂_eq_eq_eq, List.forall₂_map_left_iff, List.forall₂_map_right_iff]
  simp only [shown_eq_iff]

theorem ident_append (s t : String) :
    ident isalnum s ++ "_" ++ ident isalnum t = ident isalnum (s ++ "_" ++ t) := by
  simp [ident, ← String.toList_inj]

theorem enumOf_label (pairs : List Import) (i : Import) :
    enumOf isalnum pairs i = "HLE_" ++ ident isalnum (String.ofList (label pairs i)) := by
  unfold enumOf label
  split
  · have text : String.ofList ((splitextRoot i.dll).toList ++ '_' :: i.name.toList) =
        splitextRoot i.dll ++ "_" ++ i.name := by
      simp [← String.toList_inj]
    rw [text, ← ident_append, String.append_assoc, String.append_assoc, String.append_assoc]
  · rw [String.ofList_toList]

theorem enumOf_eq_iff (pairs : List Import) (i j : Import) :
    enumOf isalnum pairs i = enumOf isalnum pairs j ↔
      Alike isalnum (label pairs i) (label pairs j) := by
  rw [enumOf_label, enumOf_label, String.append_right_inj, ident_eq_iff, String.toList_ofList,
    String.toList_ofList]

/-! ## The enumerators of the rows -/

theorem ids_eq (iat : IatMap) (purge : List (Import × Int)) :
    (emitHeaders isalnum iat purge).imports.map ImportRow.id =
      (importPairs iat).map (enumOf isalnum (importPairs iat)) := by
  rw [emitHeaders, List.map_map]
  rfl

/-! ## One name that is taken -/

theorem ident_letters {w : String} (letters : ∀ c ∈ w.toList, isalnum c = true) :
    ident isalnum w = w := by
  have whole : ∀ c ∈ w.toList, (if isalnum c then c else '_') = c := fun c member =>
    if_pos (letters c member)
  rw [ident, List.map_congr_left whole, List.map_id', String.ofList_toList]

theorem alike_shown {s t : List Char} (shown : ∀ c ∈ t, Shown isalnum c) :
    Alike isalnum s t ↔ s = t := by
  constructor
  · intro alike
    rw [Alike] at alike
    induction alike with
    | nil => rfl
    | cons here _ ih =>
      obtain ⟨first, later⟩ := List.forall_mem_cons.mp shown
      rw [here.resolve_right fun hidden => hidden.2 first, ih later]
  · rintro rfl
    exact List.forall₂_same.mpr fun c _ => Or.inl rfl

/-- Only a label that is spelled so becomes a name of letters. -/
theorem enumOf_eq_word_iff (pairs : List Import) (i : Import) {w : String}
    (shown : ∀ c ∈ w.toList, Shown isalnum c) :
    enumOf isalnum pairs i = "HLE_" ++ w ↔ label pairs i = w.toList := by
  have word := ident_letters isalnum fun c member => (shown c member).1
  have whole : enumOf isalnum pairs i = "HLE_" ++ w ↔
      ident isalnum (String.ofList (label pairs i)) = ident isalnum w := by
    rw [enumOf_label, word, String.append_right_inj]
  rw [whole, ident_eq_iff, String.toList_ofList, alike_shown isalnum shown]

/-- The labels whose enumerators are macros or the last of the enumerators. -/
def taken : List String := ["COUNT", "BASE", "STRIDE"]

theorem taken_shown (alnum : IsAlnum isalnum) : ∀ w ∈ taken, ∀ c ∈ w.toList, Shown isalnum c := by
  have ascii : taken.all (fun w => w.toList.all fun c =>
      c.toNat < 128 ∧ c.isAlphanum = true ∧ c ≠ '_') = true := by decide
  intro w member c inside
  have here := List.all_iff_forall_prop.mp (List.all_eq_true.mp ascii w member)
  obtain ⟨low, letter, other⟩ := here c inside
  exact ⟨(alnum c low).trans letter, other⟩

theorem taken_iff (alnum : IsAlnum isalnum) (pairs : List Import) (i : Import) :
    String.ofList (label pairs i) ∈ taken ↔
      enumOf isalnum pairs i ∈ macros ∨ enumOf isalnum pairs i = "HLE_COUNT" := by
  have word (w : String) (member : w ∈ taken) :
      String.ofList (label pairs i) = w ↔ enumOf isalnum pairs i = "HLE_" ++ w := by
    rw [enumOf_eq_word_iff isalnum pairs i (taken_shown isalnum alnum w member),
      ← String.ofList_inj, String.ofList_toList]
  have count : String.ofList (label pairs i) = "COUNT" ↔ enumOf isalnum pairs i = "HLE_COUNT" :=
    word "COUNT" (by decide)
  have base : String.ofList (label pairs i) = "BASE" ↔ enumOf isalnum pairs i = "HLE_BASE" :=
    word "BASE" (by decide)
  have stride : String.ofList (label pairs i) = "STRIDE" ↔ enumOf isalnum pairs i = "HLE_STRIDE" :=
    word "STRIDE" (by decide)
  simp only [taken, macros, List.mem_cons, List.not_mem_nil, or_false, count, base, stride]
  exact or_comm

/-- What is shown of a label has to be a character of an identifier. -/
theorem identifier_iff {idChar : Char → Bool} (letters : IdChars idChar) (pairs : List Import)
    (i : Import) :
    Identifier idChar (enumOf isalnum pairs i) ↔
      ∀ c ∈ label pairs i, isalnum c = true → idChar c = true := by
  have text : (enumOf isalnum pairs i).toList =
      'H' :: 'L' :: 'E' :: '_' :: (label pairs i).map fun c => if isalnum c then c else '_' := by
    rw [enumOf_label, ident, String.toList_append, String.toList_ofList, String.toList_ofList,
      String.toList_ofList]
    rfl
  have shown : ∀ c ∈ ['H', 'L', 'E', '_'], c.isAlphanum = true ∨ c = '_' :=
    List.all_iff_forall_prop.mp (by decide)
  have here : ∀ c ∈ ['H', 'L', 'E', '_'], idChar c = true := fun c member =>
    letters c (shown c member)
  have each (c : Char) :
      idChar (if isalnum c then c else '_') = true ↔ (isalnum c = true → idChar c = true) := by
    by_cases shown : isalnum c = true
    · simp [shown]
    · simp [shown, letters '_' (Or.inr rfl)]
  simp only [List.forall_mem_cons] at here
  rw [Identifier, text]
  simp only [List.head?_cons, Option.mem_def, Option.some.injEq, exists_eq_left',
    List.forall_mem_cons, List.forall_mem_map, here, each, true_and]
  exact and_iff_right (by decide)

/-! ## All of them -/

/-- The imports are told apart by their enumerators. -/
theorem ids_nodup_iff (iat : IatMap) (purge : List (Import × Int)) :
    ((emitHeaders isalnum iat purge).imports.map ImportRow.id).Nodup ↔
      ∀ i ∈ iat.values, ∀ j ∈ iat.values, i ≠ j →
        ¬Alike isalnum (label (importPairs iat) i) (label (importPairs iat) j) := by
  have once : (importPairs iat).Nodup := Finset.sort_nodup _ _
  rw [ids_eq, List.nodup_map_iff_inj_on once]
  simp only [mem_importPairs_iff, enumOf_eq_iff]
  constructor
  · intro apart i hi j hj other alike
    exact other (apart i hi j hj alike)
  · intro apart i hi j hj alike
    by_contra other
    exact apart i hi j hj other alike

/-- The compiler reads the rows that were written, and can make an `enum` of them. -/
def Compiles (idChar lineEnd : Char → Bool) (written : List ImportRow) : Prop :=
  ∃ rows, readImports lineEnd (writeImports written) = some rows ∧
    rows.map (fun row => (row.id, row.name, row.dll)) =
      written.map (fun row => (row.id, row.name, row.dll)) ∧
    Enumeration idChar rows

/-- What the imports have to be like for their enumerators to make an `enum`. -/
structure Nameable (idChar : Char → Bool) (iat : IatMap) : Prop where
  letters : ∀ i ∈ iat.values, ∀ c ∈ label (importPairs iat) i, isalnum c = true → idChar c = true
  free : ∀ i ∈ iat.values, String.ofList (label (importPairs iat) i) ∉ taken
  apart : ∀ i ∈ iat.values, ∀ j ∈ iat.values, i ≠ j →
    ¬Alike isalnum (label (importPairs iat) i) (label (importPairs iat) j)

theorem enumerators_nodup (rows : List ImportRow) :
    (enumerators rows).Nodup ↔
      (rows.map ImportRow.id).Nodup ∧ ∀ row ∈ rows, row.id ≠ "HLE_COUNT" := by
  rw [enumerators, List.nodup_append]
  simp only [List.nodup_singleton, List.mem_singleton, forall_eq, List.forall_mem_map, true_and]

theorem enumeration_iff {idChar : Char → Bool} (alnum : IsAlnum isalnum) (letters : IdChars idChar)
    (iat : IatMap) (purge : List (Import × Int)) :
    Enumeration idChar (emitHeaders isalnum iat purge).imports ↔ Nameable isalnum idChar iat := by
  have each (P : String → Prop) : (∀ row ∈ (emitHeaders isalnum iat purge).imports, P row.id) ↔
      ∀ i ∈ iat.values, P (enumOf isalnum (importPairs iat) i) := by
    rw [emitHeaders, List.forall_mem_map]
    simp only [mem_importPairs_iff]
  have identifiers := each (Identifier idChar)
  have free := each (· ∉ macros)
  have last := each (· ≠ "HLE_COUNT")
  have apart := ids_nodup_iff isalnum iat purge
  have unused (i : Import) : String.ofList (label (importPairs iat) i) ∉ taken ↔
      enumOf isalnum (importPairs iat) i ∉ macros ∧
        enumOf isalnum (importPairs iat) i ≠ "HLE_COUNT" := by
    rw [taken_iff isalnum alnum, not_or]
  simp only [identifier_iff isalnum letters] at identifiers
  constructor
  · intro enumeration
    obtain ⟨once, other⟩ := (enumerators_nodup _).mp enumeration.once
    exact
      { letters := identifiers.mp enumeration.identifiers
        free := fun i listed => (unused i).mpr
          ⟨free.mp enumeration.free i listed, last.mp other i listed⟩
        apart := apart.mp once }
  · intro nameable
    have each_free (i : Import) (listed : i ∈ iat.values) := (unused i).mp (nameable.free i listed)
    exact
      { identifiers := identifiers.mpr nameable.letters
        free := free.mpr fun i listed => (each_free i listed).1
        once := (enumerators_nodup _).mpr ⟨apart.mpr nameable.apart,
          last.mpr fun i listed => (each_free i listed).2⟩ }

/-- Only the identifiers count. -/
theorem enumeration_congr {idChar : Char → Bool} {rows rows' : List ImportRow}
    (same : rows.map ImportRow.id = rows'.map ImportRow.id) (holds : Enumeration idChar rows) :
    Enumeration idChar rows' := by
  have each (P : String → Prop) (all : ∀ row ∈ rows, P row.id) : ∀ row ∈ rows', P row.id := by
    rw [← List.forall_mem_map, ← same, List.forall_mem_map]
    exact all
  refine ⟨each (Identifier idChar) holds.identifiers, each (· ∉ macros) holds.free, ?_⟩
  have once := holds.once
  rwa [enumerators, same] at once

theorem ids_asInt (rows : List ImportRow) :
    (rows.map asInt).map ImportRow.id = rows.map ImportRow.id := by
  rw [List.map_map]
  rfl

/-- The identifiers that are written make an `enum` just when the imports can be named; and the
header can be compiled, with a row of its own for every import, just when their names can be
printed as they are, too. -/
theorem header_compiles_iff (idChar lineEnd : Char → Bool) (alnum : IsAlnum isalnum)
    (letters : IdChars idChar) (ends : LineEnds lineEnd) (iat : IatMap)
    (purge : List (Import × Int)) :
    (Enumeration idChar (emitHeaders isalnum iat purge).imports ↔ Nameable isalnum idChar iat) ∧
      (Compiles idChar lineEnd (emitHeaders isalnum iat purge).imports ↔
        Nameable isalnum idChar iat ∧ ∀ i ∈ iat.values,
          CLiteral.Plain lineEnd i.name.toList ∧ CLiteral.Plain lineEnd i.dll.toList) := by
  have tidy := tidy_emitHeaders alnum iat purge
  have names := printable_emitHeaders lineEnd isalnum iat purge
  have shape := enumeration_iff isalnum alnum letters iat purge
  refine ⟨shape, ?_⟩
  constructor
  · rintro ⟨rows, read, same, enumeration⟩
    have printable := printable_of_readImports ends tidy read fun k row at_k => by
      have here := congrArg (·[k]?) same
      simp only [List.getElem?_map, at_k, Option.map_some] at here
      obtain ⟨row', found, key⟩ := Option.map_eq_some_iff.mp here
      simp only [Prod.mk.injEq] at key
      exact ⟨row', found, key.2.1, key.2.2⟩
    rw [readImports_written ends tidy printable] at read
    cases read
    exact ⟨shape.mp (enumeration_congr (ids_asInt _) enumeration), names.mp printable⟩
  · rintro ⟨nameable, plain⟩
    refine ⟨_, readImports_written ends tidy (names.mpr plain), ?_,
      enumeration_congr (ids_asInt _).symm (shape.mpr nameable)⟩
    rw [List.map_map]
    rfl

/-! ## Imports that are all different -/

theorem label_perm {pairs pairs' : List Import} (same : pairs.Perm pairs') (i : Import) :
    label pairs i = label pairs' i := by
  rw [label, label, (same.filter _).length_eq]

theorem label_importPairs {iat : IatMap} (once : iat.values.Nodup) (i : Import) :
    label (importPairs iat) i = label iat.values i := by
  have sorted : (importPairs iat).Nodup := Finset.sort_nodup _ _
  exact label_perm ((List.perm_ext_iff_of_nodup sorted once).mpr fun _ => mem_importPairs_iff) i

/-- The letters and digits of ASCII, and the underscore. -/
def asciiId (c : Char) : Bool := c.isAlphanum || c = '_'

theorem asciiId_letters : IdChars asciiId := by
  rintro c (letter | rfl)
  · rw [asciiId, letter, Bool.true_or]
  · rfl

/-- Two libraries that export by ordinal, and one that does not. -/
def twoLibraries : IatMap where
  items := [(0x0081D000, ⟨"KERNEL32.dll", "Sleep"⟩), (0x0081D004, ⟨"eOkaoDt.dll", "ordinal_302"⟩),
    (0x0081D008, ⟨"eOkaoGn.dll", "ordinal_302"⟩)]
  inside := by decide
  apart := by decide

theorem two_libraries_compile :
    Enumeration asciiId (emitHeaders Char.isAlphanum twoLibraries []).imports ∧
      Compiles asciiId lineFeed (emitHeaders Char.isAlphanum twoLibraries []).imports := by
  have once : twoLibraries.values.Nodup := by decide
  have nameable : Nameable Char.isAlphanum asciiId twoLibraries :=
    { letters := fun _ _ c _ shown => asciiId_letters c (Or.inl shown)
      free := by
        simp only [label_importPairs once]
        decide
      apart := by
        simp only [label_importPairs once, Alike]
        decide }
  have law := header_compiles_iff Char.isAlphanum asciiId lineFeed isAlphanum_alnum
    asciiId_letters lineFeed_ends twoLibraries []
  exact ⟨law.1.mpr nameable, law.2.mpr ⟨nameable, by decide⟩⟩

/-! ## Two calling conventions -/

/-- A DLL that exports a function in two calling conventions. -/
def twoConventions : IatMap where
  items := [(0x00402000, ⟨"iobrd.dll", "read@4"⟩), (0x00402004, ⟨"iobrd.dll", "read_4"⟩)]
  inside := by decide
  apart := by decide

/-- Both of them become `HLE_read_4`. -/
theorem two_conventions_one_enumerator :
    ¬Enumeration asciiId (emitHeaders Char.isAlphanum twoConventions []).imports ∧
      ¬Compiles asciiId lineFeed (emitHeaders Char.isAlphanum twoConventions []).imports := by
  have twice : ¬Enumeration asciiId (emitHeaders Char.isAlphanum twoConventions []).imports := by
    intro enumeration
    have once := ((enumerators_nodup _).mp enumeration.once).1
    rw [ids_nodup_iff] at once
    have alike : Alike Char.isAlphanum (label twoConventions.values ⟨"iobrd.dll", "read@4"⟩)
        (label twoConventions.values ⟨"iobrd.dll", "read_4"⟩) := by
      unfold Alike
      decide
    refine once ⟨"iobrd.dll", "read@4"⟩ (by decide) ⟨"iobrd.dll", "read_4"⟩ (by decide)
      (by decide) ?_
    rwa [label_importPairs (by decide), label_importPairs (by decide)]
  refine ⟨twice, ?_⟩
  rintro ⟨rows, -, same, enumeration⟩
  have ids := congrArg (List.map Prod.fst) same
  rw [List.map_map, List.map_map] at ids
  exact twice (enumeration_congr ids enumeration)

end Es3Recomp.Guarantees.ImportNames
