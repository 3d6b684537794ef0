import Es3Recomp.Source.ImportRows

/-!
# What C reads in recomp_imports.h

The driver puts the names of an import between quotes as they are
(src/tools/recomp/driver.py:490-492), and the compiler reads literals there
(src/src/runtime/hle.c:20-35). The rows come back as they were written just when no name has a
quote, a backslash, the end of a line or a zero in it (`readImports_written`,
`printable_of_readImports`): any other name loses a character at least, or ends elsewhere.
-/
namespace Es3Recomp.Guarantees.ImportRows
open Library Library.CLiteral Source.Imports Source.ImportRows

variable {lineEnd : Char → Bool}

/-- An identifier is not taken apart by what the reader looks for. -/
def Tidy (id : String) : Prop := ∀ c ∈ id.toList, isBlank c = false ∧ c ≠ ',' ∧ c ≠ '\x5c'

variable (lineEnd) in
def Printable (row : ImportRow) : Prop :=
  Plain lineEnd row.name.toList ∧ Plain lineEnd row.dll.toList

/-- The row with the number that an `int` has room for. -/
def asInt (row : ImportRow) : ImportRow := { row with purge := row.purge.bmod (2 ^ 32) }

/-! ## The pieces of a row -/

theorem skip_solid {c : Char} (solid : isBlank c = false) (t : Text) : skip (c :: t) = c :: t :=
  List.dropWhile_cons_of_neg (by rw [solid]; decide)

theorem skip_front {s : Text} (solid : ∀ c ∈ s, isBlank c = false) {c : Char}
    (solid' : isBlank c = false) (t : Text) : skip (s ++ c :: t) = s ++ c :: t := by
  cases s with
  | nil => exact skip_solid solid' t
  | cons d s => exact skip_solid (solid d List.mem_cons_self) (s ++ c :: t)

theorem token_here {c : Char} (solid : isBlank c = false) (t : Text) : token c (c :: t) = some t := by
  rw [token, skip_solid solid]
  exact if_pos rfl

theorem decimal_plain (i : Int) : ∀ c ∈ Json.decimal i, c ≠ '\x5c' ∧ isBlank c = false := by
  have digit : ∀ c ∈ Nat.toDigits 10 i.natAbs, c ≠ '\x5c' ∧ isBlank c = false := by
    intro c member
    have digit : c.isDigit = true := Nat.isDigit_of_mem_toDigits (by decide) (by decide) member
    constructor
    · rintro rfl
      cases digit
    · rw [isBlank, Bool.or_eq_false_iff, decide_eq_false_iff_not, decide_eq_false_iff_not]
      constructor
      · rintro rfl
        cases digit
      · rintro rfl
        cases digit
  rw [Json.decimal]
  split
  · exact List.forall_mem_cons.mpr ⟨by decide, digit⟩
  · exact digit

theorem readInt_decimal (i : Int) {c : Char} (stop : c.isDigit = false) (rest : Text) :
    readInt (Json.decimal i ++ c :: rest) = some (i.bmod (2 ^ 32), c :: rest) := by
  rw [Json.decimal]
  split
  · rename_i negative
    have size : -(i.natAbs : Int) = i := by omega
    rw [readInt, List.cons_append, Atoi.sign]
    simp only [Json.wholePart_toDigits _ stop, Option.map_some, Nat.ofDigitChars_ten_toDigits,
      if_true, size]
  · rename_i positive
    have size : (i.natAbs : Int) = i := by omega
    rw [readInt, Atoi.sign_toDigits]
    simp only [Json.wholePart_toDigits _ stop, Option.map_some, Nat.ofDigitChars_ten_toDigits,
      Bool.false_eq_true, if_false, size]

/-! ## A row -/

variable (lineEnd) in
/-- What the compiler has before it from a row on. -/
def rowText (row : ImportRow) (rest : Text) : Text :=
  "    X(".toList ++ (row.id.toList ++ ',' :: ' ' :: '\x22' :: (splice lineEnd row.name.toList ++
    '\x22' :: ',' :: ' ' :: '\x22' :: (splice lineEnd row.dll.toList ++
      '\x22' :: ',' :: ' ' :: (Json.decimal row.purge ++ ')' :: rest))))

theorem splice_writeRow (ends : LineEnds lineEnd) {row : ImportRow} (tidy : Tidy row.id)
    (rest : Text) :
    splice lineEnd (writeRow row ++ rest) = rowText lineEnd row (splice lineEnd rest) := by
  have quote : lineEnd '\x22' = false := ends.printable _ (by decide) (by decide)
  have before : ∀ c ∈ "    X(".toList, c ≠ '\x5c' := List.all_iff_forall_prop.mp (by decide)
  have number : ∀ c ∈ Json.decimal row.purge, c ≠ '\x5c' := fun c member =>
    (decimal_plain row.purge c member).1
  unfold writeRow rowText
  simp only [List.append_assoc, List.cons_append]
  rw [splice_plain_append before, splice_plain_append fun c member => (tidy c member).2.2]
  simp only [splice_cons (show ',' ≠ '\x5c' by decide), splice_cons (show ' ' ≠ '\x5c' by decide),
    splice_cons (show '\x22' ≠ '\x5c' by decide), splice_append quote,
    splice_plain_append number, splice_cons (show ')' ≠ '\x5c' by decide), List.nil_append]

/-- What is behind the name, and behind the DLL. -/
def afterDll (row : ImportRow) (rest : Text) : Text := ' ' :: (Json.decimal row.purge ++ ')' :: rest)

variable (lineEnd) in
def afterName (row : ImportRow) (rest : Text) : Text :=
  ' ' :: '\x22' :: (splice lineEnd row.dll.toList ++ '\x22' :: ',' :: afterDll row rest)

theorem readRow_rowText {row : ImportRow} (tidy : Tidy row.id) (rest : Text) :
    readRow lineEnd (rowText lineEnd row rest) = (do
      let (name, t) ← read lineEnd
        ('\x22' :: (splice lineEnd row.name.toList ++ '\x22' :: ',' :: afterName lineEnd row rest))
      let t ← token ',' t
      let (dll, t) ← read lineEnd (skip t)
      let t ← token ',' t
      let (purge, t) ← readInt (skip t)
      let t ← token ')' t
      some (⟨row.id, String.ofList (cString name), String.ofList (cString dll), purge⟩, t)) := by
  have id (u : Text) : skip (row.id.toList ++ ',' :: u) = row.id.toList ++ ',' :: u :=
    skip_front (fun c member => (tidy c member).1) (by decide) u
  have all : ∀ c ∈ row.id.toList, decide (c ≠ ',') = true := fun c member =>
    decide_eq_true (tidy c member).2.1
  have open_ (u : Text) : token 'X' ("    X(".toList ++ u) = some ('(' :: u) := rfl
  have blank (u : Text) : skip (' ' :: '\x22' :: u) = '\x22' :: u := rfl
  unfold readRow rowText
  rw [open_]
  simp only [Option.bind_eq_bind, Option.bind_some, token_here (show isBlank '(' = false by decide),
    id, List.takeWhile_append_of_pos all, List.dropWhile_append_of_pos all]
  rw [List.takeWhile_cons_of_neg (by decide), List.dropWhile_cons_of_neg (by decide),
    token_here (by decide), Option.bind_some, blank, List.append_nil, String.ofList_toList]
  rfl

theorem readInt_afterDll (row : ImportRow) (rest : Text) :
    readInt (skip (afterDll row rest)) = some ((asInt row).purge, ')' :: rest) := by
  have blank : skip (afterDll row rest) = skip (Json.decimal row.purge ++ ')' :: rest) := rfl
  have solid : ∀ c ∈ Json.decimal row.purge, isBlank c = false := fun c member =>
    (decimal_plain row.purge c member).2
  rw [blank, skip_front solid (by decide), readInt_decimal row.purge (by decide)]
  rfl

theorem skip_afterName (row : ImportRow) (rest : Text) :
    skip (afterName lineEnd row rest) =
      '\x22' :: (splice lineEnd row.dll.toList ++ '\x22' :: ',' :: afterDll row rest) := rfl

theorem token_comma (t : Text) : token ',' (',' :: t) = some t := token_here (by decide) t

/-- A row whose names can be printed as they are is read as it was written. -/
theorem readRow_printed {row : ImportRow} (tidy : Tidy row.id) (printable : Printable lineEnd row)
    (rest : Text) : readRow lineEnd (rowText lineEnd row rest) = some (asInt row, rest) := by
  obtain ⟨name, name_whole⟩ := read_printed printable.1 (afterName lineEnd row rest)
  obtain ⟨dll, dll_whole⟩ := read_printed printable.2 (afterDll row rest)
  rw [readRow_rowText tidy, name]
  simp only [Option.bind_eq_bind, Option.bind_some, token_comma, skip_afterName, dll,
    readInt_afterDll, token_here (show isBlank ')' = false by decide), name_whole, dll_whole,
    String.ofList_toList]
  rfl

/-- A row that is read with the names it was written with could be printed so. -/
theorem printable_of_readRow (ends : LineEnds lineEnd) {row row' : ImportRow} (tidy : Tidy row.id)
    {rest rest' : Text} (h : readRow lineEnd (rowText lineEnd row rest) = some (row', rest'))
    (name : row'.name = row.name) (dll : row'.dll = row.dll) :
    Printable lineEnd row ∧ rest' = rest := by
  have comma : lineEnd ',' = false := ends.printable _ (by decide) (by decide)
  rw [readRow_rowText tidy] at h
  simp only [Option.bind_eq_bind, Option.bind_eq_some_iff] at h
  obtain ⟨⟨v, r⟩, read_name, t, taken, ⟨v', r'⟩, read_dll, t', taken', ⟨n, r''⟩, read_int, t'', closed,
    same⟩ := h
  cases same
  have name_whole : cString v = row.name.toList := by rw [← name, String.toList_ofList]
  obtain ⟨plain, rfl⟩ := plain_of_read comma read_name name_whole
  rw [token_comma] at taken
  cases taken
  rw [skip_afterName] at read_dll
  have dll_whole : cString v' = row.dll.toList := by rw [← dll, String.toList_ofList]
  obtain ⟨plain', rfl⟩ := plain_of_read comma read_dll dll_whole
  rw [token_comma] at taken'
  cases taken'
  rw [readInt_afterDll] at read_int
  cases read_int
  rw [token_here (by decide)] at closed
  cases closed
  exact ⟨⟨plain, plain'⟩, rfl⟩

/-! ## All rows -/

variable (lineEnd) in
/-- What the compiler has before it behind the name of the macro. -/
def rowsText : List ImportRow → Text
  | [] => ['\n']
  | [row] => rowText lineEnd row ['\n']
  | row :: rows => rowText lineEnd row (' ' :: rowsText rows)

theorem splice_rows (ends : LineEnds lineEnd) {rows : List ImportRow}
    (tidy : ∀ row ∈ rows, Tidy row.id) :
    splice lineEnd (List.intercalate [' ', '\x5c', '\n'] (rows.map writeRow) ++ ['\n']) =
      rowsText lineEnd rows := by
  have last : splice lineEnd ['\n'] = ['\n'] := splice_cons (by decide) []
  induction rows with
  | nil => exact last
  | cons row rows ih =>
    obtain ⟨here, later⟩ := List.forall_mem_cons.mp tidy
    cases rows with
    | nil =>
      have one : List.intercalate [' ', '\x5c', '\n'] ([row].map writeRow) = writeRow row := by
        simp [List.intercalate]
      rw [one, splice_writeRow ends here, last, rowsText]
    | cons next rows =>
      have more : List.intercalate [' ', '\x5c', '\n'] ((row :: next :: rows).map writeRow) =
          writeRow row ++ ' ' :: '\x5c' :: '\n' ::
            List.intercalate [' ', '\x5c', '\n'] ((next :: rows).map writeRow) := by
        simp [List.intercalate]
      rw [more, List.append_assoc, splice_writeRow ends here, List.cons_append,
        splice_cons (by decide), List.cons_append, List.cons_append, splice, if_pos ends.newline,
        ih later]
      rfl

theorem readRow_skip (t : Text) : readRow lineEnd (skip t) = readRow lineEnd t := by
  have twice : skip (skip t) = skip t := List.dropWhile_idempotent _ t
  have token_skip : token 'X' (skip t) = token 'X' t := by rw [token, token, twice]
  rw [readRow, token_skip, readRow]

theorem readRows_row (ends : LineEnds lineEnd) (row : ImportRow) (rest : Text) (fuel : Nat) :
    readRows lineEnd (fuel + 1) (rowText lineEnd row rest) =
      (readRow lineEnd (rowText lineEnd row rest)).bind fun r =>
        (readRows lineEnd fuel r.2).map (r.1 :: ·) := by
  have marked : lineEnd 'X' = false := ends.printable _ (by decide) (by decide)
  obtain ⟨t, front⟩ : ∃ t, skip (rowText lineEnd row rest) = 'X' :: t := ⟨_, rfl⟩
  rw [← readRow_skip, readRows]
  simp only [front, marked, Bool.false_eq_true, if_false, Option.bind_eq_bind, Option.map_eq_bind]
  rfl

/-- A line that goes on with a blank. -/
theorem readRows_blank (t : Text) (fuel : Nat) :
    readRows lineEnd fuel (' ' :: t) = readRows lineEnd fuel t := by
  cases fuel <;> rfl

theorem readRows_end (ends : LineEnds lineEnd) (fuel : Nat) :
    readRows lineEnd (fuel + 1) ['\n'] = some [] := by
  have front : skip ['\n'] = ['\n'] := rfl
  rw [readRows, front]
  exact if_pos ends.newline

variable (lineEnd) in
/-- The text behind a row is that of the other rows, but for a blank. -/
theorem rowsText_cons (row : ImportRow) (rows : List ImportRow) :
    ∃ rest, rowsText lineEnd (row :: rows) = rowText lineEnd row rest ∧
      ∀ fuel, readRows lineEnd fuel rest = readRows lineEnd fuel (rowsText lineEnd rows) := by
  cases rows with
  | nil => exact ⟨_, rfl, fun _ => rfl⟩
  | cons next rows => exact ⟨_, rfl, readRows_blank _⟩

theorem readRows_printed (ends : LineEnds lineEnd) {rows : List ImportRow}
    (tidy : ∀ row ∈ rows, Tidy row.id) (printable : ∀ row ∈ rows, Printable lineEnd row)
    {fuel : Nat} (enough : rows.length < fuel) :
    readRows lineEnd fuel (rowsText lineEnd rows) = some (rows.map asInt) := by
  induction rows generalizing fuel with
  | nil =>
    cases fuel with
    | zero => exact absurd enough (Nat.not_lt_zero _)
    | succ fuel => exact readRows_end ends fuel
  | cons row rows ih =>
    obtain ⟨here, later⟩ := List.forall_mem_cons.mp tidy
    obtain ⟨fits, others⟩ := List.forall_mem_cons.mp printable
    obtain ⟨rest, text, same⟩ := rowsText_cons lineEnd row rows
    cases fuel with
    | zero => exact absurd enough (Nat.not_lt_zero _)
    | succ fuel =>
      rw [text, readRows_row ends, readRow_printed here fits, Option.bind_some, same,
        ih later others (Nat.lt_of_succ_lt_succ enough)]
      rfl

theorem printable_of_readRows (ends : LineEnds lineEnd) {rows rows' : List ImportRow}
    (tidy : ∀ row ∈ rows, Tidy row.id) {fuel : Nat}
    (h : readRows lineEnd fuel (rowsText lineEnd rows) = some rows')
    (same : ∀ (k : Nat) (row : ImportRow), rows[k]? = some row →
      ∃ row' : ImportRow, rows'[k]? = some row' ∧ row'.name = row.name ∧ row'.dll = row.dll) :
    ∀ row ∈ rows, Printable lineEnd row := by
  induction rows generalizing fuel rows' with
  | nil => exact nofun
  | cons row rows ih =>
    obtain ⟨here, later⟩ := List.forall_mem_cons.mp tidy
    obtain ⟨rest, text, rest_same⟩ := rowsText_cons lineEnd row rows
    cases fuel with
    | zero => cases h
    | succ fuel =>
      rw [text, readRows_row ends] at h
      obtain ⟨⟨first, t⟩, read, h⟩ := Option.bind_eq_some_iff.mp h
      obtain ⟨others, read', rfl⟩ := Option.map_eq_some_iff.mp h
      obtain ⟨_, at_zero, name, dll⟩ := same 0 row rfl
      cases at_zero
      obtain ⟨printable, rfl⟩ := printable_of_readRow ends here read name dll
      have rest_read : readRows lineEnd fuel (rowsText lineEnd rows) = some others := by
        rw [← rest_same]
        exact read'
      exact List.forall_mem_cons.mpr ⟨printable, ih later rest_read fun k row at_k =>
        same (k + 1) row at_k⟩

/-! ## The file -/

theorem splice_written (ends : LineEnds lineEnd) {rows : List ImportRow}
    (tidy : ∀ row ∈ rows, Tidy row.id) :
    splice lineEnd (writeImports rows) = defines ++ ' ' :: rowsText lineEnd rows := by
  have plain : ∀ c ∈ defines, c ≠ '\x5c' := List.all_iff_forall_prop.mp (by decide)
  rw [writeImports, splice_plain_append plain, splice_cons (by decide), splice,
    if_pos ends.newline, splice_rows ends tidy]

theorem readImports_eq (ends : LineEnds lineEnd) {rows : List ImportRow}
    (tidy : ∀ row ∈ rows, Tidy row.id) :
    readImports lineEnd (writeImports rows) =
      readRows lineEnd ((defines ++ ' ' :: rowsText lineEnd rows).length + 1)
        (rowsText lineEnd rows) := by
  rw [readImports, splice_written ends tidy]
  simp only [List.prefix_append, if_true, List.drop_left, readRows_blank]

variable (lineEnd) in
theorem rowsText_length (rows : List ImportRow) :
    rows.length ≤ (rowsText lineEnd rows).length := by
  induction rows with
  | nil => exact Nat.zero_le _
  | cons row rows ih =>
    cases rows with
    | nil => exact Nat.succ_pos _
    | cons next rows =>
      have text : rowsText lineEnd (row :: next :: rows) =
          rowText lineEnd row (' ' :: rowsText lineEnd (next :: rows)) := rfl
      rw [List.length_cons, text]
      unfold rowText
      simp only [List.length_append, List.length_cons] at ih ⊢
      omega

/-- Names that can be printed as they are come back, with their numbers as far as an `int`
has room for them. -/
theorem readImports_written (ends : LineEnds lineEnd) {rows : List ImportRow}
    (tidy : ∀ row ∈ rows, Tidy row.id) (printable : ∀ row ∈ rows, Printable lineEnd row) :
    readImports lineEnd (writeImports rows) = some (rows.map asInt) := by
  have short := rowsText_length lineEnd rows
  rw [readImports_eq ends tidy]
  apply readRows_printed ends tidy printable
  rw [List.length_append, List.length_cons]
  omega

/-- Rows that come back with the names they were written with have no others. -/
theorem printable_of_readImports (ends : LineEnds lineEnd) {rows rows' : List ImportRow}
    (tidy : ∀ row ∈ rows, Tidy row.id)
    (h : readImports lineEnd (writeImports rows) = some rows')
    (same : ∀ (k : Nat) (row : ImportRow), rows[k]? = some row →
      ∃ row' : ImportRow, rows'[k]? = some row' ∧ row'.name = row.name ∧ row'.dll = row.dll) :
    ∀ row ∈ rows, Printable lineEnd row := by
  rw [readImports_eq ends tidy] at h
  exact printable_of_readRows ends tidy h same

example : readImports (· = '\n')
      (writeImports [⟨"HLE_Open", "Open", "io\\board.dll", 4⟩, ⟨"HLE_Sleep", "Sleep", "k.dll", -1⟩]) =
    some [⟨"HLE_Open", "Open", "io\x08oard.dll", 4⟩, ⟨"HLE_Sleep", "Sleep", "k.dll", -1⟩] := by
  decide +kernel

/-! ## The rows of the driver -/

theorem tidy_append {s t : String} (left : Tidy s) (right : Tidy t) : Tidy (s ++ t) := by
  intro c member
  rw [String.toList_append, List.mem_append] at member
  exact member.elim (left c) (right c)

theorem tidy_ident {isalnum : Char → Bool} (alnum : IsAlnum isalnum) (name : String) :
    Tidy (ident isalnum name) := by
  intro c member
  rw [ident, String.toList_ofList, List.mem_map] at member
  obtain ⟨d, -, rfl⟩ := member
  split
  · rename_i shown
    have other : ∀ a : Char, a.toNat < 128 → a.isAlphanum = false → d ≠ a := by
      rintro a ascii off rfl
      rw [alnum d ascii, off] at shown
      cases shown
    refine ⟨?_, other ',' (by decide) (by decide), other '\x5c' (by decide) (by decide)⟩
    simp [isBlank, other ' ' (by decide) (by decide), other '\t' (by decide) (by decide)]
  · decide

/-- An enumerator is read up to the comma behind it. -/
theorem tidy_enumOf {isalnum : Char → Bool} (alnum : IsAlnum isalnum) (pairs : List Import)
    (i : Import) : Tidy (enumOf isalnum pairs i) := by
  have hle : Tidy "HLE_" := List.all_iff_forall_prop.mp (by decide)
  have under : Tidy "_" := List.all_iff_forall_prop.mp (by decide)
  rw [enumOf]
  split
  · exact tidy_append (tidy_append (tidy_append hle (tidy_ident alnum _)) under)
      (tidy_ident alnum _)
  · exact tidy_append hle (tidy_ident alnum _)

theorem tidy_emitHeaders {isalnum : Char → Bool} (alnum : IsAlnum isalnum) (iat : IatMap)
    (purge : List (Import × Int)) : ∀ row ∈ (emitHeaders isalnum iat purge).imports, Tidy row.id := by
  intro row member
  obtain ⟨i, -, rfl⟩ := List.mem_map.mp member
  exact tidy_enumOf alnum _ i

variable (lineEnd) in
theorem printable_emitHeaders (isalnum : Char → Bool) (iat : IatMap) (purge : List (Import × Int)) :
    (∀ row ∈ (emitHeaders isalnum iat purge).imports, Printable lineEnd row) ↔
      ∀ i ∈ iat.values, Plain lineEnd i.name.toList ∧ Plain lineEnd i.dll.toList := by
  rw [emitHeaders, List.forall_mem_map]
  simp only [mem_importPairs_iff]
  rfl

/-! ## A compiler, and ASCII -/

/-- A compiler that ends a line at a line feed only. -/
def lineFeed (c : Char) : Bool := c = '\n'

theorem lineFeed_ends : LineEnds lineFeed where
  newline := rfl
  printable c blank _ := by
    rw [lineFeed, decide_eq_false_iff_not]
    rintro rfl
    exact absurd blank (by decide)

theorem isAlphanum_alnum : IsAlnum Char.isAlphanum := fun _ _ => rfl

end Es3Recomp.Guarantees.ImportRows
