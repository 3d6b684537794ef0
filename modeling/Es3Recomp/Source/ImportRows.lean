import Es3Recomp.Library.CLiteral
import Es3Recomp.Library.Json
import Es3Recomp.Source.Imports

/-!
# The text of recomp_imports.h

Source: src/tools/recomp/driver.py:481-493 (what `emit_headers` writes);
src/src/runtime/es3_rt.h:139-153 and src/src/runtime/hle.c:20-35 (what C makes of it). The
driver puts the names between quotes as they are. `readImports` is the compiler's side: the
rows are calls of `X` with an identifier, two strings and a number. Comments, macros and the
prefixes of literals are nothing that the driver writes, and are not read; trigraphs are off,
as they are in the compiler that CMakeLists.txt asks for (15-23, 44-46); the file is read in
the encoding it was written in. Which characters end a line is up to the compiler.
-/
namespace Es3Recomp.Source.ImportRows
open Library Library.CLiteral Source.Imports

/-! ## The driver -/

/-- `'    X(%s, "%s", "%s", %d)'` -/
def writeRow (row : ImportRow) : Text :=
  "    X(".toList ++ (row.id.toList ++ ',' :: ' ' :: '\x22' :: (row.name.toList ++
    '\x22' :: ',' :: ' ' :: '\x22' :: (row.dll.toList ++
      '\x22' :: ',' :: ' ' :: (Json.decimal row.purge ++ [')']))))

def defines : Text := "#define HLE_IMPORTS(X)".toList

/-- The macro `HLE_IMPORTS`, from `#define` to the end of the file. -/
def writeImports (rows : List ImportRow) : Text :=
  defines ++ ' ' :: '\x5c' :: '\n' ::
    (List.intercalate [' ', '\x5c', '\n'] (rows.map writeRow) ++ ['\n'])

/-! ## The compiler -/

def skip (t : Text) : Text := t.dropWhile isBlank

def token (c : Char) (t : Text) : Option Text :=
  if (skip t).head? = some c then some (skip t).tail else none

/-- A decimal constant, with a minus or without, as an `int` of 32 bits. -/
def readInt (t : Text) : Option (Int × Text) :=
  let (negative, t) := Atoi.sign t
  (Json.wholePart t).map fun (digits, rest) =>
    let n : Int := Nat.ofDigitChars 10 digits 0
    ((if negative then -n else n).bmod (2 ^ 32), rest)

variable (lineEnd : Char → Bool)

def readRow (t : Text) : Option (ImportRow × Text) := do
  let t ← token 'X' t
  let t ← token '(' t
  let id := (skip t).takeWhile (· ≠ ',')
  let t ← token ',' ((skip t).dropWhile (· ≠ ','))
  let (name, t) ← read lineEnd (skip t)
  let t ← token ',' t
  let (dll, t) ← read lineEnd (skip t)
  let t ← token ',' t
  let (purge, t) ← readInt (skip t)
  let t ← token ')' t
  some (⟨String.ofList id, String.ofList (cString name), String.ofList (cString dll), purge⟩, t)

/-- The rows up to the end of the line; every row takes a character of the text at least. -/
def readRows : Nat → Text → Option (List ImportRow)
  | 0, _ => none
  | fuel + 1, t =>
    match skip t with
    | [] => some []
    | c :: rest =>
      if lineEnd c then some []
      else do
        let (row, t) ← readRow lineEnd (c :: rest)
        let rows ← readRows fuel t
        some (row :: rows)

/-- The rows of the macro that the text defines. -/
def readImports (t : Text) : Option (List ImportRow) :=
  let t := splice lineEnd t
  if defines <+: t then readRows lineEnd (t.length + 1) (t.drop defines.length) else none

/-- The enumerators of `HleId`. -/
def enumerators (rows : List ImportRow) : List String := rows.map ImportRow.id ++ ["HLE_COUNT"]

/-- The macros of es3_rt.h that stand for a number wherever their name does; the others are
none without an opening bracket behind them. -/
def macros : List String := ["HLE_BASE", "HLE_STRIDE"]

/-- An identifier, the characters of identifiers being given. -/
def Identifier (idChar : Char → Bool) (id : String) : Prop :=
  (∃ c ∈ id.toList.head?, c.isDigit = false) ∧ ∀ c ∈ id.toList, idChar c = true

/-- What an `enum` needs of its enumerators. -/
structure Enumeration (idChar : Char → Bool) (rows : List ImportRow) : Prop where
  identifiers : ∀ row ∈ rows, Identifier idChar row.id
  free : ∀ row ∈ rows, row.id ∉ macros
  once : (enumerators rows).Nodup

/-! ## What is outside the repository -/

/-- What C promises of the characters that end a line. -/
structure LineEnds (lineEnd : Char → Bool) : Prop where
  newline : lineEnd '\n' = true
  printable : ∀ c, ' ' ≤ c → c ≤ '~' → lineEnd c = false

/-- What C promises of the characters of identifiers. -/
def IdChars (idChar : Char → Bool) : Prop :=
  ∀ c : Char, c.isAlphanum = true ∨ c = '_' → idChar c = true

/-- What `str.isalnum` says of the characters of ASCII. -/
def IsAlnum (isalnum : Char → Bool) : Prop := ∀ c : Char, c.toNat < 128 → isalnum c = c.isAlphanum

end Es3Recomp.Source.ImportRows
