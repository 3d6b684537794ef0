import Es3Recomp.Library.TextPattern

/-!
# The imports to trace

Source: src/src/runtime/hle_native.c:633-647 (`watch_init`). `strstr` and `strlen` are C's. The
names of the imports are a parameter: their table is made when the game is compiled.
-/
namespace Es3Recomp.Source.TraceCalls
open Library

/-- What is before the first occurrence, and the text from there on. -/
def strstr (list name : Text) : Option (Text × Text) :=
  if name <+: list then some ([], list)
  else
    match list with
    | [] => none
    | c :: rest => (strstr rest name).map fun found => (c :: found.1, found.2)

/-- The test for one import. -/
def watched (list name : Text) : Bool :=
  match strstr list name with
  | none => false
  | some (before, p) =>
    (before = [] || before.getLast? = some ',') &&
      ((p.drop name.length).head? = none || (p.drop name.length).head? = some ',')

/-- `g_watch`, for each name in its place. -/
def watchInit (list : Option Text) (names : List Text) : List Bool :=
  match list with
  | none => names.map fun _ => false
  | some list => names.map (watched list)

end Es3Recomp.Source.TraceCalls
