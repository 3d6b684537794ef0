import Mathlib.Algebra.Group.Nat.Defs
import Es3Recomp.Library.TextPattern

/-!
# The driver: lifted bodies to C sources

Source: src/tools/recomp/driver.py:205 (`_DISPATCH`), 268-288 and 337-396 (`recompile`, but
for the closure loop), 451-454 (the lifted table of `emit_headers`). What lifts a function is
another program; its texts are given. Text is a list of characters.
-/
namespace Es3Recomp.Source.Driver
open Library Pattern

/-! ## Numbers as text -/

/-- `[0-9A-F]` -/
def hexDigits : List Char := "0123456789ABCDEF".toList

/-- `%08X` -/
def hex8 (va : UInt32) : Text :=
  (List.range 8).map fun i => hexDigits.getD (va.toNat / 16 ^ (7 - i) % 16) '0'

/-- `int(h, 16)` -/
def ofHex (h : Text) : Nat := h.foldl (fun n c => 16 * n + hexDigits.idxOf c) 0

/-- `%04d` -/
def dec4 (i : Nat) : Text :=
  let digits := Nat.toDigits 10 i
  List.replicate (4 - digits.length) '0' ++ digits

/-! ## The bodies -/

/-- The dictionary of lifted bodies, in the order they were lifted. -/
structure Bodies where
  items : List (UInt32 × Text)
  nodup : (items.map Prod.fst).Nodup

def Bodies.keys (bodies : Bodies) : List UInt32 := bodies.items.map Prod.fst

def Bodies.body (bodies : Bodies) (va : UInt32) : Text := (bodies.items.lookup va).getD []

/-- `sorted(bodies)` -/
def Bodies.done (bodies : Bodies) : List UInt32 := bodies.keys.mergeSort fun a b => a ≤ b

/-! ## Direct calls -/

/-- `_DISPATCH`: `dispatch\(c, 0x([0-9A-F]{8})u\)`. -/
def dispatchPattern : Pattern :=
  only "dispatch(c, 0x".toList ++ List.replicate 8 hexDigits ++ only "u)".toList

/-- `m.group(1)` -/
def group1 (m : Text) : Text := (m.drop 14).take 8

/-- `int(m.group(1), 16)` -/
def target (m : Text) : UInt32 := UInt32.ofNat (ofHex (group1 m))

def dcallText (va : UInt32) : Text :=
  "DCALL(0x".toList ++ hex8 va ++ "u, L_".toList ++ hex8 va ++ ")".toList

/-- `_direct` -/
def direct (bodies : Bodies) (m : Text) : Text :=
  if target m ∈ bodies.keys then dcallText (target m) else m

/-- `_DISPATCH.sub(_direct, bodies[va])` -/
def rewritten (bodies : Bodies) (va : UInt32) : Text :=
  sub dispatchPattern (direct bodies) (bodies.body va)

/-! ## Declarations and the table -/

def declText (va : UInt32) : Text := "void L_".toList ++ hex8 va ++ "(CPU *c);\n".toList

/-- recomp_funcs_decl.h -/
def declHeader (done : List UInt32) : Text :=
  ("/* AUTO-GENERATED by systemes3recomp - every lifted function,\n" ++
    "   declared so that a direct call can be a direct call. */\n").toList ++ done.flatMap declText

/-- recomp_funcs_list.h -/
def funcsList (done : List UInt32) : Text :=
  ("/* AUTO-GENERATED by systemes3recomp */\n" ++ "#define LIFTED_FUNCS(X) \\\n").toList ++
    " \\\n".toList.intercalate (done.map fun a => "    X(".toList ++ hex8 a ++ ")".toList) ++
    "\n".toList

/-! ## Translation units -/

def header : List Text :=
  ["/* AUTO-GENERATED by systemes3recomp - do not edit */".toList, "#include \"es3_rt.h\"".toList,
    "#include \"recomp_funcs_decl.h\"".toList, []]

/-- The variables of the loop that fills the chunks. -/
structure Chunking where
  chunks : List (List Text)
  cur : List Text
  curFuncs : Int
  curLines : Int

/-- One turn of the loop, for one body. -/
def addBody (split splitLines : Int) (k : Chunking) (body : Text) : Chunking :=
  let cur := k.cur ++ [body, []]
  let curFuncs := k.curFuncs + 1
  let curLines := k.curLines + body.count '\n' + 2
  if (split ≠ 0 ∧ split ≤ curFuncs) ∨ (splitLines ≠ 0 ∧ splitLines ≤ curLines) then
    ⟨k.chunks ++ [cur], header, 0, 0⟩
  else ⟨k.chunks, cur, curFuncs, curLines⟩

def chunksOf (split splitLines : Int) (texts : List Text) : List (List Text) :=
  let k := texts.foldl (addBody split splitLines) ⟨[], header, 0, 0⟩
  if header.length < k.cur.length then k.chunks ++ [k.cur] else k.chunks

/-- `"\n".join(chunk)` -/
def unitText (chunk : List Text) : Text := "\n".toList.intercalate chunk

def unitName (i : Nat) : Text := "recomp_funcs_".toList ++ dec4 i ++ ".c".toList

/-- What is written: the two headers, and the translation units by name. -/
structure Sources where
  decl : Text
  list : Text
  units : List (Text × Text)

def recompile (split splitLines : Int) (bodies : Bodies) : Sources where
  decl := declHeader bodies.done
  list := funcsList bodies.done
  units := (chunksOf split splitLines (bodies.done.map (rewritten bodies))).mapIdx fun i chunk =>
    (unitName i, unitText chunk)

/-! ## The output directory -/

/-- The files of a directory by name. -/
abbrev Directory := List (Text × Text)

/-- The glob `recomp_funcs_[0-9]*.c`. -/
def stale (name : Text) : Bool :=
  match name.drop 13 with
  | [] => false
  | digit :: rest =>
    "recomp_funcs_".toList.isPrefixOf name && digit.isDigit && ".c".toList.isSuffixOf rest

/-- `open(name, "w")`, and what is written. -/
def writeFile (files : Directory) (file : Text × Text) : Directory :=
  files.filter (fun f => f.1 ≠ file.1) ++ [file]

def declName : Text := "recomp_funcs_decl.h".toList

def listName : Text := "recomp_funcs_list.h".toList

/-- What `outdir` holds afterwards when no address list is given. The other headers that
`emit_headers` writes are left out. -/
def fullRecompile (split splitLines : Int) (bodies : Bodies) (outdir : Directory) : Directory :=
  let out := recompile split splitLines bodies
  ((declName, out.decl) :: (out.units ++ [(listName, out.list)])).foldl writeFile
    (outdir.filter fun f => !stale f.1)

end Es3Recomp.Source.Driver
