import Mathlib.Data.UInt
import Mathlib.Logic.Function.Basic

/-!
# The file of a handle

Source: src/src/runtime64/dispatch64.c:325-363 (`ft_record`, `ft_find`), 1011-1033 (what
`es3_native_call` does after a CreateFile). `g_ft` is indexed by any `long`, so that a store beside
the array would be seen. A wide string is the list of its units, the terminating zero left out.
`toWide` is what `MultiByteToWideChar` leaves in a buffer of 260 units. The ring of the last files
(`es3_note_file`) is another one, and is left out with what `--trace-files` prints.
-/
namespace Es3Recomp.Source.FileTracker

def FT_MAX : Int32 := 8192

def INVALID_HANDLE_VALUE : UInt64 := 0xFFFFFFFFFFFFFFFF

abbrev WText := List UInt16

structure Entry where
  h : UInt64
  path : WText
  isText : Bool
  deriving DecidableEq

structure Table where
  ft : Int32 → Entry
  ftn : Int32
  /-- how often it was said that the table is full -/
  said : Nat

def Table.initial : Table := ⟨fun _ => ⟨0, [], false⟩, 0, 0⟩

/-- `wcsrchr(path, L'.')` -/
def lastDot : WText → Option WText
  | [] => none
  | u :: rest => (lastDot rest).or (if u = 0x2E then some (u :: rest) else none)

def lowered (u : UInt16) : UInt16 := if 0x41 ≤ u ∧ u ≤ 0x5A then u + 0x20 else u

/-- `!_wcsicmp` -/
def sameName (a b : WText) : Bool := a.map lowered = b.map lowered

/-- `L".log"`, `L".txt"` -/
def logSuffix : WText := [0x2E, 0x6C, 0x6F, 0x67]
def txtSuffix : WText := [0x2E, 0x74, 0x78, 0x74]

def isText (path : WText) : Bool :=
  match lastDot path with
  | none => false
  | some dot => sameName dot logSuffix || sameName dot txtSuffix

def entryOf (h : UInt64) (path : WText) : Entry := ⟨h, path.take 259, isText path⟩

def ftRecord (s : Table) (h : UInt64) (path : Option WText) : Table :=
  match path with
  | none => s
  | some path =>
    if h = INVALID_HANDLE_VALUE then s
    else
      let i := s.ftn + 1 - 1
      let s := { s with ftn := s.ftn + 1 }
      if FT_MAX ≤ i then if i = FT_MAX then { s with said := s.said + 1 } else s
      else { s with ft := Function.update s.ft i (entryOf h path) }

/-- The loop of `ft_find`, over the first `k` entries. -/
def ftFindBelow (s : Table) (h : UInt64) : Nat → Int32
  | 0 => -1
  | k + 1 => if (s.ft (Int32.ofNat k)).h = h then Int32.ofNat k else ftFindBelow s h k

def ftFind (s : Table) (h : UInt64) : Int32 :=
  let n := if s.ftn < FT_MAX then s.ftn else FT_MAX
  ftFindBelow s h n.toNatClampNeg

/-- What the users of `ft_find` read. -/
def lookup (s : Table) (h : UInt64) : Option Entry :=
  let i := ftFind s h
  if i < 0 then none else some (s.ft i)

/-- The name CreateFileW or CreateFileA was called with. -/
inductive FileName where
  | wide (path : Option WText)
  | ansi (name : List UInt8)
  deriving DecidableEq

def pathOf (toWide : List UInt8 → WText) : FileName → Option WText
  | .wide path => path
  | .ansi name => some (toWide name)

/-- The end of `es3_native_call` for a CreateFile that returned `rax`. -/
def createFileDone (traceFiles : Bool) (toWide : List UInt8 → WText) (s : Table) (name : FileName)
    (rax : UInt64) : Table :=
  let path := pathOf toWide name
  let ok := rax ≠ INVALID_HANDLE_VALUE
  if traceFiles then if ok then ftRecord s rax path else s
  else s

end Es3Recomp.Source.FileTracker
