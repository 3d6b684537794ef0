import Es3Recomp.Library.Transducer
import Es3Recomp.Source.Loader64
import Es3Recomp.Source.TraceCalls

/-!
# The imports of a 64-bit image

Source: src/src/runtime64/loader64.c:23-29 (`import_rec_t`), 60-97 (`k_intercepts`), 112-137
(`es3_note_import`, `es3_import_name`), 256-321 (the import table). The image is a memory by the
offset from `g_image.base`, as for its relocations, and a text in it ends at its zero or with the
image. Every field is read when the code reads it, so a slot that lay in the table would change
what follows.
-/
namespace Es3Recomp.Source.Imports64
open Library
open Source.Loader64 (DataDirectory rd32)
open Source.TraceCalls (strstr)

/-- The real DLLs; an address that is 0 is none. -/
structure Host where
  loadLibrary : Text → Option UInt64
  byOrdinal : UInt64 → UInt16 → UInt64
  byName : UInt64 → Text → UInt64

/-- `import_rec_t`, but for `seen` -/
structure ImportRec where
  addr : UInt64
  dll : Text
  name : Text
  deriving DecidableEq

/-- The names in `k_intercepts`. -/
def intercepts : List Text :=
  ["RaiseException", "_CxxThrowException", "_initterm", "_initterm_e", "CreateThread",
    "CreateFileW", "CreateFileA", "WriteFile", "GetCommandLineW", "GetCommandLineA", "ReadFile",
    "GetFileSize", "GetFileSizeEx", "scalable_malloc", "GetSystemMetrics", "MessageBoxW",
    "MessageBoxA", "OpenFileMappingW", "LoadLibraryW", "LoadLibraryA", "SetupDiGetClassDevsW",
    "SetupDiEnumDeviceInterfaces", "CM_Locate_DevNodeW", "DirectInput8Create",
    "Direct3DCreate9"].map String.toList

/-- `g_addr_hasp_login`, `_logout`, `_read` and `_decrypt`, by their ordinals. -/
def haspOrdinals : List Text := ["#13", "#14", "#15", "#2"].map String.toList

/-- The globals that an address is kept in. -/
inductive Slot where
  | intercept (name : Text)
  | hasp (name : Text)
  deriving DecidableEq

structure Bound where
  mem : Memory
  /-- `g_imports[0 .. g_nimports)` -/
  imports : List ImportRec
  /-- `nmissing` -/
  missing : Nat
  slots : Slot → UInt64

variable (host : Host) (size : Nat)

/-- The text at an offset, in an image of so many bytes. -/
def cstr (mem : Memory) (p : Nat) : Text :=
  ((load mem ⟨p, size⟩).takeWhile (· ≠ 0)).map fun b => Char.ofNat b.toNat

/-- What an entry of the table asks for: the address, and `nm`. -/
def lookUp (mem : Memory) (h entry : UInt64) : UInt64 × Text :=
  if entry &&& 0x8000000000000000 ≠ 0 then
    let ord := (entry &&& 0xFFFF).toUInt16
    (host.byOrdinal h ord, '#' :: Nat.toDigits 10 ord.toNat)
  else
    let name := cstr size mem ((entry &&& 0x7FFFFFFF).toNat + 2)
    (host.byName h name, name.take 95)

/-- The globals, with the address of one more import. -/
def keep (dll nm : Text) (fp : UInt64) (slots : Slot → UInt64) : Slot → UInt64
  | .intercept name =>
    if nm = name ∧ intercepts.contains name then fp else slots (.intercept name)
  | .hasp name =>
    if (strstr dll "hasp".toList).isSome ∧ nm = name ∧ haspOrdinals.contains name then fp
    else slots (.hasp name)

/-- One turn of the inner loop. -/
def bindOne (dll : Text) (h : UInt64) (thunk k : Nat) (entry : UInt64) (s : Bound) : Bound :=
  let (fp, nm) := lookUp host size s.mem h entry
  if fp = 0 then { s with missing := s.missing + 1 }
  else
    { mem := setQuad s.mem (thunk + 8 * k) fp
      imports := s.imports ++ [⟨fp, dll.take 31, nm⟩]
      missing := s.missing
      slots := keep dll nm fp s.slots }

/-- `for (int k = 0; names[k]; k++)`, for at most so many turns; `none` when they are used up. -/
def bindNames (dll : Text) (h : UInt64) (names thunk : Nat) : Nat → Nat → Bound → Option Bound
  | 0, _, _ => none
  | turns + 1, k, s =>
    let entry := quad s.mem (names + 8 * k)
    if entry = 0 then some s
    else bindNames dll h names thunk turns (k + 1) (bindOne host size dll h thunk k entry s)

/-- `for (; id->Name; id++)` -/
def bindDlls : Nat → Nat → Bound → Option Bound
  | 0, _, _ => none
  | turns + 1, id, s =>
    let name := rd32 s.mem (id + 12)
    if name = 0 then some s
    else
      let dll := cstr size s.mem name.toNat
      match host.loadLibrary dll with
      | none => bindDlls turns (id + 20) { s with missing := s.missing + 1 }
      | some h =>
        let thunk := rd32 s.mem (id + 16)
        let original := rd32 s.mem id
        let names := if original ≠ 0 then original else thunk
        (bindNames host size dll h names.toNat thunk.toNat size 0 s).bind
          (bindDlls turns (id + 20))

/-- What the loader makes of the import table of an image of so many bytes. -/
def bindImports (dir : DataDirectory) (mem : Memory) : Option Bound :=
  let s : Bound := ⟨mem, [], 0, fun _ => 0⟩
  if dir.virtualAddress ≠ 0 then bindDlls host size size dir.virtualAddress.toNat s else some s

/-! ## What an address is called -/

def ImportRec.text (r : ImportRec) : Text := r.dll ++ '!' :: r.name

def es3ImportName (imports : List ImportRec) (addr : UInt64) : Option Text :=
  (imports.find? fun r => r.addr = addr).map ImportRec.text

/-- `es3_note_import`, over the records with `seen`. -/
def es3NoteImport : List (ImportRec × Bool) → UInt64 → List (ImportRec × Bool) × List Text
  | [], _ => ([], [])
  | (r, seen) :: rest, addr =>
    if r.addr ≠ addr then
      let later := es3NoteImport rest addr
      ((r, seen) :: later.1, later.2)
    else if seen then ((r, seen) :: rest, [])
    else ((r, true) :: rest, [r.text])

/-- The calls of imports of a run with `--log-imports`. -/
def importLog : Transducer (List (ImportRec × Bool)) UInt64 Text := ⟨es3NoteImport⟩

end Es3Recomp.Source.Imports64
