import Es3Recomp.Source.Imports

/-!
# Binding a handler to an import

Source: src/src/runtime/hle.c:20-86 (`dll_eq`, `hle_bind`, `hle_bind_dll`), over the table that
src/tools/recomp/driver.py:456-493 writes. A C string is the list of its characters, the
terminating zero left out; a handler is any pointer, NULL included.
-/
namespace Es3Recomp.Source.Binding
open Source.Imports

/-- `g_hle_handlers` -/
abbrev Handlers (F : Type) := Nat → F

/-- `*a >= 'A' && *a <= 'Z' ? *a + 32 : *a` -/
def lowered (ch : Char) : Nat := if 'A' ≤ ch ∧ ch ≤ 'Z' then ch.toNat + 32 else ch.toNat

/-- `dll_eq`; where one string ends, `*a == *b` asks whether the other one does. -/
def dllEq : List Char → List Char → Bool
  | a :: as, b :: bs => if lowered a ≠ lowered b then false else dllEq as bs
  | [], [] => true
  | _, _ => false

variable {F : Type}

/-- The loop of `hle_bind` from the id `i` on, with its count so far. -/
def hleBindFrom (name : String) (fn : F) (i : Nat) :
    List ImportRow → Handlers F × Nat → Handlers F × Nat
  | [], s => s
  | row :: rows, (g, n) =>
    if row.name = name then hleBindFrom name fn (i + 1) rows (Function.update g i fn, n + 1)
    else hleBindFrom name fn (i + 1) rows (g, n)

def hleBind (h : Headers) (g : Handlers F) (name : String) (fn : F) : Handlers F × Nat :=
  hleBindFrom name fn 0 h.imports (g, 0)

/-- The loop of `hle_bind_dll` from the id `i` on. -/
def hleBindDllFrom (dll name : String) (fn : F) (i : Nat) :
    List ImportRow → Handlers F → Handlers F × Nat
  | [], g => (g, 0)
  | row :: rows, g =>
    if row.name = name ∧ dllEq row.dll.toList dll.toList then (Function.update g i fn, 1)
    else hleBindDllFrom dll name fn (i + 1) rows g

def hleBindDll (h : Headers) (g : Handlers F) (dll name : String) (fn : F) : Handlers F × Nat :=
  hleBindDllFrom dll name fn 0 h.imports g

end Es3Recomp.Source.Binding
