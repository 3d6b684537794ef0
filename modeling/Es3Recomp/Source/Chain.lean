import Es3Recomp.Library.Fields
import Es3Recomp.Library.Strtoul
import Es3Recomp.Library.WordMemory
import Es3Recomp.Source.ArgString

/-!
# Watching guest values, and holding them down

Source: src/src/runtime/crash.c:338-392 (`chain`, `peek_init`), 397-404 (`readable`) and 439-512
(`poke_init`, `es3_apply_pokes`, `es3_report_peeks`). A place in a text is what is left of it
from there on. A variable of the environment that is not set is as an empty one. What
VirtualQuery reports is a parameter.
-/
namespace Es3Recomp.Source.Chain
open Library Library.Strtoul Source.ArgString

def PEEK_MAX : Nat := 8

def PEEK_OPS : Nat := 8

def POKE_MAX : Nat := 8

def PAGE_GUARD : UInt32 := 0x100

inductive Op where
  | deref
  | add (arg : UInt32)
  deriving DecidableEq

structure Program where
  addr : UInt32
  ops : List Op
  fits : ops.length ≤ PEEK_OPS

structure Poke where
  program : Program
  value : UInt32
  width : Nat

/-! ## The notation -/

/-- `*` and `+hex`, with so much room in the program, and where it stops. The end of the text,
`,` and `=` end it as every other character does. -/
def chainLoop : Nat → Text → List Op × Text
  | 0, e => ([], e)
  | _ + 1, [] => ([], [])
  | room + 1, c :: e =>
    if c = '*' then
      let rest := chainLoop room e
      (.deref :: rest.1, rest.2)
    else if c = '+' then
      let rest := chainLoop room (strtoul 16 e).2
      (.add (strtoul 16 e).1 :: rest.1, rest.2)
    else ([], c :: e)

theorem chainLoop_fits (room : Nat) (e : Text) : (chainLoop room e).1.length ≤ room := by
  fun_induction chainLoop room e with
  | case1 => exact Nat.zero_le 0
  | case2 => exact Nat.zero_le _
  | case3 room e rest ih => exact Nat.succ_le_succ ih
  | case4 room e _ rest ih => exact Nat.succ_le_succ ih
  | case5 => exact Nat.zero_le _

def stars (e : Text) : Nat := (e.takeWhile (· = '*')).length

def unstarred (e : Text) : Text := e.dropWhile (· = '*')

/-- The leading stars, as many as there is room for. -/
def leading (e : Text) : List Op := List.replicate (min (stars e) PEEK_OPS) .deref

/-- The room that they leave. -/
def roomLeft (e : Text) : Nat := PEEK_OPS - min (stars e) PEEK_OPS

theorem ops_fit (e rest : Text) :
    (leading e ++ (chainLoop (roomLeft e) rest).1).length ≤ PEEK_OPS := by
  have room : (chainLoop (roomLeft e) rest).1.length ≤ roomLeft e := chainLoop_fits _ _
  have lead : min (stars e) PEEK_OPS ≤ PEEK_OPS := Nat.min_le_right _ _
  rw [List.length_append, leading, List.length_replicate]
  rw [roomLeft] at room ⊢
  omega

/-- `none` where there is no address. -/
def chain (e : Text) : Option (Program × Text) :=
  let v := strtoul 16 (unstarred e)
  if v.2 = unstarred e then none
  else
    let rest := chainLoop (roomLeft e) v.2
    some (⟨v.1, leading e ++ rest.1, ops_fit e v.2⟩, rest.2)

def peekInit (e : Text) : List Program := Fields.loop ',' chain PEEK_MAX e

/-- The width, and where it ends; `none` where a `:` says no width. -/
def pokeWidth : Text → Option (Nat × Text)
  | [] => some (4, [])
  | c :: e =>
    if c = ':' then
      if e.head? = some 'b' ∨ e.head? = some 'B' then some (1, e.tail)
      else if e.head? = some 'w' ∨ e.head? = some 'W' then some (2, e.tail)
      else none
    else some (4, c :: e)

def pokeEntry (e : Text) : Option (Poke × Text) := do
  let (program, e) ← chain e
  let (width, e) ← pokeWidth e
  if e.head? = some '=' then
    let v := strtoul 16 e.tail
    some (⟨program, v.1, width⟩, v.2)
  else none

def pokeInit (e : Text) : List Poke := Fields.loop ',' pokeEntry POKE_MAX e

/-! ## What the programs do -/

section Memory

variable (virtualQuery : UInt32 → Option RegionInfo) (mem : Memory32)

def readable (a n : UInt32) : Bool :=
  if a = 0 then false
  else
    match virtualQuery a with
    | none => false
    | some mi =>
      mi.state = MEM_COMMIT && mi.protect &&& (PAGE_NOACCESS ||| PAGE_GUARD) = 0 &&
        a + n ≤ mi.baseAddress + mi.regionSize

/-- The address that a program comes to; `none` where it is `bad`. -/
def follow : List Op → UInt32 → Option UInt32
  | [], v => some v
  | .add arg :: ops, v => follow ops (v + arg)
  | .deref :: ops, v => if readable virtualQuery v 4 then follow ops (dword mem v) else none

/-- The eight words at the address, when they can be read. -/
def report (p : Program) : UInt32 × Option (UInt32 × List UInt32) :=
  (p.addr, do
    let v ← follow virtualQuery mem p.ops p.addr
    if readable virtualQuery v 32 then
      some (v, (List.range 8).map fun j => dword mem (v + 4 * UInt32.ofNat j))
    else none)

def es3ReportPeeks (peeks : List Program) : List (UInt32 × Option (UInt32 × List UInt32)) :=
  peeks.map (report virtualQuery mem)

/-- The memory after one poke. -/
def apply (k : Poke) : Memory32 :=
  match follow virtualQuery mem k.program.ops k.program.addr with
  | none => mem
  | some v =>
    let w := if k.width = 0 then 4 else k.width
    if readable virtualQuery v (UInt32.ofNat w) then write mem v ((leBytes k.value).take w)
    else mem

def es3ApplyPokes (pokes : List Poke) : Memory32 :=
  pokes.foldl (fun mem k => apply virtualQuery mem k) mem

end Memory

end Es3Recomp.Source.Chain
