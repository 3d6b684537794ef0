import Es3Recomp.Library.CallTable
import Es3Recomp.Source.Bridge64
import Es3Recomp.Source.Imports
import Mathlib.Data.UInt

/-!
# The initialiser tables of the C runtime

Source: src/src/runtime/hle_callback.c:45 (`CALLBACK_RETURN`), 309-335 (`run_initterm` and its
two handlers); src/src/runtime/es3_rt.h:291-297 (`A32`, `RET`); src/src/runtime/hle.c:122-144
(`hle_call`, for an id with a handler); src/src/runtime64/dispatch64.c:507-509, 775-790
(`es3_native_call`), 1062-1071 (`es3_call_guest`). What `dispatch` does is a parameter: it gets
the whole machine, `rest` being all of it that the two loops do not look at. The addresses of the
other imports that `es3_native_call` knows are not those of these two. Every loop keeps a
list of its calls, and takes at most so many turns. The count `n` of `run_initterm`, which nothing
reads, is left out.
-/
namespace Es3Recomp.Source.Initterm
open Library Library.CallTable

/-! ## 32 bits -/

section X86
open Imports

def CALLBACK_RETURN : UInt32 := 0xE5FFFF00

structure Cpu (σ : Type) where
  esp : UInt32
  eax : UInt32
  mem : Memory
  rest : σ

variable {σ : Type}

def A32 (c : Cpu σ) (n : Nat) : UInt32 := rd32 c.mem (c.esp + 4 + 4 * UInt32.ofNat n)

def push32 (c : Cpu σ) (v : UInt32) : Cpu σ :=
  { c with esp := c.esp - 4, mem := wr32 c.mem (c.esp - 4) v }

/-- `RET` -/
def ret (c : Cpu σ) (v : UInt32) : Cpu σ := { c with eax := v }

variable (dispatch : Cpu σ → UInt32 → Cpu σ)

def callEntry (c : Cpu σ) (fp : UInt32) : Cpu σ := dispatch (push32 c CALLBACK_RETURN) fp

/-- The loop of `run_initterm` from `p` on; `none` when the turns are used up. -/
def initLoop (stopOnError : Bool) (fin : UInt32) :
    Nat → UInt32 → Cpu σ → Option (Pass (Cpu σ) UInt32 UInt32)
  | 0, _, _ => none
  | turns + 1, p, c =>
    if p < fin then
      let fp := rd32 c.mem p
      if fp = 0 then initLoop stopOnError fin turns (p + 4) c
      else
        let c := callEntry dispatch c fp
        if stopOnError ∧ c.eax ≠ 0 then some ⟨c, c.eax, [⟨fp, c.eax⟩]⟩
        else (initLoop stopOnError fin turns (p + 4) c).map (·.after ⟨fp, c.eax⟩)
    else some ⟨c, 0, []⟩

def runInitterm (turns : Nat) (stopOnError : Bool) (c : Cpu σ) :
    Option (Pass (Cpu σ) UInt32 UInt32) :=
  initLoop dispatch stopOnError (A32 c 1) turns (A32 c 0) c

def hleInitterm (turns : Nat) (c : Cpu σ) : Option (Pass (Cpu σ) UInt32 UInt32) :=
  (runInitterm dispatch turns false c).map fun w => { w with state := ret w.state 0 }

def hleInittermE (turns : Nat) (c : Cpu σ) : Option (Pass (Cpu σ) UInt32 UInt32) :=
  (runInitterm dispatch turns true c).map fun w => { w with state := ret w.state w.result }

/-- The end of `hle_call`; `none` where it aborts. -/
def unwind (purge : Int) (entryEsp : UInt32) (c : Cpu σ) : Option (Cpu σ) :=
  if 0 ≤ purge then some { c with esp := entryEsp + 4 + UInt32.ofInt purge }
  else if c.esp = entryEsp then none
  else some c

def hleCall (purge : Int) (handler : Cpu σ → Option (Pass (Cpu σ) UInt32 UInt32)) (c : Cpu σ) :
    Option (Pass (Cpu σ) UInt32 UInt32) :=
  (handler c).bind fun w => (unwind purge c.esp w.state).map fun c => { w with state := c }

end X86

/-! ## 64 bits -/

section X64
open Bridge64

structure Machine (σ : Type) where
  cpu : Bridge64.Cpu
  mem : Memory
  rest : σ

variable {σ : Type}

/-- `g_addr_initterm`, `g_addr_initterm_e` -/
structure Addresses where
  initterm : UInt64
  inittermE : UInt64

def setReg (c : Bridge64.Cpu) (r : Reg) (v : UInt64) : Bridge64.Cpu :=
  { c with gpr := Function.update c.gpr r v }

/-- The two arguments are put back, and the result goes to RAX. -/
def leave (rcx rdx : UInt64) (w : Pass (Machine σ) UInt64 UInt32) :
    Pass (Machine σ) UInt64 UInt32 :=
  let cpu := setReg (setReg w.state.cpu .rcx rcx) .rdx rdx
  { w with state := { w.state with cpu := setReg cpu .rax w.result.toUInt64 } }

variable (dispatch : Machine σ → UInt64 → Machine σ)

/-- `es3_call_guest` -/
def callGuest (m : Machine σ) (target : UInt64) : Machine σ :=
  let pushed := es3CallGuest m.mem m.cpu
  dispatch { m with mem := pushed.1, cpu := pushed.2 } target

/-- `(uint32_t)c->rax` -/
def eax (m : Machine σ) : UInt32 := (m.cpu.gpr .rax).toUInt32

/-- The loop of `es3_native_call` over a table, from `p` on. -/
def nativeLoop (wantsResult : Bool) (fin : UInt64) :
    Nat → UInt64 → Machine σ → Option (Pass (Machine σ) UInt64 UInt32)
  | 0, _, _ => none
  | turns + 1, p, m =>
    if p < fin then
      let fnp := rd64 m.mem p
      if fnp = 0 then nativeLoop wantsResult fin turns (p + 8) m
      else
        let m := callGuest dispatch m fnp
        if wantsResult ∧ eax m ≠ 0 then some ⟨m, eax m, [⟨fnp, eax m⟩]⟩
        else (nativeLoop wantsResult fin turns (p + 8) m).map (·.after ⟨fnp, eax m⟩)
    else some ⟨m, 0, []⟩

/-- The loop of `es3_native_call` with its ends; `none` also where it forwards the call instead. -/
def es3NativeCall (addrs : Addresses) (turns : Nat) (m : Machine σ) (target : UInt64) :
    Option (Pass (Machine σ) UInt64 UInt32) :=
  let m := { m with cpu.rsp := m.cpu.rsp + 8 }
  let rcx := m.cpu.gpr .rcx
  let rdx := m.cpu.gpr .rdx
  if (target = addrs.initterm ∨ target = addrs.inittermE) ∧ rcx ≠ 0 ∧ rdx ≠ 0 then
    let wantsResult := target = addrs.inittermE
    (nativeLoop dispatch wantsResult rdx turns rcx m).map (leave rcx rdx)
  else none

end X64
end Es3Recomp.Source.Initterm
