import Mathlib.Data.UInt
import Mathlib.Logic.Relation
import Es3Recomp.Library.QuadMemory

/-!
# A part of x86-64: general registers, the stack, and jumps

A program is a list of instructions and `pc` an index into it; where the code lies in memory
is left open. Memory is read and written by 64-bit words. Of the flags only zero and carry are
kept. An instruction of `Op` goes on to the one behind it; `Instr` adds the jumps, `call` and
`ret`, where control leaves the program. What a called function may do is for the user of this
module to say.
-/
namespace Es3Recomp.Library.X64

inductive Reg where
  | rax | rcx | rdx | rbx | rsp | rbp | rsi | rdi
  | r8 | r9 | r10 | r11 | r12 | r13 | r14 | r15
  deriving DecidableEq

/-- The low and the high word of an XMM register. -/
abbrev Xmm := UInt64 × UInt64

structure Cpu where
  reg : Reg → UInt64
  xmm : Fin 16 → Xmm
  zf : Bool
  cf : Bool
  mem : Memory
  pc : Nat

/-- `[base + index*8 + disp]` -/
structure Address where
  base : Option Reg
  index : Option Reg
  disp : UInt64

/-- Straight-line instructions. -/
inductive Op where
  | push (src : Reg)
  | pop (dst : Reg)
  | mov (dst src : Reg)
  | load (dst : Reg) (src : Address)
  | store (dst : Address) (src : Reg)
  | lea (dst : Reg) (src : Address)
  | addImm (dst : Reg) (imm : UInt64)
  | andImm (dst : Reg) (imm : UInt64)
  | sub (dst src : Reg)
  | xor (dst src : Reg)
  | inc (dst : Reg)
  | test (a b : Reg)
  | cmp (a b : Reg)
  | loadXmm (dst : Fin 16) (src : Address)
  | storeXmm (dst : Address) (src : Fin 16)

inductive Instr where
  | op (op : Op)
  | jz (target : Nat)
  | jb (target : Nat)
  | call (target : Reg)
  | ret

namespace Cpu

def set (s : Cpu) (r : Reg) (v : UInt64) : Cpu :=
  { s with reg := fun x => if x = r then v else s.reg x }

def setXmm (s : Cpu) (r : Fin 16) (v : Xmm) : Cpu :=
  { s with xmm := fun x => if x = r then v else s.xmm x }

def setMem (s : Cpu) (p : UInt64) (w : UInt64) : Cpu :=
  { s with mem := setQuad s.mem p.toNat w }

def flags (s : Cpu) (zf cf : Bool) : Cpu := { s with zf := zf, cf := cf }

/-- The word at an address. -/
def word (s : Cpu) (p : UInt64) : UInt64 := quad s.mem p.toNat

def address (s : Cpu) (a : Address) : UInt64 :=
  a.base.elim 0 s.reg + a.index.elim 0 s.reg * 8 + a.disp

end Cpu

def Op.exec (s : Cpu) : Op → Cpu
  | .push src => (s.setMem (s.reg .rsp - 8) (s.reg src)).set .rsp (s.reg .rsp - 8)
  | .pop dst => (s.set .rsp (s.reg .rsp + 8)).set dst (s.word (s.reg .rsp))
  | .mov dst src => s.set dst (s.reg src)
  | .load dst src => s.set dst (s.word (s.address src))
  | .store dst src => s.setMem (s.address dst) (s.reg src)
  | .lea dst src => s.set dst (s.address src)
  | .addImm dst imm =>
    let sum := s.reg dst + imm
    (s.set dst sum).flags (sum = 0) (sum < imm)
  | .andImm dst imm => (s.set dst (s.reg dst &&& imm)).flags (s.reg dst &&& imm = 0) false
  | .sub dst src =>
    (s.set dst (s.reg dst - s.reg src)).flags (s.reg dst = s.reg src) (s.reg dst < s.reg src)
  | .xor dst src =>
    (s.set dst (s.reg dst ^^^ s.reg src)).flags (s.reg dst ^^^ s.reg src = 0) false
  | .inc dst => (s.set dst (s.reg dst + 1)).flags (s.reg dst + 1 = 0) s.cf
  | .test a b => s.flags (s.reg a &&& s.reg b = 0) false
  | .cmp a b => s.flags (s.reg a = s.reg b) (s.reg a < s.reg b)
  | .loadXmm dst src => s.setXmm dst (s.word (s.address src), s.word (s.address src + 8))
  | .storeXmm dst src =>
    (s.setMem (s.address dst) (s.xmm src).1).setMem (s.address dst + 8) (s.xmm src).2

/-- What becomes of a program in one step. -/
inductive Event where
  | running (s : Cpu)
  /-- at a `call`: where to, and the state before the return address is pushed -/
  | calls (target : UInt64) (s : Cpu)
  /-- at a `ret`, with the return address still on the stack -/
  | returns (s : Cpu)
  | stuck

def step (prog : List Instr) (s : Cpu) : Event :=
  match prog[s.pc]? with
  | none => .stuck
  | some (.op op) => .running { op.exec s with pc := s.pc + 1 }
  | some (.jz target) => .running { s with pc := if s.zf then target else s.pc + 1 }
  | some (.jb target) => .running { s with pc := if s.cf then target else s.pc + 1 }
  | some (.call target) => .calls (s.reg target) s
  | some .ret => .returns s

def Next (prog : List Instr) (s t : Cpu) : Prop := step prog s = .running t

/-- From `s` the program comes to `t`. -/
abbrev Steps (prog : List Instr) : Cpu → Cpu → Prop := Relation.ReflTransGen (Next prog)

/-! ## Reading what was written -/

section Get
variable (s : Cpu) (r x : Reg) (v w p : UInt64) (i : Fin 16) (u : Xmm) (zf cf : Bool)

@[simp] theorem set_reg : (s.set r v).reg x = if x = r then v else s.reg x := rfl
@[simp] theorem set_xmm : (s.set r v).xmm = s.xmm := rfl
@[simp] theorem set_mem : (s.set r v).mem = s.mem := rfl
@[simp] theorem set_zf : (s.set r v).zf = s.zf := rfl
@[simp] theorem set_cf : (s.set r v).cf = s.cf := rfl
@[simp] theorem setXmm_reg : (s.setXmm i u).reg = s.reg := rfl
@[simp] theorem setXmm_mem : (s.setXmm i u).mem = s.mem := rfl
@[simp] theorem setXmm_xmm (j : Fin 16) :
    (s.setXmm i u).xmm j = if j = i then u else s.xmm j := rfl
@[simp] theorem setMem_reg : (s.setMem p w).reg = s.reg := rfl
@[simp] theorem setMem_xmm : (s.setMem p w).xmm = s.xmm := rfl
@[simp] theorem setMem_mem : (s.setMem p w).mem = setQuad s.mem p.toNat w := rfl
@[simp] theorem flags_reg : (s.flags zf cf).reg = s.reg := rfl
@[simp] theorem flags_xmm : (s.flags zf cf).xmm = s.xmm := rfl
@[simp] theorem flags_mem : (s.flags zf cf).mem = s.mem := rfl
@[simp] theorem flags_zf : (s.flags zf cf).zf = zf := rfl
@[simp] theorem flags_cf : (s.flags zf cf).cf = cf := rfl
@[simp] theorem set_word : (s.set r v).word p = s.word p := rfl
@[simp] theorem setXmm_word : (s.setXmm i u).word p = s.word p := rfl
@[simp] theorem flags_word : (s.flags zf cf).word p = s.word p := rfl

@[simp] theorem address_base (b : Reg) (d : UInt64) :
    s.address ⟨some b, none, d⟩ = s.reg b + d := by
  simp [Cpu.address]

@[simp] theorem address_scaled (b : Reg) (d : UInt64) :
    s.address ⟨none, some b, d⟩ = s.reg b * 8 + d := by
  simp [Cpu.address]

@[simp] theorem address_indexed (a b : Reg) (d : UInt64) :
    s.address ⟨some a, some b, d⟩ = s.reg a + s.reg b * 8 + d := rfl

end Get

/-! ## Addresses without wrapping -/

theorem toNat_add_of_lt {a b : UInt64} (fits : a.toNat + b.toNat < 0x10000000000000000) :
    (a + b).toNat = a.toNat + b.toNat := by
  rw [UInt64.toNat_add]
  exact Nat.mod_eq_of_lt fits

theorem toNat_sub_of_le {a b : UInt64} (le : b.toNat ≤ a.toNat) :
    (a - b).toNat = a.toNat - b.toNat := UInt64.toNat_sub_of_le _ _ (UInt64.le_iff_toNat_le.mpr le)

/-- `and r, -16` rounds down. -/
theorem toNat_and_minus16 (x : UInt64) : (x &&& (-16)).toNat = x.toNat / 16 * 16 := by
  have bound := x.toNat_lt
  have mask : (-16 : UInt64).toNat = (2 ^ 60 - 1) <<< 4 := by decide
  have round : x.toNat / 16 * 16 = (x.toNat >>> 4) <<< 4 := by
    rw [Nat.shiftRight_eq_div_pow, Nat.shiftLeft_eq]
  rw [UInt64.toNat_and, mask, round]
  apply Nat.eq_of_testBit_eq
  intro i
  rw [Nat.testBit_and, Nat.testBit_shiftLeft, Nat.testBit_shiftLeft, Nat.testBit_shiftRight,
    Nat.testBit_two_pow_sub_one]
  by_cases low : 4 ≤ i
  · have place : 4 + (i - 4) = i := by omega
    by_cases high : i - 4 < 60
    · simp [low, high, place]
    · have past : 2 ^ 64 ≤ 2 ^ i := Nat.pow_le_pow_right (by decide) (by omega)
      have clear : x.toNat.testBit i = false :=
        Nat.testBit_lt_two_pow (Nat.lt_of_lt_of_le bound past)
      simp [clear, place]
  · simp [low]

/-! ## Blocks -/

def execAll (ops : List Op) (s : Cpu) : Cpu := ops.foldl Op.exec s

/-- An instruction does not look at its own place. -/
theorem exec_at (s : Cpu) (op : Op) (pc : Nat) :
    op.exec { s with pc := pc } = { op.exec s with pc := pc } := by
  cases op <;> rfl

theorem execAll_at (ops : List Op) (s : Cpu) (pc : Nat) :
    execAll ops { s with pc := pc } = { execAll ops s with pc := pc } := by
  induction ops generalizing s with
  | nil => rfl
  | cons op ops ih =>
    have cons : ∀ t, execAll (op :: ops) t = execAll ops (op.exec t) := fun _ => rfl
    rw [cons, cons, exec_at, ih]

/-- A block of straight-line code is run through. -/
theorem steps_block {prog rest : List Instr} {ops : List Op} {s : Cpu}
    (code : prog.drop s.pc = ops.map .op ++ rest) :
    Steps prog s { execAll ops s with pc := s.pc + ops.length } := by
  induction ops generalizing s with
  | nil => exact .refl
  | cons op ops ih =>
    have here : prog[s.pc]? = some (.op op) := by
      have first := congrArg (·[0]?) code
      rw [List.getElem?_drop, Nat.add_zero] at first
      exact first.trans rfl
    have next : Next prog s { op.exec s with pc := s.pc + 1 } := by
      simp only [Next, step, here]
    have behind : prog.drop (s.pc + 1) = ops.map .op ++ rest := by
      rw [← List.drop_drop, code]
      rfl
    have later := ih (s := { op.exec s with pc := s.pc + 1 }) behind
    rw [execAll_at] at later
    have place : s.pc + 1 + ops.length = s.pc + (op :: ops).length := by
      rw [List.length_cons]
      omega
    dsimp only at later
    rw [place] at later
    exact .head next later

theorem steps_jz {prog : List Instr} {s : Cpu} {target : Nat}
    (code : prog[s.pc]? = some (.jz target)) :
    Steps prog s { s with pc := if s.zf then target else s.pc + 1 } :=
  .single (by simp only [Next, step, code])

theorem steps_jb {prog : List Instr} {s : Cpu} {target : Nat}
    (code : prog[s.pc]? = some (.jb target)) :
    Steps prog s { s with pc := if s.cf then target else s.pc + 1 } :=
  .single (by simp only [Next, step, code])

theorem step_call {prog : List Instr} {s : Cpu} {target : Reg}
    (code : prog[s.pc]? = some (.call target)) : step prog s = .calls (s.reg target) s := by
  simp only [step, code]

theorem step_ret {prog : List Instr} {s : Cpu} (code : prog[s.pc]? = some .ret) :
    step prog s = .returns s := by
  simp only [step, code]

end Es3Recomp.Library.X64
