import Es3Recomp.Library.X64

/-!
# The native-call thunk

Source: src/src/runtime64/thunk64.asm:24-98 and thunk64.h:29-44. The code stands here block by
block, each under the comment or the label it has in the assembly; a label is the index of the
instruction behind it. The descriptor is what lies in memory at the address in RCX.
-/
namespace Es3Recomp.Source.Thunk64
open Library Library.X64

def F_FN : UInt64 := 0
def F_RCX : UInt64 := 8
def F_RDX : UInt64 := 16
def F_R8 : UInt64 := 24
def F_R9 : UInt64 := 32
def F_STACK : UInt64 := 40
def F_NSTACK : UInt64 := 48
def F_X0 : UInt64 := 64
def F_X1 : UInt64 := 80
def F_X2 : UInt64 := 96
def F_X3 : UInt64 := 112
def F_RAXOUT : UInt64 := 128
def F_XMMOUT : UInt64 := 144

/-- `sizeof(HLEFRAME)` -/
def frameBytes : Nat := 160

structure HLEFRAME where
  fn : UInt64
  rcx : UInt64
  rdx : UInt64
  r8 : UInt64
  r9 : UInt64
  /-- guest address of the 5th-argument slot -/
  stack : UInt64
  /-- qwords to copy from there -/
  nstack : UInt64
  x : Fin 4 → Xmm
  raxOut : UInt64
  xmm0Out : Xmm

def xmmAt (mem : Memory) (p : UInt64) : Xmm := (quad mem p.toNat, quad mem (p + 8).toNat)

def readFrame (mem : Memory) (f : UInt64) : HLEFRAME where
  fn := quad mem (f + F_FN).toNat
  rcx := quad mem (f + F_RCX).toNat
  rdx := quad mem (f + F_RDX).toNat
  r8 := quad mem (f + F_R8).toNat
  r9 := quad mem (f + F_R9).toNat
  stack := quad mem (f + F_STACK).toNat
  nstack := quad mem (f + F_NSTACK).toNat
  x := fun
    | 0 => xmmAt mem (f + F_X0)
    | 1 => xmmAt mem (f + F_X1)
    | 2 => xmmAt mem (f + F_X2)
    | 3 => xmmAt mem (f + F_X3)
  raxOut := quad mem (f + F_RAXOUT).toNat
  xmm0Out := xmmAt mem (f + F_XMMOUT)

/-- `QWORD PTR [rbx + disp]` -/
def field (disp : UInt64) : Address := ⟨some .rbx, none, disp⟩

def copyLoopLabel : Nat := 17
def copiedLabel : Nat := 22

def anchor : List Op := [
  .push .rbx,
  .push .rsi,
  .push .rdi,
  .push .rbp,
  .mov .rbp .rsp,
  .mov .rbx .rcx]

def makeRoom : List Op := [
  .load .rax (field F_NSTACK),
  .lea .rax ⟨none, some .rax, 32⟩,
  .addImm .rax 15,
  .andImm .rax (-16),
  .sub .rsp .rax,
  .andImm .rsp (-16)]

def countArguments : List Op := [
  .load .rcx (field F_NSTACK),
  .test .rcx .rcx]

def beginCopy : List Op := [
  .load .rsi (field F_STACK),
  .xor .rdx .rdx]

def copyLoop : List Op := [
  .load .rax ⟨some .rsi, some .rdx, 0⟩,
  .store ⟨some .rsp, some .rdx, 32⟩ .rax,
  .inc .rdx,
  .cmp .rdx .rcx]

def registerArguments : List Op := [
  .loadXmm 0 (field F_X0),
  .loadXmm 1 (field F_X1),
  .loadXmm 2 (field F_X2),
  .loadXmm 3 (field F_X3),
  .load .rdx (field F_RDX),
  .load .r8 (field F_R8),
  .load .r9 (field F_R9),
  .load .rax (field F_FN),
  .load .rcx (field F_RCX)]

def results : List Op := [
  .store (field F_RAXOUT) .rax,
  .storeXmm (field F_XMMOUT) 0]

def unwind : List Op := [
  .mov .rsp .rbp,
  .pop .rbp,
  .pop .rdi,
  .pop .rsi,
  .pop .rbx]

/-- `void hle_invoke(HLEFRAME *f)`, `f` in RCX. -/
def hleInvoke : List Instr :=
  anchor.map .op ++ makeRoom.map .op ++ countArguments.map .op ++ [.jz copiedLabel] ++
    beginCopy.map .op ++ copyLoop.map .op ++ [.jb copyLoopLabel] ++ registerArguments.map .op ++
    [.call .rax] ++ results.map .op ++ unwind.map .op ++ [.ret]

example : hleInvoke.drop copyLoopLabel = copyLoop.map .op ++ hleInvoke.drop 21 := rfl
example : hleInvoke.drop copiedLabel = registerArguments.map .op ++ hleInvoke.drop 31 := rfl

end Es3Recomp.Source.Thunk64
