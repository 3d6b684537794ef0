import Mathlib.Algebra.Group.Nat.Defs
import Es3Recomp.Library.ByteMemory
import Es3Recomp.Library.LittleEndian
import Es3Recomp.Library.Transducer

/-!
# Callbacks into lifted code, and the stacks they run on

Source: src/src/runtime64/dispatch64.c:318-323 (`BRIDGE_STACK`, `BRIDGE_ARGCOPY`),
501-517 (`es3_native_call`, where the guest calls out), 1062-1071
(`es3_call_guest`), 1112-1191 (`es3_bridge_callback`); src/src/runtime64/loader64.c:
355-367 (`es3_alloc_stack`). One thread: native code runs on the host's stack,
lifted code on the stack `es3_alloc_stack` gave the thread or, when the bridge
entered it, on the thread's bridge stack. The bridge allocates that stack on its
first call and keeps it; here it is there from the start. Stores of native code
are left out.
-/
namespace Es3Recomp.Source.Bridge64
open Library

def BRIDGE_STACK : Nat := 1048576
def BRIDGE_ARGCOPY : Nat := 512

inductive Reg where
  | rax | rcx | rdx | rbx | rbp | rsi | rdi | r8 | r9 | r10 | r11 | r12 | r13 | r14 | r15
  deriving DecidableEq

structure Cpu where
  rsp : UInt64
  gpr : Reg → UInt64
  xmm : Fin 16 → UInt64 × UInt64

/-- The CONTEXT of the faulting thread, as far as the bridge uses it. -/
structure Context where
  rip : UInt64
  rsp : UInt64
  gpr : Reg → UInt64
  xmm : Fin 16 → UInt64 × UInt64

/-- Where the stacks of a thread are. `VirtualAlloc` gives ranges of its own. -/
structure Layout where
  /-- `tls_stack` -/
  bridge : UInt64
  /-- what `es3_alloc_stack` reserved for the thread; empty when it did not -/
  own : Span
  fits : bridge.toNat + BRIDGE_STACK ≤ 2 ^ 64
  apart : own.Apart ⟨bridge.toNat, BRIDGE_STACK⟩

def rd64 (mem : Memory) (a : UInt64) : UInt64 :=
  match unpack (load mem ⟨a.toNat, 8⟩) with
  | [lo, hi] => lo.toUInt64 ||| (hi.toUInt64 <<< 32)
  | _ => 0

def wr64 (mem : Memory) (a v : UInt64) : Memory :=
  store mem a.toNat (dump [v.toUInt32, (v >>> 32).toUInt32])

/-- `tls_stack + BRIDGE_STACK - BRIDGE_ARGCOPY`, moved down to the 16-byte phase of
the RSP of the caller. -/
def topOf (bridge rsp : UInt64) : UInt64 :=
  let top := bridge + UInt64.ofNat (BRIDGE_STACK - BRIDGE_ARGCOPY)
  top - ((top - rsp) &&& 15)

/-- The window that is copied is on the host's stack. -/
def HostWindow (L : Layout) (rsp : UInt64) : Prop :=
  rsp.toNat + BRIDGE_ARGCOPY ≤ 2 ^ 64 ∧
    (Span.mk rsp.toNat BRIDGE_ARGCOPY).Apart ⟨L.bridge.toNat, BRIDGE_STACK⟩ ∧
    (Span.mk rsp.toNat BRIDGE_ARGCOPY).Apart L.own

instance (L : Layout) (rsp : UInt64) : Decidable (HostWindow L rsp) :=
  inferInstanceAs (Decidable (_ ∧ _))

/-- A lifted function that was entered from outside, with the CPU it was entered with. -/
inductive Activation (L : Layout) where
  | own (cpu : Cpu) (inside : (Span.mk cpu.rsp.toNat 0).Within L.own)
  | bridged (ctx : Context) (retaddr : UInt64) (cpu : Cpu) (host : HostWindow L ctx.rsp)
      (top : cpu.rsp = topOf L.bridge ctx.rsp)

namespace Activation
variable {L : Layout}

/-- RSP at entry: the return address is there. -/
def entry : Activation L → Nat
  | .own cpu _ | .bridged _ _ cpu _ _ => cpu.rsp.toNat

def isBridged : Activation L → Bool
  | .own _ _ => false
  | .bridged _ _ _ _ _ => true

/-- The stack below the entry RSP, and above it the arguments: for the bridge the
window it copied, for the thread's own stack what is left of it. -/
def reach : Activation L → Span
  | .own _ _ => L.own
  | .bridged _ _ cpu _ _ => ⟨L.bridge.toNat, cpu.rsp.toNat + BRIDGE_ARGCOPY - L.bridge.toNat⟩

end Activation

/-- A lifted function in a native call: its RSP when it called out, and the memory
as it left it. -/
structure Suspended (L : Layout) where
  act : Activation L
  rsp : UInt64
  saved : Memory
  inside : act.reach.start ≤ rsp.toNat ∧ rsp.toNat ≤ act.entry

/-- Its part of the stack: from that RSP to the end of its arguments. -/
def Suspended.frame {L : Layout} (s : Suspended L) : Span :=
  ⟨s.rsp.toNat, s.act.reach.start + s.act.reach.len - s.rsp.toNat⟩

structure Thread (L : Layout) where
  mem : Memory
  /-- innermost first -/
  suspended : List (Suspended L)
  /-- `none`: native code is running -/
  running : Option (Activation L)

/-- `es3_bridge_callback` up to the dispatch. -/
def bridgeEnter (L : Layout) (mem : Memory) (ctx : Context) (host : HostWindow L ctx.rsp) :
    Memory × Activation L :=
  let top := topOf L.bridge ctx.rsp
  (copy mem top.toNat ctx.rsp.toNat BRIDGE_ARGCOPY,
    .bridged ctx (rd64 mem ctx.rsp) ⟨top, ctx.gpr, ctx.xmm⟩ host rfl)

/-- RAX and the registers that are the guest's to preserve. -/
def travelsBack : Reg → Bool
  | .rax | .rbx | .rbp | .rsi | .rdi | .r12 | .r13 | .r14 | .r15 => true
  | _ => false

/-- `es3_bridge_callback` after the dispatch: the shadow space and the registers
travel back. -/
def bridgeLeave (mem : Memory) (ctx : Context) (retaddr top : UInt64) (c : Cpu) :
    Memory × Context :=
  (copy mem (ctx.rsp.toNat + 8) (top.toNat + 8) 32,
    { rip := retaddr
      rsp := ctx.rsp + 8
      gpr := fun r => if travelsBack r then c.gpr r else ctx.gpr r
      xmm := c.xmm })

/-- `es3_call_guest` before its dispatch. -/
def es3CallGuest (mem : Memory) (c : Cpu) : Memory × Cpu :=
  let rsp := c.rsp - 8
  (wr64 mem rsp 0xE5E3CA11E5E3CA11, { c with rsp })

/-! ## A thread, event by event -/

inductive Event where
  /-- native code calls a guest address, and the fault is bridged -/
  | callback (ctx : Context)
  /-- the running lifted code stores a byte on its stack -/
  | store (addr : Nat) (b : UInt8)
  /-- an intercepted import calls lifted code on the CPU of its caller -/
  | callGuest (c : Cpu)
  /-- the running lifted code calls a native import -/
  | callOut (rsp : UInt64)
  | nativeReturn
  /-- the function that was entered from outside returns, with this CPU -/
  | guestReturn (c : Cpu)

/-- Bytes the runtime or lifted code has written, and who was suspended then; or the
context in which native code goes on. -/
inductive Output (L : Layout) where
  | wrote (span : Span) (suspended : List (Suspended L))
  | resumed (ctx : Context)

/-- One event; an event that cannot happen in a state changes nothing. -/
def step (L : Layout) (t : Thread L) : Event → Thread L × List (Output L)
  | .callback ctx =>
    match t.running with
    | some _ => (t, [])
    | none =>
      if host : HostWindow L ctx.rsp then
        let (mem, act) := bridgeEnter L t.mem ctx host
        ({ t with mem, running := some act }, [.wrote ⟨act.entry, BRIDGE_ARGCOPY⟩ t.suspended])
      else (t, [])
  | .store addr b =>
    match t.running with
    | none => (t, [])
    | some act =>
      if (Span.mk addr 1).Within act.reach then
        ({ t with mem := Library.store t.mem addr [b] }, [.wrote ⟨addr, 1⟩ t.suspended])
      else (t, [])
  | .callGuest c =>
    match t.running with
    | none => (t, [])
    | some act =>
      let (mem, callee) := es3CallGuest t.mem c
      if (Span.mk callee.rsp.toNat 8).Within act.reach then
        ({ t with mem }, [.wrote ⟨callee.rsp.toNat, 8⟩ t.suspended])
      else (t, [])
  | .callOut rsp =>
    match t.running with
    | none => (t, [])
    | some act =>
      if inside : act.reach.start ≤ rsp.toNat ∧ rsp.toNat ≤ act.entry then
        ({ t with suspended := ⟨act, rsp, t.mem, inside⟩ :: t.suspended, running := none }, [])
      else (t, [])
  | .nativeReturn =>
    match t.running, t.suspended with
    | none, s :: rest => ({ t with suspended := rest, running := some s.act }, [])
    | _, _ => (t, [])
  | .guestReturn c =>
    match t.running with
    | none => (t, [])
    | some (.own _ _) => ({ t with running := none }, [])
    | some (.bridged ctx retaddr cpu _ _) =>
      let (mem, ctx') := bridgeLeave t.mem ctx retaddr cpu.rsp c
      ({ t with mem, running := none },
        [.wrote ⟨ctx.rsp.toNat + 8, 32⟩ t.suspended, .resumed ctx'])

def thread (L : Layout) : Transducer (Thread L) Event (Output L) := ⟨step L⟩

/-- A thread at its start: in native code, or entered on its own stack. -/
def Thread.start {L : Layout} (mem : Memory)
    (main : Option { cpu : Cpu // (Span.mk cpu.rsp.toNat 0).Within L.own }) : Thread L where
  mem := mem
  suspended := []
  running := main.map fun m => .own m.1 m.2

theorem topOf_bounds (L : Layout) (rsp : UInt64) :
    L.bridge.toNat + 1048049 ≤ (topOf L.bridge rsp).toNat ∧
      (topOf L.bridge rsp).toNat ≤ L.bridge.toNat + 1048064 := by
  have fits := L.fits
  unfold BRIDGE_STACK at fits
  have top : (L.bridge + UInt64.ofNat (BRIDGE_STACK - BRIDGE_ARGCOPY)).toNat =
      L.bridge.toNat + 1048064 := by
    rw [UInt64.toNat_add, show (UInt64.ofNat (BRIDGE_STACK - BRIDGE_ARGCOPY)).toNat = 1048064 from rfl]
    omega
  simp only [topOf]
  generalize L.bridge + UInt64.ofNat (BRIDGE_STACK - BRIDGE_ARGCOPY) = t at top
  have phase : ((t - rsp) &&& 15).toNat ≤ 15 := by
    rw [UInt64.toNat_and]
    exact Nat.and_le_right
  have below : (t - rsp) &&& 15 ≤ t := by
    rw [UInt64.le_iff_toNat_le]
    omega
  rw [UInt64.toNat_sub_of_le _ _ below]
  omega

end Es3Recomp.Source.Bridge64
