import Es3Recomp.Library.TextPattern
import Es3Recomp.Library.Transducer
import Es3Recomp.Library.WordMemory
import Es3Recomp.Source.Chain

/-!
# Calls into Direct3D and DXGI

Source: src/src/runtime/hle_native.c:148-159 (`es3_d3d_note_factory`), 218-244 (`force_windowed`),
276-330 (`in_dxgi`, `force_windowed_dxgi`), 427-497 and 517-520 (`hle_call_address`);
src/src/runtime/hle_callback.c:661-666 (`hle_d3d_create9ex`). What the real code does with the
memory it is handed is a function of the call. The traces, and what is said once, are left out, and
with them `es3_d3d_note_device`; of the registers only those that are read.
-/
namespace Es3Recomp.Source.Renderer
open Library Source.ArgString
open Source.Chain (PAGE_GUARD)

/-- `A32(n)`: an argument on the stack of the guest. -/
def A32 (mem : Memory32) (esp n : UInt32) : UInt32 := dword mem (esp + 4 + 4 * n)

def wr32 (mem : Memory32) (a v : UInt32) : Memory32 := write mem a (leBytes v)

/-- What a process is started with, and where its libraries have what is looked for. -/
structure World where
  /-- ES3_FULLSCREEN -/
  fullscreen : Bool
  /-- `es3_dxgi_create_swapchain_addr()` -/
  createSwapChain : UInt32
  /-- `es3_dxgi_enum_outputs_addr()` -/
  enumOutputs : UInt32
  /-- `es3_fake_output()` -/
  fakeOutput : UInt32

/-- The registers and the memory with which real code comes back. -/
structure Reply where
  eax : UInt32
  mem : Memory32

/-- A call, with what Windows says of the process at that time. -/
structure Call where
  target : UInt32
  esp : UInt32
  mem : Memory32
  virtualQuery : UInt32 → Option RegionInfo
  /-- `AllocationBase` and the file of the module that an address is in -/
  moduleOf : UInt32 → Option (UInt32 × Text)
  isWindow : UInt32 → Bool
  machine : Memory32 → Reply

/-- The globals. -/
structure Globals where
  createDevice : UInt32
  createDeviceEx : UInt32
  dxgiLo : UInt32
  dxgiHi : UInt32
  swapChain : UInt32
  present : UInt32

def Globals.initial : Globals := ⟨0, 0, 0, 0, 0, 0⟩

/-! ## Direct3D 9 -/

/-- `es3_d3d_note_factory` -/
def noteFactory (r : Globals) (mem : Memory32) (iface : UInt32) : Globals :=
  if iface = 0 ∨ r.createDeviceEx ≠ 0 then r
  else
    let vt := dword mem iface
    if vt = 0 then r
    else { r with
      createDevice := dword mem (vt + 4 * 16)
      createDeviceEx := dword mem (vt + 4 * 20) }

/-- `force_windowed`: the memory that the callee gets. -/
def forceWindowed (w : World) (r : Globals) (c : Call) : Memory32 :=
  if w.fullscreen ∨ r.createDeviceEx = 0 then c.mem
  else if c.target ≠ r.createDevice ∧ c.target ≠ r.createDeviceEx then c.mem
  else
    let pp := A32 c.mem c.esp 5
    if pp = 0 then c.mem
    else if dword c.mem (pp + 0x20) = 0 then
      let mem := wr32 c.mem (pp + 0x20) 1
      let mem := wr32 mem (pp + 0x30) 0
      if c.target = r.createDeviceEx then wr32 mem (c.esp + 4 + 4 * 6) 0 else mem
    else c.mem

/-! ## DXGI -/

/-- The name behind the last backslash. -/
def leaf (path : Text) : Text := (path.reverse.takeWhile (· ≠ '\\')).reverse

/-- `_wcsicmp` with `dxgi.dll` -/
def isDxgi (path : Text) : Bool := (leaf path).map Char.toLower = "dxgi.dll".toList

def inDxgi (r : Globals) (c : Call) : Globals × Bool :=
  if r.dxgiLo ≤ c.target ∧ c.target < r.dxgiHi then (r, true)
  else if r.dxgiLo ≠ 0 then (r, false)
  else
    match c.moduleOf c.target with
    | none => (r, false)
    | some (base, path) =>
      if isDxgi path then ({ r with dxgiLo := base, dxgiHi := base + 0x00200000 }, true)
      else (r, false)

/-- The sixty bytes of a DXGI_SWAP_CHAIN_DESC are there to be read. -/
def descReadable (virtualQuery : UInt32 → Option RegionInfo) (desc : UInt32) : Bool :=
  match virtualQuery desc with
  | none => false
  | some mi =>
    mi.state = MEM_COMMIT && mi.protect &&& (PAGE_NOACCESS ||| PAGE_GUARD) = 0 &&
      desc + 60 ≤ mi.baseAddress + mi.regionSize

/-- `force_windowed_dxgi`, with the memory that `force_windowed` has left. -/
def forceWindowedDxgi (w : World) (r : Globals) (c : Call) (mem : Memory32) :
    Globals × Memory32 :=
  if w.fullscreen then (r, mem)
  else
    let (r, inside) := inDxgi r c
    let desc := A32 mem c.esp 2
    if inside = false ∨ desc < 0x10000 then (r, mem)
    else if descReadable c.virtualQuery desc = false then (r, mem)
    else if c.isWindow (dword mem (desc + 44)) = false then (r, mem)
    else if dword mem (desc + 48) = 0 then (r, wr32 mem (desc + 48) 1)
    else (r, mem)

/-! ## The call -/

/-- What a call hands to real code, the swap chain whose picture is taken before that, and what the
guest gets back. -/
structure Crossing where
  call : Call
  handed : Memory32
  shot : Option UInt32
  back : Reply

/-- The game's swap chain, where one was made. -/
def noteSwapChain (w : World) (r : Globals) (c : Call) (reply : Reply) : Globals :=
  if c.target ≠ 0 ∧ c.target = w.createSwapChain ∧ reply.eax = 0 then
    let pp := A32 reply.mem c.esp 3
    if pp = 0 then r
    else
      let sc := dword reply.mem pp
      if sc ≠ 0 ∧ sc ≠ r.swapChain then
        { r with swapChain := sc, present := dword reply.mem (dword reply.mem sc + 4 * 8) }
      else r
  else r

def DXGI_ERROR_NOT_FOUND : UInt32 := 0x887A0002

/-- A display, for an adapter that has none. -/
def handDisplay (w : World) (c : Call) (reply : Reply) : Reply :=
  if c.target ≠ 0 ∧ c.target = w.enumOutputs ∧ reply.eax = DXGI_ERROR_NOT_FOUND ∧
      A32 reply.mem c.esp 1 = 0 then
    let pp := A32 reply.mem c.esp 2
    if pp ≠ 0 ∧ w.fakeOutput ≠ 0 then ⟨0, wr32 reply.mem pp w.fakeOutput⟩ else reply
  else reply

/-- `hle_call_address` -/
def hleCallAddress (w : World) (r : Globals) (c : Call) : Globals × Crossing :=
  let mem := forceWindowed w r c
  let (r, mem) := forceWindowedDxgi w r c mem
  let shot := if c.target ≠ 0 ∧ c.target = r.present then some r.swapChain else none
  let reply := c.machine mem
  (noteSwapChain w r c reply, ⟨c, mem, shot, handDisplay w c reply⟩)

inductive Event where
  /-- `hle_d3d_create9ex`: its second argument, and what Direct3DCreate9Ex came back with -/
  | create9Ex (pp : UInt32) (reply : Reply)
  | call (c : Call)

def renderer (w : World) : Transducer Globals Event Crossing where
  step r
    | .create9Ex pp reply =>
      (if pp ≠ 0 ∧ reply.eax = 0 then noteFactory r reply.mem (dword reply.mem pp) else r, [])
    | .call c =>
      let (r, crossing) := hleCallAddress w r c
      (r, [crossing])

end Es3Recomp.Source.Renderer
