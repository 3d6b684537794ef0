import Es3Recomp.Source.Initterm

/-!
# The list of network interfaces, as the game gets it

Source: src/src/runtime/allnet.c:681-786 (`preferred_addr`, `es3_hle_wsaioctl`). The call of
the real WSAIoctl is a parameter on the whole machine, and so is what the sockets answer to
`preferred_addr`. A pointer is a number, and the buffer that Winsock has filled does not go past
the end of the address space; what is printed is left out.
-/
namespace Es3Recomp.Source.Interfaces
open Library Imports Initterm

def SIO_GET_INTERFACE_LIST_ : UInt32 := 0x4004747F

/-- `sizeof(INTERFACE_INFO)` -/
def IFINFO : Nat := 76

def uint32At (mem : Memory) (p : Nat) : UInt32 :=
  leWord (mem p) (mem (p + 1)) (mem (p + 2)) (mem (p + 3))

/-- What the three calls answer. -/
structure RouteLookup where
  socket : Bool
  connect : Bool
  getsockname : Option UInt32

def preferredAddr (lookup : RouteLookup) : UInt32 :=
  if lookup.socket ∧ lookup.connect then lookup.getsockname.getD 0 else 0

/-- The loop over these `k`. `(uint32_t)-1` in `pick` is `none`: no list has so many entries. -/
def pickFrom (mem : Memory) (p : Nat) (want : UInt32) : List Nat → Option Nat → Option Nat
  | [], pick => pick
  | k :: ks, pick =>
    let flags := uint32At mem (p + k * IFINFO)
    let a := uint32At mem (p + k * IFINFO + 8)
    -- down, or loopback
    if flags &&& 1 = 0 ∨ flags &&& 4 ≠ 0 then pickFrom mem p want ks pick
    else if want ≠ 0 ∧ a = want then some k
    else pickFrom mem p want ks (pick.or (some k))

variable {σ : Type} (hleCallNative : Cpu σ → Cpu σ)

/-- `noLinkFix`: whether ES3_NO_LINK_FIX is in the environment -/
def es3HleWsaioctl (noLinkFix : Bool) (lookup : RouteLookup) (c : Cpu σ) : Cpu σ :=
  let code := A32 c 1
  let out := A32 c 4
  let pret := A32 c 6
  let c := hleCallNative c
  if code ≠ SIO_GET_INTERFACE_LIST_ ∨ c.eax ≠ 0 ∨ out = 0 ∨ pret = 0 then c
  else if noLinkFix then c
  else
    let n := (rd32 c.mem pret).toNat / IFINFO
    if n = 0 then c
    else
      let p := out.toNat
      let pick := (pickFrom c.mem p (preferredAddr lookup) (List.range n) none).getD 0
      let mem := if pick ≠ 0 then copy c.mem p (p + pick * IFINFO) IFINFO else c.mem
      { c with mem := wr32 mem pret 24 }

/-- The count of the game, at 0x0067839E. -/
def gameCount (bytes : UInt32) : UInt32 := bytes / 24

end Es3Recomp.Source.Interfaces
