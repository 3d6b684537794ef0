import Es3Recomp.Library.ByteMemory
import Es3Recomp.Library.LittleEndian
import Es3Recomp.Library.TextPattern

/-!
# Names and addresses of the server that is gone

Source: src/src/runtime/allnet.c:44-45 (`g_loopback`), 71-93 (`allnet_addr`, `allnet_addr_str`),
396-409 (`guest_str`), 423-515 (the two resolver hooks), 527-548 (`to_loopback` and the hook of
`connect`), 652-655 (that of `sendto`). A hook either hands the call on as it is or first puts a
name of its own in the argument. Winsock is missing: `inet_addr` and `gethostname` are parameters,
`inet_ntoa` is what it is documented to be. The statics of `allnet.c` are kept between calls;
what is printed is left out. A C string is a text without its terminating zero.
-/
namespace Es3Recomp.Source.Resolver
open Library

def INADDR_NONE : UInt32 := 0xFFFFFFFF

def AF_INET : UInt8 := 2

/-- `g_loopback` -/
def loopbackName : Text := "127.0.0.1".toList

/-- `"192.0.2.1"` -/
def testNetName : Text := "192.0.2.1".toList

/-- An address has its first number in its lowest byte. -/
def inetNtoa (a : UInt32) : Text :=
  let digits (byte : Nat) : Text := Nat.toDigits 10 (a.toNat / byte % 0x100)
  digits 1 ++ '.' :: (digits 0x100 ++ '.' :: (digits 0x10000 ++ '.' :: digits 0x1000000))

structure Env where
  /-- ES3_ALLNET_ADDR -/
  allnetAddr : Option Text
  inetAddr : Text → UInt32
  /-- `gethostname`, where it succeeds -/
  hostname : Option Text

/-- `cached` of `allnet_addr`, `s` of `allnet_addr_str` -/
structure Statics where
  cached : UInt32
  str : Text

def Statics.initial : Statics := ⟨0, []⟩

/-- `s && *s ? s : "192.0.2.1"` -/
def configured (e : Env) : Text :=
  match e.allnetAddr with
  | some s => if s ≠ [] then s else testNetName
  | none => testNetName

/-- What `allnet_addr` computes when it has to. -/
def chosenAddr (e : Env) : UInt32 :=
  let a := e.inetAddr (configured e)
  if a = INADDR_NONE then e.inetAddr testNetName else a

def allnetAddr (e : Env) (st : Statics) : UInt32 × Statics :=
  if st.cached ≠ 0 then (st.cached, st)
  else (chosenAddr e, { st with cached := chosenAddr e })

/-- `strncpy_s` keeps fifteen characters. -/
def allnetAddrStr (e : Env) (st : Statics) : Text × Statics :=
  if st.str = [] then
    let (a, st) := allnetAddr e st
    let s := (inetNtoa a).take 15
    (s, { st with str := s })
  else (st.str, st)

/-- The loop of `guest_str` from `p` on, with room for so many characters. -/
def guestChars (mem : Memory) : Nat → Nat → Option Text
  | 0, _ => some []
  | room + 1, p =>
    let ch := mem p
    if ch = 0 then some []
    else if ch < 0x20 ∨ 0x7E < ch then none
    else (guestChars mem room (p + 1)).map (Char.ofNat ch.toNat :: ·)

def guestStr (mem : Memory) (va : UInt32) (n : Nat) : Option Text :=
  if va < 0x10000 then none
  else (guestChars mem (n - 1) va.toNat).filter (· ≠ [])

/-- `_stricmp(a, b) == 0` -/
def stricmpEq (a b : Text) : Bool := a.map Char.toLower = b.map Char.toLower

/-- `self`, empty where `gethostname` fails -/
def self (e : Env) : Text := e.hostname.getD []

def isOwn (e : Env) (want : Text) : Bool :=
  stricmpEq want (self e) || stricmpEq want "localhost".toList

inductive Decision where
  | leave
  | substitute (name : Text)
  deriving DecidableEq

/-- `args` is `A32` -/
def es3HleGethostbyname (e : Env) (st : Statics) (mem : Memory) (args : Nat → UInt32) :
    Decision × Statics :=
  let substituted := allnetAddrStr e st
  match guestStr mem (args 0) 256 with
  | some want => if isOwn e want then (.leave, st) else (.substitute substituted.1, substituted.2)
  | none => (.substitute substituted.1, substituted.2)

def es3HleGetaddrinfo (e : Env) (st : Statics) (mem : Memory) (args : Nat → UInt32) :
    Decision × Statics :=
  match guestStr mem (args 0) 256 with
  | none => (.leave, st)
  | some want => if isOwn e want then (.leave, st) else (.substitute loopbackName, st)

/-- The address of a `sockaddr_in`. -/
def sinAddr (mem : Memory) (sa : UInt32) : UInt32 :=
  let p := sa.toNat + 4
  leWord (mem p) (mem (p + 1)) (mem (p + 2)) (mem (p + 3))

def toLoopback (e : Env) (st : Statics) (mem : Memory) (sa : UInt32) : Memory × Statics :=
  if sa = 0 ∨ mem sa.toNat ≠ AF_INET then (mem, st)
  else
    let (addr, st) := allnetAddr e st
    if sinAddr mem sa ≠ addr then (mem, st)
    else (store mem (sa.toNat + 4) (leBytes (e.inetAddr loopbackName)), st)

def es3HleConnect (e : Env) (st : Statics) (mem : Memory) (args : Nat → UInt32) :
    Memory × Statics := toLoopback e st mem (args 1)

def es3HleSendto (e : Env) (st : Statics) (mem : Memory) (args : Nat → UInt32) :
    Memory × Statics := toLoopback e st mem (args 4)

/-! ## Calls in a row -/

inductive Hook where
  | gethostbyname | getaddrinfo | connect | sendto
  deriving DecidableEq

/-- A call, with the memory and the arguments it finds. -/
structure HookCall where
  hook : Hook
  mem : Memory
  args : Nat → UInt32

/-- What a call leaves of the statics. -/
def after (e : Env) (st : Statics) (c : HookCall) : Statics :=
  match c.hook with
  | .gethostbyname => (es3HleGethostbyname e st c.mem c.args).2
  | .getaddrinfo => (es3HleGetaddrinfo e st c.mem c.args).2
  | .connect => (es3HleConnect e st c.mem c.args).2
  | .sendto => (es3HleSendto e st c.mem c.args).2

def afterAll (e : Env) (calls : List HookCall) : Statics := calls.foldl (after e) .initial

end Es3Recomp.Source.Resolver
