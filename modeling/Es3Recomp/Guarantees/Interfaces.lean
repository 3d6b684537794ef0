import Es3Recomp.Source.Interfaces
import Es3Recomp.Guarantees.Imports

/-!
# One interface out of the list

The game takes the last interface of the list that is up, and divides by the wrong size
(src/src/runtime/allnet.c:681-697, 738-758). So the hook leaves one entry, in the game's own
buffer: the one that Windows routes through, or else the first that can be used, or else the
one that was there. ES3_NO_LINK_FIX leaves the list alone (731).
-/
namespace Es3Recomp.Guarantees.Interfaces
open Library Source.Imports Source.Initterm Source.Interfaces Guarantees.Imports

/-! ## What the hook is for -/

/-- An `INTERFACE_INFO` -/
structure Interface where
  bytes : List UInt8
  sized : bytes.length = IFINFO

namespace Interface

def dword (i : Interface) (k : Nat) : UInt32 :=
  leWord (i.bytes.getD k 0) (i.bytes.getD (k + 1) 0) (i.bytes.getD (k + 2) 0)
    (i.bytes.getD (k + 3) 0)

def Up (i : Interface) : Prop := i.dword 0 &&& 1 ≠ 0

def Loopback (i : Interface) : Prop := i.dword 0 &&& 4 ≠ 0

def address (i : Interface) : UInt32 := i.dword 8

def Usable (i : Interface) : Prop := i.Up ∧ ¬ i.Loopback

instance (i : Interface) : Decidable i.Usable :=
  inferInstanceAs (Decidable (¬ _ ∧ ¬ ¬ _))

end Interface

/-- The first that is routed through, else the first that can be used, else the first. -/
def cabinets (route : Option UInt32) (list : List Interface) : Option Interface :=
  ((list.find? fun i => i.Usable ∧ route = some i.address).or
    (list.find? fun i => i.Usable)).or list.head?

def entry (mem : Memory) (p : Nat) : Interface := ⟨load mem ⟨p, IFINFO⟩, length_load mem _⟩

/-- The first `n` entries of a buffer. -/
def listed (mem : Memory) (p n : Nat) : List Interface :=
  (List.range n).map fun k => entry mem (p + k * IFINFO)

/-- A route lookup that fails has no address, and neither has one that finds 0.0.0.0. -/
def route (lookup : RouteLookup) : Option UInt32 :=
  if preferredAddr lookup = 0 then none else some (preferredAddr lookup)

/-! ## The loop -/

theorem dword_entry (mem : Memory) (p : Nat) {k : Nat} (inside : k + 4 ≤ IFINFO) :
    (entry mem p).dword k = uint32At mem (p + k) := by
  have byte (j : Nat) (within : j < IFINFO) : (entry mem p).bytes.getD j 0 = mem (p + j) := by
    have there : j < (load mem ⟨p, IFINFO⟩).length := by
      rw [length_load]
      exact within
    rw [entry, List.getD_eq_getElem?_getD, List.getElem?_eq_getElem there]
    simp [load]
  simp only [Interface.dword, uint32At]
  rw [byte k (by omega), byte (k + 1) (by omega), byte (k + 2) (by omega), byte (k + 3) (by omega)]
  simp only [Nat.add_assoc]

theorem skipped_iff (mem : Memory) (p : Nat) :
    (uint32At mem p &&& 1 = 0 ∨ uint32At mem p &&& 4 ≠ 0) ↔ ¬ (entry mem p).Usable := by
  have flags := dword_entry mem p (k := 0) (by decide)
  rw [Nat.add_zero] at flags
  simp only [Interface.Usable, Interface.Up, Interface.Loopback, flags]
  tauto

theorem routed_iff (lookup : RouteLookup) (a : UInt32) :
    (preferredAddr lookup ≠ 0 ∧ a = preferredAddr lookup) ↔ route lookup = some a := by
  rw [route]
  split <;> grind

/-- The scan takes the first entry that is routed through, else what it had, else the first
that can be used. -/
theorem pickFrom_eq (mem : Memory) (p : Nat) (lookup : RouteLookup) (ks : List Nat)
    (pick : Option Nat) :
    pickFrom mem p (preferredAddr lookup) ks pick =
      (ks.find? fun k => (entry mem (p + k * IFINFO)).Usable ∧
        route lookup = some (entry mem (p + k * IFINFO)).address).or
      (pick.or (ks.find? fun k => (entry mem (p + k * IFINFO)).Usable)) := by
  induction ks generalizing pick with
  | nil => simp [pickFrom]
  | cons k ks ih =>
    have address := dword_entry mem (p + k * IFINFO) (k := 8) (by decide)
    rw [pickFrom]
    by_cases usable : (entry mem (p + k * IFINFO)).Usable
    · have kept := (not_congr (skipped_iff mem (p + k * IFINFO))).mpr (not_not.mpr usable)
      rw [if_neg kept]
      by_cases routed : route lookup = some (entry mem (p + k * IFINFO)).address
      · have wanted := (routed_iff lookup _).mpr routed
        rw [Interface.address, address] at wanted
        rw [if_pos wanted, List.find?_cons_of_pos (by simpa using ⟨usable, routed⟩)]
        rfl
      · have unwanted := (not_congr (routed_iff lookup _)).mpr routed
        rw [Interface.address, address] at unwanted
        rw [if_neg unwanted, ih, List.find?_cons_of_neg (by simp [routed]),
          List.find?_cons_of_pos (by simpa using usable)]
        cases pick <;> rfl
    · have skipped := (skipped_iff mem (p + k * IFINFO)).mpr usable
      rw [if_pos skipped, ih, List.find?_cons_of_neg (by simp [usable]),
        List.find?_cons_of_neg (by simpa using usable)]

theorem cabinets_listed (mem : Memory) (p : Nat) (lookup : RouteLookup) {n : Nat} (some_ : 0 < n) :
    cabinets (route lookup) (listed mem p n) = some (entry mem
      (p + (pickFrom mem p (preferredAddr lookup) (List.range n) none).getD 0 * IFINFO)) := by
  have head : (listed mem p n).head? = some (entry mem (p + 0 * IFINFO)) := by
    obtain ⟨m, rfl⟩ := Nat.exists_eq_succ_of_ne_zero (Nat.ne_of_gt some_)
    simp [listed, List.range_succ_eq_map]
  rw [cabinets, head, pickFrom_eq, listed, List.find?_map, List.find?_map, Option.none_or]
  simp only [Function.comp_def]
  cases (List.range n).find? fun k => decide ((entry mem (p + k * IFINFO)).Usable ∧
      route lookup = some (entry mem (p + k * IFINFO)).address) with
  | some k => rfl
  | none =>
    cases (List.range n).find? fun k => decide (entry mem (p + k * IFINFO)).Usable with
    | some k => rfl
    | none => rfl

/-! ## The buffer -/

/-- The request that the filter is for, and it succeeded. -/
def Answered {σ : Type} (c c' : Cpu σ) : Prop :=
  A32 c 1 = SIO_GET_INTERFACE_LIST_ ∧ c'.eax = 0 ∧ A32 c 4 ≠ 0 ∧ A32 c 6 ≠ 0

/-- The bytes that came back. -/
def buffer (mem : Memory) (out pret : UInt32) : Span := ⟨out.toNat, (rd32 mem pret).toNat⟩

/-- So many entries in a buffer, and elsewhere how many bytes they are. -/
structure Returned (mem : Memory) (out pret : UInt32) (n : Nat) : Prop where
  count : (rd32 mem pret).toNat / IFINFO = n
  listed : 0 < n
  apart : (slotSpan pret).Apart (buffer mem out pret)

/-- The buffer and the count, before and after the filter. -/
structure Filtered (choice : Option Interface) (mem mem' : Memory) (out pret : UInt32) :
    Prop where
  first : choice = some (entry mem' out.toNat)
  count : gameCount (rd32 mem' pret) = 1
  bytes : rd32 mem' pret = 24
  behind : ∀ a, (buffer mem out pret).Holds a → out.toNat + IFINFO ≤ a → mem' a = mem a
  outside : ∀ a, ¬ (buffer mem out pret).Holds a → ¬ (slotSpan pret).Holds a → mem' a = mem a

/-- Entry `pick` moved to the front. -/
def moved (mem : Memory) (p pick : Nat) : Memory :=
  if pick ≠ 0 then copy mem p (p + pick * IFINFO) IFINFO else mem

theorem entry_moved (mem : Memory) (p pick : Nat) :
    entry (moved mem p pick) p = entry mem (p + pick * IFINFO) := by
  rw [moved]
  by_cases other : pick ≠ 0
  · have length := length_load mem ⟨p + pick * IFINFO, IFINFO⟩
    have front := load_store_take mem p IFINFO (load mem ⟨p + pick * IFINFO, IFINFO⟩)
      (Nat.le_of_eq length.symm)
    rw [List.take_of_length_le (Nat.le_of_eq length)] at front
    rw [if_pos other]
    simp only [entry, copy, front]
  · rw [if_neg other, not_not.mp other, Nat.zero_mul, Nat.add_zero]

theorem moved_sameOutside (mem : Memory) (p pick : Nat) :
    SameOutside ⟨p, IFINFO⟩ mem (moved mem p pick) := by
  rw [moved]
  split
  · exact copy_sameOutside mem p _ IFINFO
  · exact fun _ _ => rfl

theorem filtered_moved {mem : Memory} {out pret : UInt32} {n pick : Nat}
    (returned : Returned mem out pret n) {choice : Option Interface}
    (chosen : choice = some (entry mem (out.toNat + pick * IFINFO))) :
    Filtered choice mem (wr32 (moved mem out.toNat pick) pret 24) out pret := by
  obtain ⟨count, some_, apart⟩ := returned
  have whole : IFINFO ≤ (rd32 mem pret).toNat := by
    by_contra short
    rw [Nat.div_eq_of_lt (Nat.lt_of_not_le short)] at count
    omega
  have front : Span.Within ⟨out.toNat, IFINFO⟩ (buffer mem out pret) :=
    ⟨Nat.le_refl _, Nat.add_le_add_left whole _⟩
  have clear := apart.symm.disjoint
  have moves := moved_sameOutside mem out.toNat pick
  have sets : SameOutside (slotSpan pret) (moved mem out.toNat pick)
      (wr32 (moved mem out.toNat pick) pret 24) := store_sameOutside _ pret.toNat (leBytes 24)
  have bytes : rd32 (wr32 (moved mem out.toNat pick) pret 24) pret = 24 :=
    rd32_store _ (load_store_take _ pret.toNat 4 (leBytes 24) (Nat.le_refl _))
  refine ⟨?_, ?_, bytes, ?_, ?_⟩
  · have kept : load (wr32 (moved mem out.toNat pick) pret 24) ⟨out.toNat, IFINFO⟩ =
        load (moved mem out.toNat pick) ⟨out.toNat, IFINFO⟩ :=
      load_congr fun a here =>
        sets a (clear a ⟨here.1, Nat.lt_of_lt_of_le here.2 front.2⟩)
    rw [chosen, ← entry_moved mem out.toNat pick]
    simp only [entry, kept]
  · rw [bytes]
    rfl
  · intro a here past
    have away : ¬ Span.Holds ⟨out.toNat, IFINFO⟩ a := fun inside =>
      Nat.not_lt.mpr past inside.2
    rw [sets a (clear a here), moves a away]
  · intro a outside other
    have away : ¬ Span.Holds ⟨out.toNat, IFINFO⟩ a := fun inside =>
      outside ⟨inside.1, Nat.lt_of_lt_of_le inside.2 front.2⟩
    rw [sets a other, moves a away]

/-! ## The hook -/

section Hook

variable {σ : Type} (hleCallNative : Cpu σ → Cpu σ) (lookup : RouteLookup) (c : Cpu σ)

theorem wsaioctl_unanswered (noLinkFix : Bool) (other : ¬ Answered c (hleCallNative c)) :
    es3HleWsaioctl hleCallNative noLinkFix lookup c = hleCallNative c := by
  have leaves : A32 c 1 ≠ SIO_GET_INTERFACE_LIST_ ∨ (hleCallNative c).eax ≠ 0 ∨ A32 c 4 = 0 ∨
      A32 c 6 = 0 := by
    rw [Answered] at other
    tauto
  exact if_pos leaves

theorem wsaioctl_answered (answered : Answered c (hleCallNative c)) {n : Nat}
    (returned : Returned (hleCallNative c).mem (A32 c 4) (A32 c 6) n) :
    es3HleWsaioctl hleCallNative false lookup c =
      { hleCallNative c with
        mem := wr32 (moved (hleCallNative c).mem (A32 c 4).toNat
          ((pickFrom (hleCallNative c).mem (A32 c 4).toNat (preferredAddr lookup) (List.range n)
            none).getD 0)) (A32 c 6) 24 } := by
  obtain ⟨code, succeeded, out, pret⟩ := answered
  have goes : ¬ (A32 c 1 ≠ SIO_GET_INTERFACE_LIST_ ∨ (hleCallNative c).eax ≠ 0 ∨ A32 c 4 = 0 ∨
      A32 c 6 = 0) := by
    tauto
  have entries : (rd32 (hleCallNative c).mem (A32 c 6)).toNat / IFINFO ≠ 0 := by
    rw [returned.count]
    exact Nat.ne_of_gt returned.listed
  rw [es3HleWsaioctl]
  dsimp only
  rw [if_neg goes, if_neg Bool.false_ne_true, if_neg entries, returned.count, moved]

/-- The first entry is the one to take, the count is one, and nothing else has changed; without
a list, or where the list is to be left alone, nothing has. -/
theorem interfaces_filtered (noLinkFix : Bool) :
    (noLinkFix = false → ∀ n, Answered c (hleCallNative c) →
      Returned (hleCallNative c).mem (A32 c 4) (A32 c 6) n →
      ∃ mem, es3HleWsaioctl hleCallNative noLinkFix lookup c = { hleCallNative c with mem } ∧
        Filtered (cabinets (route lookup) (listed (hleCallNative c).mem (A32 c 4).toNat n))
          (hleCallNative c).mem mem (A32 c 4) (A32 c 6)) ∧
    (noLinkFix = true ∨ ¬ Answered c (hleCallNative c) →
      es3HleWsaioctl hleCallNative noLinkFix lookup c = hleCallNative c) := by
  constructor
  · intro filters n answered returned
    subst filters
    exact ⟨_, wsaioctl_answered hleCallNative lookup c answered returned,
      filtered_moved returned (cabinets_listed _ _ lookup returned.listed)⟩
  · intro leaves
    rcases leaves with rfl | other
    · rw [es3HleWsaioctl]
      dsimp only
      split
      · rfl
      · exact if_pos rfl
    · exact wsaioctl_unanswered hleCallNative lookup c noLinkFix other

end Hook

/-! ## A machine with three interfaces -/

def interfaceBytes (flags : UInt32) (address : UInt32) : List UInt8 :=
  leBytes flags ++ leBytes 2 ++ leBytes address ++ List.replicate 64 0

/-- Loopback, a virtual adapter at 172.19.0.1, and 192.168.100.129. -/
def board : List UInt8 :=
  interfaceBytes 5 0x0100007F ++ interfaceBytes 3 0x010013AC ++ interfaceBytes 3 0x8164A8C0

/-- The call's arguments: the buffer is at 0x20000, its count at 0x10000. -/
def asking : Cpu Unit :=
  { esp := 0x1000
    eax := 0
    mem := store (fun _ => 0) 0x1004
      (dump [1, SIO_GET_INTERFACE_LIST_, 0, 0, 0x20000, 1520, 0x10000])
    rest := () }

def windows (c : Cpu Unit) : Cpu Unit :=
  { c with mem := store (wr32 c.mem 0x10000 228) 0x20000 board }

def routed : RouteLookup := ⟨true, true, some 0x8164A8C0⟩

theorem third_interface_filtered :
    ∃ mem, es3HleWsaioctl windows false routed asking = { windows asking with mem } ∧
      Filtered (cabinets (route routed) (listed (windows asking).mem (A32 asking 4).toNat 3))
        (windows asking).mem mem (A32 asking 4) (A32 asking 6) :=
  (interfaces_filtered windows routed asking false).1 rfl 3
    ⟨by decide +kernel, by decide +kernel, by decide +kernel, by decide +kernel⟩
    ⟨by decide +kernel, by decide, by decide +kernel⟩

/-- With ES3_NO_LINK_FIX the game divides 228 by 24, and the loopback is still the first. -/
theorem list_left_alone :
    ¬ ∃ mem, es3HleWsaioctl windows true routed asking = { windows asking with mem } ∧
      Filtered (cabinets (route routed) (listed (windows asking).mem (A32 asking 4).toNat 3))
        (windows asking).mem mem (A32 asking 4) (A32 asking 6) := by
  intro picked
  obtain ⟨mem, same, filtered⟩ := picked
  have left : es3HleWsaioctl windows true routed asking = windows asking := by
    rw [es3HleWsaioctl]
    dsimp only
    split <;> rfl
  have unchanged : mem = (windows asking).mem := by
    have both := same.symm.trans left
    exact congrArg Cpu.mem both
  have nine : rd32 (windows asking).mem (A32 asking 6) ≠ 24 := by decide +kernel
  rw [unchanged] at filtered
  exact nine filtered.bytes

end Es3Recomp.Guarantees.Interfaces
