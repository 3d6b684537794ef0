import Es3Recomp.Source.Resolver
import Mathlib.Data.List.Basic

/-!
# One policy for names, in three places

The resolvers are to hand out an address that the game's library does not reject, and `connect`
and `sendto` put it back on loopback (src/src/runtime/allnet.c:53-70, 523-526). `gethostbyname`
does so. `getaddrinfo` hands out 127.0.0.1 itself (513), and leaves to Windows what has no name
(497), for which the other one substitutes (437).
-/
namespace Es3Recomp.Guarantees.Resolver
open Library Source.Resolver

/-- 127.0.0.1 -/
def LOOPBACK : UInt32 := 0x0100007F

/-- 192.0.2.1 -/
def TEST_NET : UInt32 := 0x010200C0

/-- What is relied on of `inet_addr`: the two literals of the source are addresses. -/
structure Winsock (inetAddr : Text → UInt32) : Prop where
  loopback : inetAddr loopbackName = LOOPBACK
  testNet : inetAddr testNetName = TEST_NET

/-- The address is put back on loopback, in a `sockaddr_in` and nowhere else. -/
def PutsBack (a : UInt32) (mem mem' : Memory) (sa : UInt32) : Prop :=
  if sa ≠ 0 ∧ mem sa.toNat = AF_INET ∧ sinAddr mem sa = a then
    sinAddr mem' sa = LOOPBACK ∧ SameOutside ⟨sa.toNat + 4, 4⟩ mem mem'
  else mem' = mem

/-- The machine's own name or localhost is asked for. -/
def AsksOwn (e : Env) (mem : Memory) (args : Nat → UInt32) : Prop :=
  ∃ want, guestStr mem (args 0) 256 = some want ∧ isOwn e want

/-- The hooks agree about a name, in any state of their statics. -/
structure OnePolicy (e : Env) (st : Statics) (mem : Memory) (args : Nat → UInt32) : Prop where
  same : (es3HleGethostbyname e st mem args).1 = (es3HleGetaddrinfo e st mem args).1
  leaves : ((es3HleGethostbyname e st mem args).1 = .leave ↔ AsksOwn e mem args) ∧
    ((es3HleGetaddrinfo e st mem args).1 = .leave ↔ AsksOwn e mem args)
  address : ∀ s, (es3HleGethostbyname e st mem args).1 = .substitute s ∨
    (es3HleGetaddrinfo e st mem args).1 = .substitute s → s = inetNtoa (chosenAddr e)
  computed : (allnetAddr e st).1 = chosenAddr e
  outside : chosenAddr e &&& 0xFF = 127 →
    ∃ s, e.allnetAddr = some s ∧ s ≠ [] ∧ e.inetAddr s = chosenAddr e
  connect : ∀ mem' args', PutsBack (chosenAddr e) mem' (es3HleConnect e st mem' args').1 (args' 1)
  sendto : ∀ mem' args', PutsBack (chosenAddr e) mem' (es3HleSendto e st mem' args').1 (args' 4)

/-! ## Dotted decimal -/

theorem toDigits_injective : Function.Injective (Nat.toDigits 10) := by
  intro i j same
  rw [← Nat.ofDigitChars_ten_toDigits (n := i), same, Nat.ofDigitChars_ten_toDigits]

theorem dot_not_mem_toDigits (n : Nat) : '.' ∉ Nat.toDigits 10 n := fun member =>
  absurd (Nat.isDigit_of_mem_toDigits (by decide) (by decide) member) (by decide)

/-- What stands before the first dot, and what behind it. -/
theorem append_dot_inj {xs xs' ys ys' : List Char} (clean : '.' ∉ xs) (clean' : '.' ∉ xs')
    (same : xs ++ '.' :: ys = xs' ++ '.' :: ys') : xs = xs' ∧ ys = ys' := by
  induction xs generalizing xs' with
  | nil =>
    cases xs' with
    | nil => exact ⟨rfl, (List.cons.inj same).2⟩
    | cons x' xs' =>
      exact absurd (List.mem_cons.mpr (.inl (List.cons.inj same).1)) clean'
  | cons x xs ih =>
    cases xs' with
    | nil => exact absurd (List.mem_cons.mpr (.inl (List.cons.inj same).1.symm)) clean
    | cons x' xs' =>
      obtain ⟨head, tail⟩ := List.cons.inj same
      have rest := ih (fun member => clean (List.mem_cons_of_mem _ member))
        (fun member => clean' (List.mem_cons_of_mem _ member)) tail
      exact ⟨by rw [head, rest.1], rest.2⟩

theorem toDigits_dot_inj {m n : Nat} {xs ys : List Char}
    (same : Nat.toDigits 10 m ++ '.' :: xs = Nat.toDigits 10 n ++ '.' :: ys) : m = n ∧ xs = ys := by
  have parts := append_dot_inj (dot_not_mem_toDigits m) (dot_not_mem_toDigits n) same
  exact ⟨toDigits_injective parts.1, parts.2⟩

theorem inetNtoa_injective : Function.Injective inetNtoa := by
  intro a b same
  obtain ⟨first, same⟩ := toDigits_dot_inj same
  obtain ⟨second, same⟩ := toDigits_dot_inj same
  obtain ⟨third, same⟩ := toDigits_dot_inj same
  have fourth := toDigits_injective same
  have boundA := a.toNat_lt
  have boundB := b.toNat_lt
  apply UInt32.toNat_inj.mp
  omega

theorem length_toDigits_byte (n : Nat) : (Nat.toDigits 10 (n % 0x100)).length ≤ 3 :=
  (Nat.length_toDigits_le_iff (by decide) (by decide)).mpr (by omega)

theorem length_inetNtoa (a : UInt32) : (inetNtoa a).length ≤ 15 := by
  have first := length_toDigits_byte (a.toNat / 1)
  have second := length_toDigits_byte (a.toNat / 0x100)
  have third := length_toDigits_byte (a.toNat / 0x10000)
  have fourth := length_toDigits_byte (a.toNat / 0x1000000)
  simp only [inetNtoa, List.length_append, List.length_cons]
  omega

theorem inetNtoa_loopback : inetNtoa LOOPBACK = loopbackName := by decide +kernel

/-! ## The statics -/

/-- Empty, or what would be computed again. -/
structure Warm (e : Env) (st : Statics) : Prop where
  cached : st.cached = 0 ∨ st.cached = chosenAddr e
  str : st.str = [] ∨ st.str = inetNtoa (chosenAddr e)

theorem warm_initial (e : Env) : Warm e .initial := ⟨.inl rfl, .inl rfl⟩

variable {e : Env} {st : Statics}

theorem allnetAddr_warm (warm : Warm e st) :
    (allnetAddr e st).1 = chosenAddr e ∧ Warm e (allnetAddr e st).2 := by
  rw [allnetAddr]
  by_cases known : st.cached ≠ 0
  · rw [if_pos known]
    exact ⟨warm.cached.resolve_left known, warm⟩
  · rw [if_neg known]
    exact ⟨rfl, .inr rfl, warm.str⟩

theorem allnetAddrStr_warm (warm : Warm e st) :
    (allnetAddrStr e st).1 = inetNtoa (chosenAddr e) ∧ Warm e (allnetAddrStr e st).2 := by
  rw [allnetAddrStr]
  by_cases empty : st.str = []
  · have computed := allnetAddr_warm warm
    have text : (inetNtoa (allnetAddr e st).1).take 15 = inetNtoa (chosenAddr e) := by
      rw [computed.1, List.take_of_length_le (length_inetNtoa _)]
    rw [if_pos empty]
    exact ⟨text, computed.2.cached, .inr text⟩
  · rw [if_neg empty]
    exact ⟨warm.str.resolve_left empty, warm⟩

theorem toLoopback_warm (warm : Warm e st) (mem : Memory) (sa : UInt32) :
    Warm e (toLoopback e st mem sa).2 := by
  have computed := (allnetAddr_warm warm).2
  rw [toLoopback]
  split
  · exact warm
  · dsimp only
    split <;> exact computed

theorem after_warm (warm : Warm e st) (c : HookCall) : Warm e (after e st c) := by
  have substituted := (allnetAddrStr_warm warm).2
  rw [after]
  split
  · rw [es3HleGethostbyname]
    split
    · split
      · exact warm
      · exact substituted
    · exact substituted
  · rw [es3HleGetaddrinfo]
    split
    · exact warm
    · split <;> exact warm
  · exact toLoopback_warm warm c.mem _
  · exact toLoopback_warm warm c.mem _

theorem afterAll_warm (e : Env) (calls : List HookCall) : Warm e (afterAll e calls) :=
  List.foldlRecOn calls (after e) (warm_initial e) fun _ warm c _ => after_warm warm c

/-! ## What always holds -/

theorem sinAddr_store (mem : Memory) (sa w : UInt32) :
    sinAddr (store mem (sa.toNat + 4) (leBytes w)) sa = w := by
  have byte (k : Nat) (inside : k < 4) :
      store mem (sa.toNat + 4) (leBytes w) (sa.toNat + 4 + k) =
        (leBytes w).getD k (mem (sa.toNat + 4 + k)) := by
    rw [store, if_pos (Nat.le_add_right _ _), Nat.add_sub_cancel_left]
  have first := byte 0 (by decide)
  rw [Nat.add_zero] at first
  rw [sinAddr, first, byte 1 (by decide), byte 2 (by decide), byte 3 (by decide)]
  exact leWord_leBytes w

theorem toLoopback_putsBack (winsock : Winsock e.inetAddr) (warm : Warm e st) (mem : Memory)
    (sa : UInt32) : PutsBack (chosenAddr e) mem (toLoopback e st mem sa).1 sa := by
  have computed := (allnetAddr_warm warm).1
  rw [PutsBack, toLoopback]
  by_cases other : sa = 0 ∨ mem sa.toNat ≠ AF_INET
  · have no : ¬ (sa ≠ 0 ∧ mem sa.toNat = AF_INET ∧ sinAddr mem sa = chosenAddr e) := by
      tauto
    rw [if_pos other, if_neg no]
  · obtain ⟨there, family⟩ := not_or.mp other
    rw [if_neg other]
    dsimp only
    rw [computed]
    by_cases away : sinAddr mem sa ≠ chosenAddr e
    · have no : ¬ (sa ≠ 0 ∧ mem sa.toNat = AF_INET ∧ sinAddr mem sa = chosenAddr e) :=
        fun all => away all.2.2
      rw [if_pos away, if_neg no]
    · rw [if_neg away, if_pos ⟨there, not_not.mp family, not_not.mp away⟩, winsock.loopback]
      exact ⟨sinAddr_store mem sa LOOPBACK,
        store_sameOutside mem (sa.toNat + 4) (leBytes LOOPBACK)⟩

theorem configured_cases (e : Env) : configured e = testNetName ∨
    ∃ s, e.allnetAddr = some s ∧ s ≠ [] ∧ configured e = s := by
  rw [configured]
  split
  · rename_i s asked
    by_cases empty : s = []
    · exact .inl (if_neg (not_not.mpr empty))
    · exact .inr ⟨s, asked, empty, if_pos empty⟩
  · exact .inl rfl

/-- An address on loopback was asked for by name. -/
theorem chosenAddr_outside (winsock : Winsock e.inetAddr) (inside : chosenAddr e &&& 0xFF = 127) :
    ∃ s, e.allnetAddr = some s ∧ s ≠ [] ∧ e.inetAddr s = chosenAddr e := by
  have fallback : e.inetAddr testNetName &&& 0xFF ≠ 127 := by
    rw [winsock.testNet]
    decide
  have asked : chosenAddr e = e.inetAddr testNetName ∨
      chosenAddr e = e.inetAddr (configured e) := by
    rw [chosenAddr]
    split
    · exact .inl rfl
    · exact .inr rfl
  rcases asked with default_ | asked
  · rw [default_] at inside
    exact absurd inside fallback
  · rcases configured_cases e with default_ | ⟨s, set, some_text, same⟩
    · rw [asked, default_] at inside
      exact absurd inside fallback
    · exact ⟨s, set, some_text, by rw [asked, same]⟩

/-- ES3_ALLNET_ADDR is 127.0.0.1. -/
def AsksLoopback (e : Env) : Prop :=
  ∃ s, e.allnetAddr = some s ∧ s ≠ [] ∧ e.inetAddr s = LOOPBACK

theorem chosenAddr_loopback_iff (winsock : Winsock e.inetAddr) :
    chosenAddr e = LOOPBACK ↔ AsksLoopback e := by
  constructor
  · intro chosen
    have inside : chosenAddr e &&& 0xFF = 127 := by
      rw [chosen]
      decide
    obtain ⟨s, set, text, same⟩ := chosenAddr_outside winsock inside
    exact ⟨s, set, text, same.trans chosen⟩
  · intro asks
    obtain ⟨s, set, text, same⟩ := asks
    have asked : configured e = s := by
      rw [configured, set]
      exact if_pos text
    have address : LOOPBACK ≠ INADDR_NONE := by decide
    rw [chosenAddr, asked, same]
    exact if_neg address

/-! ## Where the two resolvers agree -/

theorem gethostbyname_eq (warm : Warm e st) (mem : Memory) (args : Nat → UInt32) :
    (es3HleGethostbyname e st mem args).1 =
      if ∃ want, guestStr mem (args 0) 256 = some want ∧ isOwn e want then .leave
      else .substitute (inetNtoa (chosenAddr e)) := by
  have text := (allnetAddrStr_warm warm).1
  rw [es3HleGethostbyname]
  cases asked : guestStr mem (args 0) 256 with
  | none => simp [text]
  | some want => by_cases own : isOwn e want = true <;> simp [own, text]

theorem getaddrinfo_eq (mem : Memory) (args : Nat → UInt32) :
    (es3HleGetaddrinfo e st mem args).1 =
      if ∃ want, guestStr mem (args 0) 256 = some want ∧ ¬ isOwn e want then
        .substitute loopbackName
      else .leave := by
  rw [es3HleGetaddrinfo]
  cases asked : guestStr mem (args 0) 256 with
  | none => simp
  | some want => by_cases own : isOwn e want = true <;> simp [own]

/-- A name that is printable, and is the machine's own unless loopback is asked for. -/
def Settled (e : Env) (mem : Memory) (args : Nat → UInt32) : Prop :=
  ∃ want, guestStr mem (args 0) 256 = some want ∧ (isOwn e want ∨ AsksLoopback e)

theorem settled_of_same (winsock : Winsock e.inetAddr) (warm : Warm e st) {mem : Memory}
    {args : Nat → UInt32}
    (same : (es3HleGethostbyname e st mem args).1 = (es3HleGetaddrinfo e st mem args).1) :
    Settled e mem args := by
  rw [gethostbyname_eq warm, getaddrinfo_eq] at same
  cases asked : guestStr mem (args 0) 256 with
  | none => simp [asked] at same
  | some want =>
    refine ⟨want, asked, ?_⟩
    by_cases own : isOwn e want = true
    · exact .inl own
    · have texts : inetNtoa (chosenAddr e) = loopbackName := by
        simpa [asked, own] using same
      rw [← inetNtoa_loopback] at texts
      exact .inr ((chosenAddr_loopback_iff winsock).mp (inetNtoa_injective texts))

/-- Both leave the machine's own name, and both put the address in the place of another. -/
theorem decisions_of_settled (winsock : Winsock e.inetAddr) (warm : Warm e st) {mem : Memory}
    {args : Nat → UInt32} (settled : Settled e mem args) :
    ∃ d, (es3HleGethostbyname e st mem args).1 = d ∧ (es3HleGetaddrinfo e st mem args).1 = d ∧
      (AsksOwn e mem args ∧ d = .leave ∨
        ¬ AsksOwn e mem args ∧ d = .substitute (inetNtoa (chosenAddr e))) := by
  obtain ⟨want, asked, agreed⟩ := settled
  rw [gethostbyname_eq warm, getaddrinfo_eq]
  by_cases own : isOwn e want = true
  · exact ⟨.leave, by simp [asked, own], by simp [asked, own], .inl ⟨⟨want, asked, own⟩, rfl⟩⟩
  · have other : ¬ AsksOwn e mem args := by simp [AsksOwn, asked, own]
    have chosen := (chosenAddr_loopback_iff winsock).mpr (agreed.resolve_left own)
    rw [chosen, inetNtoa_loopback]
    exact ⟨.substitute loopbackName, by simp [asked, own], by simp [asked, own],
      .inr ⟨other, rfl⟩⟩

/-- The hooks make one policy just when there is a name, and it is the machine's own or the
address for all the others is loopback after all. Calls made before change nothing. -/
theorem one_policy_iff (winsock : Winsock e.inetAddr) (calls : List HookCall) (mem : Memory)
    (args : Nat → UInt32) : OnePolicy e (afterAll e calls) mem args ↔ Settled e mem args := by
  have warm := afterAll_warm e calls
  constructor
  · intro policy
    exact settled_of_same winsock warm policy.same
  · intro settled
    obtain ⟨d, byName, byInfo, decided⟩ := decisions_of_settled winsock warm settled
    have left : d = .leave ↔ AsksOwn e mem args := by
      rcases decided with ⟨own, leaves⟩ | ⟨other, put⟩
      · exact iff_of_true leaves own
      · exact iff_of_false (fun leaves => by simp [leaves] at put) other
    refine
      { same := byName.trans byInfo.symm
        leaves := ⟨by rw [byName, left], by rw [byInfo, left]⟩
        address := fun s substituted => ?_
        computed := (allnetAddr_warm warm).1
        outside := chosenAddr_outside winsock
        connect := fun mem' args' => toLoopback_putsBack winsock warm mem' (args' 1)
        sendto := fun mem' args' => toLoopback_putsBack winsock warm mem' (args' 4) }
    rw [byName, byInfo, or_self] at substituted
    rcases decided with ⟨-, leaves⟩ | ⟨-, put⟩
    · exact absurd (leaves.symm.trans substituted) (by simp)
    · exact Decision.substitute.inj (substituted.symm.trans put)

/-- A machine called `CAB`, without ES3_ALLNET_ADDR. -/
def cabinet : Env :=
  { allnetAddr := none
    inetAddr := fun s =>
      if s = loopbackName then LOOPBACK else if s = testNetName then TEST_NET else INADDR_NONE
    hostname := some "CAB".toList }

/-- A name at 0x20000. -/
def naming (name : String) : Memory := store (fun _ => 0) 0x20000 (name.toList.map
  fun ch => UInt8.ofNat ch.toNat)

def named : Nat → UInt32 := fun _ => 0x20000

/-- The machine's own name, in another case, after a connection. -/
theorem cabinet_one_policy :
    OnePolicy cabinet (afterAll cabinet [⟨.connect, naming "", named⟩]) (naming "Cab") named :=
  (one_policy_iff ⟨by decide +kernel, by decide +kernel⟩ _ _ _).mpr
    ⟨"Cab".toList, by decide +kernel, .inl (by decide +kernel)⟩

/-- A server's name: one hook says 192.0.2.1, the other 127.0.0.1. -/
theorem server_name_two_policies :
    ¬ OnePolicy cabinet (afterAll cabinet []) (naming "naominet.jp") named := by
  intro policy
  have decided : (es3HleGethostbyname cabinet .initial (naming "naominet.jp") named).1 ≠
      (es3HleGetaddrinfo cabinet .initial (naming "naominet.jp") named).1 := by
    decide +kernel
  exact decided policy.same

end Es3Recomp.Guarantees.Resolver
