import Es3Recomp.Source.Initterm

/-!
# The initialisers are called as the C runtime calls them

Two loops re-enter the dispatcher with a return address pushed by hand
(src/src/runtime/hle_callback.c:309-322, src/src/runtime64/dispatch64.c:775-789). Of an
initialiser it is asked that it pops that address and leaves the table alone; it may change all
the rest of the machine, and what one changes the next one finds.
-/
namespace Es3Recomp.Guarantees.Initterm
open Library Library.CallTable Source.Initterm

/-- The bytes of a range are as before. -/
def Unchanged (s : Span) (mem mem' : Memory) : Prop := ∀ a, s.Holds a → mem' a = mem a

theorem Unchanged.store {s : Span} {mem mem' : Memory} (same : Unchanged s mem mem') (start : Nat)
    (bytes : List UInt8) (apart : (Span.mk start bytes.length).Apart s) :
    Unchanged s mem (Library.store mem' start bytes) := fun a inside =>
  ((store_sameOutside mem' start bytes).kept apart.disjoint inside).trans (same a inside)

/-! ## 32 bits -/

namespace X86
open Source.Imports
variable {σ : Type} (dispatch : Cpu σ → UInt32 → Cpu σ) (c : Cpu σ) (n : Nat)

/-- The table that the arguments of the import give the ends of. -/
def table : Span := ⟨(A32 c 0).toNat, 4 * n⟩

/-- The word number `i` from an address on. -/
def wordAt (base : UInt32) (d : Cpu σ) (i : Nat) : UInt32 := rd32 d.mem (base + 4 * UInt32.ofNat i)

def entries : List UInt32 := (List.range n).map (wordAt (A32 c 0) c)

/-- A table of `n` entries, off the stack, and initialisers that return. -/
structure Initialisers : Prop where
  whole : (A32 c 1).toNat = (A32 c 0).toNat + 4 * n
  offStack : (slotSpan (c.esp - 4)).Apart (table c n)
  /-- entered with the return address on top of the stack, over a table as it was -/
  returns : ∀ d : Cpu σ, d.esp = c.esp - 4 → Unchanged (table c n) c.mem d.mem →
    ∀ fp ∈ entries c n, fp ≠ 0 →
      (dispatch d fp).esp = d.esp + 4 ∧ Unchanged (table c n) d.mem (dispatch d fp).mem

/-- What holds between two calls. -/
structure Between (d : Cpu σ) : Prop where
  esp : d.esp = c.esp
  same : Unchanged (table c n) c.mem d.mem

variable {dispatch c n}

theorem entryAddress {p fin : UInt32} {n i : Nat} (whole : fin.toNat = p.toNat + 4 * n)
    (inside : i ≤ n) : (p + 4 * UInt32.ofNat i).toNat = p.toNat + 4 * i := by
  have bound : fin.toNat < 2 ^ 32 := fin.toNat_lt
  rw [UInt32.toNat_add, UInt32.toNat_mul, UInt32.toNat_ofNat']
  change (p.toNat + 4 * (i % 2 ^ 32) % 2 ^ 32) % 2 ^ 32 = _
  omega

theorem Between.reads (init : Initialisers dispatch c n) {d : Cpu σ} (between : Between c n d)
    {i : Nat} (inside : i < n) : wordAt (A32 c 0) d i = wordAt (A32 c 0) c i := by
  have at_ := entryAddress init.whole (Nat.le_of_lt inside)
  have same : load d.mem (slotSpan (A32 c 0 + 4 * UInt32.ofNat i)) =
      load c.mem (slotSpan (A32 c 0 + 4 * UInt32.ofNat i)) := by
    refine load_congr fun a here => between.same a ?_
    simp only [slotSpan, table, Span.Holds, at_] at here ⊢
    omega
  rw [wordAt, wordAt, rd32, rd32, same]

theorem Between.call (init : Initialisers dispatch c n) {d : Cpu σ} (between : Between c n d)
    {fp : UInt32} (listed : fp ∈ entries c n) (there : fp ≠ 0) :
    Between c n (callEntry dispatch d fp) := by
  have esp : (push32 d CALLBACK_RETURN).esp = c.esp - 4 := congrArg (· - 4) between.esp
  have pushed : Unchanged (table c n) c.mem (push32 d CALLBACK_RETURN).mem := by
    apply between.same.store
    rw [between.esp]
    exact init.offStack
  obtain ⟨popped, kept⟩ := init.returns _ esp pushed fp listed there
  refine ⟨?_, fun a inside => (kept a inside).trans (pushed a inside)⟩
  rw [callEntry, popped, esp, UInt32.sub_add_cancel]

/-- The loop is a pass that reads each entry when it comes to it. -/
theorem initLoop_eq {stop : Bool} {fin base : UInt32} {n k i turns : Nat}
    (whole : fin.toNat = base.toNat + 4 * n) (left : i + k = n) (enough : k < turns) (d : Cpu σ) :
    initLoop dispatch stop fin turns (base + 4 * UInt32.ofNat i) d =
      some (passFrom (wordAt base) (callEntry dispatch) Cpu.eax stop k i d) := by
  have at_ := entryAddress whole (show i ≤ n by omega)
  induction k generalizing i turns d with
  | zero =>
    obtain ⟨turns, rfl⟩ : ∃ t, turns = t + 1 := ⟨turns - 1, by omega⟩
    have done : ¬ base + 4 * UInt32.ofNat i < fin := by
      rw [UInt32.lt_iff_toNat_lt]
      omega
    rw [initLoop, if_neg done]
    rfl
  | succ k ih =>
    obtain ⟨turns, rfl⟩ : ∃ t, turns = t + 1 := ⟨turns - 1, by omega⟩
    have more : base + 4 * UInt32.ofNat i < fin := by
      rw [UInt32.lt_iff_toNat_lt]
      omega
    have next : base + 4 * UInt32.ofNat i + 4 = base + 4 * UInt32.ofNat (i + 1) := by
      apply UInt32.toNat_inj.mp
      rw [entryAddress whole (show i + 1 ≤ n by omega), UInt32.toNat_add, at_]
      have bound : fin.toNat < 2 ^ 32 := fin.toNat_lt
      change (base.toNat + 4 * i + 4) % 2 ^ 32 = _
      omega
    have rest (d : Cpu σ) : initLoop dispatch stop fin turns (base + 4 * UInt32.ofNat (i + 1)) d =
        some (passFrom (wordAt base) (callEntry dispatch) Cpu.eax stop k (i + 1) d) :=
      ih (by omega) (by omega) d (entryAddress whole (by omega))
    rw [initLoop, if_pos more, next, passFrom, wordAt]
    simp only [rest, Option.map_some]
    split
    · rfl
    · split <;> rfl

theorem runInitterm_eq (init : Initialisers dispatch c n) (stop : Bool) {turns : Nat}
    (enough : n < turns) :
    runInitterm dispatch turns stop c =
      some (pass (callEntry dispatch) Cpu.eax stop (entries c n) c) := by
  have start : A32 c 0 + 4 * UInt32.ofNat 0 = A32 c 0 := UInt32.add_zero _
  have loop : initLoop dispatch stop (A32 c 1) turns (A32 c 0 + 4 * UInt32.ofNat 0) c =
      some (passFrom (wordAt (A32 c 0)) (callEntry dispatch) Cpu.eax stop n 0 c) :=
    initLoop_eq init.whole (Nat.zero_add n) enough c
  have keeps (d : Cpu σ) (between : Between c n d) (i : Nat) (inside : i < n)
      (there : wordAt (A32 c 0) c i ≠ 0) :
      Between c n (callEntry dispatch d (wordAt (A32 c 0) c i)) :=
    between.call init (List.mem_map_of_mem (List.mem_range.mpr inside)) there
  have still : Between c n c := ⟨rfl, fun _ _ => rfl⟩
  rw [start] at loop
  rw [runInitterm, loop, entries, List.range_eq_range']
  exact congrArg some (passFrom_eq (Between c n) (fun d between i => between.reads init) keeps
    (Nat.le_of_eq (Nat.zero_add n)) still)

theorem ofInt_natCast (k : Nat) : UInt32.ofInt k = UInt32.ofNat k := by
  apply UInt32.toNat_inj.mp
  rw [UInt32.ofInt, UInt32.toNat_ofNat', UInt32.toNat_ofNat']
  omega

/-- A call from the loop: a return address, and the dispatcher. -/
def entered (dispatch : Cpu σ → UInt32 → Cpu σ) (c : Cpu σ) (fp : UInt32) : Cpu σ :=
  dispatch { c with esp := c.esp - 4, mem := wr32 c.mem (c.esp - 4) CALLBACK_RETURN } fp

/-- The calls of the import, what they leave, its result, and the stack pointer of its return. -/
theorem hleCall_initterm (init : Initialisers dispatch c n) (stop : Bool) (purge : Nat)
    {turns : Nat} (enough : n < turns) :
    ∃ w left, hleCall purge
        (if stop then hleInittermE dispatch turns else hleInitterm dispatch turns) c = some w ∧
      Passed stop (entries c n) w.calls w.result ∧
      Executed (entered dispatch) Cpu.eax c w.calls left ∧
      w.state = { left with eax := w.result, esp := c.esp + 4 + UInt32.ofNat purge } := by
  have passed : Passed stop (entries c n)
      (pass (callEntry dispatch) Cpu.eax stop (entries c n) c).calls
      (pass (callEntry dispatch) Cpu.eax stop (entries c n) c).result := pass_passed (entries c n) c
  have executed : Executed (entered dispatch) Cpu.eax c
      (pass (callEntry dispatch) Cpu.eax stop (entries c n) c).calls
      (pass (callEntry dispatch) Cpu.eax stop (entries c n) c).state :=
    pass_executed (entries c n) c
  have known : (0 : Int) ≤ purge := Int.natCast_nonneg _
  cases stop with
  | true =>
    rw [if_pos rfl, hleCall, hleInittermE, runInitterm_eq init true enough]
    simp only [Option.map_some, Option.bind_some, unwind, if_pos known, ofInt_natCast]
    exact ⟨_, _, rfl, passed, executed, rfl⟩
  | false =>
    rw [if_neg Bool.false_ne_true, hleCall, hleInitterm, runInitterm_eq init false enough]
    simp only [Option.map_some, Option.bind_some, unwind, if_pos known, ofInt_natCast]
    refine ⟨_, _, rfl, passed, executed, ?_⟩
    have zero : (pass (callEntry dispatch) Cpu.eax false (entries c n) c).result = 0 := by
      cases passed with
      | whole all quiet zero => exact zero
      | stopped may => exact absurd may Bool.false_ne_true
    rw [zero]
    rfl

/-- Without a purge from the table the import stops the program: the walk leaves the stack
pointer where it was. -/
theorem hleCall_underived (init : Initialisers dispatch c n) {turns : Nat} (enough : n < turns) :
    hleCall (-1) (hleInitterm dispatch turns) c = none := by
  have esp : (pass (callEntry dispatch) Cpu.eax false (entries c n) c).state.esp = c.esp :=
    have still : Between c n c := ⟨rfl, fun _ _ => rfl⟩
    have between : Between c n (pass (callEntry dispatch) Cpu.eax false (entries c n) c).state :=
      pass_keeps still fun d between fp listed there => between.call init listed there
    between.esp
  rw [hleCall, hleInitterm, runInitterm_eq init false enough]
  simp only [Option.map_some, Option.bind_some, ret, unwind, esp]
  rfl

end X86

/-! ## 64 bits -/

namespace X64
open Source.Bridge64
variable {σ : Type} (dispatch : Machine σ → UInt64 → Machine σ) (m : Machine σ) (n : Nat)

/-- The table that RCX and RDX are the ends of. -/
def table : Span := ⟨(m.cpu.gpr .rcx).toNat, 8 * n⟩

def quadAt (base : UInt64) (d : Machine σ) (i : Nat) : UInt64 :=
  rd64 d.mem (base + 8 * UInt64.ofNat i)

def entries : List UInt64 := (List.range n).map (quadAt (m.cpu.gpr .rcx) m)

/-- A table of `n` entries, off the stack, and initialisers that return. The return address of
the import is popped before, and the one of an initialiser goes where it was. -/
structure Initialisers : Prop where
  there : m.cpu.gpr .rcx ≠ 0
  whole : (m.cpu.gpr .rdx).toNat = (m.cpu.gpr .rcx).toNat + 8 * n
  offStack : (Span.mk m.cpu.rsp.toNat 8).Apart (table m n)
  returns : ∀ d : Machine σ, d.cpu.rsp = m.cpu.rsp → Unchanged (table m n) m.mem d.mem →
    ∀ fp ∈ entries m n, fp ≠ 0 →
      (dispatch d fp).cpu.rsp = d.cpu.rsp + 8 ∧
        Unchanged (table m n) d.mem (dispatch d fp).mem

structure Between (d : Machine σ) : Prop where
  rsp : d.cpu.rsp = m.cpu.rsp + 8
  same : Unchanged (table m n) m.mem d.mem

variable {dispatch m n}

theorem entryAddress {p fin : UInt64} {n i : Nat} (whole : fin.toNat = p.toNat + 8 * n)
    (inside : i ≤ n) : (p + 8 * UInt64.ofNat i).toNat = p.toNat + 8 * i := by
  have bound : fin.toNat < 2 ^ 64 := fin.toNat_lt
  rw [UInt64.toNat_add, UInt64.toNat_mul, UInt64.toNat_ofNat']
  change (p.toNat + 8 * (i % 2 ^ 64) % 2 ^ 64) % 2 ^ 64 = _
  omega

theorem Between.reads (init : Initialisers dispatch m n) {d : Machine σ} (between : Between m n d)
    {i : Nat} (inside : i < n) :
    quadAt (m.cpu.gpr .rcx) d i = quadAt (m.cpu.gpr .rcx) m i := by
  have at_ := entryAddress init.whole (Nat.le_of_lt inside)
  have same : load d.mem ⟨(m.cpu.gpr .rcx + 8 * UInt64.ofNat i).toNat, 8⟩ =
      load m.mem ⟨(m.cpu.gpr .rcx + 8 * UInt64.ofNat i).toNat, 8⟩ := by
    refine load_congr fun a here => between.same a ?_
    simp only [table, Span.Holds, at_] at here ⊢
    omega
  rw [quadAt, quadAt, rd64, rd64, same]

theorem Between.call (init : Initialisers dispatch m n) {d : Machine σ} (between : Between m n d)
    {fp : UInt64} (listed : fp ∈ entries m n) (there : fp ≠ 0) :
    Between m n (callGuest dispatch d fp) := by
  have top : d.cpu.rsp - 8 = m.cpu.rsp := by rw [between.rsp, UInt64.add_sub_cancel]
  have pushed : Unchanged (table m n) m.mem (es3CallGuest d.mem d.cpu).1 := by
    apply between.same.store
    rw [top]
    exact init.offStack
  obtain ⟨popped, kept⟩ := init.returns
    { d with mem := (es3CallGuest d.mem d.cpu).1, cpu := (es3CallGuest d.mem d.cpu).2 } top pushed
    fp listed there
  refine ⟨?_, fun a inside => (kept a inside).trans (pushed a inside)⟩
  exact popped.trans (congrArg (· + 8) top)

/-- The loop is a pass that reads each entry when it comes to it. -/
theorem nativeLoop_eq {stop : Bool} {fin base : UInt64} {n k i turns : Nat}
    (whole : fin.toNat = base.toNat + 8 * n) (left : i + k = n) (enough : k < turns)
    (d : Machine σ) :
    nativeLoop dispatch stop fin turns (base + 8 * UInt64.ofNat i) d =
      some (passFrom (quadAt base) (callGuest dispatch) eax stop k i d) := by
  have at_ := entryAddress whole (show i ≤ n by omega)
  induction k generalizing i turns d with
  | zero =>
    obtain ⟨turns, rfl⟩ : ∃ t, turns = t + 1 := ⟨turns - 1, by omega⟩
    have done : ¬ base + 8 * UInt64.ofNat i < fin := by
      rw [UInt64.lt_iff_toNat_lt]
      omega
    rw [nativeLoop, if_neg done]
    rfl
  | succ k ih =>
    obtain ⟨turns, rfl⟩ : ∃ t, turns = t + 1 := ⟨turns - 1, by omega⟩
    have more : base + 8 * UInt64.ofNat i < fin := by
      rw [UInt64.lt_iff_toNat_lt]
      omega
    have next : base + 8 * UInt64.ofNat i + 8 = base + 8 * UInt64.ofNat (i + 1) := by
      apply UInt64.toNat_inj.mp
      rw [entryAddress whole (show i + 1 ≤ n by omega), UInt64.toNat_add, at_]
      have bound : fin.toNat < 2 ^ 64 := fin.toNat_lt
      change (base.toNat + 8 * i + 8) % 2 ^ 64 = _
      omega
    have rest (d : Machine σ) :
        nativeLoop dispatch stop fin turns (base + 8 * UInt64.ofNat (i + 1)) d =
          some (passFrom (quadAt base) (callGuest dispatch) eax stop k (i + 1) d) :=
      ih (by omega) (by omega) d (entryAddress whole (by omega))
    rw [nativeLoop, if_pos more, next, passFrom, quadAt]
    simp only [rest, Option.map_some]
    split
    · rfl
    · split <;> rfl

theorem nativeLoop_pass (init : Initialisers dispatch m n) (stop : Bool) {turns : Nat}
    (enough : n < turns) {d : Machine σ} (entered : Between m n d) :
    nativeLoop dispatch stop (m.cpu.gpr .rdx) turns (m.cpu.gpr .rcx) d =
      some (pass (callGuest dispatch) eax stop (entries m n) d) := by
  have start : m.cpu.gpr .rcx + 8 * UInt64.ofNat 0 = m.cpu.gpr .rcx := UInt64.add_zero _
  have loop : nativeLoop dispatch stop (m.cpu.gpr .rdx) turns
      (m.cpu.gpr .rcx + 8 * UInt64.ofNat 0) d =
        some (passFrom (quadAt (m.cpu.gpr .rcx)) (callGuest dispatch) eax stop n 0 d) :=
    nativeLoop_eq init.whole (Nat.zero_add n) enough d
  have keeps (d : Machine σ) (between : Between m n d) (i : Nat) (inside : i < n)
      (there : quadAt (m.cpu.gpr .rcx) m i ≠ 0) :
      Between m n (callGuest dispatch d (quadAt (m.cpu.gpr .rcx) m i)) :=
    between.call init (List.mem_map_of_mem (List.mem_range.mpr inside)) there
  rw [start] at loop
  rw [loop, entries, List.range_eq_range']
  exact congrArg some (passFrom_eq (Between m n) (fun d between i => between.reads init) keeps
    (Nat.le_of_eq (Nat.zero_add n)) entered)

theorem Initialisers.ends (init : Initialisers dispatch m n) : m.cpu.gpr .rdx ≠ 0 := by
  intro null
  have whole := init.whole
  have start : (m.cpu.gpr .rcx).toNat = 0 := by
    rw [null] at whole
    change 0 = _ at whole
    omega
  exact init.there (UInt64.toNat_inj.mp start)

/-- A call from the loop: a return address, and the dispatcher. -/
def entered (dispatch : Machine σ → UInt64 → Machine σ) (d : Machine σ) (fp : UInt64) :
    Machine σ :=
  dispatch { d with mem := (es3CallGuest d.mem d.cpu).1, cpu := (es3CallGuest d.mem d.cpu).2 } fp

/-- What the last call left, with the two arguments put back and the result in RAX. -/
def returned (m left : Machine σ) (result : UInt32) : Machine σ :=
  let cpu := setReg (setReg left.cpu .rcx (m.cpu.gpr .rcx)) .rdx (m.cpu.gpr .rdx)
  { left with cpu := setReg cpu .rax result.toUInt64 }

theorem es3NativeCall_initterm (init : Initialisers dispatch m n) {addrs : Addresses}
    {target : UInt64} (known : target = addrs.initterm ∨ target = addrs.inittermE) {turns : Nat}
    (enough : n < turns) :
    ∃ w left, es3NativeCall dispatch addrs turns m target = some w ∧
      Passed (target = addrs.inittermE) (entries m n) w.calls w.result ∧
      Executed (entered dispatch) eax { m with cpu.rsp := m.cpu.rsp + 8 } w.calls left ∧
      left.cpu.rsp = m.cpu.rsp + 8 ∧
      w.state = returned m left w.result := by
  have start : Between m n { m with cpu.rsp := m.cpu.rsp + 8 } := ⟨rfl, fun _ _ => rfl⟩
  have loop := nativeLoop_pass init (decide (target = addrs.inittermE)) enough start
  have between : Between m n (pass (callGuest dispatch) eax (decide (target = addrs.inittermE))
      (entries m n) { m with cpu.rsp := m.cpu.rsp + 8 }).state :=
    pass_keeps start fun d between fp listed there => between.call init listed there
  rw [es3NativeCall, if_pos ⟨known, init.there, init.ends⟩]
  refine ⟨_, _, congrArg (Option.map _) loop, ?_, ?_, between.rsp, rfl⟩
  · exact pass_passed _ _
  · exact pass_executed (entries m n) _

end X64

/-! ## Both walkers -/

/-- Both walkers call the entries of the table as the C runtime does: each is dispatched with a
return address on the stack, in the state that the one before it left, and its result is what it
left in the register. They return as the import does, the rest of the machine being as the last
call left it. -/
theorem initterm_walks (σ : Type) :
    (∀ (dispatch : Cpu σ → UInt32 → Cpu σ) (c : Cpu σ) (n : Nat),
      X86.Initialisers dispatch c n → ∀ (stop : Bool) (purge turns : Nat), n < turns →
        ∃ w left, hleCall purge
            (if stop then hleInittermE dispatch turns else hleInitterm dispatch turns) c = some w ∧
          Passed stop (X86.entries c n) w.calls w.result ∧
          Executed (X86.entered dispatch) Cpu.eax c w.calls left ∧
          w.state = { left with eax := w.result, esp := c.esp + 4 + UInt32.ofNat purge }) ∧
    ∀ (dispatch : Machine σ → UInt64 → Machine σ) (m : Machine σ) (n : Nat),
      X64.Initialisers dispatch m n → ∀ (addrs : Addresses) (target : UInt64) (turns : Nat),
        target = addrs.initterm ∨ target = addrs.inittermE → n < turns →
        ∃ w left, es3NativeCall dispatch addrs turns m target = some w ∧
          Passed (target = addrs.inittermE) (X64.entries m n) w.calls w.result ∧
          Executed (X64.entered dispatch) eax { m with cpu.rsp := m.cpu.rsp + 8 } w.calls left ∧
          left.cpu.rsp = m.cpu.rsp + 8 ∧
          w.state = X64.returned m left w.result :=
  ⟨fun _ _ _ init stop purge _ enough => X86.hleCall_initterm init stop purge enough,
    fun _ _ _ init _ _ _ known enough => X64.es3NativeCall_initterm init known enough⟩

/-! Three entries at 0x2000, the second of them null; the last initialiser fails. -/

def startup : Cpu Unit where
  esp := 0x1000
  eax := 7
  mem := fun a => if a = 0x1005 ∨ a = 0x1009 ∨ a = 0x2009 then 0x20 else if a = 0x1008 then 0x0C
    else if a = 0x2001 then 0x10 else if a = 0x2002 ∨ a = 0x200A then 0x40 else 0
  rest := ()

def initialise (c : Cpu Unit) (fp : UInt32) : Cpu Unit :=
  { c with esp := c.esp + 4, eax := if fp = 0x402000 then 5 else 0 }

def startup64 : Machine Unit where
  cpu := ⟨0x1000, fun r => if r = .rcx then 0x2000 else if r = .rdx then 0x2018 else 7,
    fun _ => (0, 0)⟩
  mem := fun a => if a = 0x2001 then 0x10 else if a = 0x2002 ∨ a = 0x2012 then 0x40
    else if a = 0x2011 then 0x20 else 0
  rest := ()

def initialise64 (m : Machine Unit) (fp : UInt64) : Machine Unit :=
  { m with cpu := ⟨m.cpu.rsp + 8, fun _ => if fp = 0x402000 then 5 else 0, m.cpu.xmm⟩ }

example : (hleCall 0 (hleInittermE initialise 4) startup).map Pass.calls =
    some [⟨0x401000, 0⟩, ⟨0x402000, 5⟩] := by decide +kernel

theorem startup_walks :
    (∃ w left, hleCall 0 (hleInittermE initialise 4) startup = some w ∧
      Passed true (X86.entries startup 3) w.calls w.result ∧
      Executed (X86.entered initialise) Cpu.eax startup w.calls left ∧
      w.state = { left with eax := w.result, esp := 0x1004 }) ∧
    ∃ w left, es3NativeCall initialise64 ⟨0x10000, 0x10010⟩ 4 startup64 0x10010 = some w ∧
      Passed true (X64.entries startup64 3) w.calls w.result ∧
      Executed (X64.entered initialise64) eax { startup64 with cpu.rsp := 0x1008 } w.calls left ∧
      left.cpu.rsp = 0x1008 ∧
      w.state = X64.returned startup64 left w.result :=
  ⟨(initterm_walks Unit).1 initialise startup 3
      ⟨by decide, by decide, fun _ _ _ _ _ _ => ⟨rfl, fun _ _ => rfl⟩⟩ true 0 4 (by decide),
    (initterm_walks Unit).2 initialise64 startup64 3
      ⟨by decide, by decide, by decide, fun _ _ _ _ _ _ => ⟨rfl, fun _ _ => rfl⟩⟩
      ⟨0x10000, 0x10010⟩ 0x10010 4 (.inr rfl) (by decide)⟩

end Es3Recomp.Guarantees.Initterm
