import Es3Recomp.Source.Thunk64

/-!
# The frame of an import call

The thunk of src/src/runtime64/thunk64.asm:39-98, from its entry to the `call` and from there to
its `ret`. What the called function does in between is bound by the Win64 convention only: it
keeps the non-volatile registers, and of the stack what lies above the arguments.
-/
namespace Es3Recomp.Guarantees.Thunk64
open Library Library.X64 Source.Thunk64

def nonvolatile : List Reg := [.rbx, .rbp, .rdi, .rsi, .rsp, .r12, .r13, .r14, .r15]

/-! ## The frame, from the state at entry -/

/-- Shadow space and arguments, rounded up to 16 bytes. -/
def roomFor (nstack : Nat) : Nat := (8 * nstack + 32 + 15) / 16 * 16

/-- Where the return address is on entry. -/
def top (s : Cpu) : Nat := (s.reg .rsp).toNat

/-- The descriptor as the caller filled it. -/
def passed (s : Cpu) : HLEFRAME := readFrame s.mem (s.reg .rcx)

def nstack (s : Cpu) : Nat := (passed s).nstack.toNat

/-- Where RSP is to be at the call. -/
def bottom (s : Cpu) : Nat := (top s - 32 - roomFor (nstack s)) / 16 * 16

/-- All that the thunk takes of the stack. -/
def newFrame (s : Cpu) : Span := ⟨bottom s, top s - bottom s⟩

/-- RBX, RSI, RDI and RBP as they were pushed. -/
def savedRegisters (s : Cpu) : Span := ⟨top s - 32, 32⟩

/-- The saved registers and the return address above them. -/
def own (s : Cpu) : Span := ⟨top s - 32, 40⟩

def descriptor (s : Cpu) : Span := ⟨(s.reg .rcx).toNat, frameBytes⟩

/-- The slot of the guest's stack that argument `i` comes from. -/
def source (s : Cpu) (i : Nat) : UInt64 := (passed s).stack + UInt64.ofNat i * 8

/-- At a call with RSP at `rsp`, the shadow space and the place of stack argument `i`. -/
def shadow (rsp : Nat) : Span := ⟨rsp, 32⟩
def argument (rsp i : Nat) : Nat := rsp + 32 + 8 * i

/-- The descriptor is a live local of the caller, so it lies clear of the return address and of
what is below it. -/
structure Entry (s : Cpu) : Prop where
  start : s.pc = 0
  fits : 32 + roomFor (nstack s) ≤ top s
  noWrap : (s.reg .rcx).toNat + frameBytes ≤ 0x10000000000000000
  descriptorApart : (descriptor s).Apart ⟨bottom s, top s + 8 - bottom s⟩
  sourcesApart : ∀ i < nstack s, (quadSpan (source s i).toNat).Apart (newFrame s)

/-- Memory before the call: nothing but the new frame was written, and in it nothing of the
shadow space; the saved registers are in their places. -/
structure Kept (s : Cpu) (mem : Memory) : Prop where
  outside : SameOutside (newFrame s) s.mem mem
  unused : ∀ a, (shadow (bottom s)).Holds a → mem a = s.mem a
  rbx : quad mem (top s - 8) = s.reg .rbx
  rsi : quad mem (top s - 16) = s.reg .rsi
  rdi : quad mem (top s - 24) = s.reg .rdi
  rbp : quad mem (top s - 32) = s.reg .rbp

/-- At the `call`, from the state at entry. -/
structure AtCall (s c : Cpu) : Prop where
  aligned : (c.reg .rsp).toNat % 16 = 0
  rsp : (c.reg .rsp).toNat = bottom s
  shadowInside : (shadow (c.reg .rsp).toNat).Within (newFrame s)
  shadowApart : (shadow (c.reg .rsp).toNat).Apart (savedRegisters s) ∧
    ∀ i, (shadow (c.reg .rsp).toNat).Apart (quadSpan (argument (c.reg .rsp).toNat i))
  arguments : ∀ i < nstack s,
    quad c.mem (argument (c.reg .rsp).toNat i) = quad s.mem (source s i).toNat
  argumentsApart : ∀ i < nstack s,
    (quadSpan (argument (c.reg .rsp).toNat i)).Apart (savedRegisters s)
  rcx : c.reg .rcx = (passed s).rcx
  rdx : c.reg .rdx = (passed s).rdx
  r8 : c.reg .r8 = (passed s).r8
  r9 : c.reg .r9 = (passed s).r9
  xmm : ∀ k : Fin 4, c.xmm (k.castLE (by decide)) = (passed s).x k
  kept : Kept s c.mem

/-- The called function came back from `c` in the state `r`. -/
structure AbiReturn (s c r : Cpu) : Prop where
  behind : r.pc = c.pc + 1
  registers : ∀ x ∈ nonvolatile, r.reg x = c.reg x
  memory : ∀ a, (own s).Holds a → r.mem a = c.mem a

/-- At the `ret`, from the states at entry and behind the call. -/
structure Returned (s r z : Cpu) : Prop where
  registers : ∀ x ∈ nonvolatile, z.reg x = s.reg x
  returnAddress : z.word (z.reg .rsp) = s.word (s.reg .rsp)
  raxOut : (readFrame z.mem (s.reg .rcx)).raxOut = r.reg .rax
  xmm0Out : (readFrame z.mem (s.reg .rcx)).xmm0Out = r.xmm 0

/-! ## Memory before the call -/

variable {s t u : Cpu} {mem : Memory} {i : Nat}

theorem bottom_le (entry : Entry s) : bottom s + roomFor (nstack s) + 32 ≤ top s := by
  have fits := entry.fits
  unfold bottom
  omega

theorem le_roomFor (n : Nat) : 32 ≤ roomFor n := by
  unfold roomFor
  omega

/-- Where the saved registers begin, which is what RBP holds. -/
theorem toNat_anchor (entry : Entry s) : (s.reg .rsp - 32).toNat = top s - 32 := by
  have below : (32 : UInt64).toNat ≤ top s := Nat.le_trans (Nat.le_add_right _ _) entry.fits
  exact toNat_sub_of_le below

/-- The arguments end below the saved registers. -/
theorem argument_below (entry : Entry s) (inside : i < nstack s) :
    argument (bottom s) i + 8 ≤ top s - 32 := by
  have le := bottom_le entry
  unfold roomFor at le
  unfold argument
  omega

theorem Kept.setQuad (kept : Kept s mem) {p : Nat} (w : UInt64) (above : bottom s + 32 ≤ p)
    (below : p + 8 ≤ top s - 32) : Kept s (setQuad mem p w) where
  outside := by
    refine kept.outside.trans ((setQuad_sameOutside mem p w).mono ?_)
    simp only [Span.Within, quadSpan, newFrame]
    omega
  unused := by
    intro a here
    refine (setQuad_sameOutside mem p w a ?_).trans (kept.unused a here)
    simp only [Span.Holds, quadSpan, shadow] at here ⊢
    omega
  rbx := by rw [quad_setQuad_other w (by omega), kept.rbx]
  rsi := by rw [quad_setQuad_other w (by omega), kept.rsi]
  rdi := by rw [quad_setQuad_other w (by omega), kept.rdi]
  rbp := by rw [quad_setQuad_other w (by omega), kept.rbp]

/-- The descriptor is read as the caller filled it. -/
theorem Kept.readFrame (entry : Entry s) (kept : Kept s mem) :
    Source.Thunk64.readFrame mem (s.reg .rcx) = passed s := by
  have noWrap := entry.noWrap
  have apart := entry.descriptorApart
  have word : ∀ off : UInt64, off.toNat + 8 ≤ frameBytes →
      quad mem (s.reg .rcx + off).toNat = quad s.mem (s.reg .rcx + off).toNat := by
    intro off inside
    have place : (s.reg .rcx + off).toNat = (s.reg .rcx).toNat + off.toNat :=
      toNat_add_of_lt (by omega)
    apply quad_congr
    intro a here
    apply kept.outside
    simp only [Span.Apart, Span.Holds, descriptor, quadSpan, newFrame] at apart here ⊢
    omega
  simp (disch := decide) only [passed, Source.Thunk64.readFrame, xmmAt, UInt64.add_assoc, word]

/-- The four pushes. -/
def pushed (s : Cpu) : Memory :=
  setQuad (setQuad (setQuad (setQuad s.mem (top s - 8) (s.reg .rbx)) (top s - 16) (s.reg .rsi))
    (top s - 24) (s.reg .rdi)) (top s - 32) (s.reg .rbp)

theorem kept_pushed (entry : Entry s) : Kept s (pushed s) := by
  have low := bottom_le entry
  have room := le_roomFor (nstack s)
  have push : ∀ mem p w, top s - 32 ≤ p → p + 8 ≤ top s →
      SameOutside (savedRegisters s) mem (setQuad mem p w) := by
    intro mem p w above below
    apply (setQuad_sameOutside mem p w).mono
    simp only [Span.Within, quadSpan, savedRegisters]
    omega
  have saved : SameOutside (savedRegisters s) s.mem (pushed s) := by
    refine .trans (.trans (.trans (push _ _ _ ?_ ?_) (push _ _ _ ?_ ?_)) (push _ _ _ ?_ ?_))
      (push _ _ _ ?_ ?_) <;> omega
  constructor
  case outside =>
    apply saved.mono
    simp only [Span.Within, savedRegisters, newFrame]
    omega
  case unused =>
    intro a here
    apply saved a
    simp only [Span.Holds, savedRegisters, shadow] at here ⊢
    omega
  all_goals simp (disch := omega) only [pushed, quad_setQuad, quad_setQuad_other]

/-! ## Registers before the call -/

/-- What stays as it is from the pushes to the call. -/
structure Anchored (s t : Cpu) : Prop where
  rbx : t.reg .rbx = s.reg .rcx
  rbp : t.reg .rbp = s.reg .rsp - 32
  rest : ∀ x ∈ [Reg.r12, .r13, .r14, .r15], t.reg x = s.reg x
  kept : Kept s t.mem

theorem Anchored.next (anchored : Anchored s t)
    (same : ∀ x ∈ [Reg.rbx, .rbp, .r12, .r13, .r14, .r15], u.reg x = t.reg x)
    (kept : Kept s u.mem) : Anchored s u := by
  have rest : ∀ x ∈ [Reg.r12, .r13, .r14, .r15], u.reg x = t.reg x :=
    fun x member => same x (List.mem_cons_of_mem _ (List.mem_cons_of_mem _ member))
  exact ⟨(same .rbx (by decide)).trans anchored.rbx, (same .rbp (by decide)).trans anchored.rbp,
    fun x member => (rest x member).trans (anchored.rest x member), kept⟩

/-- Room was made: RSP is where it is to be. -/
structure Roomy (s t : Cpu) : Prop where
  anchored : Anchored s t
  rsp : (t.reg .rsp).toNat = bottom s

/-- `i` of the arguments are copied. -/
structure Copied (s : Cpu) (i : Nat) (t : Cpu) : Prop where
  roomy : Roomy s t
  arguments : ∀ j < i, quad t.mem (argument (bottom s) j) = quad s.mem (source s j).toNat

/-- At the head of the loop. -/
structure Copying (s : Cpu) (i : Nat) (t : Cpu) : Prop where
  copied : Copied s i t
  rcx : t.reg .rcx = (passed s).nstack
  rsi : t.reg .rsi = (passed s).stack
  rdx : t.reg .rdx = UInt64.ofNat i

theorem Copied.at (copied : Copied s i t) (pc : Nat) : Copied s i { t with pc := pc } := by
  obtain ⟨⟨anchored, rsp⟩, arguments⟩ := copied
  exact ⟨⟨anchored.next (fun _ _ => rfl) anchored.kept, rsp⟩, arguments⟩

theorem Copying.at (copying : Copying s i t) (pc : Nat) : Copying s i { t with pc := pc } :=
  ⟨copying.copied.at pc, copying.rcx, copying.rsi, copying.rdx⟩

theorem exec_anchor (entry : Entry s) :
    Anchored s (execAll anchor s) ∧ (execAll anchor s).reg .rsp = s.reg .rsp - 32 := by
  have room : 32 ≤ top s := Nat.le_trans (Nat.le_add_right _ _) entry.fits
  have lower : ∀ {p : UInt64} {n : Nat}, p.toNat = n + 8 → (p - 8).toNat = n := by
    intro p n here
    have le : (8 : UInt64).toNat ≤ p.toNat := here ▸ Nat.le_add_left 8 n
    rw [toNat_sub_of_le le, here]
    exact Nat.add_sub_cancel n 8
  have first : (s.reg .rsp - 8).toNat = top s - 8 := lower (by rw [← top]; omega)
  have second : (s.reg .rsp - 8 - 8).toNat = top s - 16 := lower (by rw [first]; omega)
  have third : (s.reg .rsp - 8 - 8 - 8).toNat = top s - 24 := lower (by rw [second]; omega)
  have fourth : (s.reg .rsp - 8 - 8 - 8 - 8).toNat = top s - 32 := lower (by rw [third]; omega)
  have down : s.reg .rsp - 8 - 8 - 8 - 8 = s.reg .rsp - 32 := by
    apply UInt64.toNat_inj.mp
    rw [fourth, toNat_anchor entry]
  have rsp : (execAll anchor s).reg .rsp = s.reg .rsp - 32 := by
    simp [anchor, execAll, Op.exec, down]
  have mem : (execAll anchor s).mem = pushed s := by
    simp [anchor, execAll, Op.exec, first, second, third, fourth, pushed]
  refine ⟨⟨?_, ?_, ?_, ?_⟩, rsp⟩
  · simp [anchor, execAll, Op.exec]
  · simp [anchor, execAll, Op.exec, down]
  · simp [anchor, execAll, Op.exec]
  · rw [mem]
    exact kept_pushed entry

/-- From the entry to behind `mov rbx, rcx`. -/
theorem steps_anchor (entry : Entry s) :
    ∃ t, Steps hleInvoke s t ∧ t.pc = 6 ∧ Anchored s t ∧ t.reg .rsp = s.reg .rsp - 32 := by
  have code : hleInvoke.drop s.pc = anchor.map .op ++ hleInvoke.drop 6 := by
    rw [entry.start]
    rfl
  obtain ⟨anchored, rsp⟩ := exec_anchor entry
  have pc : s.pc + anchor.length = 6 := by
    rw [entry.start]
    rfl
  exact ⟨_, steps_block code, pc, anchored.next (fun _ _ => rfl) anchored.kept, rsp⟩

theorem toNat_room (entry : Entry s) :
    (((passed s).nstack * 8 + 32 + 15) &&& (-16)).toNat = roomFor (nstack s) := by
  have small := (s.reg .rsp).toNat_lt
  have low := bottom_le entry
  have sum : ((passed s).nstack * 8 + 32 + 15).toNat = 8 * nstack s + 32 + 15 := by
    have count : (passed s).nstack.toNat = nstack s := rfl
    unfold roomFor at low
    rw [← top] at small
    simp only [UInt64.toNat_add, UInt64.toNat_mul, UInt64.toNat_ofNat, count]
    omega
  rw [toNat_and_minus16, sum, roomFor]

theorem toNat_callRsp (entry : Entry s) :
    ((s.reg .rsp - 32 - (((passed s).nstack * 8 + 32 + 15) &&& (-16))) &&& (-16)).toNat =
      bottom s := by
  have fits := entry.fits
  have whole := toNat_anchor entry
  have room := toNat_room entry
  rw [toNat_and_minus16, toNat_sub_of_le (by omega), whole, room, bottom]

/-- Room is made, and the count is tested. -/
theorem steps_makeRoom (entry : Entry s) (here : t.pc = 6) (anchored : Anchored s t)
    (rsp : t.reg .rsp = s.reg .rsp - 32) :
    ∃ u, Steps hleInvoke t u ∧ u.pc = 14 ∧ Roomy s u ∧ u.reg .rcx = (passed s).nstack ∧
      (u.zf ↔ nstack s = 0) := by
  have code : hleInvoke.drop t.pc = (makeRoom ++ countArguments).map .op ++ hleInvoke.drop 14 := by
    rw [here]
    rfl
  have count : t.word (s.reg .rcx + F_NSTACK) = (passed s).nstack :=
    congrArg HLEFRAME.nstack (anchored.kept.readFrame entry)
  have down : (execAll (makeRoom ++ countArguments) t).reg .rsp =
      (s.reg .rsp - 32 - (((passed s).nstack * 8 + 32 + 15) &&& (-16))) &&& (-16) := by
    simp [makeRoom, countArguments, execAll, Op.exec, field, anchored.rbx, rsp, count]
  have zero : (passed s).nstack = 0 ↔ nstack s = 0 := UInt64.toNat_inj.symm
  have pc : t.pc + (makeRoom ++ countArguments).length = 14 := by
    rw [here]
    rfl
  refine ⟨_, steps_block code, pc, ⟨anchored.next ?_ anchored.kept, ?_⟩, ?_, ?_⟩
  · simp [makeRoom, countArguments, execAll, Op.exec]
  · rw [down]
    exact toNat_callRsp entry
  · simp [makeRoom, countArguments, execAll, Op.exec, field, anchored.rbx, count]
  · simp [makeRoom, countArguments, execAll, Op.exec, field, anchored.rbx, count, zero]

/-! ## The copy loop -/

theorem toNat_index (inside : i < nstack s) : (UInt64.ofNat i).toNat = i :=
  UInt64.toNat_ofNat_of_lt' (Nat.lt_trans inside (passed s).nstack.toNat_lt)

theorem toNat_argument (entry : Entry s) (roomy : Roomy s t) (inside : i < nstack s) :
    (t.reg .rsp + UInt64.ofNat i * 8 + 32).toNat = argument (bottom s) i := by
  have small := (s.reg .rsp).toNat_lt
  have below := argument_below entry inside
  unfold argument at below ⊢
  rw [← top] at small
  simp only [UInt64.toNat_add, UInt64.toNat_mul, UInt64.toNat_ofNat, toNat_index inside, roomy.rsp]
  omega

/-- The carry of `cmp rdx, rcx` behind the increment. -/
theorem next_lt_iff (inside : i < nstack s) :
    UInt64.ofNat i + 1 < (passed s).nstack ↔ i + 1 < nstack s := by
  have bound := (passed s).nstack.toNat_lt
  have next : (UInt64.ofNat i + 1).toNat = i + 1 := by
    rw [toNat_add_of_lt, toNat_index inside]
    · rfl
    · rw [toNat_index inside]
      exact Nat.lt_of_le_of_lt inside bound
  rw [UInt64.lt_iff_toNat_lt, next, nstack]

theorem exec_copyLoop (entry : Entry s) (copying : Copying s i t) (inside : i < nstack s) :
    Copying s (i + 1) (execAll copyLoop t) ∧
      (execAll copyLoop t).cf = decide (i + 1 < nstack s) := by
  obtain ⟨⟨⟨anchored, rsp⟩, arguments⟩, rcx, rsi, rdx⟩ := copying
  have place := toNat_argument entry ⟨anchored, rsp⟩ inside
  have read : t.word (source s i) = quad s.mem (source s i).toNat := by
    have apart := entry.sourcesApart i inside
    apply quad_congr
    intro a here
    apply anchored.kept.outside
    exact apart.disjoint a here
  have mem : (execAll copyLoop t).mem =
      setQuad t.mem (argument (bottom s) i) (quad s.mem (source s i).toNat) := by
    rw [← place, ← read]
    simp [copyLoop, execAll, Op.exec, rsi, rdx, source]
  have kept : Kept s (execAll copyLoop t).mem := by
    rw [mem]
    exact anchored.kept.setQuad _ (Nat.le_add_right _ _) (argument_below entry inside)
  refine ⟨⟨⟨⟨anchored.next ?_ kept, ?_⟩, ?_⟩, ?_, ?_, ?_⟩, ?_⟩
  · simp [copyLoop, execAll, Op.exec]
  · simp [copyLoop, execAll, Op.exec, rsp]
  · intro j less
    rw [mem]
    rcases Nat.lt_succ_iff_lt_or_eq.mp less with earlier | rfl
    · have apart : argument (bottom s) j + 8 ≤ argument (bottom s) i := by
        unfold argument
        omega
      rw [quad_setQuad_other _ (.inr apart), arguments j earlier]
    · rw [quad_setQuad]
  · simp [copyLoop, execAll, Op.exec, rcx]
  · simp [copyLoop, execAll, Op.exec, rsi]
  · simp [copyLoop, execAll, Op.exec, rdx]
  · simp [copyLoop, execAll, Op.exec, rdx, rcx, next_lt_iff inside]

/-- One turn. -/
theorem steps_copyLoop (entry : Entry s) (here : t.pc = copyLoopLabel) (copying : Copying s i t)
    (inside : i < nstack s) : ∃ u, Steps hleInvoke t u ∧ Copying s (i + 1) u ∧
      u.pc = if i + 1 < nstack s then copyLoopLabel else copiedLabel := by
  have code : hleInvoke.drop t.pc = copyLoop.map .op ++ hleInvoke.drop 21 := by
    rw [here]
    rfl
  have jump : hleInvoke[t.pc + copyLoop.length]? = some (.jb copyLoopLabel) := by
    rw [here]
    rfl
  obtain ⟨after, carry⟩ := exec_copyLoop entry copying inside
  refine ⟨_, (steps_block code).trans (steps_jb jump), after.at _, ?_⟩
  have length : copyLoop.length = 4 := rfl
  simp [here, carry, length, copyLoopLabel, copiedLabel]

/-- All that are left. -/
theorem steps_copy (entry : Entry s) (left : Nat) (here : t.pc = copyLoopLabel)
    (copying : Copying s i t) (count : i + (left + 1) = nstack s) :
    ∃ u, Steps hleInvoke t u ∧ u.pc = copiedLabel ∧ Copied s (nstack s) u := by
  induction left generalizing i t with
  | zero =>
    obtain ⟨u, run, after, place⟩ := steps_copyLoop entry here copying (by omega)
    have last : i + 1 = nstack s := count
    rw [last, if_neg (Nat.lt_irrefl _)] at place
    exact ⟨u, run, place, last ▸ after.copied⟩
  | succ left ih =>
    obtain ⟨u, run, after, place⟩ := steps_copyLoop entry here copying (by omega)
    rw [if_pos (by omega)] at place
    obtain ⟨v, more, there⟩ := ih place after (by omega)
    exact ⟨v, run.trans more, there⟩

theorem exec_beginCopy (entry : Entry s) (roomy : Roomy s t)
    (count : t.reg .rcx = (passed s).nstack) : Copying s 0 (execAll beginCopy t) := by
  have stack : t.word (s.reg .rcx + F_STACK) = (passed s).stack :=
    congrArg HLEFRAME.stack (roomy.anchored.kept.readFrame entry)
  refine ⟨⟨⟨roomy.anchored.next ?_ roomy.anchored.kept, ?_⟩, ?_⟩, ?_, ?_, ?_⟩
  · simp [beginCopy, execAll, Op.exec]
  · simp [beginCopy, execAll, Op.exec, roomy.rsp]
  · exact fun j absurd => (Nat.not_lt_zero j absurd).elim
  · simp [beginCopy, execAll, Op.exec, count]
  · simp [beginCopy, execAll, Op.exec, field, roomy.anchored.rbx, stack]
  · simp [beginCopy, execAll, Op.exec]

/-- From the test of the count to `copied`, by whichever way. -/
theorem steps_copied (entry : Entry s) (here : t.pc = 14) (roomy : Roomy s t)
    (count : t.reg .rcx = (passed s).nstack) (zero : t.zf ↔ nstack s = 0) :
    ∃ u, Steps hleInvoke t u ∧ u.pc = copiedLabel ∧ Copied s (nstack s) u := by
  have jump : hleInvoke[t.pc]? = some (.jz copiedLabel) := by
    rw [here]
    rfl
  by_cases empty : nstack s = 0
  · have taken := steps_jz jump
    rw [if_pos (zero.mpr empty)] at taken
    have none : Copied s 0 t := ⟨roomy, fun j absurd => (Nat.not_lt_zero j absurd).elim⟩
    exact ⟨_, taken, rfl, empty ▸ none.at _⟩
  · have passedBy := steps_jz jump
    rw [if_neg (mt zero.mp empty)] at passedBy
    have code : hleInvoke.drop (t.pc + 1) = beginCopy.map .op ++ hleInvoke.drop copyLoopLabel := by
      rw [here]
      rfl
    have block := steps_block (s := { t with pc := t.pc + 1 }) code
    rw [execAll_at] at block
    have started := (exec_beginCopy entry roomy count).at (t.pc + 1 + beginCopy.length)
    obtain ⟨left, enough⟩ := Nat.exists_eq_succ_of_ne_zero empty
    obtain ⟨u, copy, there⟩ := steps_copy entry left (by rw [here]; rfl) started
      ((Nat.zero_add _).trans enough.symm)
    exact ⟨u, passedBy.trans (block.trans copy), there⟩

/-! ## The call -/

theorem xmm_registerArguments (rbx : t.reg .rbx = s.reg .rcx) (k : Fin 4) :
    (execAll registerArguments t).xmm (k.castLE (by decide)) =
      (readFrame t.mem (s.reg .rcx)).x k := by
  match k with
  | 0 | 1 | 2 | 3 =>
    simp [registerArguments, execAll, Op.exec, field, rbx, readFrame, xmmAt, Cpu.word]

/-- What follows for the places from where RSP is. -/
theorem atCall_places (entry : Entry s) :
    (shadow (bottom s)).Within (newFrame s) ∧ (shadow (bottom s)).Apart (savedRegisters s) ∧
      ∀ i < nstack s, (quadSpan (argument (bottom s) i)).Apart (savedRegisters s) := by
  have low := bottom_le entry
  have room := le_roomFor (nstack s)
  refine ⟨?_, ?_, fun i inside => .inl (argument_below entry inside)⟩
  · simp only [Span.Within, shadow, newFrame]
    omega
  · simp only [Span.Apart, shadow, savedRegisters]
    omega

theorem exec_registerArguments (entry : Entry s) (copied : Copied s (nstack s) t) :
    AtCall s (execAll registerArguments t) ∧ Anchored s (execAll registerArguments t) ∧
      (execAll registerArguments t).reg .rax = (passed s).fn := by
  obtain ⟨⟨anchored, rsp⟩, arguments⟩ := copied
  have frame := anchored.kept.readFrame entry
  have rcx : t.word (s.reg .rcx + F_RCX) = (passed s).rcx := congrArg HLEFRAME.rcx frame
  have rdx : t.word (s.reg .rcx + F_RDX) = (passed s).rdx := congrArg HLEFRAME.rdx frame
  have r8 : t.word (s.reg .rcx + F_R8) = (passed s).r8 := congrArg HLEFRAME.r8 frame
  have r9 : t.word (s.reg .rcx + F_R9) = (passed s).r9 := congrArg HLEFRAME.r9 frame
  have fn : t.word (s.reg .rcx + F_FN) = (passed s).fn := congrArg HLEFRAME.fn frame
  have there : ((execAll registerArguments t).reg .rsp).toNat = bottom s := by
    simp [registerArguments, execAll, Op.exec, rsp]
  obtain ⟨within, shadowApart, argumentsApart⟩ := atCall_places entry
  refine ⟨?_, anchored.next ?_ anchored.kept, ?_⟩
  · constructor
    case aligned => exact there ▸ Nat.mul_mod_left _ _
    case rsp => exact there
    case shadowInside => exact there ▸ within
    case shadowApart => exact there ▸ ⟨shadowApart, fun j => .inl (Nat.le_add_right _ _)⟩
    case arguments => exact there ▸ arguments
    case argumentsApart => exact there ▸ argumentsApart
    case rcx => simp [registerArguments, execAll, Op.exec, field, anchored.rbx, rcx]
    case rdx => simp [registerArguments, execAll, Op.exec, field, anchored.rbx, rdx]
    case r8 => simp [registerArguments, execAll, Op.exec, field, anchored.rbx, r8]
    case r9 => simp [registerArguments, execAll, Op.exec, field, anchored.rbx, r9]
    case xmm => exact fun k => frame ▸ xmm_registerArguments anchored.rbx k
    case kept => exact anchored.kept
  · simp [registerArguments, execAll, Op.exec]
  · simp [registerArguments, execAll, Op.exec, field, anchored.rbx, fn]

theorem AtCall.at {c : Cpu} (atCall : AtCall s c) (pc : Nat) : AtCall s { c with pc := pc } := by
  obtain ⟨aligned, rsp, inside, clear, arguments, apart, rcx, rdx, r8, r9, xmm, kept⟩ := atCall
  exact ⟨aligned, rsp, inside, clear, arguments, apart, rcx, rdx, r8, r9, xmm, kept⟩

/-- From the entry to the call. -/
theorem steps_call (entry : Entry s) : ∃ c, Steps hleInvoke s c ∧ c.pc = 31 ∧
    c.reg .rax = (passed s).fn ∧ Anchored s c ∧ AtCall s c := by
  obtain ⟨t, anchor, place, anchored, rsp⟩ := steps_anchor entry
  obtain ⟨u, room, place, roomy, count, zero⟩ := steps_makeRoom entry place anchored rsp
  obtain ⟨v, copy, place, copied⟩ := steps_copied entry place roomy count zero
  have code : hleInvoke.drop v.pc = registerArguments.map .op ++ hleInvoke.drop 31 := by
    rw [place]
    rfl
  obtain ⟨atCall, anchored, target⟩ := exec_registerArguments entry copied
  have before := anchor.trans (room.trans copy)
  exact ⟨_, before.trans (steps_block code), by rw [place]; rfl, target,
    anchored.next (fun _ _ => rfl) anchored.kept, atCall.at _⟩

/-! ## The return -/

theorem exec_results (entry : Entry s) {r : Cpu} (rbx : r.reg .rbx = s.reg .rcx) :
    (readFrame (execAll results r).mem (s.reg .rcx)).raxOut = r.reg .rax ∧
      (readFrame (execAll results r).mem (s.reg .rcx)).xmm0Out = r.xmm 0 ∧
      SameOutside (descriptor s) r.mem (execAll results r).mem := by
  have noWrap : (s.reg .rcx).toNat + 160 ≤ 0x10000000000000000 := entry.noWrap
  have rax : (s.reg .rcx + F_RAXOUT).toNat = (s.reg .rcx).toNat + 128 :=
    toNat_add_of_lt (show _ + 128 < _ by omega)
  have low : (s.reg .rcx + F_XMMOUT).toNat = (s.reg .rcx).toNat + 144 :=
    toNat_add_of_lt (show _ + 144 < _ by omega)
  have high : (s.reg .rcx + F_XMMOUT + 8).toNat = (s.reg .rcx).toNat + 152 := by
    rw [toNat_add_of_lt (show _ + 8 < _ by omega), low]
    rfl
  have mem : (execAll results r).mem =
      setQuad (setQuad (setQuad r.mem ((s.reg .rcx).toNat + 128) (r.reg .rax))
        ((s.reg .rcx).toNat + 144) (r.xmm 0).1) ((s.reg .rcx).toNat + 152) (r.xmm 0).2 := by
    simp [results, execAll, Op.exec, field, rbx, rax, low, high]
  have inside : ∀ mem off w, off + 8 ≤ frameBytes →
      SameOutside (descriptor s) mem (setQuad mem ((s.reg .rcx).toNat + off) w) := by
    intro mem off w fits
    apply (setQuad_sameOutside mem _ w).mono
    simp only [Span.Within, quadSpan, descriptor]
    omega
  rw [mem]
  refine ⟨?_, ?_, ?_⟩
  · simp (disch := omega) only [readFrame, rax, quad_setQuad, quad_setQuad_other]
  · simp (disch := omega) only [readFrame, xmmAt, low, high, quad_setQuad, quad_setQuad_other]
  · exact (((inside _ 128 _ (by decide)).trans (inside _ 144 _ (by decide))).trans
      (inside _ 152 _ (by decide)))

/-- The stack is unwound to where it was, and the registers are popped. -/
theorem exec_unwind (entry : Entry s) {r : Cpu} (rbp : r.reg .rbp = s.reg .rsp - 32)
    (kept : ∀ a, (savedRegisters s).Holds a → r.mem a = mem a) (saved : Kept s mem)
    (rest : ∀ x ∈ [Reg.r12, .r13, .r14, .r15], r.reg x = s.reg x) :
    ∀ x ∈ nonvolatile, (execAll unwind r).reg x = s.reg x := by
  have room : 32 ≤ top s := Nat.le_trans (Nat.le_add_right _ _) entry.fits
  have small : top s < 0x10000000000000000 := (s.reg .rsp).toNat_lt
  have higher : ∀ {p : UInt64} {n m : Nat}, p.toNat = n → n + 8 = m → m ≤ top s →
      (p + 8).toNat = m := by
    rintro p n m rfl rfl le
    exact toNat_add_of_lt (Nat.lt_of_le_of_lt le small)
  have first := toNat_anchor entry
  have second : (s.reg .rsp - 32 + 8).toNat = top s - 24 := higher first (by omega) (by omega)
  have third : (s.reg .rsp - 32 + 8 + 8).toNat = top s - 16 := higher second (by omega) (by omega)
  have fourth : (s.reg .rsp - 32 + 8 + 8 + 8).toNat = top s - 8 :=
    higher third (by omega) (by omega)
  have up : s.reg .rsp - 32 + 8 + 8 + 8 + 8 = s.reg .rsp :=
    UInt64.toNat_inj.mp (higher fourth (show _ = top s by omega) (Nat.le_refl _))
  have word : ∀ p, top s - 32 ≤ p → p + 8 ≤ top s → quad r.mem p = quad mem p := by
    intro p above below
    apply quad_congr
    intro a here
    apply kept a
    simp only [Span.Holds, quadSpan, savedRegisters] at here ⊢
    omega
  have popped : r.word (s.reg .rsp - 32) = s.reg .rbp ∧
      r.word (s.reg .rsp - 32 + 8) = s.reg .rdi ∧
      r.word (s.reg .rsp - 32 + 8 + 8) = s.reg .rsi ∧
      r.word (s.reg .rsp - 32 + 8 + 8 + 8) = s.reg .rbx := by
    simp only [Cpu.word, first, second, third, fourth]
    rw [word _ (by omega) (by omega), word _ (by omega) (by omega), word _ (by omega) (by omega),
      word _ (by omega) (by omega)]
    exact ⟨saved.rbp, saved.rdi, saved.rsi, saved.rbx⟩
  simp only [List.forall_mem_cons] at rest
  simp [nonvolatile, unwind, execAll, Op.exec, rbp, up, popped, rest]

theorem unwind_mem (r : Cpu) : (execAll unwind r).mem = r.mem := by
  simp [unwind, execAll, Op.exec]

theorem results_reg (r : Cpu) : (execAll results r).reg = r.reg := by
  simp [results, execAll, Op.exec]

theorem exec_return (entry : Entry s) {c r : Cpu} (anchored : Anchored s c)
    (back : AbiReturn s c r) : Returned s r (execAll unwind (execAll results r)) := by
  obtain ⟨-, registers, memory⟩ := back
  have rbx : r.reg .rbx = s.reg .rcx := (registers .rbx (by decide)).trans anchored.rbx
  have rbp : r.reg .rbp = s.reg .rsp - 32 := (registers .rbp (by decide)).trans anchored.rbp
  have rest : ∀ x ∈ [Reg.r12, .r13, .r14, .r15], r.reg x = s.reg x := by
    intro x member
    have callee : x ∈ nonvolatile := List.mem_of_mem_drop (i := 5) member
    exact (registers x callee).trans (anchored.rest x member)
  obtain ⟨raxOut, xmm0Out, outside⟩ := exec_results entry rbx
  have low := bottom_le entry
  have untouched : ∀ a, (own s).Holds a → (execAll results r).mem a = c.mem a := by
    intro a mine
    refine (outside a ?_).trans (memory a mine)
    have apart := entry.descriptorApart
    simp only [Span.Apart, Span.Holds, own, descriptor] at apart mine ⊢
    omega
  have saved : ∀ a, (savedRegisters s).Holds a → (execAll results r).mem a = c.mem a := by
    intro a mine
    apply untouched a
    simp only [Span.Holds, own, savedRegisters] at mine ⊢
    omega
  have popped : ∀ x ∈ nonvolatile, (execAll unwind (execAll results r)).reg x = s.reg x := by
    rw [← results_reg r] at rbp rest
    exact exec_unwind entry rbp saved anchored.kept rest
  have address : quad (execAll results r).mem (top s) = quad s.mem (top s) := by
    apply quad_congr
    intro a mine
    refine (untouched a ?_).trans (anchored.kept.outside a ?_)
    · simp only [Span.Holds, own, quadSpan] at mine ⊢
      omega
    · simp only [Span.Holds, newFrame, quadSpan] at mine ⊢
      omega
  refine ⟨popped, ?_, ?_, ?_⟩
  · rw [Cpu.word, popped .rsp (by decide), unwind_mem]
    exact address
  · rw [unwind_mem]
    exact raxOut
  · rw [unwind_mem]
    exact xmm0Out

theorem Returned.at {r z : Cpu} (returned : Returned s r z) (pc : Nat) :
    Returned s r { z with pc := pc } :=
  ⟨returned.registers, returned.returnAddress, returned.raxOut, returned.xmm0Out⟩

/-- From behind the call to the `ret`. -/
theorem steps_return (entry : Entry s) {c r : Cpu} (place : c.pc = 31) (anchored : Anchored s c)
    (back : AbiReturn s c r) :
    ∃ z, Steps hleInvoke r z ∧ step hleInvoke z = .returns z ∧ Returned s r z := by
  have here : r.pc = 32 := by rw [back.behind, place]
  have code : hleInvoke.drop r.pc = (results ++ unwind).map .op ++ hleInvoke.drop 39 := by
    rw [here]
    rfl
  have ret : hleInvoke[r.pc + (results ++ unwind).length]? = some .ret := by
    rw [here]
    rfl
  have run := steps_block code
  have whole : execAll (results ++ unwind) r = execAll unwind (execAll results r) :=
    List.foldl_append
  rw [whole] at run
  exact ⟨_, run, step_ret ret, (exec_return entry anchored back).at _⟩

/-- The thunk comes to its call with the frame as the convention has it, and from wherever a
function that keeps the convention comes back, it returns with what the caller had and the
results stored. -/
theorem import_call_frame (s : Cpu) (entry : Entry s) :
    ∃ c, Steps hleInvoke s c ∧ step hleInvoke c = .calls (passed s).fn c ∧ AtCall s c ∧
      ∀ r, AbiReturn s c r →
        ∃ z, Steps hleInvoke r z ∧ step hleInvoke z = .returns z ∧ Returned s r z := by
  obtain ⟨c, run, place, target, anchored, atCall⟩ := steps_call entry
  have call : hleInvoke[c.pc]? = some (.call .rax) := by
    rw [place]
    rfl
  have calls : step hleInvoke c = .calls (passed s).fn c := target ▸ step_call call
  exact ⟨c, run, calls, atCall, fun r back => steps_return entry place anchored back⟩

/-- Three stack arguments, the first of them 5, from an entry at which RSP is 8 modulo 16. -/
def sample : Cpu where
  reg := fun
    | .rsp => 0x1008
    | .rcx => 0x2000
    | _ => 0
  xmm := fun _ => (0, 0)
  zf := false
  cf := false
  mem := setQuad (setQuad (setQuad (fun _ => 0) 0x2028 0x3000) 0x2030 3) 0x3000 5
  pc := 0

/-- A function that does nothing but answer 7. -/
def answered (c : Cpu) : Cpu := { c.set .rax 7 with pc := c.pc + 1 }

theorem sample_called : Entry sample ∧ ∃ c z, Steps hleInvoke sample c ∧ AtCall sample c ∧
    Steps hleInvoke (answered c) z ∧ Returned sample (answered c) z := by
  have entry : Entry sample :=
    ⟨rfl, by decide +kernel, by decide +kernel, by decide +kernel, by decide +kernel⟩
  obtain ⟨c, run, -, atCall, returns⟩ := import_call_frame sample entry
  have back : AbiReturn sample c (answered c) :=
    ⟨rfl, by simp [nonvolatile, answered], fun _ _ => rfl⟩
  obtain ⟨z, later, -, returned⟩ := returns (answered c) back
  exact ⟨entry, c, z, run, atCall, later, returned⟩

end Es3Recomp.Guarantees.Thunk64
