import Es3Recomp.Source.Loader64

/-!
# Relocation is exact

On a directory whose blocks follow one another up to its end, the walk of
src/src/runtime64/loader64.c:219-242 adds the distance once to every slot that is listed as
DIR64, and to nothing else. What it reads on its way it does not change.
-/
namespace Es3Recomp.Guarantees.Relocation
open Library Source.Loader64

/-- The blocks from `p` on: none is shorter than its header, and the last ends at `stop`. -/
inductive Blocks (mem : Memory) (stop : Nat) : Nat → List Nat → Prop where
  | done : Blocks mem stop stop []
  | next {p : Nat} {rest : List Nat} (header : 8 ≤ (sizeOfBlock mem p).toNat)
      (inside : p + (sizeOfBlock mem p).toNat ≤ stop)
      (later : Blocks mem stop (p + (sizeOfBlock mem p).toNat) rest) : Blocks mem stop p (p :: rest)

/-- The slots that a block lists as DIR64. -/
def slotsOf (mem : Memory) (p : Nat) : List Nat :=
  (List.range (entryCount (sizeOfBlock mem p))).filterMap (slotAt mem p)

/-- Those of all the blocks, in order. -/
def slots (mem : Memory) (blocks : List Nat) : List Nat := blocks.flatMap (slotsOf mem)

def dirSpan (dir : DataDirectory) : Span := ⟨dir.virtualAddress.toNat, dir.size.toNat⟩

structure WellFormed (mem : Memory) (imageSize : Nat) (dir : DataDirectory) (blocks : List Nat) :
    Prop where
  tiled : Blocks mem (dir.virtualAddress.toNat + dir.size.toNat) dir.virtualAddress.toNat blocks
  inside : ∀ r ∈ slots mem blocks, (quadSpan r).Within ⟨0, imageSize⟩
  disjoint : (slots mem blocks).Pairwise fun r s => (quadSpan r).Apart (quadSpan s)
  outside : ∀ r ∈ slots mem blocks, (quadSpan r).Apart (dirSpan dir)

/-! ## The directory is read as it was -/

/-- The same bytes in a range. -/
def SameIn (s : Span) (mem mem' : Memory) : Prop := ∀ a, s.Holds a → mem' a = mem a

theorem rd16_same {s : Span} {mem mem' : Memory} (same : SameIn s mem mem') {p : Nat}
    (inside : Span.Within ⟨p, 2⟩ s) : rd16 mem' p = rd16 mem p := by
  have byte : ∀ k, k < 2 → mem' (p + k) = mem (p + k) := by
    intro k less
    apply same
    simp only [Span.Within, Span.Holds] at inside ⊢
    omega
  have first : mem' p = mem p := byte 0 (by decide)
  rw [rd16, rd16, first, byte 1 (by decide)]

theorem rd32_same {s : Span} {mem mem' : Memory} (same : SameIn s mem mem') {p : Nat}
    (inside : Span.Within ⟨p, 4⟩ s) : rd32 mem' p = rd32 mem p := by
  have byte : ∀ k, k < 4 → mem' (p + k) = mem (p + k) := by
    intro k less
    apply same
    simp only [Span.Within, Span.Holds] at inside ⊢
    omega
  have first : mem' p = mem p := byte 0 (by decide)
  rw [rd32, rd32, first, byte 1 (by decide), byte 2 (by decide), byte 3 (by decide)]

theorem patch_same {s : Span} {mem mem' : Memory} (same : SameIn s mem mem')
    (f : UInt64 → UInt64) {r : Nat} (apart : (quadSpan r).Apart s) :
    SameIn s mem (patch f mem' r) := by
  intro a here
  exact ((setQuad_sameOutside mem' r _).kept apart.disjoint here).trans (same a here)

/-! ## One block -/

theorem entryCount_eq {size : UInt32} (header : 8 ≤ size.toNat) :
    entryCount size = (size.toNat - 8) / 2 := by
  have bound := size.toNat_lt
  have le : (8 : UInt64) ≤ size.toUInt64 := by
    rw [UInt64.le_iff_toNat_le, UInt32.toNat_toUInt64]
    exact header
  rw [entryCount, UInt64.toNat_toUInt32, UInt64.toNat_div, UInt64.toNat_sub_of_le _ _ le,
    UInt32.toNat_toUInt64]
  exact Nat.mod_eq_of_lt (by
    have small : (size.toNat - 8) / 2 ≤ size.toNat :=
      Nat.le_trans (Nat.div_le_self _ _) (Nat.sub_le _ _)
    exact Nat.lt_of_le_of_lt small bound)

/-- A block inside a range that is not touched. -/
structure Held (s : Span) (mem mem' : Memory) (p : Nat) : Prop where
  same : SameIn s mem mem'
  header : 8 ≤ (sizeOfBlock mem p).toNat
  inside : Span.Within ⟨p, (sizeOfBlock mem p).toNat⟩ s

variable {s : Span} {mem mem' : Memory} {p : Nat} {delta : UInt64}

theorem Held.sizeOfBlock (held : Held s mem mem' p) :
    Source.Loader64.sizeOfBlock mem' p = Source.Loader64.sizeOfBlock mem p := by
  have inside := held.inside
  have header := held.header
  apply rd32_same held.same
  simp only [Span.Within] at inside ⊢
  omega

theorem Held.slotAt (held : Held s mem mem' p) {i : Nat}
    (entry : i < entryCount (Source.Loader64.sizeOfBlock mem p)) :
    Source.Loader64.slotAt mem' p i = Source.Loader64.slotAt mem p i := by
  have inside := held.inside
  have header := held.header
  rw [entryCount_eq header] at entry
  have page : pageOf mem' p = pageOf mem p := by
    apply rd32_same held.same
    simp only [Span.Within] at inside ⊢
    omega
  have same : entryAt mem' p i = entryAt mem p i := by
    apply rd16_same held.same
    simp only [Span.Within] at inside ⊢
    omega
  rw [Source.Loader64.slotAt, Source.Loader64.slotAt, page, same]

/-- Some of the entries of a block, one after another. -/
theorem foldl_relocateEntry (held : Held s mem mem' p) {entries : List Nat}
    (inside : ∀ i ∈ entries, i < entryCount (Source.Loader64.sizeOfBlock mem p))
    (apart : ∀ r ∈ entries.filterMap (Source.Loader64.slotAt mem p), (quadSpan r).Apart s) :
    entries.foldl (relocateEntry delta p) mem' =
      patchAll (· + delta) mem' (entries.filterMap (Source.Loader64.slotAt mem p)) := by
  induction entries generalizing mem' with
  | nil => rfl
  | cons i entries ih =>
    obtain ⟨here, later⟩ := List.forall_mem_cons.mp inside
    rw [List.foldl_cons, relocateEntry, held.slotAt here]
    cases slot : Source.Loader64.slotAt mem p i with
    | none =>
      rw [List.filterMap_cons_none slot] at apart ⊢
      exact ih held later apart
    | some r =>
      rw [List.filterMap_cons_some slot] at apart ⊢
      obtain ⟨first, rest⟩ := List.forall_mem_cons.mp apart
      exact ih ⟨patch_same held.same _ first, held.header, held.inside⟩ later rest

theorem relocateBlock_patchAll (held : Held s mem mem' p)
    (apart : ∀ r ∈ slotsOf mem p, (quadSpan r).Apart s) :
    relocateBlock delta p mem' = patchAll (· + delta) mem' (slotsOf mem p) := by
  rw [relocateBlock, held.sizeOfBlock]
  exact foldl_relocateEntry held (fun i member => List.mem_range.mp member) apart

theorem patchAll_same (same : SameIn s mem mem') (f : UInt64 → UInt64) {places : List Nat}
    (apart : ∀ r ∈ places, (quadSpan r).Apart s) : SameIn s mem (patchAll f mem' places) := by
  induction places generalizing mem' with
  | nil => exact same
  | cons r places ih =>
    obtain ⟨first, rest⟩ := List.forall_mem_cons.mp apart
    exact ih (patch_same same f first) rest

/-! ## The walk -/

theorem Blocks.count {stop : Nat} {blocks : List Nat} (tiled : Blocks mem stop p blocks) :
    p + 8 * blocks.length ≤ stop := by
  induction tiled with
  | done => exact Nat.le_refl _
  | next header inside later ih =>
    rw [List.length_cons]
    omega

theorem walk_patchAll {start stop : Nat} {blocks : List Nat} (tiled : Blocks mem stop p blocks)
    (from_ : start ≤ p) (same : SameIn ⟨start, stop - start⟩ mem mem')
    (apart : ∀ r ∈ slots mem blocks, (quadSpan r).Apart ⟨start, stop - start⟩) {turns : Nat}
    (enough : blocks.length < turns) :
    walk delta stop turns p mem' = some (patchAll (· + delta) mem' (slots mem blocks)) := by
  induction tiled generalizing mem' turns with
  | done =>
    cases turns with
    | zero => exact absurd enough (Nat.not_lt_zero _)
    | succ turns => rw [walk, if_neg (Nat.lt_irrefl _)]; rfl
  | @next p rest header inside later ih =>
    cases turns with
    | zero => exact absurd enough (Nat.not_lt_zero _)
    | succ turns =>
      have here : Held ⟨start, stop - start⟩ mem mem' p :=
        ⟨same, header, from_, by dsimp only; omega⟩
      have split : slots mem (p :: rest) = slotsOf mem p ++ slots mem rest := List.flatMap_cons
      rw [split] at apart ⊢
      obtain ⟨first, others⟩ := List.forall_mem_append.mp apart
      have block : relocateBlock delta p mem' = patchAll (· + delta) mem' (slotsOf mem p) :=
        relocateBlock_patchAll here first
      have same' := patchAll_same same (· + delta) first
      have after : Held ⟨start, stop - start⟩ mem (patchAll (· + delta) mem' (slotsOf mem p)) p :=
        ⟨same', header, from_, by dsimp only; omega⟩
      have some' : ¬sizeOfBlock mem p = 0 := by
        intro zero
        rw [zero, UInt32.toNat_zero] at header
        omega
      rw [walk, if_pos (by omega), here.sizeOfBlock, if_neg some', block]
      dsimp only
      rw [after.sizeOfBlock, ih (by omega) same' others (by rw [List.length_cons] at enough; omega),
        patchAll_append]

/-- Whatever the base is: the walk comes to its end, each slot that is listed has the distance
added to it once, and every other byte is that of the image at its preferred base. -/
theorem relocation_exact (mem : Memory) (imageSize : Nat) (dir : DataDirectory)
    (blocks : List Nat) (base want : UInt64) (wellFormed : WellFormed mem imageSize dir blocks) :
    ∃ mem', relocate base want dir mem = some mem' ∧
      (∀ r ∈ slots mem blocks, quad mem' r = quad mem r + (base - want)) ∧
      ∀ a, (∀ r ∈ slots mem blocks, ¬(quadSpan r).Holds a) → mem' a = mem a := by
  by_cases here : base - want = 0
  · refine ⟨mem, if_pos here, fun r _ => ?_, fun _ _ => rfl⟩
    rw [here, UInt64.add_zero]
  · have span : (⟨dir.virtualAddress.toNat,
        dir.virtualAddress.toNat + dir.size.toNat - dir.virtualAddress.toNat⟩ : Span) =
          dirSpan dir := by
      rw [Nat.add_sub_cancel_left, dirSpan]
    have count := wellFormed.tiled.count
    have enough : blocks.length < dir.size.toNat + 1 := by omega
    have walked : walk (base - want) (dir.virtualAddress.toNat + dir.size.toNat)
        (dir.size.toNat + 1) dir.virtualAddress.toNat mem =
          some (patchAll (· + (base - want)) mem (slots mem blocks)) :=
      walk_patchAll wellFormed.tiled (Nat.le_refl _) (fun _ _ => rfl)
        (span ▸ wellFormed.outside) enough
    refine ⟨_, (if_neg here).trans walked, ?_, ?_⟩
    · exact fun r member => quad_patchAll wellFormed.disjoint member
    · exact fun a outside => patchAll_outside outside

/-- Two blocks for one page: a slot and padding, then another slot and an entry of a type that
is passed over. -/
def sample : Memory := fun a =>
  ([0x00, 0x10, 0, 0, 12, 0, 0, 0, 0x00, 0xA0, 0x00, 0x00,
    0x00, 0x10, 0, 0, 12, 0, 0, 0, 0x08, 0xA0, 0x10, 0x30] : List UInt8).getD (a - 0x100) 0

def sampleDir : DataDirectory := ⟨0x100, 24⟩

example : slots sample [0x100, 0x10C] = [0x1000, 0x1008] := by decide +kernel

theorem sample_wellFormed : WellFormed sample 0x2000 sampleDir [0x100, 0x10C] where
  tiled := .next (by decide) (by decide) (.next (by decide) (by decide) .done)
  inside := by decide +kernel
  disjoint := by decide +kernel
  outside := by decide +kernel

theorem sample_relocated : ∃ mem',
    relocate 0x7FF600000000 0x140000000 sampleDir sample = some mem' ∧
      (∀ r ∈ slots sample [0x100, 0x10C],
        quad mem' r = quad sample r + (0x7FF600000000 - 0x140000000)) ∧
      ∀ a, (∀ r ∈ slots sample [0x100, 0x10C], ¬(quadSpan r).Holds a) → mem' a = sample a :=
  relocation_exact sample 0x2000 sampleDir [0x100, 0x10C] 0x7FF600000000 0x140000000
    sample_wellFormed

end Es3Recomp.Guarantees.Relocation
