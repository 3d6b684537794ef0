import Es3Recomp.Guarantees.ImportRows

/-!
# One numbering of the imports

The driver numbers the imports by their place in a sorted list, writes the list out as one
table and the slots as another (src/tools/recomp/driver.py:456-505), and the loader turns
the numbers into addresses (src/src/runtime/guest.c:765-774). Whoever meets such an address
later has to arrive at the import again: the dispatcher through `HLE_ID_OF` and the first
table, `cmd_trail` through a list that it builds for itself. They all rest on one fact:
a sorted list of a set does not depend on the order the set was come by. What the first table
says is what the compiler reads in it, so that it all depends on the names, too.
-/
namespace Es3Recomp.Guarantees.Imports
open Library Source.Trail Source.Imports Source.ImportRows ImportRows

/-! ## The tables -/

theorem mem_importPairs {iat : IatMap} {e : UInt32 × Import} (member : e ∈ iat.items) :
    e.2 ∈ importPairs iat := mem_importPairs_iff.mpr (List.mem_map_of_mem member)

/-- What `purge_table` adds to the entries it has. -/
theorem lookup_purges (lookup : Import → Option Nat) (es : List (UInt32 × Import))
    (out : List (Import × Int)) (i : Import) :
    (es.foldl (fun out e =>
      if (out.lookup e.2).isSome then out else out ++ [(e.2, popped lookup e.2)]) out).lookup i =
      (out.lookup i).or (if i ∈ es.map Prod.snd then some (popped lookup i) else none) := by
  induction es generalizing out with
  | nil => simp
  | cons e es ih =>
    rw [List.foldl_cons, ih]
    by_cases known : (out.lookup e.2).isSome
    · rw [if_pos known]
      by_cases here : i = e.2
      · obtain ⟨n, found⟩ := Option.isSome_iff_exists.mp known
        rw [here, found]
        rfl
      · have listed : i ∈ (e :: es).map Prod.snd ↔ i ∈ es.map Prod.snd := by simp [here]
        simp only [listed]
    · rw [if_neg known, List.lookup_append]
      by_cases here : i = e.2
      · subst here
        simp [Option.not_isSome_iff_eq_none.mp known]
      · have listed : i ∈ (e :: es).map Prod.snd ↔ i ∈ es.map Prod.snd := by simp [here]
        have other : (i == e.2) = false := beq_eq_false_iff_ne.mpr here
        simp only [listed, List.lookup_cons, List.lookup_nil, other, Option.or_none]

theorem lookup_purgeTable (lookup : Import → Option Nat) {iat : IatMap} {e : UInt32 × Import}
    (member : e ∈ iat.items) : (purgeTable lookup iat).lookup e.2 = some (popped lookup e.2) := by
  have listed : e.2 ∈ iat.sortedItems.map Prod.snd :=
    List.mem_map_of_mem (List.mem_mergeSort.mpr member)
  rw [purgeTable, lookup_purges, if_pos listed]
  rfl

/-! ## The IAT -/

theorem rd32_store (mem : Memory) {va word : UInt32} (stored : load mem (slotSpan va) = leBytes word) :
    rd32 mem va = word := by
  rw [rd32, stored]
  exact leWord_leBytes word

/-- The store that a row of the table makes. -/
def patched (row : UInt32 × Nat) : Nat × List UInt8 := (row.1.toNat, leBytes (hleAddr row.2))

/-- Every slot of the table holds its sentinel, whatever the order of the table. -/
theorem rd32_guestLoad {h : Headers} (mem : Memory)
    (apart : h.slots.Pairwise fun r r' => (slotSpan r.1).Apart (slotSpan r'.1))
    {va : UInt32} {k : Nat} (member : (va, k) ∈ h.slots) :
    rd32 (guestLoad h mem) va = hleAddr k := by
  have all : guestLoad h mem = storeAll mem (h.slots.map patched) := by
    rw [storeAll, List.foldl_map]
    rfl
  apply rd32_store
  rw [all]
  exact load_storeAll mem (List.pairwise_map.mpr apart) (List.mem_map_of_mem member)

theorem rd32_loaded (isalnum : Char → Bool) (purge : List (Import × Int)) {iat : IatMap}
    (mem : Memory) {e : UInt32 × Import} (member : e ∈ iat.items) :
    rd32 (guestLoad (emitHeaders isalnum iat purge) mem) e.1 =
      hleAddr ((importPairs iat).idxOf e.2) := by
  have sorted : iat.sortedItems.Pairwise fun e e' => (slotSpan e.1).Apart (slotSpan e'.1) :=
    iat.apart.perm (List.mergeSort_perm _ _).symm Span.Apart.symm
  have slots : (emitHeaders isalnum iat purge).slots =
      iat.sortedItems.map fun e => (e.1, (importPairs iat).idxOf e.2) := by
    simp only [emitHeaders]
  have row : (e.1, (importPairs iat).idxOf e.2) ∈ (emitHeaders isalnum iat purge).slots := by
    rw [slots]
    exact List.mem_map.mpr ⟨e, List.mem_mergeSort.mpr member, rfl⟩
  refine rd32_guestLoad mem ?_ row
  rw [slots]
  exact List.pairwise_map.mpr sorted

/-! ## The sentinels -/

/-- How many imports there are numbers for: one more and the range ends at 2^32. -/
def sentinels : Nat := (2 ^ 32 - HLE_BASE.toNat) / 4

theorem toNat_hleAddr {k : Nat} (few : k < sentinels) :
    (hleAddr k).toNat = HLE_BASE.toNat + 4 * k := by
  have bound : k < 112459776 := few
  have base : HLE_BASE.toNat = 3845128192 := rfl
  have stride : HLE_STRIDE.toNat = 4 := rfl
  rw [hleAddr, UInt32.toNat_add, UInt32.toNat_mul, UInt32.toNat_ofNat', base, stride]
  omega

theorem hleIsAddr_hleAddr {sym : Symbols} {k n : Nat} (count : sym.hleCount = UInt32.ofNat n)
    (inside : k < n) (few : n < sentinels) : hleIsAddr sym (hleAddr k) = true := by
  have sentinel := toNat_hleAddr (Nat.lt_trans inside few)
  have last : HLE_BASE + HLE_STRIDE * sym.hleCount = hleAddr n := by rw [count]; rfl
  rw [hleIsAddr, last, decide_eq_true_iff, UInt32.le_iff_toNat_le, UInt32.lt_iff_toNat_lt, sentinel,
    toNat_hleAddr few]
  omega

theorem hleIdOf_hleAddr {k : Nat} (few : k < sentinels) : (hleIdOf (hleAddr k)).toNat = k := by
  have sentinel := toNat_hleAddr few
  have base : HLE_BASE.toNat = 3845128192 := rfl
  have stride : HLE_STRIDE.toNat = 4 := rfl
  have above : HLE_BASE ≤ hleAddr k := by
    rw [UInt32.le_iff_toNat_le, sentinel]
    omega
  rw [hleIdOf, UInt32.toNat_div, UInt32.toNat_sub_of_le _ _ above, sentinel, stride]
  omega

theorem hleAddr_inj {k k' : Nat} (few : k < sentinels) (few' : k' < sentinels) :
    hleAddr k = hleAddr k' ↔ k = k' := by
  constructor
  · intro same
    rw [← hleIdOf_hleAddr few, same, hleIdOf_hleAddr few']
  · rintro rfl
    rfl

/-! ## The readers -/

/-- Everyone who meets this word takes it for this import. -/
structure StandsFor (h : Headers) (sym : Symbols) (trail : List (String × String))
    (lookup : Import → Option Nat) (word : UInt32) (i : Import) : Prop where
  isAddr : hleIsAddr sym word = true
  row : ∃ row, h.imports[(hleIdOf word).toNat]? = some row ∧
    row.dll = i.dll ∧ row.name = i.name ∧ row.purge = popped lookup i
  runtime : sym.hleName (hleIdOf word) = i.name ∧ sym.hleDll (hleIdOf word) = i.dll ∧
    hlePurge h (hleIdOf word) = popped lookup i
  trail : whoOf trail word.toNat = "import " ++ i.name ++ " (" ++ i.dll ++ ")"

/-- The list of the trail reader is that of the driver: it is sorted. -/
theorem trailImports_eq {iat iat' : IatMap} (same : ∀ e, e ∈ iat'.items ↔ e ∈ iat.items) :
    trailImports iat' = (importPairs iat).map fun i => (i.dll, i.name) := by
  have values : iat'.values.toFinset = iat.values.toFinset := by
    ext i
    simp [IatMap.values, same]
  rw [trailImports, values]
  rfl

theorem whoOf_hleAddr {trail : List (String × String)} {k : Nat} {dll name : String}
    (found : trail[k]? = some (dll, name)) (few : trail.length < sentinels) :
    whoOf trail (hleAddr k).toNat = "import " ++ name ++ " (" ++ dll ++ ")" := by
  have inside : k < trail.length := (List.getElem?_eq_some_iff.mp found).1
  have stride : HLE_STRIDE.toNat = 4 := rfl
  have index : (HLE_BASE.toNat + 4 * k - HLE_BASE.toNat) / 4 = k := by omega
  have range : HLE_BASE.toNat ≤ HLE_BASE.toNat + 4 * k ∧
      HLE_BASE.toNat + 4 * k < HLE_BASE.toNat + 4 * max trail.length 1 := by omega
  rw [whoOf, toNat_hleAddr (Nat.lt_trans inside few), stride, if_pos range, index]
  simp only [found]

theorem standsFor_hleAddr (isalnum : Char → Bool) (lookup : Import → Option Nat) {iat iat' : IatMap}
    (same : ∀ e, e ∈ iat'.items ↔ e ∈ iat.items) (few : (importPairs iat).length < sentinels)
    (imageBase : UInt32) {e : UInt32 × Import} (member : e ∈ iat.items) :
    let h := emitHeaders isalnum iat (purgeTable lookup iat)
    StandsFor h (symbolsOf h imageBase) (trailImports iat') lookup
      (hleAddr ((importPairs iat).idxOf e.2)) e.2 := by
  intro h
  have listed := mem_importPairs member
  have inside : (importPairs iat).idxOf e.2 < (importPairs iat).length :=
    List.idxOf_lt_length_iff.mpr listed
  have id := hleIdOf_hleAddr (Nat.lt_trans inside few)
  have count : h.imports.length = (importPairs iat).length := List.length_map ..
  have row : h.imports[(importPairs iat).idxOf e.2]? = some
      ⟨enumOf isalnum (importPairs iat) e.2, e.2.name, e.2.dll, popped lookup e.2⟩ := by
    have imports : h.imports = (importPairs iat).map fun i =>
        ⟨enumOf isalnum (importPairs iat) i, i.name, i.dll,
          ((purgeTable lookup iat).lookup i).getD (-1)⟩ := by
      simp only [h, emitHeaders]
    rw [imports, List.getElem?_map, List.getElem?_idxOf listed, Option.map_some,
      lookup_purgeTable lookup member]
    rfl
  refine ⟨hleIsAddr_hleAddr rfl (by rwa [count]) (by rwa [count]), ⟨_, by rw [id, row], rfl, rfl, rfl⟩,
    ⟨?_, ?_, ?_⟩, ?_⟩
  · simp only [symbolsOf, id, row, Option.map_some, Option.getD_some]
  · simp only [symbolsOf, id, row, Option.map_some, Option.getD_some]
  · simp only [hlePurge, id, row, Option.map_some, Option.getD_some]
  · rw [trailImports_eq same]
    apply whoOf_hleAddr
    · rw [List.getElem?_map, List.getElem?_idxOf listed]
      rfl
    · rwa [List.length_map]

/-- With the rows as they were written, whatever the map, the order it was come by, and what
memory held: every slot holds a sentinel that stands for its import to everyone, and for no
other. -/
theorem written_rows_agree (isalnum : Char → Bool) (lookup : Import → Option Nat)
    {iat iat' : IatMap} (same : ∀ e, e ∈ iat'.items ↔ e ∈ iat.items)
    (few : (importPairs iat).length < sentinels) (mem : Memory) (imageBase : UInt32) :
    let h := emitHeaders isalnum iat (purgeTable lookup iat)
    let loaded := guestLoad h mem
    (∀ e ∈ iat.items, StandsFor h (symbolsOf h imageBase) (trailImports iat') lookup
      (rd32 loaded e.1) e.2) ∧
    ∀ e ∈ iat.items, ∀ e' ∈ iat.items, rd32 loaded e.1 = rd32 loaded e'.1 ↔ e.2 = e'.2 := by
  intro h loaded
  have holds : ∀ e ∈ iat.items, rd32 loaded e.1 = hleAddr ((importPairs iat).idxOf e.2) :=
    fun e member => rd32_loaded isalnum (purgeTable lookup iat) mem member
  constructor
  · intro e member
    rw [holds e member]
    exact standsFor_hleAddr isalnum lookup same few imageBase member
  · intro e member e' member'
    have inside := List.idxOf_lt_length_iff.mpr (mem_importPairs member)
    have inside' := List.idxOf_lt_length_iff.mpr (mem_importPairs member')
    rw [holds e member, holds e' member',
      hleAddr_inj (Nat.lt_trans inside few) (Nat.lt_trans inside' few),
      List.idxOf_inj (mem_importPairs member)]

/-! ## The rows as they are read -/

/-- The file can be compiled, and with the rows that the compiler reads every slot holds a
sentinel that stands for its import to everyone, and for no other. -/
def Agrees (isalnum lineEnd : Char → Bool) (lookup : Import → Option Nat) (iat iat' : IatMap)
    (mem : Memory) (imageBase : UInt32) : Prop :=
  let h := emitHeaders isalnum iat (purgeTable lookup iat)
  ∃ rows, readImports lineEnd (writeImports h.imports) = some rows ∧
    let compiled : Headers := ⟨rows, h.slots⟩
    let loaded := guestLoad compiled mem
    (∀ e ∈ iat.items, StandsFor compiled (symbolsOf compiled imageBase) (trailImports iat') lookup
      (rd32 loaded e.1) e.2) ∧
    ∀ e ∈ iat.items, ∀ e' ∈ iat.items, rd32 loaded e.1 = rd32 loaded e'.1 ↔ e.2 = e'.2

/-- A number of arguments that an `int` has room for in bytes. -/
theorem bmod_popped_iff (lookup : Import → Option Nat) (i : Import) :
    (popped lookup i).bmod (2 ^ 32) = popped lookup i ↔ popped lookup i < 2 ^ 31 := by
  have low : -1 ≤ popped lookup i := by
    rw [popped]
    split <;> omega
  constructor
  · intro fits
    have bound := Int.bmod_lt (x := popped lookup i) (m := 2 ^ 32) (by decide)
    omega
  · intro small
    exact Int.bmod_eq_of_le (by omega) (by omega)

section Emitted
variable {isalnum lineEnd : Char → Bool} {lookup : Import → Option Nat} {iat iat' : IatMap}

theorem emitted_row {k : Nat} {i : Import} (at_k : (importPairs iat)[k]? = some i) :
    (emitHeaders isalnum iat (purgeTable lookup iat)).imports[k]? =
      some ⟨enumOf isalnum (importPairs iat) i, i.name, i.dll, popped lookup i⟩ := by
  have listed : i ∈ iat.values := mem_importPairs_iff.mp (List.mem_of_getElem? at_k)
  obtain ⟨e, member, rfl⟩ := List.mem_map.mp listed
  rw [getElem?_imports, at_k, Option.map_some, lookup_purgeTable lookup member]
  rfl

/-- The row at the place of an import, where the rows agree with the map. -/
theorem row_of_agrees {rows : List ImportRow} {imageBase : UInt32} {mem : Memory}
    (few : (importPairs iat).length < sentinels)
    (stands : let compiled : Headers :=
        ⟨rows, (emitHeaders isalnum iat (purgeTable lookup iat)).slots⟩
      ∀ e ∈ iat.items, StandsFor compiled (symbolsOf compiled imageBase) (trailImports iat') lookup
        (rd32 (guestLoad compiled mem) e.1) e.2)
    {k : Nat} {i : Import} (at_k : (importPairs iat)[k]? = some i) :
    ∃ row : ImportRow, rows[k]? = some row ∧
      row.dll = i.dll ∧ row.name = i.name ∧ row.purge = popped lookup i := by
  have listed : i ∈ iat.values := mem_importPairs_iff.mp (List.mem_of_getElem? at_k)
  obtain ⟨e, member, rfl⟩ := List.mem_map.mp listed
  obtain ⟨inside, found⟩ := List.getElem?_eq_some_iff.mp at_k
  have place : (importPairs iat).idxOf e.2 = k := by
    have once : (importPairs iat).Nodup := Finset.sort_nodup _ _
    rw [← found, once.idxOf_getElem]
  have word : rd32 (guestLoad
      ⟨rows, (emitHeaders isalnum iat (purgeTable lookup iat)).slots⟩ mem) e.1 = hleAddr k :=
    place ▸ rd32_loaded isalnum (purgeTable lookup iat) mem member
  have row := (stands e member).row
  rwa [word, hleIdOf_hleAddr (Nat.lt_trans inside few)] at row

/-- Where everyone arrives at the import, its names could be printed as they are. -/
theorem printable_of_agrees (alnum : IsAlnum isalnum) (ends : LineEnds lineEnd)
    (few : (importPairs iat).length < sentinels) {mem : Memory} {imageBase : UInt32}
    (agrees : Agrees isalnum lineEnd lookup iat iat' mem imageBase) :
    ∀ i ∈ iat.values, CLiteral.Plain lineEnd i.name.toList ∧
      CLiteral.Plain lineEnd i.dll.toList := by
  obtain ⟨rows, read, stands, -⟩ := agrees
  have tidy := tidy_emitHeaders alnum iat (purgeTable lookup iat)
  refine (printable_emitHeaders lineEnd isalnum iat (purgeTable lookup iat)).mp ?_
  refine printable_of_readImports ends tidy read fun k row at_k => ?_
  rw [getElem?_imports] at at_k
  obtain ⟨i, found, rfl⟩ := Option.map_eq_some_iff.mp at_k
  obtain ⟨row', at_k', dll, name, -⟩ := row_of_agrees few stands found
  exact ⟨row', at_k', name, dll⟩

end Emitted

/-- The numbering agrees just when the names can be printed between quotes as they are, and the
numbers fit. -/
theorem import_numbering_agrees_iff (isalnum lineEnd : Char → Bool) (alnum : IsAlnum isalnum)
    (ends : LineEnds lineEnd) (lookup : Import → Option Nat) (iat iat' : IatMap)
    (same : ∀ e, e ∈ iat'.items ↔ e ∈ iat.items)
    (few : (importPairs iat).length < (2 ^ 32 - HLE_BASE.toNat) / 4) (mem : Memory)
    (imageBase : UInt32) :
    Agrees isalnum lineEnd lookup iat iat' mem imageBase ↔
      ∀ i ∈ iat.values, CLiteral.Plain lineEnd i.name.toList ∧
        CLiteral.Plain lineEnd i.dll.toList ∧ popped lookup i < 2 ^ 31 := by
  have tidy := tidy_emitHeaders alnum iat (purgeTable lookup iat)
  have names := printable_emitHeaders lineEnd isalnum iat (purgeTable lookup iat)
  constructor
  · intro agrees
    have plain := printable_of_agrees alnum ends few agrees
    obtain ⟨rows, read, stands, -⟩ := agrees
    intro i listed
    obtain ⟨name, dll⟩ := plain i listed
    obtain ⟨k, at_k⟩ := List.mem_iff_getElem?.mp (mem_importPairs_iff.mpr listed)
    obtain ⟨row, at_k', -, -, purge⟩ := row_of_agrees few stands at_k
    rw [readImports_written ends tidy (names.mpr plain)] at read
    cases read
    rw [List.getElem?_map, emitted_row at_k, Option.map_some] at at_k'
    cases at_k'
    exact ⟨name, dll, (bmod_popped_iff lookup i).mp purge⟩
  · intro fits
    have printable := names.mpr fun i listed => ⟨(fits i listed).1, (fits i listed).2.1⟩
    refine ⟨_, ?_, written_rows_agree isalnum lookup same few mem imageBase⟩
    have whole : ∀ row ∈ (emitHeaders isalnum iat (purgeTable lookup iat)).imports,
        asInt row = row := by
      intro row member
      obtain ⟨k, at_k⟩ := List.mem_iff_getElem?.mp member
      have pair := at_k
      rw [getElem?_imports] at pair
      obtain ⟨i, found, -⟩ := Option.map_eq_some_iff.mp pair
      rw [emitted_row found] at at_k
      cases at_k
      have listed := mem_importPairs_iff.mp (List.mem_of_getElem? found)
      have size := (bmod_popped_iff lookup i).mpr (fits i listed).2.2
      rw [asInt, size]
    rw [readImports_written ends tidy printable, List.map_congr_left whole, List.map_id']
    rfl

theorem importPairs_length (iat : IatMap) : (importPairs iat).length ≤ iat.items.length := by
  rw [importPairs, Finset.length_sort]
  exact (List.toFinset_card_le iat.values).trans_eq (List.length_map ..)

/-! ## Two libraries that export by ordinal -/

/-- One import in two slots, and one name in two libraries. -/
def boardImports : IatMap where
  items := [(0x0081D000, ⟨"KERNEL32.dll", "Sleep"⟩), (0x0081D004, ⟨"eOkaoDt.dll", "ordinal_302"⟩),
    (0x0081D008, ⟨"KERNEL32.dll", "Sleep"⟩), (0x0081D00C, ⟨"eOkaoGn.dll", "ordinal_302"⟩)]
  inside := by decide
  apart := by decide

/-- The same, found in another order. -/
def boardImportsAgain : IatMap where
  items := [(0x0081D00C, ⟨"eOkaoGn.dll", "ordinal_302"⟩), (0x0081D000, ⟨"KERNEL32.dll", "Sleep"⟩),
    (0x0081D004, ⟨"eOkaoDt.dll", "ordinal_302"⟩), (0x0081D008, ⟨"KERNEL32.dll", "Sleep"⟩)]
  inside := by decide
  apart := by decide

theorem board_imports_agree :
    Agrees Char.isAlphanum lineFeed (fun _ => some 1) boardImports boardImportsAgain (fun _ => 0)
      0x00400000 :=
  (import_numbering_agrees_iff Char.isAlphanum lineFeed isAlphanum_alnum lineFeed_ends
    (fun _ => some 1) boardImports boardImportsAgain
    (fun e => by simp only [boardImports, boardImportsAgain, List.mem_cons]; tauto)
    (Nat.lt_of_le_of_lt (importPairs_length boardImports) (by decide)) (fun _ => 0) 0x00400000).mpr
    (by decide)

/-! ## A library in a directory -/

/-- An import whose DLL is named with the directory it is in. -/
def slashImports : IatMap where
  items := [(0x0081D000, ⟨"io\\board.dll", "Open"⟩)]
  inside := by decide
  apart := by decide

/-- To C the backslash and the letter are a backspace. -/
theorem slash_import_misread :
    ¬Agrees Char.isAlphanum lineFeed (fun _ => some 1) slashImports slashImports (fun _ => 0)
      0x00400000 := by
  intro agrees
  have few : (importPairs slashImports).length < sentinels :=
    Nat.lt_of_le_of_lt (importPairs_length slashImports) (by decide)
  have plain := printable_of_agrees isAlphanum_alnum lineFeed_ends few agrees
    ⟨"io\\board.dll", "Open"⟩ (by decide)
  exact absurd plain.2 (by decide)

end Es3Recomp.Guarantees.Imports
