import Mathlib.Data.List.Pairwise
import Es3Recomp.Library.FirstSeen
import Es3Recomp.Source.Imports64

/-!
# The import table of a 64-bit image is bound

For a table whose slots lie apart from each other and from all that is read of it, however the
names are given: every slot gets the address that the DLL has for its import, or stays as it was,
nothing else changes, and an address in a slot is called by the first import that it is of.
-/
namespace Es3Recomp.Guarantees.Imports64
open Library Source.Imports64
open Library.FirstSeen (firsts insertNew firsts_concat mem_firsts)
open Source.Loader64 (DataDirectory rd32)
open Source.TraceCalls (strstr)

/-! ## A table in a memory -/

/-- A descriptor, and the words behind its names. -/
structure Dll where
  name : Nat
  names : Nat
  thunk : Nat
  entries : List UInt64

/-- Where these entries go, from the `k`-th on. -/
def slotsFrom (thunk : Nat) : Nat → List UInt64 → List Nat
  | _, [] => []
  | k, _ :: entries => (thunk + 8 * k) :: slotsFrom thunk (k + 1) entries

def Dll.slots (d : Dll) : List Nat := slotsFrom d.thunk 0 d.entries

def slots (ds : List Dll) : List Nat := ds.flatMap Dll.slots

/-- No slot holds the address. -/
def Fixed (slots : List Nat) (a : Nat) : Prop := ∀ p ∈ slots, ¬ (quadSpan p).Holds a

/-- The descriptor at an offset says this. -/
structure Described (mem : Memory) (p : Nat) (d : Dll) : Prop where
  some_ : rd32 mem (p + 12) ≠ 0
  name : (rd32 mem (p + 12)).toNat = d.name
  thunk : (rd32 mem (p + 16)).toNat = d.thunk
  names : (if rd32 mem p ≠ 0 then rd32 mem p else rd32 mem (p + 16)).toNat = d.names
  entries : ∀ k e, d.entries[k]? = some e → quad mem (d.names + 8 * k) = e ∧ e ≠ 0
  stop : quad mem (d.names + 8 * d.entries.length) = 0

def Listed (mem : Memory) : Nat → List Dll → Prop
  | p, [] => rd32 mem (p + 12) = 0
  | p, d :: ds => Described mem p d ∧ Listed mem (p + 20) ds

/-- The entry has a text, and no ordinal. -/
def ByName (entry : UInt64) : Prop := entry &&& 0x8000000000000000 = 0

instance (entry : UInt64) : Decidable (ByName entry) :=
  inferInstanceAs (Decidable (entry &&& 0x8000000000000000 = 0))

def textAt (entry : UInt64) : Nat := (entry &&& 0x7FFFFFFF).toNat + 2

/-- A text and its zero. -/
def InText (size : Nat) (mem : Memory) (p a : Nat) : Prop :=
  p ≤ a ∧ a ≤ p + (cstr size mem p).length

/-- The cell is the slot of the same entry, where there is no second table. -/
def Own (d : Dll) (k p : Nat) : Prop :=
  d.names = d.thunk ∧ k < d.entries.length ∧ p = d.thunk + 8 * k

structure Laid (size : Nat) (mem : Memory) (dir : Nat) (ds : List Dll) : Prop where
  listed : Listed mem dir ds
  apart : (slots ds).Pairwise fun p q => (quadSpan p).Apart (quadSpan q)
  table : ∀ a, dir ≤ a → a < dir + 20 * (ds.length + 1) → Fixed (slots ds) a
  dlls : ∀ d ∈ ds, ∀ a, InText size mem d.name a → Fixed (slots ds) a
  texts : ∀ d ∈ ds, ∀ e ∈ d.entries, ByName e → ∀ a, InText size mem (textAt e) a →
    Fixed (slots ds) a
  cells : ∀ d ∈ ds, ∀ k ≤ d.entries.length, ∀ p ∈ slots ds,
    (quadSpan p).Apart (quadSpan (d.names + 8 * k)) ∨ Own d k p
  short : ds.length < size
  shorts : ∀ d ∈ ds, d.entries.length < size

/-! ## Reading while slots are written -/

/-- The memories differ at most in these slots. -/
def SameBut (done : List Nat) (mem mem' : Memory) : Prop := ∀ a, Fixed done a → mem' a = mem a

theorem Fixed.mono {done all : List Nat} (inside : done ⊆ all) {a : Nat} (fixed : Fixed all a) :
    Fixed done a := fun p member => fixed p (inside member)

theorem takeWhile_same {α : Type} {p : α → Bool} {l l' : List α} (length : l'.length = l.length)
    (same : ∀ k ≤ (l.takeWhile p).length, l'[k]? = l[k]?) : l'.takeWhile p = l.takeWhile p := by
  induction l generalizing l' with
  | nil => rw [List.length_eq_zero_iff.mp length]
  | cons c l ih =>
    cases l' with
    | nil => cases length
    | cons c' l' =>
      have first := same 0 (Nat.zero_le _)
      rw [List.getElem?_cons_zero, List.getElem?_cons_zero] at first
      cases first
      by_cases passes : p c = true
      · rw [List.takeWhile_cons_of_pos passes, List.takeWhile_cons_of_pos passes]
        congr 1
        refine ih (Nat.succ.inj length) fun k inside => ?_
        have later := same (k + 1) (by
          rw [List.takeWhile_cons_of_pos passes, List.length_cons]
          omega)
        rw [List.getElem?_cons_succ, List.getElem?_cons_succ] at later
        exact later
      · rw [List.takeWhile_cons_of_neg passes, List.takeWhile_cons_of_neg passes]

theorem cstr_same {size : Nat} {mem mem' : Memory} {p : Nat}
    (same : ∀ a, InText size mem p a → mem' a = mem a) : cstr size mem' p = cstr size mem p := by
  unfold cstr
  congr 1
  refine takeWhile_same (by rw [length_load, length_load]) fun k inside => ?_
  have there : mem' (p + k) = mem (p + k) := by
    refine same (p + k) ⟨Nat.le_add_right p k, ?_⟩
    rw [cstr, List.length_map]
    omega
  simp only [load, List.getElem?_map]
  cases found : (List.range size)[k]? with
  | none => rfl
  | some j =>
    obtain ⟨_, here⟩ := List.getElem?_eq_some_iff.mp found
    rw [List.getElem_range] at here
    subst here
    rw [Option.map_some, Option.map_some, there]

/-! ## What is bound -/

/-- An import, with where it goes and what the DLL has for it. -/
structure Import where
  slot : Nat
  dll : Text
  fp : UInt64
  nm : Text
  deriving DecidableEq

def Import.record (i : Import) : ImportRec := ⟨i.fp, i.dll.take 31, i.nm⟩

variable (host : Host) (size : Nat) (mem : Memory)

def importAt (dll : Text) (h : UInt64) (thunk k : Nat) (entry : UInt64) : Import :=
  let (fp, nm) := lookUp host size mem h entry
  ⟨thunk + 8 * k, dll, fp, nm⟩

/-- The imports from a DLL, from the `k`-th entry on. -/
def importsFrom (dll : Text) (h : UInt64) (thunk : Nat) : Nat → List UInt64 → List Import
  | _, [] => []
  | k, e :: entries =>
    importAt host size mem dll h thunk k e :: importsFrom dll h thunk (k + 1) entries

/-- Those of a descriptor, if there is the DLL. -/
def Dll.loaded (d : Dll) : Option (List Import) :=
  (host.loadLibrary (cstr size mem d.name)).map fun h =>
    importsFrom host size mem (cstr size mem d.name) h d.thunk 0 d.entries

/-- One import. -/
def bind (s : Bound) (i : Import) : Bound :=
  if i.fp = 0 then { s with missing := s.missing + 1 }
  else
    { mem := setQuad s.mem i.slot i.fp
      imports := s.imports ++ [i.record]
      missing := s.missing
      slots := keep i.dll i.nm i.fp s.slots }

/-- One DLL. -/
def bindDll (s : Bound) (d : Dll) : Bound :=
  match d.loaded host size mem with
  | none => { s with missing := s.missing + 1 }
  | some imports => imports.foldl bind s

variable {host : Host} {size : Nat} {mem : Memory}

theorem bind_sameBut {s : Bound} {done : List Nat} (same : SameBut done mem s.mem) (i : Import) :
    SameBut (done ++ [i.slot]) mem (bind s i).mem := by
  intro a fixed
  have before : Fixed done a := Fixed.mono (List.subset_append_left _ _) fixed
  unfold bind
  split
  next => exact same a before
  next =>
    have outside := fixed i.slot (List.mem_append_right _ (List.mem_singleton.mpr rfl))
    exact (setQuad_sameOutside s.mem i.slot i.fp a outside).trans (same a before)

/-- What an entry asks for is what it asked for at first. -/
theorem lookUp_same {mem' : Memory} (h entry : UInt64)
    (same : ByName entry → ∀ a, InText size mem (textAt entry) a → mem' a = mem a) :
    lookUp host size mem' h entry = lookUp host size mem h entry := by
  by_cases named : ByName entry
  · have text := cstr_same (same named)
    rw [textAt] at text
    simp only [lookUp, text]
  · have ordinal : entry &&& 0x8000000000000000 ≠ 0 := named
    rw [lookUp, lookUp, if_pos ordinal, if_pos ordinal]

theorem bindOne_eq {s : Bound} (dll : Text) (h : UInt64) (thunk k : Nat) (entry : UInt64)
    (same : ByName entry → ∀ a, InText size mem (textAt entry) a → s.mem a = mem a) :
    bindOne host size dll h thunk k entry s =
      bind s (importAt host size mem dll h thunk k entry) := by
  rw [bindOne, lookUp_same h entry same]
  rfl

theorem slots_importsFrom (dll : Text) (h : UInt64) (thunk k : Nat) (entries : List UInt64) :
    (importsFrom host size mem dll h thunk k entries).map Import.slot =
      slotsFrom thunk k entries := by
  induction entries generalizing k with
  | nil => rfl
  | cons e entries ih =>
    rw [importsFrom, List.map_cons, ih, slotsFrom]
    rfl

theorem binds_sameBut {s : Bound} {done : List Nat} (same : SameBut done mem s.mem)
    (imports : List Import) :
    SameBut (done ++ imports.map Import.slot) mem (imports.foldl bind s).mem := by
  induction imports generalizing s done with
  | nil => rwa [List.map_nil, List.append_nil]
  | cons i imports ih =>
    have rest := ih (bind_sameBut same i)
    rwa [List.append_assoc] at rest

/-! ## The loops -/

variable {dir : Nat} {ds : List Dll}

/-- A slot is not there twice. -/
theorem Laid.once (laid : Laid size mem dir ds) {done later : List Nat}
    (split : slots ds = done ++ later) {p : Nat} (early : p ∈ done) : p ∉ later := by
  intro late
  have apart := laid.apart
  rw [split] at apart
  have self := (List.pairwise_append.mp apart).2.2 p early p late
  have ends : (quadSpan p).start + (quadSpan p).len = p + 8 := rfl
  have begins : (quadSpan p).start = p := rfl
  unfold Span.Apart at self
  omega

/-- A cell that is still to be read is as it was. -/
theorem Laid.cell_same (laid : Laid size mem dir ds) {d : Dll} (member : d ∈ ds) {k : Nat}
    (inside : k ≤ d.entries.length) {done later : List Nat} (split : slots ds = done ++ later)
    (own : k < d.entries.length → d.thunk + 8 * k ∈ later) {mem' : Memory}
    (same : SameBut done mem mem') :
    quad mem' (d.names + 8 * k) = quad mem (d.names + 8 * k) := by
  apply quad_congr
  intro a holds
  apply same
  intro p early
  have there : p ∈ slots ds := by
    rw [split]
    exact List.mem_append_left _ early
  rcases laid.cells d member k inside p there with apart | ⟨_, below, here⟩
  · exact fun held => apart.disjoint a held holds
  · exact absurd (here ▸ own below) (laid.once split early)

/-- The inner loop, from the `k`-th entry on. -/
theorem Laid.bindNames_eq (laid : Laid size mem dir ds) {d : Dll} (member : d ∈ ds)
    (cells : ∀ k e, d.entries[k]? = some e → quad mem (d.names + 8 * k) = e ∧ e ≠ 0)
    (stop : quad mem (d.names + 8 * d.entries.length) = 0) (dll : Text) (h : UInt64)
    {front rest : List UInt64} (entries : d.entries = front ++ rest) {done later : List Nat}
    (split : slots ds = done ++ (slotsFrom d.thunk front.length rest ++ later)) {s : Bound}
    (same : SameBut done mem s.mem) {turns : Nat} (enough : rest.length < turns) :
    bindNames host size dll h d.names d.thunk turns front.length s =
      some ((importsFrom host size mem dll h d.thunk front.length rest).foldl bind s) := by
  induction rest generalizing front done s turns with
  | nil =>
    obtain ⟨turns, rfl⟩ : ∃ n, turns = n + 1 := ⟨turns - 1, by simp at enough; omega⟩
    have all : d.entries.length = front.length := by rw [entries, List.append_nil]
    have cell := laid.cell_same member (Nat.le_of_eq all.symm) split (by omega) same
    rw [← all, bindNames, all, cell, ← all, stop]
    rfl
  | cons e rest ih =>
    obtain ⟨turns, rfl⟩ : ∃ n, turns = n + 1 := ⟨turns - 1, by simp at enough; omega⟩
    have here : d.entries[front.length]? = some e := by
      rw [entries, List.getElem?_append_right (Nat.le_refl _), Nat.sub_self]
      rfl
    obtain ⟨below, _⟩ := List.getElem?_eq_some_iff.mp here
    obtain ⟨asked, some_⟩ := cells front.length e here
    have cell := laid.cell_same member (Nat.le_of_lt below) split
      (fun _ => List.mem_append_left _ List.mem_cons_self) same
    have among : e ∈ d.entries := List.mem_of_getElem? here
    have inside : done ⊆ slots ds := by
      rw [split]
      exact List.subset_append_left _ _
    have text : ByName e → ∀ a, InText size mem (textAt e) a → s.mem a = mem a :=
      fun named a within => same a (Fixed.mono inside (laid.texts d member e among named a within))
    rw [bindNames, cell, asked]
    simp only [if_neg some_]
    rw [bindOne_eq dll h d.thunk front.length e text]
    have length : (front ++ [e]).length = front.length + 1 := by simp
    have written : SameBut (done ++ [d.thunk + 8 * front.length]) mem
        (bind s (importAt host size mem dll h d.thunk front.length e)).mem :=
      bind_sameBut same (importAt host size mem dll h d.thunk front.length e)
    have all : d.entries = front ++ [e] ++ rest := by
      rw [entries, List.append_assoc]
      rfl
    have cut : slots ds = done ++ [d.thunk + 8 * front.length] ++
        (slotsFrom d.thunk (front ++ [e]).length rest ++ later) := by
      rw [split, length, slotsFrom, List.append_assoc]
      rfl
    have next := ih all cut written (Nat.lt_of_succ_lt_succ enough)
    rw [length] at next
    rw [next]
    rfl

theorem rd32_same {mem' : Memory} {p : Nat} (same : ∀ a, p ≤ a → a < p + 4 → mem' a = mem a) :
    rd32 mem' p = rd32 mem p := by
  simp only [rd32]
  rw [same p (by omega) (by omega), same (p + 1) (by omega) (by omega),
    same (p + 2) (by omega) (by omega), same (p + 3) (by omega) (by omega)]

/-- A field of a descriptor that is still to be read is as it was. -/
theorem Laid.field_same (laid : Laid size mem dir ds) {done : List Nat} (inside : done ⊆ slots ds)
    {mem' : Memory} (same : SameBut done mem mem') {i : Nat} (within : i ≤ ds.length) {o : Nat}
    (low : o ≤ 16) : rd32 mem' (dir + 20 * i + o) = rd32 mem (dir + 20 * i + o) := by
  apply rd32_same
  intro a from_ below
  exact same a (Fixed.mono inside (laid.table a (by omega) (by omega)))

theorem bindDll_none {s : Bound} {d : Dll}
    (absent : host.loadLibrary (cstr size mem d.name) = none) :
    bindDll host size mem s d = { s with missing := s.missing + 1 } := by
  rw [bindDll, Dll.loaded, absent]
  rfl

theorem bindDll_some {s : Bound} {d : Dll} {h : UInt64}
    (there : host.loadLibrary (cstr size mem d.name) = some h) :
    bindDll host size mem s d =
      (importsFrom host size mem (cstr size mem d.name) h d.thunk 0 d.entries).foldl bind s := by
  rw [bindDll, Dll.loaded, there]
  rfl

theorem bindDll_sameBut {s : Bound} {done : List Nat} (same : SameBut done mem s.mem) (d : Dll) :
    SameBut (done ++ d.slots) mem (bindDll host size mem s d).mem := by
  cases loaded : host.loadLibrary (cstr size mem d.name) with
  | none =>
    rw [bindDll_none loaded]
    exact fun a fixed => same a (Fixed.mono (List.subset_append_left _ _) fixed)
  | some h =>
    have written := binds_sameBut same
      (importsFrom host size mem (cstr size mem d.name) h d.thunk 0 d.entries)
    rw [slots_importsFrom] at written
    rwa [bindDll_some loaded]

theorem slots_append (front rest : List Dll) : slots (front ++ rest) = slots front ++ slots rest :=
  List.flatMap_append ..

/-- The outer loop, from one of the descriptors on. -/
theorem Laid.bindDlls_eq (laid : Laid size mem dir ds) {front rest : List Dll}
    (descriptors : ds = front ++ rest) (listed : Listed mem (dir + 20 * front.length) rest)
    {s : Bound} (same : SameBut (slots front) mem s.mem) {turns : Nat}
    (enough : rest.length < turns) :
    bindDlls host size turns (dir + 20 * front.length) s =
      some (rest.foldl (bindDll host size mem) s) := by
  induction rest generalizing front s turns with
  | nil =>
    obtain ⟨turns, rfl⟩ : ∃ n, turns = n + 1 := ⟨turns - 1, by simp at enough; omega⟩
    rw [List.append_nil] at descriptors
    subst descriptors
    have name := laid.field_same (List.Subset.refl _) same (Nat.le_refl _) (show 12 ≤ 16 by decide)
    rw [bindDlls, name, listed]
    rfl
  | cons d rest ih =>
    obtain ⟨turns, rfl⟩ : ∃ n, turns = n + 1 := ⟨turns - 1, by simp at enough; omega⟩
    obtain ⟨here, later⟩ := listed
    have split : slots ds = slots front ++ slots (d :: rest) := by rw [descriptors, slots_append]
    have inside : slots front ⊆ slots ds := by
      rw [split]
      exact List.subset_append_left _ _
    have within : front.length ≤ ds.length := by
      rw [descriptors, List.length_append]
      exact Nat.le_add_right _ _
    have member : d ∈ ds := by
      rw [descriptors]
      exact List.mem_append_right _ List.mem_cons_self
    -- what is read of the descriptor and of its DLL is what was there at first
    have original := laid.field_same inside same within (show 0 ≤ 16 by decide)
    have name := laid.field_same inside same within (show 12 ≤ 16 by decide)
    have thunk := laid.field_same inside same within (show 16 ≤ 16 by decide)
    rw [Nat.add_zero] at original
    have text : cstr size s.mem d.name = cstr size mem d.name :=
      cstr_same fun a among => same a (Fixed.mono inside (laid.dlls d member a among))
    have next : bindDlls host size turns (dir + 20 * front.length + 20)
        (bindDll host size mem s d) =
        some (rest.foldl (bindDll host size mem) (bindDll host size mem s d)) := by
      have length : dir + 20 * (front ++ [d]).length = dir + 20 * front.length + 20 := by
        rw [List.length_append, List.length_singleton]
        omega
      have longer : slots (front ++ [d]) = slots front ++ d.slots := by
        rw [slots_append, slots, slots, List.flatMap_singleton]
      have written : SameBut (slots (front ++ [d])) mem (bindDll host size mem s d).mem := by
        rw [longer]
        exact bindDll_sameBut same d
      rw [← length]
      exact ih (by rw [descriptors, List.append_assoc]; rfl) (by rwa [length]) written
        (Nat.lt_of_succ_lt_succ enough)
    rw [bindDlls, name, thunk, original]
    simp only [if_neg here.some_, here.name, here.thunk, here.names, text]
    cases loaded : host.loadLibrary (cstr size mem d.name) with
    | none =>
      rw [bindDll_none loaded] at next
      rw [List.foldl_cons, bindDll_none loaded]
      exact next
    | some h =>
      have inner : bindNames host size (cstr size mem d.name) h d.names d.thunk size 0 s =
          some ((importsFrom host size mem (cstr size mem d.name) h d.thunk 0 d.entries).foldl
            bind s) :=
        laid.bindNames_eq member here.entries here.stop _ h (List.nil_append _).symm split same
          (laid.shorts d member)
      rw [bindDll_some loaded] at next
      rw [List.foldl_cons, bindDll_some loaded]
      dsimp only
      rw [inner]
      exact next

/-! ## What comes of it -/

/-- The DLL has the import. -/
def Import.There (i : Import) : Prop := i.fp ≠ 0

instance (i : Import) : Decidable i.There := inferInstanceAs (Decidable (i.fp ≠ 0))

/-- The import is of those that a global is for. -/
def Import.For (i : Import) : Slot → Prop
  | .intercept name => i.nm = name ∧ intercepts.contains name
  | .hasp name => (strstr i.dll "hasp".toList).isSome ∧ i.nm = name ∧ haspOrdinals.contains name

instance (i : Import) : (slot : Slot) → Decidable (i.For slot)
  | .intercept name => inferInstanceAs (Decidable (i.nm = name ∧ intercepts.contains name))
  | .hasp name => inferInstanceAs
    (Decidable ((strstr i.dll "hasp".toList).isSome ∧ i.nm = name ∧ haspOrdinals.contains name))

/-- The address of the last of the imports that a global is for. -/
def lastFor (imports : List Import) (slot : Slot) : Option UInt64 :=
  (imports.reverse.find? fun i => i.There ∧ i.For slot).map Import.fp

/-- The words that are written for these imports. -/
def words (imports : List Import) : List (Nat × UInt64) :=
  (imports.filter fun i => i.There).map fun i => (i.slot, i.fp)

/-- What these imports, and so many DLLs that are not there, make of a state. -/
structure After (s t : Bound) (got : List Import) (lost : Nat) : Prop where
  mem : t.mem = setQuads s.mem (words got)
  imports : t.imports = s.imports ++ (got.filter fun i => i.There).map Import.record
  missing : t.missing = s.missing + lost + got.countP fun i => ¬ i.There
  slots : ∀ slot, t.slots slot = (lastFor got slot).getD (s.slots slot)

theorem words_append (imports more : List Import) :
    words (imports ++ more) = words imports ++ words more := by
  rw [words, List.filter_append, List.map_append, words, words]

theorem lastFor_append (imports more : List Import) (slot : Slot) :
    lastFor (imports ++ more) slot = (lastFor more slot).or (lastFor imports slot) := by
  simp only [lastFor, List.reverse_append, List.find?_append, Option.map_or]

theorem After.refl (s : Bound) : After s s [] 0 where
  mem := rfl
  imports := (List.append_nil _).symm
  missing := rfl
  slots _ := rfl

theorem After.trans {s t u : Bound} {got more : List Import} {lost later : Nat}
    (first : After s t got lost) (second : After t u more later) :
    After s u (got ++ more) (lost + later) where
  mem := by rw [second.mem, first.mem, words_append, setQuads_append]
  imports := by
    rw [second.imports, first.imports, List.append_assoc, List.filter_append, List.map_append]
  missing := by
    rw [second.missing, first.missing, List.countP_append]
    omega
  slots slot := by
    rw [second.slots, first.slots, lastFor_append]
    cases lastFor more slot <;> rfl

theorem keep_eq (i : Import) (fp : UInt64) (slots : Slot → UInt64) (slot : Slot) :
    keep i.dll i.nm fp slots slot = if i.For slot then fp else slots slot := by
  cases slot <;> rfl

theorem after_bind (s : Bound) (i : Import) : After s (bind s i) [i] 0 := by
  by_cases there : i.fp = 0
  · have absent : ¬ i.There := not_not_intro there
    rw [bind, if_pos there]
    refine ⟨?_, ?_, ?_, fun slot => ?_⟩
    · simp [words, setQuads, absent]
    · simp [absent]
    · simp [absent]
    · simp [lastFor, absent]
  · have present : i.There := there
    rw [bind, if_neg there]
    refine ⟨?_, ?_, ?_, fun slot => ?_⟩
    · simp [words, setQuads, present]
    · simp [present]
    · simp [present]
    · simp only [keep_eq, lastFor, List.reverse_singleton, List.find?_singleton, present, true_and]
      split <;> simp_all

theorem after_binds (s : Bound) (imports : List Import) :
    After s (imports.foldl bind s) imports 0 := by
  induction imports generalizing s with
  | nil => exact After.refl s
  | cons i imports ih => exact (after_bind s i).trans (ih (bind s i))

variable (host size mem)

/-- The imports of the DLLs that there are, in the order of the table. -/
def importsOf (ds : List Dll) : List Import :=
  ds.flatMap fun d => (d.loaded host size mem).getD []

/-- How many DLLs there are not. -/
def absent (ds : List Dll) : Nat :=
  ds.countP fun d => (host.loadLibrary (cstr size mem d.name)).isNone

variable {host size mem}

theorem importsOf_append (ds more : List Dll) :
    importsOf host size mem (ds ++ more) =
      importsOf host size mem ds ++ importsOf host size mem more := List.flatMap_append ..

theorem absent_append (ds more : List Dll) :
    absent host size mem (ds ++ more) = absent host size mem ds + absent host size mem more :=
  List.countP_append ..

theorem after_bindDll (s : Bound) (d : Dll) :
    After s (bindDll host size mem s d) (importsOf host size mem [d])
      (absent host size mem [d]) := by
  cases loaded : host.loadLibrary (cstr size mem d.name) with
  | none =>
    rw [bindDll_none loaded]
    simpa [importsOf, absent, Dll.loaded, loaded] using
      (⟨rfl, (List.append_nil _).symm, rfl, fun _ => rfl⟩ :
        After s { s with missing := s.missing + 1 } [] 1)
  | some h =>
    rw [bindDll_some loaded]
    simpa [importsOf, absent, Dll.loaded, loaded] using
      after_binds s (importsFrom host size mem (cstr size mem d.name) h d.thunk 0 d.entries)

theorem after_bindDlls (s : Bound) (ds : List Dll) :
    After s (ds.foldl (bindDll host size mem) s) (importsOf host size mem ds)
      (absent host size mem ds) := by
  induction ds generalizing s with
  | nil => exact After.refl s
  | cons d ds ih =>
    rw [List.foldl_cons, ← List.singleton_append, importsOf_append, absent_append]
    exact (after_bindDll s d).trans (ih (bindDll host size mem s d))

/-! ## Apart in the table, apart in what is bound -/

theorem importsOf_slots (ds : List Dll) :
    ((importsOf host size mem ds).map Import.slot).Sublist (slots ds) := by
  induction ds with
  | nil => exact List.Sublist.refl _
  | cons d ds ih =>
    rw [← List.singleton_append, importsOf_append, List.map_append, slots_append]
    refine List.Sublist.append ?_ ih
    cases loaded : host.loadLibrary (cstr size mem d.name) with
    | none => simp [importsOf, Dll.loaded, loaded]
    | some h => simp [importsOf, Dll.loaded, loaded, slots_importsFrom, slots, Dll.slots]

theorem Laid.imports_apart (laid : Laid size mem dir ds) :
    (importsOf host size mem ds).Pairwise fun i j => (quadSpan i.slot).Apart (quadSpan j.slot) := by
  have among : ((importsOf host size mem ds).map Import.slot).Sublist (slots ds) :=
    importsOf_slots ds
  have listed := laid.apart.sublist among
  rwa [List.pairwise_map] at listed

theorem quad_words {got : List Import}
    (apart : got.Pairwise fun i j => (quadSpan i.slot).Apart (quadSpan j.slot)) {i : Import}
    (member : i ∈ got) :
    quad (setQuads mem (words got)) i.slot = if i.There then i.fp else quad mem i.slot := by
  by_cases there : i.There
  · have among : (i.slot, i.fp) ∈ words got :=
      List.mem_map.mpr ⟨i, List.mem_filter.mpr ⟨member, decide_eq_true there⟩, rfl⟩
    have pairs : (words got).Pairwise fun w v => (quadSpan w.1).Apart (quadSpan v.1) :=
      List.pairwise_map.mpr (apart.sublist List.filter_sublist)
    have stored : quad (setQuads mem (words got)) (i.slot, i.fp).1 = (i.slot, i.fp).2 :=
      quad_setQuads pairs among
    rw [if_pos there]
    exact stored
  · rw [if_neg there]
    apply quad_setQuads_apart
    intro w among
    obtain ⟨j, bound, rfl⟩ := List.mem_map.mp among
    obtain ⟨other, present⟩ := List.mem_filter.mp bound
    have differ : j ≠ i := fun same => there (same ▸ of_decide_eq_true present)
    have symm : Std.Symm fun i j : Import => (quadSpan i.slot).Apart (quadSpan j.slot) :=
      ⟨fun _ _ => Span.Apart.symm⟩
    exact apart.forall other member differ

/-! ## What is called, and what is said -/

/-- What is printed for the address, and whether it has been. -/
def called (st : List (ImportRec × Bool)) (addr : UInt64) : Option (Text × Bool) :=
  (st.find? fun e => e.1.addr = addr).map fun e => (e.1.text, e.2)

/-- Where it has not been. -/
def news : Option (Text × Bool) → List Text
  | some (text, false) => [text]
  | _ => []

theorem note_said (st : List (ImportRec × Bool)) (addr : UInt64) :
    (es3NoteImport st addr).2 = news (called st addr) := by
  induction st with
  | nil => rfl
  | cons e st ih =>
    obtain ⟨r, seen⟩ := e
    rw [es3NoteImport]
    by_cases here : r.addr = addr
    · cases seen <;> simp [called, here, news]
    · simp only [ne_eq, here, not_false_eq_true, if_true, ih, called, List.find?_cons,
        decide_false]

theorem note_called (st : List (ImportRec × Bool)) (addr a : UInt64) :
    called (es3NoteImport st addr).1 a =
      if a = addr then (called st a).map fun e => (e.1, true) else called st a := by
  induction st with
  | nil => simp [es3NoteImport, called]
  | cons e st ih =>
    obtain ⟨r, seen⟩ := e
    rw [es3NoteImport]
    by_cases here : r.addr = addr
    · subst here
      by_cases same : a = r.addr
      · subst same
        cases seen <;> simp [called]
      · cases seen <;> simp [called, same, Ne.symm same]
    · simp only [ne_eq, here, not_false_eq_true, if_true]
      by_cases same : r.addr = a
      · simp_all [called]
      · simpa [called, same] using ih

theorem called_unseen (imports : List ImportRec) (addr : UInt64) :
    called (imports.map fun r => (r, false)) addr =
      (es3ImportName imports addr).map fun text => (text, false) := by
  simp only [called, es3ImportName, List.find?_map, Option.map_map]
  rfl

/-- What is printed in a run: every import that is called, once, in the order of the first calls. -/
theorem importLog_run (imports : List ImportRec) (calls : List UInt64) :
    (importLog.run (imports.map fun r => (r, false)) calls).2 =
        (firsts calls).filterMap (es3ImportName imports) ∧
      ∀ addr, called (importLog.run (imports.map fun r => (r, false)) calls).1 addr =
        (es3ImportName imports addr).map fun text => (text, decide (addr ∈ calls)) := by
  induction calls using List.reverseRecOn with
  | nil => exact ⟨rfl, fun addr => by simpa using called_unseen imports addr⟩
  | append_singleton calls addr ih =>
    obtain ⟨said, states⟩ := ih
    rw [Transducer.run_concat, firsts_concat]
    constructor
    · have now : (es3NoteImport (importLog.run (imports.map fun r => (r, false)) calls).1 addr).2 =
          news ((es3ImportName imports addr).map fun text => (text, decide (addr ∈ calls))) := by
        rw [note_said, states addr]
      rw [said]
      refine (congrArg _ now).trans ?_
      rw [insertNew]
      by_cases old : addr ∈ calls
      · rw [if_pos (mem_firsts.mpr old), decide_eq_true old]
        cases es3ImportName imports addr <;> simp [news]
      · rw [if_neg (mt mem_firsts.mp old), decide_eq_false old, List.filterMap_append]
        cases name : es3ImportName imports addr <;> simp [news, name]
    · intro a
      refine (note_called _ addr a).trans ?_
      rw [states a]
      by_cases same : a = addr
      · simp [same]
        rfl
      · simp [same]

theorem es3ImportName_bound {got : List Import} {addr : UInt64} :
    es3ImportName ((got.filter fun i => i.There).map Import.record) addr =
      (got.find? fun i => i.There ∧ i.fp = addr).map fun i => i.record.text := by
  rw [es3ImportName, List.find?_map, List.find?_filter, Option.map_map]
  congr 2
  funext i
  by_cases there : i.There
  · simp [Import.record, there]
    rfl
  · simp [there]

/-- Two descriptors: of `hasp`, with a name and an ordinal, and of `x`. -/
def smallImage : List UInt8 :=
  [0, 0, 0, 0, 0, 0, 0, 0] ++
  [80, 0, 0, 0, 0, 0, 0, 0, 0, 0, 0, 0, 68, 0, 0, 0, 104, 0, 0, 0] ++
  [0, 0, 0, 0, 0, 0, 0, 0, 0, 0, 0, 0, 73, 0, 0, 0, 96, 0, 0, 0] ++
  [0, 0, 0, 0, 0, 0, 0, 0, 0, 0, 0, 0, 0, 0, 0, 0, 0, 0, 0, 0] ++
  [104, 97, 115, 112, 0, 120, 0, 0, 0, 0, 0, 0] ++
  [120, 0, 0, 0, 0, 0, 0, 0, 13, 0, 0, 0, 0, 0, 0, 128, 0, 0, 0, 0, 0, 0, 0, 0] ++
  [120, 0, 0, 0, 0, 0, 0, 0, 13, 0, 0, 0, 0, 0, 0, 128] ++ [0, 0, 102, 0]

def smallMemory : Memory := fun a => smallImage.getD a 0

def smallTable : List Dll :=
  [⟨68, 80, 104, [120, 0x800000000000000D]⟩, ⟨73, 96, 96, []⟩]

/-- There is no `x`. -/
def smallHost : Host where
  loadLibrary dll := if dll = ['h', 'a', 's', 'p'] then some 3 else none
  byOrdinal _ ord := if ord = 13 then 7 else 0
  byName _ name := if name = ['f'] then 5 else 0

theorem small_fixed {a : Nat} (outside : a < 104 ∨ 120 ≤ a) : Fixed (slots smallTable) a := by
  intro p member
  have places : p = 104 ∨ p = 112 := by simpa [smallTable, slots, Dll.slots, slotsFrom] using member
  unfold Span.Holds quadSpan
  dsimp only
  omega

theorem smallImage_laid : Laid 124 smallMemory 8 smallTable where
  listed := by
    refine ⟨⟨by decide, by decide, by decide, by decide, ?_, by decide⟩,
      ⟨by decide, by decide, by decide, by decide, ?_, by decide⟩, by unfold Listed; decide⟩
    · intro k e found
      match k, found with
      | 0, rfl => decide
      | 1, rfl => decide
    · intro k e found
      cases found
  apart := by decide
  table a from_ below := by
    have last : 8 + 20 * (smallTable.length + 1) = 68 := rfl
    exact small_fixed (by omega)
  dlls d member a within := by
    have short : ∀ d ∈ smallTable, d.name + (cstr 124 smallMemory d.name).length < 104 := by
      decide +kernel
    exact small_fixed (.inl (Nat.lt_of_le_of_lt within.2 (short d member)))
  texts d member e among named a within := by
    have far : ∀ d ∈ smallTable, d.entries.all (fun e => ByName e → 120 ≤ textAt e) = true := by
      decide
    have starts := of_decide_eq_true (List.all_eq_true.mp (far d member) e among) named
    exact small_fixed (.inr (Nat.le_trans starts within.1))
  cells d member k inside p among := by
    have apart : ∀ d ∈ smallTable, ∀ k < d.entries.length + 1, ∀ p ∈ slots smallTable,
        (quadSpan p).Apart (quadSpan (d.names + 8 * k)) := by decide
    exact .inl (apart d member k (Nat.lt_succ_of_le inside) p among)
  short := by decide
  shorts := by decide

end Es3Recomp.Guarantees.Imports64
