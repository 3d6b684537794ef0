import Es3Recomp.Guarantees.Dispatch

/-!
# When the lookup of a lifted function is exact

`find` (src/src/runtime/dispatch.c:81-91) reads an index by the offset from the lowest
address when there is one, and searches the table otherwise
(src/src/runtime/dispatch.c:61-79). Both answer what a look at every entry would, as long as
the index has a place for every entry: the number of its places wraps to 0 for a table from
the first address of all to the last, and the loop that fills it does not look at it.
-/
namespace Es3Recomp.Guarantees.Lookup
open Library Source.Dispatch Guarantees.Dispatch

/-- A look at every entry, in order. -/
def among {φ : Type} (table : List (Entry φ)) (va : UInt32) : Option φ :=
  (table.find? fun e => e.va = va).map Entry.fn

section Exact
variable {φ : Type} {table : List (Entry φ)}

theorem among_absent {va : UInt32} (absent : ∀ e ∈ table, e.va ≠ va) : among table va = none := by
  have nothing : table.find? (fun e => e.va = va) = none := by
    rw [List.find?_eq_none]
    intro e member same
    exact absent e member (of_decide_eq_true same)
  rw [among, nothing]
  rfl

theorem among_lifted (ascending : BinarySearch.Ascending Entry.key table) {e : Entry φ}
    (member : e ∈ table) : among table e.va = some e.fn := by
  cases found : table.find? fun e' => e'.va = e.va with
  | none => exact absurd (decide_eq_true rfl) (List.find?_eq_none.mp found e member)
  | some e' =>
    have same : e'.va = e.va := by simpa using List.find?_some found
    have one := entry_unique ascending (List.mem_of_find?_eq_some found) member same
    rw [among, found, one]
    rfl

theorem searchTable_absent {va : UInt32} (absent : ∀ e ∈ table, e.va ≠ va) :
    searchTable table va = none := by
  have nothing : BinarySearch.search Entry.key table va.toNat = none :=
    BinarySearch.search_absent fun e member same => absent e member (UInt32.toNat_inj.mp same)
  rw [searchTable, nothing]
  rfl

/-- A place of the index that no entry belongs at is empty. -/
theorem filled_absent {lo span va : UInt32} (within : va - lo < span)
    (absent : ∀ e ∈ table, e.va ≠ va) : (filled lo span table).1 (va - lo) = none := by
  rcases fill_cases within table (fun _ => none, []) with ⟨e, there, same, -⟩ | ⟨-, kept⟩
  · exact absurd same (absent e there)
  · exact kept

theorem find_absent (allocated : Bool) {va : UInt32} (absent : ∀ e ∈ table, e.va ≠ va) :
    find table (dispatchBuildIndex allocated table) va = none := by
  have searched := searchTable_absent absent
  unfold dispatchBuildIndex
  split
  · split
    · rw [find]
      split
      · rename_i range
        exact filled_absent (place_within range) absent
      · exact searched
    · exact searched
  · exact searched

theorem find_among (ascending : BinarySearch.Ascending Entry.key table) (allocated : Bool)
    (va : UInt32) : find table (dispatchBuildIndex allocated table) va = among table va := by
  by_cases lifted : ∃ e ∈ table, e.va = va
  · obtain ⟨e, member, rfl⟩ := lifted
    rw [find_lifted ascending member, among_lifted ascending member]
  · have absent : ∀ e ∈ table, e.va ≠ va := fun e member same => lifted ⟨e, member, same⟩
    rw [find_absent allocated absent, among_absent absent]

/-! ## The room of the index -/

theorem between (ascending : BinarySearch.Ascending Entry.key table) {first last e : Entry φ}
    (head : table.head? = some first) (tail : table.getLast? = some last) (member : e ∈ table) :
    first.key ≤ e.key ∧ e.key ≤ last.key := by
  obtain ⟨i, inside, rfl⟩ := List.mem_iff_getElem.mp member
  have here : table[i]? = some table[i] := List.getElem?_eq_getElem inside
  rw [List.head?_eq_getElem?] at head
  rw [List.getLast?_eq_getElem?] at tail
  constructor
  · rcases Nat.eq_zero_or_pos i with start | later
    · exact Nat.le_of_eq (congrArg Entry.key (Option.some.inj (head.symm.trans (start ▸ here))))
    · exact Nat.le_of_lt (ascending.lt head here later)
  · rcases Nat.lt_or_ge i (table.length - 1) with before | stop
    · exact Nat.le_of_lt (ascending.lt here tail before)
    · have final : i = table.length - 1 := by omega
      exact Nat.le_of_eq (congrArg Entry.key (Option.some.inj (here.symm.trans (final ▸ tail))))

/-- An entry has no place just when the table holds both the first address of all and the
last. -/
theorem place_iff (ascending : BinarySearch.Ascending Entry.key table) {first last e : Entry φ}
    (head : table.head? = some first) (tail : table.getLast? = some last) (member : e ∈ table) :
    e.va - first.va < last.va + 1 - first.va ↔ ¬(first.va = 0 ∧ last.va = 0xFFFFFFFF) := by
  obtain ⟨low, high⟩ := between ascending head tail member
  have top := last.va.toNat_lt
  have bottom := first.va.toNat_lt
  have both : first.va = 0 ∧ last.va = 0xFFFFFFFF ↔
      first.va.toNat = 0 ∧ last.va.toNat = 0xFFFFFFFF :=
    and_congr UInt32.toNat_inj.symm UInt32.toNat_inj.symm
  unfold Entry.key at low high
  rw [both, UInt32.lt_iff_toNat_lt, UInt32.toNat_sub, UInt32.toNat_sub, UInt32.toNat_add]
  have one : UInt32.toNat 1 = 1 := rfl
  omega

theorem foldl_fill_stray (lo span : UInt32) (entries : List (Entry φ))
    (g : (UInt32 → Option φ) × List UInt32) :
    (entries.foldl (fill lo span) g).2 = [] ↔
      g.2 = [] ∧ ∀ e ∈ entries, e.va - lo < span := by
  induction entries generalizing g with
  | nil => simp
  | cons e entries ih =>
    rw [List.foldl_cons, ih, List.forall_mem_cons, ← and_assoc]
    refine and_congr_left fun _ => ?_
    rw [fill]
    split
    · rename_i within
      exact (and_iff_left within).symm
    · rename_i outside
      simp [outside]

/-- The ends of a table are the first address of all and the last just when it holds both. -/
theorem ends_iff (ascending : BinarySearch.Ascending Entry.key table) {first last : Entry φ}
    (head : table.head? = some first) (tail : table.getLast? = some last) :
    first.va = 0 ∧ last.va = 0xFFFFFFFF ↔
      (∃ e ∈ table, e.va = 0) ∧ ∃ e ∈ table, e.va = 0xFFFFFFFF := by
  constructor
  · rintro ⟨bottom, top⟩
    exact ⟨⟨first, List.mem_of_head? head, bottom⟩, ⟨last, List.mem_of_getLast? tail, top⟩⟩
  · rintro ⟨⟨e, member, bottom⟩, ⟨e', member', top⟩⟩
    have low := (between ascending head tail member).1
    have high := (between ascending head tail member').2
    rw [Entry.key, Entry.key, bottom, UInt32.toNat_zero] at low
    rw [Entry.key, Entry.key, top] at high
    have bound := last.va.toNat_lt
    have greatest : (0xFFFFFFFF : UInt32).toNat = 0xFFFFFFFF := rfl
    exact ⟨UInt32.toNat_inj.mp (Nat.le_zero.mp low), UInt32.toNat_inj.mp (by omega)⟩

/-- Nothing is written behind the array just when every entry has its place. -/
theorem stray_iff (ascending : BinarySearch.Ascending Entry.key table) (nonempty : table ≠ []) :
    ∃ index, dispatchBuildIndex true table = some index ∧
      (index.stray = [] ↔ ¬((∃ e ∈ table, e.va = 0) ∧ ∃ e ∈ table, e.va = 0xFFFFFFFF)) := by
  have head := List.head?_eq_some_head nonempty
  have tail := List.getLast?_eq_some_getLast nonempty
  have places := foldl_fill_stray (table.head nonempty).va
    ((table.getLast nonempty).va + 1 - (table.head nonempty).va) table (fun _ => none, [])
  refine ⟨_, by rw [dispatchBuildIndex, head, tail]; rfl, ?_⟩
  rw [← ends_iff ascending head tail]
  refine places.trans ⟨fun all => ?_, fun room => ⟨rfl, fun e member => ?_⟩⟩
  · exact (place_iff ascending head tail (List.head_mem nonempty)).mp
      (all.2 _ (List.head_mem nonempty))
  · exact (place_iff ascending head tail member).mpr room

/-- The index can be built, and with it and without `find` is a look at every entry: the body of
the entry for the address when there is one, and nothing when there is none. -/
structure Exact (table : List (Entry φ)) : Prop where
  indexed : ∃ index, dispatchBuildIndex true table = some index ∧ index.stray = [] ∧
    ∀ va, find table (some index) va = among table va
  searched : dispatchBuildIndex false table = none ∧ ∀ va, find table none va = among table va
  present : ∀ e ∈ table, among table e.va = some e.fn
  absent : ∀ va, (∀ e ∈ table, e.va ≠ va) → among table va = none

/-- The lookup is exact but for a table that reaches from the first address of all to the last,
whose index is written behind the array of no places that was asked for. -/
theorem find_exact_iff (ascending : BinarySearch.Ascending Entry.key table)
    (nonempty : table ≠ []) :
    Exact table ↔ ¬((∃ e ∈ table, e.va = 0) ∧ ∃ e ∈ table, e.va = 0xFFFFFFFF) := by
  obtain ⟨index, built, stray⟩ := stray_iff ascending nonempty
  have unbuilt : dispatchBuildIndex false table = none := by
    unfold dispatchBuildIndex
    split <;> rfl
  constructor
  · intro exact_
    obtain ⟨index', built', inside, -⟩ := exact_.indexed
    rw [built] at built'
    cases built'
    exact stray.mp inside
  · intro room
    exact
      { indexed := ⟨index, built, stray.mpr room, fun va => built ▸ find_among ascending true va⟩
        searched := ⟨unbuilt, fun va => unbuilt ▸ find_among ascending false va⟩
        present := fun e member => among_lifted ascending member
        absent := fun va none => among_absent none }

end Exact

/-- The last address of all has an entry, so the bound above the index is 0. -/
def topmost : List (Entry Nat) := [⟨0x00401000, 1⟩, ⟨0x00401040, 2⟩, ⟨0xFFFFFFFF, 3⟩]

theorem find_exact_topmost : Exact topmost :=
  have ascending : BinarySearch.Ascending Entry.key topmost := by decide
  (find_exact_iff ascending (List.cons_ne_nil _ _)).mpr (by decide)

/-- The first address of all has one, too, so the index has no places. -/
def outermost : List (Entry Nat) := [⟨0, 1⟩, ⟨0xFFFFFFFF, 2⟩]

/-- Both entries are written to places that the index does not have. -/
theorem outermost_stray : ¬Exact outermost := by
  intro exact_
  obtain ⟨index, built, inside, -⟩ := exact_.indexed
  have strays : (dispatchBuildIndex true outermost).map Index.stray = some [0, 0xFFFFFFFF] := by
    decide
  rw [built, Option.map_some, inside] at strays
  cases strays

end Es3Recomp.Guarantees.Lookup
