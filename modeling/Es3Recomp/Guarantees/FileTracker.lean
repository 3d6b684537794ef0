import Es3Recomp.Library.SignedIndex
import Es3Recomp.Library.Transducer
import Es3Recomp.Source.FileTracker
import Mathlib.Data.List.Basic

/-!
# What a handle is known as

Windows hands out handle values again, so the table is searched from its end
(src/src/runtime64/dispatch64.c:347-363). It has 8192 entries, and says so when they are used up:
later opens are not tracked (333-341). As long as the table has room the entry found is that of
the latest open.
-/
namespace Es3Recomp.Guarantees.FileTracker
open Library Source.FileTracker

/-- A CreateFile that succeeded: there was a name, and a handle. -/
structure Open where
  name : FileName
  handle : UInt64
  named : name ≠ .wide none
  valid : handle ≠ INVALID_HANDLE_VALUE

/-- The opens of a run with `--trace-files`, in order. -/
def opened (toWide : List UInt8 → WText) (opens : List Open) : Table :=
  opens.foldl (fun s o => createFileDone true toWide s o.name o.handle) Table.initial

/-- The record of an open. -/
def recordOf (toWide : List UInt8 → WText) (o : Open) : Entry :=
  entryOf o.handle ((pathOf toWide o.name).getD [])

/-- The open number `k` returned the handle, and no later one did. -/
structure Latest (opens : List Open) (h : UInt64) (k : Nat) (o : Open) : Prop where
  at_k : opens[k]? = some o
  returned : o.handle = h
  later : ∀ j o', k < j → opens[j]? = some o' → o'.handle ≠ h

/-! ## The search -/

theorem ftFindBelow_none {s : Table} {h : UInt64} {n : Nat}
    (none : ∀ k, k < n → (s.ft (Int32.ofNat k)).h ≠ h) : ftFindBelow s h n = -1 := by
  induction n with
  | zero => rfl
  | succ n ih =>
    rw [ftFindBelow, if_neg (none n (Nat.lt_succ_self n))]
    exact ih fun k below => none k (Nat.lt_succ_of_lt below)

theorem ftFindBelow_newest {s : Table} {h : UInt64} {n k : Nat} (inside : k < n)
    (here : (s.ft (Int32.ofNat k)).h = h)
    (later : ∀ j, k < j → j < n → (s.ft (Int32.ofNat j)).h ≠ h) :
    ftFindBelow s h n = Int32.ofNat k := by
  induction n with
  | zero => exact absurd inside (Nat.not_lt_zero k)
  | succ n ih =>
    rw [ftFindBelow]
    rcases Nat.eq_or_lt_of_le (Nat.le_of_lt_succ inside) with rfl | below
    · rw [if_pos here]
    · rw [if_neg (later n below (Nat.lt_succ_self n))]
      exact ih below fun j behind before => later j behind (Nat.lt_succ_of_lt before)

/-! ## The table -/

/-- The first opens have their entries, in order. -/
structure Holds (toWide : List UInt8 → WText) (s : Table) (opens : List Open) : Prop where
  count : s.ftn = Int32.ofNat opens.length
  kept : ∀ k o, opens[k]? = some o → k < 8192 → s.ft (Int32.ofNat k) = recordOf toWide o
  said : s.said = if 8192 < opens.length then 1 else 0

theorem full_iff {n : Nat} (few : n < 2 ^ 31) : FT_MAX ≤ Int32.ofNat n ↔ 8192 ≤ n :=
  ofNat32_le_iff (by decide) few

theorem holds_initial (toWide : List UInt8 → WText) : Holds toWide Table.initial [] where
  count := rfl
  kept _ _ at_k := absurd at_k (by simp)
  said := rfl

theorem Open.path_eq (toWide : List UInt8 → WText) (o : Open) :
    pathOf toWide o.name = some ((pathOf toWide o.name).getD []) := by
  cases name : o.name with
  | wide path =>
    cases path with
    | none => exact absurd name o.named
    | some path => rfl
  | ansi bytes => rfl

theorem Holds.open_ {toWide : List UInt8 → WText} {s : Table} {opens : List Open}
    (holds : Holds toWide s opens) (few : opens.length < 2 ^ 31) (o : Open) :
    Holds toWide (createFileDone true toWide s o.name o.handle) (opens ++ [o]) := by
  have length : (opens ++ [o]).length = opens.length + 1 := by
    rw [List.length_append, List.length_singleton]
  have count : s.ftn + 1 = Int32.ofNat (opens ++ [o]).length := by
    rw [holds.count, length, Int32.ofNat_add]
    rfl
  have index : s.ftn + 1 - 1 = Int32.ofNat opens.length := by
    rw [Int32.add_sub_cancel, holds.count]
  have done : createFileDone true toWide s o.name o.handle =
      ftRecord s o.handle (some ((pathOf toWide o.name).getD [])) := by
    rw [createFileDone, if_pos rfl, if_pos o.valid, o.path_eq]
    rfl
  rw [done, ftRecord, if_neg o.valid]
  simp only [index]
  by_cases full : 8192 ≤ opens.length
  · have kept (k : Nat) (o' : Open) (at_k : (opens ++ [o])[k]? = some o') (inside : k < 8192) :
        s.ft (Int32.ofNat k) = recordOf toWide o' := by
      rcases getElem?_concat at_k with old | ⟨rfl, -⟩
      · exact holds.kept k o' old inside
      · exact absurd inside (Nat.not_lt_of_le full)
    rw [if_pos ((full_iff few).mpr full)]
    by_cases just : opens.length = 8192
    · have said : Int32.ofNat opens.length = FT_MAX := by rw [just]; rfl
      rw [if_pos said]
      refine ⟨count, kept, ?_⟩
      rw [holds.said, length, just]
      rfl
    · have apart : Int32.ofNat opens.length ≠ FT_MAX := fun same =>
        just (ofNat32_inj few (by decide) same)
      rw [if_neg apart]
      refine ⟨count, kept, ?_⟩
      rw [holds.said, length, if_pos (by omega), if_pos (by omega)]
  · rw [if_neg (mt (full_iff few).mp full)]
    refine ⟨count, fun k o' at_k inside => ?_, ?_⟩
    · rcases getElem?_concat at_k with old | ⟨rfl, rfl⟩
      · have below : k < opens.length := (List.getElem?_eq_some_iff.mp old).1
        have apart : Int32.ofNat k ≠ Int32.ofNat opens.length := fun same =>
          absurd (ofNat32_inj (by omega) few same) (Nat.ne_of_lt below)
        exact (Function.update_of_ne apart ..).trans (holds.kept k o' old inside)
      · exact Function.update_self ..
    · rw [holds.said, length, if_neg (by omega), if_neg (by omega)]

theorem holds_opened (toWide : List UInt8 → WText) (opens : List Open)
    (few : opens.length < 2 ^ 31) : Holds toWide (opened toWide opens) opens := by
  induction opens using List.reverseRecOn with
  | nil => exact holds_initial toWide
  | append_singleton opens o ih =>
    rw [List.length_append, List.length_singleton] at few
    have before := ih (Nat.lt_of_succ_lt few)
    rw [opened, List.foldl_append]
    exact before.open_ (Nat.lt_of_succ_lt few) o

/-! ## Looking up -/

/-- How many entries the search goes over. -/
theorem searched {toWide : List UInt8 → WText} {s : Table} {opens : List Open}
    (holds : Holds toWide s opens) (few : opens.length < 2 ^ 31) (h : UInt64) :
    ftFind s h = ftFindBelow s h (min opens.length 8192) := by
  rw [ftFind, holds.count]
  congr 1
  have less : Int32.ofNat opens.length < FT_MAX ↔ opens.length < 8192 :=
    ofNat32_lt_iff few (by decide)
  by_cases room : opens.length < 8192
  · rw [if_pos (less.mpr room), toNatClampNeg_ofNat32 few, Nat.min_eq_left (Nat.le_of_lt room)]
  · rw [if_neg (mt less.mp room), Nat.min_eq_right (Nat.le_of_not_lt room)]
    rfl

theorem recordOf_h (toWide : List UInt8 → WText) (o : Open) : (recordOf toWide o).h = o.handle :=
  rfl

theorem lookup_latest {toWide : List UInt8 → WText} {s : Table} {opens : List Open}
    (holds : Holds toWide s opens) (few : opens.length < 2 ^ 31) {h : UInt64} {k : Nat} {o : Open}
    (latest : Latest opens h k o) (early : k < 8192) : lookup s h = some (recordOf toWide o) := by
  have inside : k < opens.length := (List.getElem?_eq_some_iff.mp latest.at_k).1
  have entry := holds.kept k o latest.at_k early
  have found : ftFind s h = Int32.ofNat k := by
    rw [searched holds few]
    refine ftFindBelow_newest (Nat.lt_min.mpr ⟨inside, early⟩) ?_ fun j behind before => ?_
    · rw [entry, recordOf_h, latest.returned]
    · obtain ⟨below, table⟩ := Nat.lt_min.mp before
      have at_j : opens[j]? = some (opens.get ⟨j, below⟩) := List.getElem?_eq_getElem below
      rw [holds.kept j _ at_j table, recordOf_h]
      exact latest.later j _ behind at_j
  have index : ¬ Int32.ofNat k < 0 := ofNat32_not_neg (by omega)
  rw [lookup, found, if_neg index, entry]

theorem lookup_none {toWide : List UInt8 → WText} {s : Table} {opens : List Open}
    (holds : Holds toWide s opens) (few : opens.length < 2 ^ 31) {h : UInt64}
    (late : ∀ k o, opens[k]? = some o → o.handle = h → 8192 ≤ k) : lookup s h = none := by
  have found : ftFind s h = -1 := by
    rw [searched holds few]
    refine ftFindBelow_none fun j before => ?_
    obtain ⟨below, table⟩ := Nat.lt_min.mp before
    have at_j : opens[j]? = some (opens.get ⟨j, below⟩) := List.getElem?_eq_getElem below
    rw [holds.kept j _ at_j table, recordOf_h]
    exact fun same => absurd (late j _ at_j same) (Nat.not_le_of_lt table)
  rw [lookup, found]
  rfl

/-- A handle is known by the latest open that returned it, when that is one of those that the
table has room for, and not at all when none of those returned it. -/
theorem tracked (toWide : List UInt8 → WText) (opens : List Open) (few : opens.length < 2 ^ 31)
    (h : UInt64) :
    (∀ k o, Latest opens h k o → k < 8192 →
      lookup (opened toWide opens) h = some (recordOf toWide o)) ∧
    ((∀ k o, opens[k]? = some o → o.handle = h → 8192 ≤ k) →
      lookup (opened toWide opens) h = none) := by
  have holds := holds_opened toWide opens few
  exact ⟨fun _ _ latest early => lookup_latest holds few latest early,
    fun late => lookup_none holds few late⟩

/-- `Core.upk`, opened and closed again and again. -/
def core : Open := ⟨.wide (some [0x43, 0x6F, 0x72, 0x65, 0x2E, 0x75, 0x70, 0x6B]), 0x88,
  by decide, by decide⟩

/-- `a.ini` -/
def settings : Open := ⟨.wide (some [0x61, 0x2E, 0x69, 0x6E, 0x69]), 0x88, by decide, by decide⟩

/-- `game.log` -/
def gameLog : Open := ⟨.wide (some [0x67, 0x61, 0x6D, 0x65, 0x2E, 0x6C, 0x6F, 0x67]), 0x8C,
  by decide, by decide⟩

theorem recycled_handle : lookup (opened (fun _ => []) [core, settings]) 0x88 =
    some (recordOf (fun _ => []) settings) :=
  (tracked (fun _ => []) [core, settings] (by decide) 0x88).1 1 settings
    ⟨rfl, rfl, fun j _ behind at_j => by
      have inside := (List.getElem?_eq_some_iff.mp at_j).1
      exact absurd behind (Nat.not_lt_of_le (Nat.le_of_lt_succ inside))⟩ (by decide)

/-- The 8193rd open. -/
theorem open_after_full :
    Latest (List.replicate 8192 core ++ [gameLog]) 0x8C 8192 gameLog ∧
      lookup (opened (fun _ => []) (List.replicate 8192 core ++ [gameLog])) 0x8C = none := by
  have length : (List.replicate 8192 core).length = 8192 := List.length_replicate
  have few : (List.replicate 8192 core ++ [gameLog]).length < 2 ^ 31 := by
    rw [List.length_append, length]
    decide
  have others {k : Nat} {o : Open} (at_k : (List.replicate 8192 core)[k]? = some o) :
      o.handle = 0x88 :=
    congrArg Open.handle (List.eq_of_mem_replicate (List.mem_of_getElem? at_k))
  refine ⟨⟨?_, rfl, fun j o' behind at_j => ?_⟩, ?_⟩
  · rw [List.getElem?_append_right (Nat.le_of_eq length), length]
    rfl
  · have inside := (List.getElem?_eq_some_iff.mp at_j).1
    rw [List.length_append, length, List.length_singleton] at inside
    omega
  · refine lookup_none (holds_opened _ _ few) few fun k o at_k returned => ?_
    rcases getElem?_concat at_k with old | ⟨last, -⟩
    · exact absurd ((others old).symm.trans returned) (by decide)
    · rw [last, length]

end Es3Recomp.Guarantees.FileTracker
