import Es3Recomp.Library.RingLog
import Es3Recomp.Library.SignedIndex
import Es3Recomp.Source.Trace64

/-!
# How far back the trace ring can be read

Every event finds its slot, for ever: the ring has a power of two of them
(src/src/runtime64/trace64.c:27, 37). What the two readers make of the head is another matter
(54-55, 101-103): it is a signed `long`, and they take it for the number of events.
-/
namespace Es3Recomp.Guarantees.Trace64
open Library Source.Trace64

/-- `TRACE_N` -/
def CAPACITY : Nat := 1048576

/-- The trace after some calls of `es3_trace`. -/
def traced (events : List TraceEnt) : Trace := events.foldl es3Trace Trace.initial

/-- There is a line for each of the latest `n` events and no other line, oldest first. -/
def Reports (importName : UInt64 → Option String) (events : List TraceEnt) (n : Nat)
    (lines : List Line) : Prop :=
  lines.map some = (events.rtake (min n CAPACITY)).map (lineOf importName)

/-- After `n` events the head is still good for the latest `want` of them: it has not passed
its positive range, or it is positive again and large enough. -/
def Reaches (n want : Nat) : Prop :=
  n < 2 ^ 31 ∨ (n % 2 ^ 32 < 2 ^ 31 ∧ min want CAPACITY ≤ n % 2 ^ 32) ∨ want = 0

/-- The latest `want` of them were given a name. -/
def Named (events : List TraceEnt) (want : Nat) : Prop :=
  ∀ e ∈ events.rtake (min want CAPACITY), e.what ≠ none

/-! ## The head -/

/-- The number the bits of the head are. -/
def headNat (s : Trace) : Nat := s.head.toUInt32.toNat

theorem toUInt32_injective {a b : Int32} (same : a.toUInt32 = b.toUInt32) : a = b := by
  rw [← Int32.toInt32_toUInt32 a, ← Int32.toInt32_toUInt32 b, same]

theorem slotOf_eq (head : Int32) :
    slotOf head = Int32.ofNat (head.toUInt32.toNat % CAPACITY) := by
  have mask : (TRACE_N - 1).toUInt32.toNat = 2 ^ 20 - 1 := by decide
  have small : head.toUInt32.toNat % CAPACITY < 2 ^ 32 :=
    Nat.lt_trans (Nat.mod_lt _ (by decide)) (by decide : CAPACITY < 2 ^ 32)
  apply toUInt32_injective
  apply UInt32.toNat_inj.mp
  rw [slotOf, Int32.toUInt32_and, UInt32.toNat_and, mask, Nat.and_two_pow_sub_one_eq_mod,
    Int32.toUInt32_ofNat', UInt32.toNat_ofNat', Nat.mod_eq_of_lt small]
  rfl

theorem toInt_eq (x : Int32) :
    x.toInt = if x.toUInt32.toNat < 2 ^ 31 then (x.toUInt32.toNat : Int)
      else x.toUInt32.toNat - 2 ^ 32 := by
  have cond := BitVec.toInt_eq_toNat_cond x.toBitVec
  have same : x.toInt = x.toBitVec.toInt := rfl
  have bits : x.toUInt32.toNat = x.toBitVec.toNat := rfl
  rw [same, cond, bits]
  split <;> split <;> omega

theorem slotOf_inside (head : Int32) : 0 ≤ slotOf head ∧ slotOf head < TRACE_N := by
  have below : head.toUInt32.toNat % CAPACITY < CAPACITY := Nat.mod_lt _ (by decide)
  have value := toInt_ofNat32 (Nat.lt_trans below (by decide : CAPACITY < 2 ^ 31))
  have ring : TRACE_N.toInt = CAPACITY := by decide
  rw [← slotOf_eq] at value
  rw [Int32.le_iff_toInt_le, Int32.lt_iff_toInt_lt, value, ring]
  exact ⟨Int.natCast_nonneg _, Int.ofNat_lt.mpr below⟩

/-! ## The ring is a log of its events -/

instance : NeZero CAPACITY := ⟨by decide⟩

/-- The slots inside the array, and the head taken for a number of 32 bits. -/
def view (s : Trace) : RingLog TraceEnt CAPACITY (2 ^ 32) where
  slot i := s.ring (Int32.ofNat i)
  count := ⟨headNat s, UInt32.toNat_lt _⟩

theorem slot_index_inj {i j : Fin CAPACITY} (same : Int32.ofNat i.val = Int32.ofNat j.val) :
    i = j := by
  have inside (k : Fin CAPACITY) : k.val < 2 ^ 31 :=
    Nat.lt_trans k.isLt (by decide : CAPACITY < 2 ^ 31)
  exact Fin.ext (ofNat32_inj (inside i) (inside j) same)

theorem headNat_es3Trace (s : Trace) (e : TraceEnt) :
    headNat (es3Trace s e) = (headNat s + 1) % 2 ^ 32 := by
  rw [headNat, es3Trace, Int32.toUInt32_add, UInt32.toNat_add]
  rfl

theorem view_es3Trace (s : Trace) (e : TraceEnt) : view (es3Trace s e) = (view s).note e := by
  have count : (view (es3Trace s e)).count = ((view s).note e).count :=
    Fin.ext (headNat_es3Trace s e)
  have slot : (view (es3Trace s e)).slot = ((view s).note e).slot := by
    funext i
    have index : slotOf s.head = Int32.ofNat (Fin.ofNat CAPACITY (headNat s)).val :=
      slotOf_eq s.head
    change Function.update s.ring (slotOf s.head) e (Int32.ofNat i.val) =
      Function.update (view s).slot (Fin.ofNat CAPACITY (headNat s)) e i
    rw [Function.update_apply, Function.update_apply, index]
    by_cases here : i = Fin.ofNat CAPACITY (headNat s)
    · rw [if_pos here, if_pos (by rw [here])]
    · rw [if_neg here, if_neg fun same => here (slot_index_inj same)]
      rfl
  exact congrArg₂ RingLog.mk slot count

theorem capacity_divides : CAPACITY ∣ 2 ^ 32 := ⟨4096, rfl⟩

theorem logs_traced (events : List TraceEnt) : (view (traced events)).Logs events := by
  have same : view (traced events) = (view Trace.initial).record events := by
    rw [traced, RingLog.record]
    exact (List.foldl_hom view fun s e => (view_es3Trace s e).symm).symm
  have fresh : (view Trace.initial).Logs [] := RingLog.logs_nil _ rfl
  rw [same]
  exact fresh.record capacity_divides events

theorem headNat_traced (events : List TraceEnt) :
    headNat (traced events) = events.length % 2 ^ 32 :=
  (logs_traced events).count

/-! ## Reading back -/

/-- Where a reader looks for the entry `k` calls ago. -/
theorem ring_slotOf_sub (s : Trace) {k : Nat} (back : k ≤ headNat s) :
    s.ring (slotOf (s.head - Int32.ofNat k)) = (view s).entry (headNat s - k) := by
  have inside : headNat s < 2 ^ 32 := UInt32.toNat_lt _
  have number : (s.head - Int32.ofNat k).toUInt32.toNat = headNat s - k := by
    rw [Int32.toUInt32_sub, Int32.toUInt32_ofNat', UInt32.toNat_sub, UInt32.toNat_ofNat']
    change (2 ^ 32 - k % 2 ^ 32 + headNat s) % 2 ^ 32 = headNat s - k
    omega
  rw [slotOf_eq, number]
  rfl

theorem readBack_eq (s : Trace) {k : Nat} (back : k ≤ headNat s) :
    readBack s k = (view s).recent k := by
  have count : (view s).count.val = headNat s := rfl
  induction k with
  | zero => rfl
  | succ k ih =>
    have rest : readBack s k = (List.range k).map fun j =>
        (view s).entry (headNat s - (k + 1) + (j + 1)) := by
      rw [ih (Nat.le_of_succ_le back), RingLog.recent, count]
      refine List.map_congr_left fun j _ => ?_
      rw [show headNat s - (k + 1) + (j + 1) = headNat s - k + j by omega]
    rw [readBack, ring_slotOf_sub s back, rest, RingLog.recent, count, List.range_succ_eq_map,
      List.map_cons, List.map_map]
    rfl

/-- The latest `k` events, for as many as the head and the ring go back. -/
theorem readBack_traced (events : List TraceEnt) {k : Nat}
    (counted : k ≤ headNat (traced events)) (fits : k ≤ CAPACITY) :
    readBack (traced events) k = events.rtake k := by
  rw [readBack_eq _ counted]
  exact RingLog.recent_eq capacity_divides (logs_traced events) counted fits

/-! ## How many entries a reader goes back -/

/-- The head taken for a number of events. -/
theorem toNatClampNeg_head (s : Trace) :
    s.head.toNatClampNeg = if headNat s < 2 ^ 31 then headNat s else 0 := by
  have inside : headNat s < 2 ^ 32 := UInt32.toNat_lt _
  have value := toInt_eq s.head
  change s.head.toInt = if headNat s < 2 ^ 31 then (headNat s : Int) else headNat s - 2 ^ 32
    at value
  change s.head.toInt.toNat = _
  rw [value]
  split <;> omega

theorem toNatClampNeg_min (a b : Int32) :
    (if a < b then a else b).toNatClampNeg = min a.toNatClampNeg b.toNatClampNeg := by
  have apart (x : Int32) : x.toNatClampNeg = x.toInt.toNat := rfl
  rw [apart, apart, apart]
  by_cases less : a < b
  · have := Int32.lt_iff_toInt_lt.mp less
    rw [if_pos less]
    omega
  · have := mt Int32.lt_iff_toInt_lt.mpr less
    rw [if_neg less]
    omega

/-- The entries a reader goes back that asks for `want` of them, for the value `r` of the
head. -/
def extent (r want : Nat) : Nat := if r < 2 ^ 31 then min want (min r CAPACITY) else 0

theorem extent_dump (s : Trace) :
    (if s.head < TRACE_N then s.head else TRACE_N).toNatClampNeg =
      extent (headNat s) CAPACITY := by
  have ring : TRACE_N.toNatClampNeg = CAPACITY := by decide
  rw [toNatClampNeg_min, toNatClampNeg_head, ring, extent]
  split <;> omega

theorem extent_tail (s : Trace) (n : Int32) :
    (if (if s.head < TRACE_N then s.head else TRACE_N) < n
      then (if s.head < TRACE_N then s.head else TRACE_N) else n).toNatClampNeg =
      extent (headNat s) n.toNatClampNeg := by
  rw [toNatClampNeg_min, extent_dump, extent, extent]
  split <;> omega

theorem extent_le (r want : Nat) : extent r want ≤ min want CAPACITY := by
  unfold extent
  split <;> omega

theorem extent_counted (r want : Nat) : extent r want ≤ r := by
  unfold extent
  split <;> omega

/-- Whether that is as many as there are to be reported. -/
theorem extent_enough (n want : Nat) :
    min (extent (n % 2 ^ 32) want) n = min (min want CAPACITY) n ↔ Reaches n want := by
  unfold extent Reaches CAPACITY
  split <;> omega

/-! ## What is printed -/

theorem rtake_congr {α : Type} (xs : List α) {k m : Nat}
    (same : min k xs.length = min m xs.length) :
    xs.rtake k = xs.rtake m := by
  rw [List.rtake, List.rtake]
  congr 1
  omega

theorem length_rtake {α : Type} (xs : List α) (k : Nat) :
    (xs.rtake k).length = min k xs.length := by
  rw [List.rtake, List.length_drop]
  omega

/-- Nothing is skipped just when every entry has a line. -/
theorem filterMap_whole_iff {α β : Type} (f : α → Option β) (xs : List α) :
    (xs.filterMap f).map some = xs.map f ↔ ∀ x ∈ xs, f x ≠ none := by
  induction xs with
  | nil => simp
  | cons x xs ih =>
    cases value : f x with
    | none =>
      have shorter : ((x :: xs).filterMap f).length < ((x :: xs).map f).length := by
        rw [List.filterMap_cons_none value, List.length_map, List.length_cons]
        exact Nat.lt_succ_of_le (List.length_filterMap_le f xs)
      refine ⟨fun same => ?_, fun all => absurd value (all x List.mem_cons_self)⟩
      rw [← same, List.length_map] at shorter
      exact absurd shorter (Nat.lt_irrefl _)
    | some y => simp [value, ih]

theorem lineOf_eq_none (importName : UInt64 → Option String) (e : TraceEnt) :
    lineOf importName e = none ↔ e.what = none :=
  Option.map_eq_none_iff

theorem reports_iff (importName : UInt64 → Option String) (events : List TraceEnt)
    {k want : Nat} (short : k ≤ min want CAPACITY) :
    Reports importName events want ((events.rtake k).filterMap (lineOf importName)) ↔
      min k events.length = min (min want CAPACITY) events.length ∧ Named events want := by
  have whole (same : min k events.length = min (min want CAPACITY) events.length) :
      Reports importName events want ((events.rtake k).filterMap (lineOf importName)) ↔
        Named events want := by
    rw [Reports, rtake_congr events same, filterMap_whole_iff]
    exact forall₂_congr fun e _ => not_congr (lineOf_eq_none importName e)
  constructor
  · intro reports
    have count := congrArg List.length reports
    rw [List.length_map, List.length_map, length_rtake] at count
    have fewer := List.length_filterMap_le (lineOf importName) (events.rtake k)
    rw [length_rtake] at fewer
    have same : min k events.length = min (min want CAPACITY) events.length := by omega
    exact ⟨same, (whole same).mp reports⟩
  · rintro ⟨same, named⟩
    exact (whole same).mpr named

/-- A reader that goes back for `want` entries. -/
theorem reader_iff (importName : UInt64 → Option String) (events : List TraceEnt) {n : Int32}
    {want : Nat} (entries : n.toNatClampNeg = extent (headNat (traced events)) want) :
    Reports importName events want (lines importName (traced events) n) ↔
      Reaches events.length want ∧ Named events want := by
  have counted := extent_counted (headNat (traced events)) want
  have short := extent_le (headNat (traced events)) want
  rw [lines, entries,
    readBack_traced events counted (Nat.le_trans short (Nat.min_le_right _ _)),
    reports_iff importName events short, headNat_traced, extent_enough]

/-- Every event goes to a slot of the ring; the dump, and the tail of each length, report the
latest events just when the head still counts them and all of them have a name. -/
theorem trace_iff (importName : UInt64 → Option String) (events : List TraceEnt) :
    (0 ≤ slotOf (traced events).head ∧ slotOf (traced events).head < TRACE_N) ∧
      (∀ why, Reports importName events CAPACITY
          (es3TraceDump importName (traced events) why).lines ↔
        Reaches events.length CAPACITY ∧ Named events CAPACITY) ∧
      ∀ n, Reports importName events n.toNatClampNeg
          (es3TraceTail importName (traced events) n).lines ↔
        Reaches events.length n.toNatClampNeg ∧ Named events n.toNatClampNeg :=
  ⟨slotOf_inside _, fun _ => reader_iff importName events (extent_dump _),
    fun n => reader_iff importName events (extent_tail _ n)⟩

/-- After 2^31 events the head is negative. -/
theorem dump_of_passed (importName : UInt64 → Option String) {events : List TraceEnt}
    (many : events.length = 2 ^ 31) (why : String) :
    (es3TraceDump importName (traced events) why).lines = [] ∧
      ¬ Reports importName events CAPACITY
        (es3TraceDump importName (traced events) why).lines := by
  have passed : extent (headNat (traced events)) CAPACITY = 0 := by
    rw [headNat_traced, many]
    decide
  constructor
  · change lines importName (traced events) _ = []
    rw [lines, extent_dump, passed]
    rfl
  · intro reports
    have reaches := (reader_iff importName events (extent_dump _)).mp reports |>.1
    rw [many] at reaches
    exact absurd reaches (by unfold Reaches CAPACITY; decide)

theorem dump_after_passing :
    (es3TraceDump (fun _ => none)
        (traced (List.replicate (2 ^ 31) ⟨0x140001000, some "call"⟩)) "exception").lines = [] ∧
      ¬ Reports (fun _ => none) (List.replicate (2 ^ 31) ⟨0x140001000, some "call"⟩) CAPACITY
        (es3TraceDump (fun _ => none)
          (traced (List.replicate (2 ^ 31) ⟨0x140001000, some "call"⟩)) "exception").lines :=
  dump_of_passed _ List.length_replicate _

end Es3Recomp.Guarantees.Trace64
