import Es3Recomp.Source.Closure

/-!
# The extents of functions added in one round

`recompile` (src/tools/recomp/driver.py:327-332) goes through the pending addresses in
ascending order and bounds each by the starts it knows by then (`_extent_to_next`, 208-217). Of
two new neighbours the lower one does not know of the upper.
-/
namespace Es3Recomp.Guarantees.Extents
open Source.Closure

/-! ## The extent of one function -/

/-- No start that is known lies strictly inside the extent, and whatever else does lies below
the end of the code and the cap. -/
theorem lt_extentToNext {va a codeEnd cap : ℤ} {funcs : Funcs} (above : va < a) :
    a < va + extentToNext va funcs codeEnd cap ↔
      (∀ k ∈ funcs.keys, va < k → a < k) ∧ a < va + cap ∧ a < codeEnd := by
  have mem : ∀ k, k ∈ funcs.keys.filter (va < ·) ↔ k ∈ funcs.keys ∧ va < k := by
    intro k
    rw [List.mem_filter, decide_eq_true_iff]
  have next : a < (funcs.keys.filter (va < ·)).min?.getD codeEnd ∧ a < codeEnd ↔
      (∀ k ∈ funcs.keys, va < k → a < k) ∧ a < codeEnd := by
    apply and_congr_left
    intro inside
    cases least : (funcs.keys.filter (va < ·)).min? with
    | none =>
      have none := List.min?_eq_none_iff.mp least
      refine iff_of_true inside fun k known past => ?_
      have there := (mem k).mpr ⟨known, past⟩
      rw [none] at there
      exact absurd there List.not_mem_nil
    | some nxt =>
      have bound := List.le_min?_iff least (x := a + 1)
      simp only [Option.getD_some, Int.add_one_le_iff] at bound ⊢
      rw [bound]
      exact forall_congr' fun k => by rw [mem, and_imp]
  unfold extentToNext
  dsimp only
  rw [← and_assoc, and_right_comm, ← next]
  omega

/-- A lower start does not matter. -/
theorem extentToNext_lower {va v size codeEnd cap : ℤ} {funcs : Funcs} (lower : v < va) :
    extentToNext va ((v, size) :: funcs) codeEnd cap = extentToNext va funcs codeEnd cap := by
  have drop : (Funcs.keys ((v, size) :: funcs)).filter (va < ·) = funcs.keys.filter (va < ·) :=
    List.filter_cons_of_neg (by rw [decide_eq_true_iff]; exact Int.not_lt.mpr (Int.le_of_lt lower))
  rw [extentToNext, drop, extentToNext]

/-! ## The loop over the pending addresses -/

/-- `for va in pending: funcs[va] = _extent_to_next(va, funcs, info.code_end)` -/
def addExtents (codeEnd : ℤ) (pending : List ℤ) (funcs : Funcs) : Funcs :=
  pending.foldl (fun funcs va => (va, extentToNext va funcs codeEnd 0x4000) :: funcs) funcs

theorem mem_keys_addExtents {a codeEnd : ℤ} {pending : List ℤ} {funcs : Funcs} :
    a ∈ (addExtents codeEnd pending funcs).keys ↔ a ∈ pending ∨ a ∈ funcs.keys := by
  induction pending generalizing funcs with
  | nil => exact (or_iff_right List.not_mem_nil).symm
  | cons v pending ih =>
    have one : a ∈ Funcs.keys ((v, extentToNext v funcs codeEnd 0x4000) :: funcs) ↔
        a = v ∨ a ∈ funcs.keys := List.mem_cons
    rw [addExtents, List.foldl_cons, ← addExtents, ih, one, List.mem_cons, or_left_comm, or_assoc]

theorem get_addExtents_other {va codeEnd : ℤ} {pending : List ℤ} {funcs : Funcs}
    (other : va ∉ pending) : (addExtents codeEnd pending funcs).get va = funcs.get va := by
  induction pending generalizing funcs with
  | nil => rfl
  | cons v pending ih =>
    obtain ⟨first, rest⟩ := not_or.mp (mt List.mem_cons.mpr other)
    rw [addExtents, List.foldl_cons, ← addExtents, ih rest, Funcs.get, List.lookup_cons,
      beq_false_of_ne first]
    rfl

/-- In ascending order each is bounded by the starts known before the loop. -/
theorem get_addExtents {va codeEnd : ℤ} {pending : List ℤ} {funcs : Funcs}
    (sorted : pending.Pairwise (· < ·)) (member : va ∈ pending) :
    (addExtents codeEnd pending funcs).get va = extentToNext va funcs codeEnd 0x4000 := by
  induction pending generalizing funcs with
  | nil => exact absurd member List.not_mem_nil
  | cons v pending ih =>
    obtain ⟨above, sorted⟩ := List.pairwise_cons.mp sorted
    rw [addExtents, List.foldl_cons, ← addExtents]
    rcases List.mem_cons.mp member with rfl | later
    · have once : va ∉ pending := fun again => Int.lt_irrefl va (above va again)
      rw [get_addExtents_other once, Funcs.get, List.lookup_cons, beq_self_eq_true]
      rfl
    · rw [ih sorted later, extentToNext_lower (above va later)]

/-! ## Rounds -/

/-- What the round is to add: the addresses the lifted code reaches that have no body and lie
inside the code. -/
def opened (lifter : Lifter) (info : Info) (s : Rounds) : Finset ℤ :=
  (liftRound lifter s.funcs s.pending s.lifted).2.filter info.Inside

/-- No function lies strictly inside one that was added in the round behind `s`. -/
def Separate (s : Rounds) : Prop :=
  ∀ va ∈ s.pending, ∀ a ∈ s.funcs.keys, ¬(va < a ∧ a < va + s.funcs.get va)

/-- Between any two that are to be added there is a start that is known already, or more than
the cap. -/
def Apart (lifter : Lifter) (info : Info) (s : Rounds) : Prop :=
  ∀ va ∈ opened lifter info s, ∀ a ∈ opened lifter info s, va < a →
    (∃ k ∈ s.funcs.keys, va < k ∧ k ≤ a) ∨ va + 0x4000 ≤ a

variable (lifter : Lifter) (info : Info)

/-- The new functions are gone through in ascending order. -/
theorem closeRound_pending (s : Rounds) :
    (closeRound lifter info s).pending.Pairwise (· < ·) ∧
      ∀ a, a ∈ (closeRound lifter info s).pending ↔ a ∈ opened lifter info s :=
  ⟨(Finset.sortedLT_sort _).pairwise, fun _ => Finset.mem_sort _⟩

theorem closeRound_funcs (s : Rounds) : (closeRound lifter info s).funcs =
    addExtents info.codeEnd (closeRound lifter info s).pending s.funcs := rfl

theorem opened_inside {s : Rounds} {va : ℤ} (member : va ∈ opened lifter info s) :
    va < info.codeEnd := (Finset.mem_filter.mp member).2.2

theorem separate_iff (s : Rounds) :
    Separate (closeRound lifter info s) ↔ Apart lifter info s := by
  obtain ⟨sorted, mem⟩ := closeRound_pending lifter info s
  unfold Separate Apart
  rw [closeRound_funcs]
  refine forall_congr' fun va => ?_
  rw [mem]
  refine forall_congr' fun member => ?_
  rw [get_addExtents sorted ((mem va).mpr member)]
  constructor
  · intro free a there above
    have outside := free a (mem_keys_addExtents.mpr (Or.inl ((mem a).mpr there)))
    by_contra neither
    obtain ⟨between, near⟩ := not_or.mp neither
    refine outside ⟨above, (lt_extentToNext above).mpr ⟨?_, by omega, opened_inside _ _ there⟩⟩
    intro k known past
    by_contra below
    exact between ⟨k, known, past, Int.not_lt.mp below⟩
  · rintro apart a there ⟨above, within⟩
    obtain ⟨starts, cap, -⟩ := (lt_extentToNext above).mp within
    rcases mem_keys_addExtents.mp there with new | known
    · rcases apart a ((mem a).mp new) above with ⟨k, known, past, upTo⟩ | far
      · exact absurd (starts k known past) (Int.not_lt.mpr upTo)
      · omega
    · exact Int.lt_irrefl a (starts a known above)

/-- The states in which `closeRounds` begins a round. -/
def begun : Nat → Rounds → List Rounds
  | 0, _ => []
  | left + 1, s => if s.pending = [] then [] else s :: begun left (closeRound lifter info s)

/-- These are its rounds. -/
theorem closeRounds_begun (left : Nat) (s : Rounds) :
    closeRounds lifter info left s =
      (begun lifter info left s).foldl (fun t _ => closeRound lifter info t) s := by
  induction left generalizing s with
  | zero => rfl
  | succ left ih =>
    rw [closeRounds, begun]
    split
    · rfl
    · exact ih (closeRound lifter info s)

/-- In any state a round keeps its new functions apart just when they were; and so in every
round of a run, whatever it starts from. -/
theorem extents_separate_iff :
    (∀ s, Separate (closeRound lifter info s) ↔ Apart lifter info s) ∧
      ∀ left start,
        (∀ s ∈ begun lifter info left start, Separate (closeRound lifter info s)) ↔
          ∀ s ∈ begun lifter info left start, Apart lifter info s :=
  ⟨separate_iff lifter info, fun _ _ => forall₂_congr fun s _ => separate_iff lifter info s⟩

/-- Whatever is lifted goes to 0x1000 and to 0x1010, where nothing is known. -/
def neighbours : Lifter := fun _ _ =>
  .ok "dispatch(c, 0x00001000u); dispatch(c, 0x00001010u);".toList

def oneKnown : Rounds := ⟨⟨[], [], ∅, [], []⟩, [(0x4000, 0x10)], [0x4000], 0⟩

theorem pending_neighbours :
    (closeRound neighbours ⟨some 0x1000, 0x5000⟩ oneKnown).pending = [0x1000, 0x1010] := by
  have found : opened neighbours ⟨some 0x1000, 0x5000⟩ oneKnown = {0x1000, 0x1010} := by
    decide +kernel
  have two := Finset.sort_insert (· ≤ ·) (s := {0x1010}) (a := (0x1000 : ℤ)) (by decide) (by decide)
  have sorted : (closeRound neighbours ⟨some 0x1000, 0x5000⟩ oneKnown).pending =
      (opened neighbours ⟨some 0x1000, 0x5000⟩ oneKnown).sort := rfl
  rw [sorted, found, two, Finset.sort_singleton]

/-- The lower of the two is given everything up to the function at 0x4000. -/
theorem neighbour_swallowed :
    let t := closeRound neighbours ⟨some 0x1000, 0x5000⟩ oneKnown
    t.pending = [0x1000, 0x1010] ∧ t.funcs.get 0x1000 = 0x3000 ∧ ¬Separate t := by
  dsimp only
  unfold Separate
  rw [closeRound_funcs, pending_neighbours]
  decide +kernel

end Es3Recomp.Guarantees.Extents
