import Es3Recomp.Model.Sources

/-!
# The output directory after a recompile

A run clears the translation units of the one before it and writes its own, no two files
of one name. What is left of the directory is under other names.
-/
namespace Es3Recomp.Model.Outdir
open Library Model.Sources Source.Driver

/-! ## The order of the functions -/

theorem done_perm (bodies : Bodies) : bodies.done.Perm bodies.keys :=
  List.mergeSort_perm bodies.keys _

theorem mem_done {bodies : Bodies} {va : UInt32} : va ∈ bodies.done ↔ va ∈ bodies.keys :=
  (done_perm bodies).mem_iff

theorem done_nodup (bodies : Bodies) : bodies.done.Nodup :=
  (done_perm bodies).nodup_iff.mpr bodies.nodup

theorem done_ascending (bodies : Bodies) : bodies.done.Pairwise (· < ·) := by
  have sorted : bodies.done.Pairwise fun a b => decide (a ≤ b) = true := by
    refine List.pairwise_mergeSort ?_ ?_ bodies.keys
    · intro a b c first second
      rw [decide_eq_true_eq] at *
      exact UInt32.le_trans first second
    · intro a b
      rw [Bool.or_eq_true, decide_eq_true_eq, decide_eq_true_eq]
      exact UInt32.le_total a b
  refine List.Pairwise.imp₂ ?_ sorted (done_nodup bodies)
  intro a b below apart
  rw [decide_eq_true_eq] at below
  exact UInt32.lt_of_le_of_ne below apart

/-! ## The output directory -/

theorem dec4_digits (i : Nat) : ∃ digit rest, dec4 i = digit :: rest ∧ digit.isDigit := by
  have digits : ∀ c ∈ dec4 i, c.isDigit := by
    intro c member
    rcases List.mem_append.mp member with zero | digit
    · rw [List.eq_of_mem_replicate zero]
      rfl
    · exact Nat.isDigit_of_mem_toDigits (by decide) (by decide) digit
  have full : 0 < (dec4 i).length := by
    have some' : 0 < (Nat.toDigits 10 i).length := Nat.length_toDigits_pos
    rw [dec4, List.length_append]
    omega
  cases h : dec4 i with
  | nil =>
    rw [h] at full
    cases full
  | cons digit rest => exact ⟨digit, rest, rfl, digits digit (by rw [h]; exact List.mem_cons_self)⟩

theorem stale_unitName (i : Nat) : stale (unitName i) = true := by
  obtain ⟨digit, rest, number, isDigit⟩ := dec4_digits i
  have behind : (unitName i).drop 13 = digit :: (rest ++ ".c".toList) := by
    have length : "recomp_funcs_".toList.length = 13 := by decide
    unfold unitName
    rw [List.append_assoc, List.drop_left' length, number]
    rfl
  have before : "recomp_funcs_".toList.isPrefixOf (unitName i) = true := by
    unfold unitName
    rw [List.isPrefixOf_iff_prefix, List.append_assoc]
    exact List.prefix_append _ _
  have ending : ".c".toList.isSuffixOf (rest ++ ".c".toList) = true :=
    List.isSuffixOf_iff_suffix.mpr (List.suffix_append rest _)
  unfold stale
  rw [behind]
  simp only [before, isDigit, ending, Bool.and_self]

theorem unitName_injective : Function.Injective unitName := by
  intro i j same
  unfold unitName at same
  exact dec4_injective (List.append_cancel_left (List.append_cancel_right same))

/-- Files written one after another, no two of one name. -/
theorem writeFile_all {files : Directory} (apart : (files.map Prod.fst).Nodup) (dir : Directory) :
    files.foldl writeFile dir = dir.filter (fun f => f.1 ∉ files.map Prod.fst) ++ files := by
  induction files generalizing dir with
  | nil => simp
  | cons file files ih =>
    rw [List.map_cons, List.nodup_cons] at apart
    obtain ⟨new, apart⟩ := apart
    have kept : [file].filter (fun f => f.1 ∉ files.map Prod.fst) = [file] := by
      simpa using new
    rw [List.foldl_cons, ih apart, writeFile, List.filter_append, kept, List.filter_filter,
      List.append_assoc, List.singleton_append]
    congr 2
    funext f
    rw [Bool.eq_iff_iff, List.map_cons]
    simp [and_comm]

theorem lookup_of_mem {files : Directory} (apart : (files.map Prod.fst).Nodup) {name text : Text}
    (member : (name, text) ∈ files) : files.lookup name = some text := by
  obtain ⟨before, behind, rfl⟩ := List.append_of_mem member
  rw [List.map_append, List.map_cons, List.nodup_middle, List.nodup_cons] at apart
  refine List.lookup_eq_some_iff.mpr ⟨before, behind, rfl, fun f inside => ?_⟩
  rw [bne_iff_ne]
  rintro rfl
  exact apart.1 (List.mem_append_left _ (List.mem_map.mpr ⟨f, inside, rfl⟩))

section Written
variable (split splitLines : Int) (bodies : Bodies)

/-- All that is written, in order. -/
def written : Directory :=
  let out := recompile split splitLines bodies
  (declName, out.decl) :: (out.units ++ [(listName, out.list)])

theorem unit_names : (recompile split splitLines bodies).units.map Prod.fst =
    (List.range (recompile split splitLines bodies).units.length).map unitName := by
  apply List.ext_getElem
  · simp
  · intro i inside inside'
    simp [recompile]

theorem unit_stale {f : Text × Text} (member : f ∈ (recompile split splitLines bodies).units) :
    stale f.1 = true := by
  have name := List.mem_map_of_mem (f := Prod.fst) member
  rw [unit_names] at name
  obtain ⟨i, -, same⟩ := List.mem_map.mp name
  rw [← same]
  exact stale_unitName i

theorem written_apart : ((written split splitLines bodies).map Prod.fst).Nodup := by
  have unit : ∀ name, stale name = false →
      name ∉ (recompile split splitLines bodies).units.map Prod.fst := by
    intro name other member
    obtain ⟨f, inside, rfl⟩ := List.mem_map.mp member
    rw [unit_stale split splitLines bodies inside] at other
    cases other
  have differ : declName ≠ listName := by decide +kernel
  have units : ((recompile split splitLines bodies).units.map Prod.fst).Nodup := by
    rw [unit_names]
    exact List.nodup_range.map unitName_injective
  simp only [written, List.map_cons, List.map_append, List.map_nil]
  refine List.nodup_cons.mpr ⟨?_, List.nodup_append.mpr ⟨units, List.nodup_singleton _, ?_⟩⟩
  · intro member
    rcases List.mem_append.mp member with inside | last
    · exact unit declName (by decide +kernel) inside
    · exact differ (List.mem_singleton.mp last)
  · intro name inside name' last same
    rw [same, List.mem_singleton.mp last] at inside
    exact unit listName (by decide +kernel) inside

/-- What is in the directory afterwards: what was there under other names, and what was
written. -/
theorem fullRecompile_eq (outdir : Directory) : fullRecompile split splitLines bodies outdir =
    ((outdir.filter fun f => !stale f.1).filter fun f =>
      f.1 ∉ (written split splitLines bodies).map Prod.fst) ++ written split splitLines bodies :=
  writeFile_all (written_apart split splitLines bodies) _

/-- The units of this run are the only ones there. -/
theorem stale_fullRecompile (outdir : Directory) :
    (fullRecompile split splitLines bodies outdir).filter (fun f => stale f.1) =
      (recompile split splitLines bodies).units := by
  have old : ((outdir.filter fun f => !stale f.1).filter fun f =>
      f.1 ∉ (written split splitLines bodies).map Prod.fst).filter (fun f => stale f.1) = [] := by
    rw [List.filter_eq_nil_iff]
    intro f member
    have kept := (List.mem_filter.mp (List.mem_filter.mp member).1).2
    simpa using kept
  have units := List.filter_eq_self.mpr fun f member => unit_stale split splitLines bodies member
  have decl : stale declName = false := by decide +kernel
  have list : stale listName = false := by decide +kernel
  rw [fullRecompile_eq, List.filter_append, old, List.nil_append, written]
  simp only [List.filter_cons, List.filter_append, List.filter_nil, decl, list, units,
    Bool.false_eq_true, if_false, List.append_nil]

/-- A file that is written is found under its name. -/
theorem lookup_fullRecompile (outdir : Directory) {name text : Text}
    (member : (name, text) ∈ written split splitLines bodies) :
    (fullRecompile split splitLines bodies outdir).lookup name = some text := by
  have named := List.mem_map_of_mem (f := Prod.fst) member
  have old : ((outdir.filter fun f => !stale f.1).filter fun f =>
      f.1 ∉ (written split splitLines bodies).map Prod.fst).lookup name = none := by
    rw [List.lookup_eq_none_iff]
    intro f inside
    have other := of_decide_eq_true (List.mem_filter.mp inside).2
    rw [bne_iff_ne]
    rintro rfl
    exact other named
  rw [fullRecompile_eq, List.lookup_append, old, Option.none_or,
    lookup_of_mem (written_apart split splitLines bodies) member]

end Written
end Es3Recomp.Model.Outdir
