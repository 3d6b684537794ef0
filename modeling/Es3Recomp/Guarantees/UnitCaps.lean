import Es3Recomp.Library.Transducer
import Es3Recomp.Model.Sources

/-!
# How large a translation unit gets

`recompile` promises at most `split` functions and `split_lines` lines a file
(src/tools/recomp/driver.py:248-253). Its loop (376-390) adds a body first and looks at the
totals then: that is soon enough for the count of functions, which grows by one.
-/
namespace Es3Recomp.Guarantees.UnitCaps
open Library Source.Driver Model.Sources

/-- The lines that a body takes up in a file: its own, and the empty one behind it. -/
def linesOf (body : Text) : Nat := body.count '\n' + 2

def lineTotal : List Text → Nat
  | [] => 0
  | body :: group => linesOf body + lineTotal group

/-- Within the line cap, or one function that is longer by itself. -/
def Capped (splitLines : Int) (group : List Text) : Prop :=
  (lineTotal group : Int) ≤ splitLines ∨ ∃ body, group = [body] ∧ splitLines < linesOf body

/-- The body fits the file that is being filled, if anything is in it. -/
def Fits (splitLines : Int) (k : Chunking) (body : Text) : Prop :=
  0 < k.curFuncs → k.curLines + linesOf body ≤ splitLines

/-- The loop over the bodies. -/
def filler (split splitLines : Int) : Transducer Chunking Text Empty :=
  ⟨fun k body => (addBody split splitLines k body, [])⟩

def filling : Chunking := ⟨[], header, 0, 0⟩

theorem lineTotal_append (group more : List Text) :
    lineTotal (group ++ more) = lineTotal group + lineTotal more := by
  induction group with
  | nil => exact (Nat.zero_add _).symm
  | cons body group ih => rw [List.cons_append, lineTotal, lineTotal, ih, Nat.add_assoc]

theorem run_filler (split splitLines : Int) (k : Chunking) (texts : List Text) :
    ((filler split splitLines).run k texts).1 = texts.foldl (addBody split splitLines) k := by
  induction texts generalizing k with
  | nil => rfl
  | cons body texts ih => exact ih (addBody split splitLines k body)

/-- The loop after some bodies: the groups it has closed and the one it is filling, which is
still below both caps. -/
structure Filling (split splitLines : Int) (k : Chunking) (groups : List (List Text))
    (g : List Text) : Prop where
  chunks : k.chunks = groups.map unitLines
  cur : k.cur = unitLines g
  curFuncs : k.curFuncs = g.length
  curLines : k.curLines = lineTotal g
  closed : ∀ group ∈ groups, group ≠ [] ∧ (group.length : Int) ≤ split
  below : (g.length : Int) < split ∧ (lineTotal g : Int) < splitLines

theorem unitLines_concat (g : List Text) (body : Text) :
    unitLines g ++ [body, []] = unitLines (g ++ [body]) := by
  rw [unitLines, unitLines, bodyLines, bodyLines, List.flatMap_append, List.append_assoc]
  rfl

/-- A group that the body closes is within the cap just when the body fitted. -/
theorem capped_concat {splitLines : Int} {k : Chunking} {g : List Text}
    (curFuncs : k.curFuncs = g.length) (curLines : k.curLines = lineTotal g) (body : Text) :
    Capped splitLines (g ++ [body]) ↔ Fits splitLines k body := by
  have total : lineTotal (g ++ [body]) = lineTotal g + linesOf body := by
    rw [lineTotal_append]
    rfl
  unfold Capped Fits
  rw [total, curFuncs, curLines]
  cases g with
  | nil =>
    have alone : ∀ b, [] ++ [body] = [b] ↔ body = b := by simp
    simp only [alone, lineTotal, List.length_nil]
    constructor
    · intro _ more
      omega
    · intro _
      by_cases long : splitLines < linesOf body
      · exact Or.inr ⟨body, rfl, long⟩
      · exact Or.inl (by omega)
  | cons first g =>
    have two : ∀ b, first :: g ++ [body] ≠ [b] := by simp
    simp only [two, false_and, exists_false, or_false, List.length_cons]
    constructor
    · intro within _
      omega
    · intro fits
      have within := fits (by omega)
      omega

/-- One turn of the loop: the body is put into the open group, and that may close it. -/
theorem addBody_filling {split splitLines : Int} {k : Chunking} {groups : List (List Text)}
    {g : List Text} (positive : 0 < split ∧ 0 < splitLines)
    (filling : Filling split splitLines k groups g) (body : Text) :
    ∃ groups' g', Filling split splitLines (addBody split splitLines k body) groups' g' ∧
      groups'.flatten ++ g' = groups.flatten ++ g ++ [body] ∧
      ((∀ group ∈ groups', Capped splitLines group) ↔
        (∀ group ∈ groups, Capped splitLines group) ∧ Fits splitLines k body) := by
  have grown : k.cur ++ [body, []] = unitLines (g ++ [body]) := by
    rw [filling.cur, unitLines_concat]
  have total : lineTotal (g ++ [body]) = lineTotal g + linesOf body := by
    rw [lineTotal_append]
    rfl
  have count : (g ++ [body]).length = g.length + 1 := List.length_append
  have room := filling.below
  have capped : Capped splitLines (g ++ [body]) ↔ Fits splitLines k body :=
    capped_concat filling.curFuncs filling.curLines body
  have lines : k.curLines + (body.count '\n' : Int) + 2 = lineTotal (g ++ [body]) := by
    rw [total, filling.curLines, linesOf]
    omega
  have funcs : k.curFuncs + 1 = ((g ++ [body]).length : Int) := by
    rw [filling.curFuncs, count]
    rfl
  unfold addBody
  dsimp only
  rw [lines, funcs, grown]
  split
  · refine ⟨groups ++ [g ++ [body]], [], ⟨?_, (List.append_nil _).symm, rfl, rfl, ?_, positive⟩,
      ?_, ?_⟩
    · rw [filling.chunks, List.map_append]
      rfl
    · rw [forall_mem_concat, count]
      exact ⟨filling.closed, List.concat_ne_nil body g, by omega⟩
    · simp
    · rw [forall_mem_concat, capped]
  · refine ⟨groups, g ++ [body], ⟨filling.chunks, rfl, rfl, rfl, filling.closed, by omega⟩,
      (List.append_assoc _ _ _).symm, ?_⟩
    have within : Capped splitLines (g ++ [body]) := Or.inl (by omega)
    exact (and_iff_left (capped.mp within)).symm

theorem run_filling {split splitLines : Int} (positive : 0 < split ∧ 0 < splitLines)
    (texts : List Text) :
    ∃ groups g, Filling split splitLines (texts.foldl (addBody split splitLines) filling) groups g ∧
      groups.flatten ++ g = texts ∧
      ((∀ group ∈ groups, Capped splitLines group) ↔
        (filler split splitLines).Along (Fits splitLines) filling texts) := by
  induction texts using List.reverseRecOn with
  | nil =>
    refine ⟨[], [], ⟨rfl, (List.append_nil _).symm, rfl, rfl, ?_, positive⟩, rfl, ?_⟩
    · exact fun group member => absurd member List.not_mem_nil
    · exact iff_of_true (fun group member => absurd member List.not_mem_nil) trivial
  | append_singleton texts body ih =>
    obtain ⟨groups, g, filled, all, capped⟩ := ih
    obtain ⟨groups', g', filled', all', capped'⟩ := addBody_filling positive filled body
    refine ⟨groups', g', ?_, by rw [all', all], ?_⟩
    · rwa [List.foldl_append]
    · rw [capped', capped, Transducer.along_append, run_filler]
      exact and_congr_right fun _ => (and_iff_left trivial).symm

/-! ## The files -/

/-- The lines that texts take up, one below the other. -/
def linesBelow : List Text → Nat
  | [] => 0
  | text :: texts => text.count '\n' + 1 + linesBelow texts

theorem linesBelow_append (texts more : List Text) :
    linesBelow (texts ++ more) = linesBelow texts + linesBelow more := by
  induction texts with
  | nil => exact (Nat.zero_add _).symm
  | cons text texts ih =>
    rw [List.cons_append, linesBelow, linesBelow, ih]
    omega

theorem linesBelow_bodyLines (group : List Text) :
    linesBelow (bodyLines group) = lineTotal group := by
  induction group with
  | nil => rfl
  | cons body group ih =>
    have pair : bodyLines (body :: group) = [body, []] ++ bodyLines group := rfl
    rw [pair, linesBelow_append, ih]
    rfl

theorem count_join (text : Text) (texts : List Text) :
    ("\n".toList.intercalate (text :: texts)).count '\n' + 1 = linesBelow (text :: texts) := by
  induction texts generalizing text with
  | nil => rw [join_one, linesBelow, linesBelow, Nat.add_zero]
  | cons next texts ih =>
    have newline : "\n".toList.count '\n' = 1 := by decide
    rw [join_cons, List.count_append, List.count_append, newline, linesBelow, ← ih next]
    omega

/-- A file is the four lines of the header and those of its bodies. -/
theorem count_unitText (group : List Text) :
    (unitText (unitLines group)).count '\n' + 1 = 4 + lineTotal group := by
  have top : linesBelow header = 4 := by decide +kernel
  rw [← linesBelow_bodyLines, ← top, ← linesBelow_append]
  exact count_join _ _

/-- The groups of functions that the files hold. -/
structure Grouped (split splitLines : Int) (texts : List Text) (groups : List (List Text)) :
    Prop where
  files : chunksOf split splitLines texts = groups.map unitLines
  whole : groups.flatten = texts
  lines : ∀ group ∈ groups, (unitText (unitLines group)).count '\n' + 1 = 4 + lineTotal group
  some : ∀ group ∈ groups, group ≠ []
  funcs : ∀ group ∈ groups, (group.length : Int) ≤ split

/-- The function cap holds in any case, and no file is empty; the line cap holds of every file
just when every body fits the file it comes to. -/
theorem caps_kept_iff (split splitLines : Int) (funcs : 0 < split) (lines : 0 < splitLines)
    (texts : List Text) :
    ∃ groups, Grouped split splitLines texts groups ∧
      ((∀ group ∈ groups, Capped splitLines group) ↔
        (filler split splitLines).Along (Fits splitLines) filling texts) := by
  obtain ⟨groups, g, filled, all, capped⟩ := run_filling ⟨funcs, lines⟩ texts
  have opened : header.length < (unitLines g).length ↔ g ≠ [] := by
    rw [unitLines, List.length_append, bodyLines]
    cases g <;> simp
  have files : chunksOf split splitLines texts =
      if g ≠ [] then groups.map unitLines ++ [unitLines g] else groups.map unitLines := by
    have same : (texts.foldl (addBody split splitLines) ⟨[], header, 0, 0⟩) =
      texts.foldl (addBody split splitLines) filling := rfl
    unfold chunksOf
    dsimp only
    rw [same, filled.chunks, filled.cur]
    exact if_congr opened rfl rfl
  by_cases none : g = []
  · refine ⟨groups, ⟨?_, ?_, fun group _ => count_unitText group,
      fun group member => (filled.closed group member).1,
      fun group member => (filled.closed group member).2⟩, capped⟩
    · rw [files, if_neg (not_not.mpr none)]
    · rwa [none, List.append_nil] at all
  · have last : Capped splitLines g := Or.inl (Int.le_of_lt filled.below.2)
    refine ⟨groups ++ [g], ⟨?_, ?_, fun group _ => count_unitText group, ?_, ?_⟩, ?_⟩
    · rw [files, if_pos none, List.map_append]
      rfl
    · rw [← all]
      simp
    · rw [forall_mem_concat]
      exact ⟨fun group member => (filled.closed group member).1, none⟩
    · rw [forall_mem_concat]
      exact ⟨fun group member => (filled.closed group member).2, Int.le_of_lt filled.below.1⟩
    · rw [forall_mem_concat, and_iff_left last, capped]

/-- Two bodies of two lines under a cap of five: six lines and one file. -/
def twoLines : Text := "a\nb".toList

theorem second_body_over :
    chunksOf 400 5 [twoLines, twoLines] = [unitLines [twoLines, twoLines]] ∧
      ¬Capped 5 [twoLines, twoLines] := by
  refine ⟨by decide +kernel, ?_⟩
  unfold Capped
  simp [lineTotal, linesOf, twoLines]

/-- Under a cap of six both fit. -/
theorem caps_kept_two : (0 : Int) < 400 ∧ (0 : Int) < 6 ∧
    ∃ groups, Grouped 400 6 [twoLines, twoLines] groups ∧
      ((∀ group ∈ groups, Capped 6 group) ↔
        (filler 400 6).Along (Fits 6) filling [twoLines, twoLines]) :=
  ⟨by decide, by decide, caps_kept_iff 400 6 (by decide) (by decide) _⟩

end Es3Recomp.Guarantees.UnitCaps
