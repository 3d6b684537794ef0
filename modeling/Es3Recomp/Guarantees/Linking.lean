import Es3Recomp.Model.Outdir

/-!
# The generated sources link

Whatever was lifted, and wherever its calls go, the files of a full recompile agree: a
direct call has its declaration, its row in the lifted table and its definition, and what
is left to `dispatch` has no body to be called directly.
-/
namespace Es3Recomp.Guarantees.Linking
open Library Pattern Source.Driver Model.Sources Model.Outdir

/-- What the lifter is relied on for: the text for an address defines the function of that
address and no other, and calls none directly. -/
structure Lifted (bodies : Bodies) : Prop where
  defines : ∀ va ∈ bodies.keys, defined (bodies.body va) = [hex8 va]
  plain : ∀ va ∈ bodies.keys, hits dcallPattern (bodies.body va) = []

/-- The translation units of a directory, in the order of their numbers. -/
def unitsOf (files : Directory) : List Text :=
  (files.filter fun f => stale f.1).map Prod.snd

def fileOf (name : Text) (files : Directory) : Text := (files.lookup name).getD []

/-- The files of a directory make one program of these bodies. -/
structure Linked (bodies : Bodies) (files : Directory) : Prop where
  /-- A direct call names a function that is declared, listed and defined, in one unit and
  there once. -/
  calls : ∀ unit ∈ unitsOf files, ∀ call ∈ hits dcallPattern unit, ∃ va ∈ bodies.keys,
    call = dcallText va ∧ hex8 va ∈ declared (fileOf declName files) ∧
      hex8 va ∈ listed (fileOf listName files) ∧
      (unitsOf files).countP (fun u => hex8 va ∈ defined u) = 1 ∧
      ((unitsOf files).flatMap defined).count (hex8 va) = 1
  /-- Declarations, table and definitions are those of the bodies, in one order. -/
  tables : declared (fileOf declName files) = bodies.done.map hex8 ∧
    listed (fileOf listName files) = bodies.done.map hex8 ∧
    (unitsOf files).flatMap defined = bodies.done.map hex8
  /-- That order has every body once, by address. -/
  order : bodies.done.Perm bodies.keys ∧ bodies.done.Pairwise (· < ·)
  /-- The units hold the bodies, rewritten, in that order and nothing else. -/
  whole : ∃ groups : List (List Text), groups.flatten = bodies.done.map (rewritten bodies) ∧
    (∀ group ∈ groups, group ≠ []) ∧
    unitsOf files = groups.map fun group => unitText (unitLines group)
  /-- What is left to `dispatch` has no body. -/
  closed : ∀ unit ∈ unitsOf files, ∀ call ∈ hits dispatchPattern unit, target call ∉ bodies.keys

section Recompile
variable (split splitLines : Int) (bodies : Bodies) (outdir : Directory)

theorem unitsOf_fullRecompile : unitsOf (fullRecompile split splitLines bodies outdir) =
    (chunksOf split splitLines (bodies.done.map (rewritten bodies))).map unitText := by
  rw [unitsOf, stale_fullRecompile]
  apply List.ext_getElem
  · simp [recompile]
  · intro i inside inside'
    simp [recompile]

theorem fileOf_decl :
    fileOf declName (fullRecompile split splitLines bodies outdir) = declHeader bodies.done := by
  have member : (declName, declHeader bodies.done) ∈ written split splitLines bodies :=
    List.mem_cons_self
  rw [fileOf, lookup_fullRecompile split splitLines bodies outdir member]
  rfl

theorem fileOf_list :
    fileOf listName (fullRecompile split splitLines bodies outdir) = funcsList bodies.done := by
  have member : (listName, funcsList bodies.done) ∈ written split splitLines bodies :=
    List.mem_cons_of_mem _ (List.mem_append_right _ (List.mem_singleton.mpr rfl))
  rw [fileOf, lookup_fullRecompile split splitLines bodies outdir member]
  rfl

end Recompile

section Groups
variable {bodies : Bodies} {groups : List (List Text)}
  (all : groups.flatten = bodies.done.map (rewritten bodies))
  (full : ∀ group ∈ groups, group ≠ [])
include all full

/-- What is met in a unit is met in a rewritten body. -/
theorem met_in_body {p : Pattern} (inLine : InLine p) {unit m : Text}
    (member : unit ∈ groups.map fun group => unitText (unitLines group)) (met : m ∈ hits p unit) :
    ∃ va ∈ bodies.keys, m ∈ hits p (rewritten bodies va) := by
  obtain ⟨group, inside, rfl⟩ := List.mem_map.mp member
  rw [hits_unit inLine (full group inside)] at met
  obtain ⟨body, one, here⟩ := List.mem_flatMap.mp met
  have body' := List.mem_flatten.mpr ⟨group, inside, one⟩
  rw [all] at body'
  obtain ⟨va, done, rfl⟩ := List.mem_map.mp body'
  exact ⟨va, mem_done.mp done, here⟩

/-- The definitions of all units are those of the bodies. -/
theorem defined_units (lifted : Lifted bodies) :
    (groups.map fun group => unitText (unitLines group)).flatMap defined = bodies.done.map hex8 := by
  have unit : ∀ group ∈ groups, defined (unitText (unitLines group)) = group.flatMap defined := by
    intro group inside
    rw [defined, hits_unit def_inLine (full group inside), List.map_flatMap]
    rfl
  have one : ∀ va ∈ bodies.done, defined (rewritten bodies va) = [hex8 va] := fun va done => by
    rw [defined_rewritten, lifted.defines va (mem_done.mp done)]
  calc (groups.map fun group => unitText (unitLines group)).flatMap defined
      = groups.flatMap fun group => group.flatMap defined := by
        rw [List.flatMap_map]
        exact List.flatMap_congr unit
    _ = groups.flatten.flatMap defined := by
        rw [List.flatten_eq_flatMap, List.flatMap_assoc]
        rfl
    _ = bodies.done.flatMap fun va => defined (rewritten bodies va) := by
        rw [all, List.flatMap_map]
    _ = bodies.done.flatMap fun va => [hex8 va] := List.flatMap_congr one
    _ = bodies.done.map hex8 := by rw [List.map_eq_flatMap]

end Groups

/-- What occurs once in the lists taken together is in one of them. -/
theorem countP_of_count_flatMap {α β : Type} [BEq β] [LawfulBEq β] {f : α → List β} {b : β}
    {l : List α} (once : (l.flatMap f).count b = 1) : l.countP (fun a => b ∈ f a) = 1 := by
  induction l with
  | nil => cases once
  | cons a l ih =>
    rw [List.flatMap_cons, List.count_append] at once
    by_cases here : b ∈ f a
    · have positive := List.count_pos_iff.mpr here
      have others : b ∉ l.flatMap f := List.count_eq_zero.mp (by omega)
      have none : l.countP (fun a => b ∈ f a) = 0 := by
        rw [List.countP_eq_zero]
        intro a' member occurs
        exact others (List.mem_flatMap.mpr ⟨a', member, of_decide_eq_true occurs⟩)
      rw [List.countP_cons_of_pos (p := fun a => b ∈ f a) (decide_eq_true here), none]
    · rw [List.count_eq_zero.mpr here, Nat.zero_add] at once
      rw [List.countP_cons_of_neg (p := fun a => b ∈ f a) (by simpa using here), ih once]

/-- The files of a full recompile make one program of the lifted bodies, whatever the limits
on a unit and whatever was in the directory before. -/
theorem full_recompile_links (split splitLines : Int) (bodies : Bodies) (lifted : Lifted bodies)
    (outdir : Directory) : Linked bodies (fullRecompile split splitLines bodies outdir) := by
  obtain ⟨groups, all, full, chunks⟩ :=
    chunksOf_groups split splitLines (bodies.done.map (rewritten bodies))
  have units : unitsOf (fullRecompile split splitLines bodies outdir) =
      groups.map fun group => unitText (unitLines group) := by
    rw [unitsOf_fullRecompile, chunks, List.map_map]
    rfl
  have decl := declared_declHeader bodies.done
  have list := listed_funcsList bodies.done
  rw [← fileOf_decl split splitLines bodies outdir] at decl
  rw [← fileOf_list split splitLines bodies outdir] at list
  have definitions := defined_units all full lifted
  rw [← units] at definitions
  constructor
  case order => exact ⟨done_perm bodies, done_ascending bodies⟩
  case whole => exact ⟨groups, all, full, units⟩
  case tables => exact ⟨decl, list, definitions⟩
  case closed =>
    intro unit member call met
    rw [units] at member
    obtain ⟨va, -, here⟩ := met_in_body all full dispatch_inLine member met
    exact dispatch_rewritten bodies va call here
  case calls =>
    intro unit member call met
    rw [units] at member
    obtain ⟨va, known, here⟩ := met_in_body all full dcall_inLine member met
    obtain ⟨va', known', text⟩ := dcall_rewritten bodies va (lifted.plain va known) call here
    have row : hex8 va' ∈ bodies.done.map hex8 := List.mem_map_of_mem (mem_done.mpr known')
    have once : (bodies.done.map hex8).count (hex8 va') = 1 :=
      List.count_eq_one_of_mem ((done_nodup bodies).map hex8_injective) row
    rw [← definitions] at once
    refine ⟨va', known', text, ?_, ?_, countP_of_count_flatMap once, once⟩
    · rw [decl]
      exact row
    · rw [list]
      exact row

/-- Two functions, the first of which calls the second, itself and an address that was not
lifted. -/
def board : Bodies where
  items :=
    [(0x402000, ("void L_00402000(CPU *c)\n" ++ "\x7b\n    c->eax = 0;\n\x7d").toList),
     (0x401000, ("void L_00401000(CPU *c)\n" ++ "\x7b\n    dispatch(c, 0x00402000u);\n" ++
       "    dispatch(c, 0x00401000u);\n    dispatch(c, 0x00500000u);\n\x7d").toList)]
  nodup := by decide

theorem board_links :
    Linked board (fullRecompile 1 0 board [("recomp_funcs_0007.c".toList, board.body 0x402000)]) := by
  have every : ∀ p : UInt32 → Prop, p 0x402000 → p 0x401000 → ∀ va ∈ board.keys, p va :=
    fun p second first => List.forall_mem_cons.mpr ⟨second, List.forall_mem_singleton.mpr first⟩
  refine full_recompile_links 1 0 board ⟨every _ ?_ ?_, every _ ?_ ?_⟩ _
  all_goals decide +kernel

end Es3Recomp.Guarantees.Linking
