import Es3Recomp.Source.Binding

/-!
# Which ids a binding reaches

Two imports are one id when the driver finds them equal (src/tools/recomp/driver.py:469), and
a binding names them when the runtime finds the DLL equal but for case
(src/src/runtime/hle.c:51-60). An image that spells one DLL in two ways has two ids that one
call names. `hle_bind` goes on after the first, and says why (64-67); `hle_bind_dll` returns
(80-84).
-/
namespace Es3Recomp.Guarantees.Binding
open Source.Imports Source.Binding

variable {F : Type}

/-- What a row of the table is the row of. -/
def importOf (row : ImportRow) : Import := ⟨row.dll, row.name⟩

/-- The function has that name, and the DLL that name but for case. -/
def Named (i : Import) (dll name : String) : Prop :=
  i.name = name ∧ i.dll.toList.map Char.toLower = dll.toList.map Char.toLower

/-- The named ids have the handler, and the others are as before. -/
structure Bound (h : Headers) (before after : Handlers F) (dll name : String) (fn : F) : Prop where
  covers : ∀ i row, h.imports[i]? = some row → Named (importOf row) dll name → after i = fn
  rest : ∀ i, (∀ row, h.imports[i]? = some row → ¬ Named (importOf row) dll name) →
    after i = before i

/-- Every id that is named after another one has the handler already. -/
def Already (h : Headers) (before : Handlers F) (dll name : String) (fn : F) : Prop :=
  ∀ i j row row', i < j → h.imports[i]? = some row → Named (importOf row) dll name →
    h.imports[j]? = some row' → Named (importOf row') dll name → before j = fn

/-! ## Names but for case -/

theorem lowered_eq (a : Char) : lowered a = a.toLower.toNat := by
  rw [lowered]
  by_cases letter : 'A' ≤ a ∧ a ≤ 'Z'
  · have letter' : a.val ≥ 'A'.val ∧ a.val ≤ 'Z'.val := letter
    have last : a.val.toNat ≤ 90 := UInt32.le_iff_toNat_le.mp letter.2
    have lower : a.toLower.val = a.val + ('a'.val - 'A'.val) :=
      congrArg Char.val (dif_pos letter')
    rw [if_pos letter]
    change a.val.toNat + 32 = a.toLower.val.toNat
    rw [lower, UInt32.toNat_add]
    change a.val.toNat + 32 = (a.val.toNat + 32) % 2 ^ 32
    omega
  · have letter' : ¬ (a.val ≥ 'A'.val ∧ a.val ≤ 'Z'.val) := letter
    have lower : a.toLower = a := dif_neg letter'
    rw [if_neg letter, lower]

theorem lowered_inj (a b : Char) : lowered a = lowered b ↔ a.toLower = b.toLower := by
  rw [lowered_eq, lowered_eq, Char.toNat_inj]

theorem dllEq_iff (a b : List Char) :
    dllEq a b = true ↔ a.map Char.toLower = b.map Char.toLower := by
  induction a generalizing b with
  | nil => cases b <;> simp [dllEq]
  | cons x xs ih =>
    cases b with
    | nil => simp [dllEq]
    | cons y ys =>
      rw [dllEq, List.map_cons, List.map_cons, List.cons.injEq, ← lowered_inj, ← ih ys]
      by_cases same : lowered x = lowered y
      · rw [if_neg (not_not.mpr same), and_iff_right same]
      · rw [if_pos same]
        simp [same]

theorem named_iff (row : ImportRow) (dll name : String) :
    (row.name = name ∧ dllEq row.dll.toList dll.toList) ↔ Named (importOf row) dll name :=
  and_congr_right fun _ => dllEq_iff _ _

/-! ## The first named id -/

/-- The id that the loop of `hle_bind_dll` stops at. -/
structure First (rows : List ImportRow) (dll name : String) (k : Nat) : Prop where
  named : ∃ row, rows[k]? = some row ∧ Named (importOf row) dll name
  none_before : ∀ k' row, k' < k → rows[k']? = some row → ¬ Named (importOf row) dll name

theorem First.succ {rows : List ImportRow} {dll name : String} {k : Nat}
    (first : First rows dll name k) {row : ImportRow} (other : ¬ Named (importOf row) dll name) :
    First (row :: rows) dll name (k + 1) where
  named := first.named
  none_before
    | 0, _, _, here => by
      cases here
      exact other
    | k' + 1, row', before, here =>
      first.none_before k' row' (Nat.lt_of_succ_lt_succ before) here

/-- The loop sets the handler of the first named id, if there is one, and no other. -/
theorem hleBindDllFrom_eq (dll name : String) (fn : F) (rows : List ImportRow) (i : Nat)
    (g : Handlers F) :
    (∃ k, First rows dll name k ∧
        hleBindDllFrom dll name fn i rows g = (Function.update g (i + k) fn, 1)) ∨
      ((∀ row ∈ rows, ¬ Named (importOf row) dll name) ∧
        hleBindDllFrom dll name fn i rows g = (g, 0)) := by
  induction rows generalizing i with
  | nil => exact .inr ⟨fun _ member => absurd member List.not_mem_nil, rfl⟩
  | cons row rows ih =>
    rw [hleBindDllFrom]
    by_cases here : row.name = name ∧ dllEq row.dll.toList dll.toList
    · rw [if_pos here]
      exact .inl ⟨0, ⟨⟨row, rfl, (named_iff row dll name).mp here⟩,
        fun _ _ before => absurd before (Nat.not_lt_zero _)⟩, rfl⟩
    · have other : ¬ Named (importOf row) dll name := mt (named_iff row dll name).mpr here
      rw [if_neg here]
      rcases ih (i + 1) with ⟨k, first, result⟩ | ⟨unnamed, result⟩
      · refine .inl ⟨k + 1, first.succ other, ?_⟩
        rw [result, Nat.add_assoc, Nat.add_comm 1 k]
      · exact .inr ⟨List.forall_mem_cons.mpr ⟨other, unnamed⟩, result⟩

/-! ## What a call has bound -/

theorem bound_iff (h : Headers) (before : Handlers F) (dll name : String) (fn : F) :
    Bound h before (hleBindDll h before dll name fn).1 dll name fn ↔
      Already h before dll name fn := by
  rcases hleBindDllFrom_eq dll name fn h.imports 0 before with
    ⟨k, first, result⟩ | ⟨unnamed, result⟩
  · obtain ⟨row, at_k, named⟩ := first.named
    have after : (hleBindDll h before dll name fn).1 = Function.update before k fn := by
      rw [hleBindDll, result, Nat.zero_add]
    rw [after]
    constructor
    · intro bound i j row' row'' less at_i named' at_j named''
      have behind : k < j := Nat.lt_of_le_of_lt
        (Nat.le_of_not_lt fun earlier => first.none_before i row' earlier at_i named') less
      have covered := bound.covers j row'' at_j named''
      rwa [Function.update_of_ne (Nat.ne_of_gt behind)] at covered
    · intro already
      refine ⟨fun i row' at_i named' => ?_, fun i unnamed => ?_⟩
      · rcases Nat.lt_trichotomy i k with earlier | rfl | later
        · exact absurd named' (first.none_before i row' earlier at_i)
        · exact Function.update_self ..
        · rw [Function.update_of_ne (Nat.ne_of_gt later)]
          exact already k i row row' later at_k named at_i named'
      · have apart : i ≠ k := by
          rintro rfl
          exact unnamed row at_k named
        exact Function.update_of_ne apart ..
  · have after : (hleBindDll h before dll name fn).1 = before := by
      rw [hleBindDll, result]
    rw [after]
    have absent (i : Nat) (row : ImportRow) (at_i : h.imports[i]? = some row)
        (named : Named (importOf row) dll name) : False :=
      unnamed row (List.mem_of_getElem? at_i) named
    exact ⟨fun _ i _ row _ _ at_i named _ _ => (absent i row at_i named).elim,
      fun _ => ⟨fun i row at_i named => (absent i row at_i named).elim, fun _ _ => rfl⟩⟩

/-! ## The sibling -/

theorem hleBindFrom_before (name : String) (fn : F) (rows : List ImportRow) {i id : Nat}
    (earlier : id < i) (s : Handlers F × Nat) : (hleBindFrom name fn i rows s).1 id = s.1 id := by
  induction rows generalizing i s with
  | nil => rfl
  | cons row rows ih =>
    rw [hleBindFrom]
    split
    · rw [ih (Nat.lt_succ_of_lt earlier)]
      exact Function.update_of_ne (Nat.ne_of_lt earlier) ..
    · exact ih (Nat.lt_succ_of_lt earlier) s

/-- `hle_bind` goes on to the end of the table. -/
theorem hleBindFrom_at (name : String) (fn : F) (rows : List ImportRow) (i : Nat)
    (s : Handlers F × Nat) {k : Nat} {row : ImportRow} (at_k : rows[k]? = some row) :
    (hleBindFrom name fn i rows s).1 (i + k) = if row.name = name then fn else s.1 (i + k) := by
  induction rows generalizing i s k with
  | nil => exact absurd at_k (by simp)
  | cons first rows ih =>
    rw [hleBindFrom]
    cases k with
    | zero =>
      cases at_k
      split
      · exact (hleBindFrom_before _ _ _ (Nat.lt_succ_self i) _).trans (Function.update_self ..)
      · exact hleBindFrom_before _ _ _ (Nat.lt_succ_self i) s
    | succ k =>
      have later : i + 1 + k = i + (k + 1) := by omega
      have apart : i + (k + 1) ≠ i := by omega
      rw [List.getElem?_cons_succ] at at_k
      split
      · have kept : Function.update s.1 i fn (i + (k + 1)) = s.1 (i + (k + 1)) :=
          Function.update_of_ne apart ..
        rw [← later, ih (i + 1) _ at_k, later]
        change (if _ then fn else Function.update s.1 i fn (i + (k + 1))) = _
        rw [kept]
      · rw [← later, ih (i + 1) s at_k, later]

/-- A binding by the name alone reaches every id of that name. -/
theorem hleBind_all (h : Headers) (g : Handlers F) (name : String) (fn : F) {i : Nat}
    {row : ImportRow} (at_i : h.imports[i]? = some row) :
    (hleBind h g name fn).1 i = if row.name = name then fn else g i := by
  have at_end := hleBindFrom_at name fn h.imports 0 (g, 0) at_i
  rwa [Nat.zero_add] at at_end

/-! ## The ids of an image -/

section Image
variable (isalnum : Char → Bool) (iat : IatMap) (purge : List (Import × Int))

theorem exists_id {imp : Import} (member : imp ∈ iat.values) :
    ∃ (i : Nat) (row : ImportRow), (importPairs iat)[i]? = some imp ∧
      (emitHeaders isalnum iat purge).imports[i]? = some row ∧ importOf row = imp := by
  obtain ⟨i, at_i⟩ := List.mem_iff_getElem?.mp (mem_importPairs_iff.mpr member)
  have row := getElem?_imports isalnum iat purge i
  rw [at_i, Option.map_some] at row
  exact ⟨i, _, at_i, row, rfl⟩

/-- Where the image has one spelling of what the call names, one id is bound and that is all
there is to bind. -/
theorem bound_of_one_spelling (before : Handlers F) (dll name : String) (fn : F)
    (one : ∀ a ∈ iat.values, ∀ b ∈ iat.values, Named a dll name → Named b dll name →
      a = b) :
    let h := emitHeaders isalnum iat purge
    Bound h before (hleBindDll h before dll name fn).1 dll name fn := by
  intro h
  refine (bound_iff h before dll name fn).mpr fun i j row row' less at_i named at_j named' => ?_
  have found {k : Nat} {r : ImportRow} (at_k : h.imports[k]? = some r) :
      (importPairs iat)[k]? = some (importOf r) := by
    rw [getElem?_imports, Option.map_eq_some_iff] at at_k
    obtain ⟨imp, at_k, rfl⟩ := at_k
    exact at_k
  have member {k : Nat} {imp : Import} (at_k : (importPairs iat)[k]? = some imp) :
      imp ∈ iat.values := mem_importPairs_iff.mp (List.mem_of_getElem? at_k)
  have same : importOf row = importOf row' :=
    one _ (member (found at_i)) _ (member (found at_j)) named named'
  have distinct : (importPairs iat).Nodup := Finset.sort_nodup _ _
  have inside : i < (importPairs iat).length := (List.getElem?_eq_some_iff.mp (found at_i)).1
  have index : i = j :=
    (List.getElem?_inj inside distinct).mp (by rw [found at_i, found at_j, same])
  exact absurd index (Nat.ne_of_lt less)

/-- Two spellings are two ids, and a call that is to bind them both leaves one out. -/
theorem lost_of_two_spellings (before : Handlers F) (dll name : String) (fn : F) {a b : Import}
    (memA : a ∈ iat.values) (memB : b ∈ iat.values) (apart : a ≠ b)
    (namedA : Named a dll name) (namedB : Named b dll name)
    (unset : ∀ i, before i ≠ fn) :
    let h := emitHeaders isalnum iat purge
    ¬ Bound h before (hleBindDll h before dll name fn).1 dll name fn := by
  intro h bound
  have already := (bound_iff h before dll name fn).mp bound
  obtain ⟨i, row, at_a, at_i, rfl⟩ := exists_id isalnum iat purge memA
  obtain ⟨j, row', at_b, at_j, rfl⟩ := exists_id isalnum iat purge memB
  rcases Nat.lt_trichotomy i j with less | rfl | less
  · exact unset j (already i j row row' less at_i namedA at_j namedB)
  · exact apart (Option.some.inj (at_a.symm.trans at_b))
  · exact unset i (already j i row' row less at_j namedB at_i namedA)

/-- A call of `hle_bind_dll` binds what it names, and nothing else, just when all that it names
after the first is bound already. -/
theorem hle_bind_dll_iff (before : Handlers F) (dll name : String) (fn : F) :
    let h := emitHeaders isalnum iat purge
    Bound h before (hleBindDll h before dll name fn).1 dll name fn ↔
      Already h before dll name fn :=
  bound_iff _ before dll name fn

end Image

/-- One function of one library, in two slots and two spellings. -/
def twoSpellings : IatMap where
  items := [(0x0081D000, ⟨"KERNEL32.dll", "Sleep"⟩), (0x0081D004, ⟨"kernel32.dll", "Sleep"⟩)]
  inside := by decide
  apart := by decide

theorem second_spelling_unbound :
    ¬ Bound (emitHeaders Char.isAlphanum twoSpellings []) (fun _ => none)
      (hleBindDll (emitHeaders Char.isAlphanum twoSpellings []) (fun _ => none) "kernel32.dll"
        "Sleep" (some 1)).1 "kernel32.dll" "Sleep" (some 1) :=
  lost_of_two_spellings Char.isAlphanum twoSpellings [] (fun _ => none) "kernel32.dll" "Sleep"
    (some 1) (a := ⟨"KERNEL32.dll", "Sleep"⟩) (b := ⟨"kernel32.dll", "Sleep"⟩) (by decide)
    (by decide) (by decide) ⟨rfl, by decide⟩ ⟨rfl, rfl⟩ fun _ => by decide

end Es3Recomp.Guarantees.Binding
