import Es3Recomp.Source.Driver
import Mathlib.Data.List.Nodup
import Mathlib.Order.Nat

/-!
# The generated text, as its compiler finds names in it

Where a function is called directly, declared, defined and listed shows in the text by
patterns of fixed length. None of them overlaps another, nor a line's end, so each can be
followed through the rewriting and the joining by itself.
-/
namespace Es3Recomp.Model.Sources
open Library Pattern Source.Driver

/-! ## The patterns -/

def hexPattern : Pattern := List.replicate 8 hexDigits

/-- A direct call, of whatever function. -/
def dcallPattern : Pattern :=
  only "DCALL(0x".toList ++ hexPattern ++ only "u, L_".toList ++ hexPattern ++ only ")".toList

def declPattern : Pattern := only "void L_".toList ++ hexPattern ++ only "(CPU *c);".toList

/-- A definition is known by its first line, and the brace behind it. -/
def defPattern : Pattern :=
  only "void L_".toList ++ hexPattern ++ only "(CPU *c)".toList ++ [[' ', '\n'], ['\x7b']]

/-- A row of `LIFTED_FUNCS`. -/
def rowPattern : Pattern := only "X(".toList ++ hexPattern ++ only ")".toList

/-- The name behind `void L_`. -/
def nameOf (m : Text) : Text := (m.drop 7).take 8

def declared (t : Text) : List Text := (hits declPattern t).map nameOf
def defined (t : Text) : List Text := (hits defPattern t).map nameOf
def listed (t : Text) : List Text := (hits rowPattern t).map fun m => (m.drop 2).take 8

/-! ## Numbers as text -/

theorem length_hex8 (va : UInt32) : (hex8 va).length = 8 := by simp [hex8]

theorem hexDigits_getD_mem : ∀ d < 16, hexDigits.getD d '0' ∈ hexDigits := by decide

theorem idxOf_hexDigits : ∀ d < 16, hexDigits.idxOf (hexDigits.getD d '0') = d := by decide

theorem front_hex8 (va : UInt32) : front hexPattern (hex8 va) = some (hex8 va) := by
  refine front_class ?_ (length_hex8 va)
  intro c member
  obtain ⟨i, -, rfl⟩ := List.mem_map.mp member
  exact hexDigits_getD_mem _ (Nat.mod_lt _ (by decide))

/-- Reading back the last `k` digits of a number. -/
theorem ofHex_digits (n k : Nat) :
    ofHex ((List.range k).map fun i => hexDigits.getD (n / 16 ^ (k - 1 - i) % 16) '0') =
      n % 16 ^ k := by
  induction k generalizing n with
  | zero => rw [Nat.pow_zero, Nat.mod_one, List.range_zero, List.map_nil, ofHex, List.foldl_nil]
  | succ k ih =>
    have front : ((List.range k).map fun i => hexDigits.getD (n / 16 ^ (k + 1 - 1 - i) % 16) '0') =
        (List.range k).map fun i => hexDigits.getD (n / 16 / 16 ^ (k - 1 - i) % 16) '0' := by
      refine List.map_congr_left fun i member => ?_
      have inside : i < k := List.mem_range.mp member
      have places : k + 1 - 1 - i = k - 1 - i + 1 := by omega
      rw [places, Nat.pow_succ', Nat.div_div_eq_div_mul]
    have last : hexDigits.idxOf (hexDigits.getD (n / 16 ^ (k + 1 - 1 - k) % 16) '0') = n % 16 := by
      rw [Nat.add_sub_cancel, Nat.sub_self, Nat.pow_zero, Nat.div_one,
        idxOf_hexDigits _ (Nat.mod_lt n (by decide))]
    have whole := ih (n / 16)
    rw [← front, ofHex] at whole
    rw [ofHex, List.range_succ, List.map_append, List.foldl_append, whole, List.map_singleton,
      List.foldl_cons, List.foldl_nil, last, Nat.pow_succ', Nat.mod_mul, Nat.add_comm]

theorem ofHex_hex8 (va : UInt32) : ofHex (hex8 va) = va.toNat := by
  have small : va.toNat < 16 ^ 8 := va.toNat_lt
  exact (ofHex_digits va.toNat 8).trans (Nat.mod_eq_of_lt small)

theorem hex8_injective : Function.Injective hex8 := by
  intro a b same
  apply UInt32.toNat_inj.mp
  rw [← ofHex_hex8, same, ofHex_hex8]

theorem dec4_injective : Function.Injective dec4 := by
  have read : ∀ i, Nat.ofDigitChars 10 (dec4 i) 0 = i := by
    intro i
    rw [dec4, Nat.ofDigitChars_append, Nat.ofDigitChars_replicate_zero, Nat.mul_zero,
      Nat.ofDigitChars_ten_toDigits]
  intro i j same
  rw [← read i, same, read j]

/-! ## What suits what -/

theorem front_dcall (va : UInt32) : front dcallPattern (dcallText va) = some (dcallText va) :=
  front_concat (front_concat (front_concat (front_concat (front_only _) (front_hex8 va))
    (front_only _)) (front_hex8 va)) (front_only _)

theorem dispatchPattern_ne : dispatchPattern ≠ [] := by decide

theorem dcallPattern_ne : dcallPattern ≠ [] := by decide

/-- `_direct` leaves a call as it is or makes it a direct one. -/
theorem direct_replaces (bodies : Bodies) :
    Replaces dispatchPattern dcallPattern (direct bodies) := by
  intro m _
  unfold direct
  split
  · exact Or.inr (front_dcall _)
  · exact Or.inl rfl

/-! ## One body -/

section Body
variable (bodies : Bodies) (va : UInt32)

/-- The calls that are left go to addresses without a body. -/
theorem dispatch_rewritten : ∀ m ∈ hits dispatchPattern (rewritten bodies va),
    target m ∉ bodies.keys := by
  intro h member
  have clashes : clash dispatchPattern dcallPattern = true := by decide
  obtain ⟨m, rest, found, here⟩ := hits_sub_found dispatchPattern_ne dcallPattern_ne
    (direct_replaces bodies) (by decide +kernel) (by decide +kernel) (by decide +kernel)
    (by decide +kernel) _ (fun _ _ _ none => none) h member
  obtain ⟨-, -, -, again⟩ := front_eq_some found
  unfold direct at here
  split at here
  · obtain ⟨-, -, -, suits⟩ := front_eq_some (front_dcall (target m))
    rw [front_none_of_clash clashes (suits rest)] at here
    cases here
  · rename_i open'
    rw [again rest] at here
    cases here
    exact open'

/-- The direct calls are those that the driver made. -/
theorem dcall_rewritten (none : hits dcallPattern (bodies.body va) = []) :
    ∀ m ∈ hits dcallPattern (rewritten bodies va), ∃ va' ∈ bodies.keys, m = dcallText va' := by
  intro h member
  have clashes : clash dcallPattern dispatchPattern = true := by decide
  obtain ⟨m, rest, found, here⟩ := hits_sub_found dispatchPattern_ne dcallPattern_ne
    (direct_replaces bodies) (by decide +kernel) (by decide +kernel) (by decide +kernel)
    (by decide +kernel) _ (fun _ _ suffix _ => front_none_of_hits none suffix) h member
  obtain ⟨-, -, -, again⟩ := front_eq_some found
  unfold direct at here
  split at here
  · rename_i lifted
    obtain ⟨-, -, -, suits⟩ := front_eq_some (front_dcall (target m))
    rw [suits rest] at here
    cases here
    exact ⟨target m, lifted, rfl⟩
  · rw [front_none_of_clash clashes (again rest)] at here
    cases here

/-- What a body defines it still defines. -/
theorem defined_rewritten : defined (rewritten bodies va) = defined (bodies.body va) :=
  congrArg (List.map nameOf) (hits_sub_free dispatchPattern_ne (direct_replaces bodies)
    (by decide +kernel) (by decide +kernel) (by decide +kernel) (by decide +kernel) _)

end Body

/-! ## A translation unit -/

/-- The pattern is not met where lines end, nor in what every unit begins with. -/
structure InLine (p : Pattern) : Prop where
  before : Before p (only "\n\n".toList)
  free : Free p (only "\n\n".toList)
  cut : ∀ k < p.tail.length, front (p.tail.drop k) ['\n'] = none
  none : hits p ['\n'] = []
  header : Free p (only (unitText header ++ ['\n']))

theorem dispatch_inLine : InLine dispatchPattern := by
  constructor <;> decide +kernel

theorem dcall_inLine : InLine dcallPattern := by
  constructor <;> decide +kernel

theorem def_inLine : InLine defPattern := by
  constructor <;> decide +kernel

theorem join_one (sep a : Text) : sep.intercalate [a] = a := by simp [List.intercalate]

theorem join_cons (sep a b : Text) (rest : List Text) :
    sep.intercalate (a :: b :: rest) = a ++ (sep ++ sep.intercalate (b :: rest)) := by
  simp [List.intercalate]

/-- A body and an empty line, for each of them. -/
def bodyLines (texts : List Text) : List Text := texts.flatMap fun b => [b, []]

/-- The lines of a unit. -/
def unitLines (texts : List Text) : List Text := header ++ bodyLines texts

/-- Between bodies nothing is met, and nothing that reaches into one. -/
theorem hits_bodyLines {p : Pattern} (inLine : InLine p) (texts : List Text) :
    hits p ("\n".toList.intercalate (bodyLines texts)) = texts.flatMap (hits p) := by
  induction texts with
  | nil => rfl
  | cons b texts ih =>
    cases texts with
    | nil =>
      have last : "\n".toList.intercalate (bodyLines [b]) = b ++ ['\n'] := by
        rw [bodyLines, List.flatMap_singleton, join_cons, join_one]
        rfl
      rw [last, hits_append inLine.cut, inLine.none, List.flatMap_singleton, List.append_nil]
    | cons b' texts =>
      have next : "\n".toList.intercalate (bodyLines (b :: b' :: texts)) =
          b ++ ("\n\n".toList ++ "\n".toList.intercalate (bodyLines (b' :: texts))) := by
        simp only [bodyLines, List.flatMap_cons, List.cons_append, List.nil_append, join_cons]
        rfl
      have suits := front_only "\n\n".toList
      rw [next, hits_append (inLine.before.cut suits _), hits_free inLine.free suits, ih]
      rfl

/-- What is met in a unit is met in one of its bodies. -/
theorem hits_unit {p : Pattern} (inLine : InLine p) {texts : List Text} (some' : texts ≠ []) :
    hits p (unitText (unitLines texts)) = texts.flatMap (hits p) := by
  cases texts with
  | nil => exact absurd rfl some'
  | cons b texts =>
    have whole : unitText (unitLines (b :: texts)) =
        (unitText header ++ ['\n']) ++ "\n".toList.intercalate (bodyLines (b :: texts)) := by
      simp only [unitText, unitLines, header, bodyLines, List.flatMap_cons, List.cons_append,
        List.nil_append, join_cons, join_one, List.append_assoc]
      rfl
    rw [whole, hits_free inLine.header (front_only _), hits_bodyLines inLine]

/-! ## The chunks -/

/-- What the loop has filled and what it is filling are the bodies it has been given. -/
structure Filled (k : Chunking) (texts : List Text) : Prop where
  groups : ∃ (groups : List (List Text)) (g : List Text), k.chunks = groups.map unitLines ∧
    k.cur = unitLines g ∧ groups.flatten ++ g = texts ∧ ∀ group ∈ groups, group ≠ []

theorem addBody_filled (split splitLines : Int) {k : Chunking} {texts : List Text}
    (filled : Filled k texts) (body : Text) :
    Filled (addBody split splitLines k body) (texts ++ [body]) := by
  obtain ⟨groups, g, chunks, cur, all, full⟩ := filled.groups
  have grown : k.cur ++ [body, []] = unitLines (g ++ [body]) := by
    rw [cur, unitLines, unitLines, bodyLines, bodyLines, List.flatMap_append, List.append_assoc]
    rfl
  constructor
  unfold addBody
  dsimp only
  split
  · refine ⟨groups ++ [g ++ [body]], [], ?_, (List.append_nil _).symm, ?_, ?_⟩
    · rw [chunks, grown, List.map_append]
      rfl
    · rw [← all]
      simp
    · intro group member
      rcases List.mem_append.mp member with before | new
      · exact full group before
      · rw [List.mem_singleton.mp new]
        simp
  · refine ⟨groups, g ++ [body], chunks, grown, ?_, full⟩
    rw [← all, List.append_assoc]

theorem foldl_filled (split splitLines : Int) {k : Chunking} {texts : List Text}
    (filled : Filled k texts) (rest : List Text) :
    Filled (rest.foldl (addBody split splitLines) k) (texts ++ rest) := by
  induction rest generalizing k texts with
  | nil => rwa [List.append_nil]
  | cons body rest ih =>
    have next := ih (addBody_filled split splitLines filled body)
    rwa [List.append_assoc] at next

/-- Every body is in one chunk, in order, and no chunk is without one. -/
theorem chunksOf_groups (split splitLines : Int) (texts : List Text) :
    ∃ groups : List (List Text), groups.flatten = texts ∧ (∀ group ∈ groups, group ≠ []) ∧
      chunksOf split splitLines texts = groups.map unitLines := by
  have start : Filled ⟨[], header, 0, 0⟩ [] :=
    ⟨[], [], rfl, (List.append_nil _).symm, rfl, nofun⟩
  obtain ⟨groups, g, chunks, cur, all, full⟩ := (foldl_filled split splitLines start texts).groups
  rw [List.nil_append] at all
  unfold chunksOf
  dsimp only
  split
  · rename_i more
    refine ⟨groups ++ [g], by simpa using all, ?_, ?_⟩
    · intro group member
      rcases List.mem_append.mp member with before | last
      · exact full group before
      · rw [List.mem_singleton.mp last]
        rintro rfl
        rw [cur] at more
        simp [unitLines, bodyLines] at more
    · rw [chunks, cur, List.map_append]
      rfl
  · rename_i none
    have empty : g = [] := by
      rw [cur, unitLines, List.length_append] at none
      cases g with
      | nil => rfl
      | cons b g =>
        simp [bodyLines] at none
    subst empty
    exact ⟨groups, by simpa using all, full, chunks⟩

/-! ## The declarations and the table -/

/-- A number between two texts. -/
def numbered (pre suf : Text) (va : UInt32) : Text := pre ++ hex8 va ++ suf

def numberedPattern (pre suf : Text) : Pattern := only pre ++ hexPattern ++ only suf

theorem front_numbered (pre suf : Text) (va : UInt32) :
    front (numberedPattern pre suf) (numbered pre suf va) = some (numbered pre suf va) :=
  front_concat (front_concat (front_only pre) (front_hex8 va)) (front_only suf)

/-- A numbered text is met once, where it begins. -/
theorem hits_numbered {pre suf : Text} (ne : numberedPattern pre suf ≠ [])
    (free : Free (numberedPattern pre suf) (numberedPattern pre suf).tail) (va : UInt32)
    (rest : Text) :
    hits (numberedPattern pre suf) (numbered pre suf va ++ rest) =
      numbered pre suf va :: hits (numberedPattern pre suf) rest := by
  obtain ⟨-, -, -, again⟩ := front_eq_some (front_numbered pre suf va)
  rw [hits_first free (front_numbered pre suf va) rest ne, again]
  rfl

theorem number_numbered (pre suf : Text) (va : UInt32) :
    ((numbered pre suf va).drop pre.length).take 8 = hex8 va := by
  rw [numbered, List.append_assoc, List.drop_left, List.take_left' (length_hex8 va)]

/-- The text of `declHeader` before the declarations. -/
def declOpening : Text :=
  ("/* AUTO-GENERATED by systemes3recomp - every lifted function,\n" ++
    "   declared so that a direct call can be a direct call. */\n").toList

theorem declPattern_eq : declPattern = numberedPattern "void L_".toList "(CPU *c);".toList := rfl

theorem declHeader_eq (done : List UInt32) :
    declHeader done = declOpening ++ done.flatMap declText := by
  unfold declHeader declOpening
  rfl

theorem declText_append (va : UInt32) (rest : Text) : declText va ++ rest =
    numbered "void L_".toList "(CPU *c);".toList va ++ (['\n'] ++ rest) := by
  have ends : "(CPU *c);\n".toList = "(CPU *c);".toList ++ ['\n'] := by decide
  unfold declText numbered
  simp only [ends, List.append_assoc]

theorem hits_declText (va : UInt32) (rest : Text) : hits declPattern (declText va ++ rest) =
    numbered "void L_".toList "(CPU *c);".toList va :: hits declPattern rest := by
  have first : Free declPattern declPattern.tail := by decide +kernel
  have ending : Free declPattern (only ['\n']) := by decide +kernel
  have ne : declPattern ≠ [] := by decide
  rw [declText_append]
  rw [declPattern_eq] at *
  rw [hits_numbered ne first, hits_free ending (front_only _)]

theorem declared_declHeader (done : List UInt32) : declared (declHeader done) = done.map hex8 := by
  have opening : Free declPattern (only declOpening) := by decide +kernel
  have lines : hits declPattern (done.flatMap declText) =
      done.map (numbered "void L_".toList "(CPU *c);".toList) := by
    induction done with
    | nil => rfl
    | cons va done ih => rw [List.flatMap_cons, hits_declText, ih, List.map_cons]
  rw [declared, declHeader_eq, hits_free opening (front_only _), lines, List.map_map]
  exact List.map_congr_left fun va _ => number_numbered "void L_".toList "(CPU *c);".toList va

/-- The text of `funcsList` before the rows. -/
def listOpening : Text :=
  ("/* AUTO-GENERATED by systemes3recomp */\n" ++ "#define LIFTED_FUNCS(X) \\\n").toList

def rowText (a : UInt32) : Text := "    X(".toList ++ hex8 a ++ ")".toList

theorem rowPattern_eq : rowPattern = numberedPattern "X(".toList ")".toList := rfl

theorem funcsList_eq (done : List UInt32) : funcsList done =
    listOpening ++ (" \\\n".toList.intercalate (done.map rowText) ++ "\n".toList) := by
  have rows : rowText = fun a => "    X(".toList ++ hex8 a ++ ")".toList := by
    funext a
    unfold rowText
    rfl
  unfold funcsList listOpening
  rw [rows, List.append_assoc]

theorem rowText_append (va : UInt32) (rest : Text) :
    rowText va ++ rest = "    ".toList ++ (numbered "X(".toList ")".toList va ++ rest) := by
  have begins : "    X(".toList = "    ".toList ++ "X(".toList := by decide
  unfold rowText numbered
  simp only [begins, List.append_assoc]

theorem hits_rowText (va : UInt32) (rest : Text) : hits rowPattern (rowText va ++ rest) =
    numbered "X(".toList ")".toList va :: hits rowPattern rest := by
  have first : Free rowPattern rowPattern.tail := by decide +kernel
  have indent : Free rowPattern (only "    ".toList) := by decide +kernel
  have ne : rowPattern ≠ [] := by decide
  rw [rowText_append, hits_free indent (front_only _)]
  rw [rowPattern_eq] at *
  exact hits_numbered ne first va rest

theorem listed_funcsList (done : List UInt32) : listed (funcsList done) = done.map hex8 := by
  have opening : Free rowPattern (only listOpening) := by decide +kernel
  have between : Free rowPattern (only " \\\n".toList) := by decide +kernel
  have last : hits rowPattern "\n".toList = [] := by decide +kernel
  have rows : hits rowPattern (" \\\n".toList.intercalate (done.map rowText) ++ "\n".toList) =
      done.map (numbered "X(".toList ")".toList) := by
    induction done with
    | nil => exact last
    | cons va done ih =>
      cases done with
      | nil => rw [List.map_singleton, join_one, hits_rowText, last, List.map_singleton]
      | cons va' done =>
        rw [List.map_cons, List.map_cons, join_cons, List.append_assoc, hits_rowText,
          List.append_assoc, hits_free between (front_only _), ← List.map_cons, ih]
        rfl
  rw [listed, funcsList_eq, hits_free opening (front_only _), rows, List.map_map]
  exact List.map_congr_left fun va _ => number_numbered "X(".toList ")".toList va

end Es3Recomp.Model.Sources
