import Es3Recomp.Source.Chain

/-!
# What an entry of ES3_PEEK or ES3_POKE is read as

An entry is stars, an address, then `*` and `+hex` in the order in which they happen
(src/src/runtime/crash.c:340-344); for ES3_POKE a width and a value follow (415-427). Both
readers go through the text with `chain` and never look for the end of an entry: where `chain`
stops, at the eighth operation for example, the next entry begins. A number is a hexadecimal
one of 32 bits.
-/
namespace Es3Recomp.Guarantees.Chain
open Library Library.Fields Library.Strtoul Source.ArgString Source.Chain

/-! ## The notation as it is written -/

inductive Suffix where
  | deref
  | add (offset : Numeral)

structure Entry where
  stars : Nat
  addr : Numeral
  suffixes : List Suffix

namespace Suffix

def text : Suffix → Text
  | .deref => ['*']
  | .add offset => '+' :: offset.text

/-- What it makes of an address. -/
def step (virtualQuery : UInt32 → Option RegionInfo) (mem : Memory32) (v : UInt32) :
    Suffix → Option UInt32
  | .deref => if readable virtualQuery v 4 then some (dword mem v) else none
  | .add offset => some (v + offset.toWord)

def op : Suffix → Op
  | .deref => .deref
  | .add offset => .add offset.toWord

end Suffix

namespace Entry

def text (e : Entry) : Text :=
  List.replicate e.stars '*' ++ e.addr.text ++ e.suffixes.flatMap Suffix.text

/-- How many operations it takes. -/
def size (e : Entry) : Nat := e.stars + e.suffixes.length

/-- Leading stars first, then the suffixes in order. -/
def meaning (e : Entry) (virtualQuery : UInt32 → Option RegionInfo) (mem : Memory32) :
    Option UInt32 :=
  (List.replicate e.stars Suffix.deref ++ e.suffixes).foldlM (Suffix.step virtualQuery mem)
    e.addr.toWord

/-- The program starts at the address that is written, and comes to the one that is meant. -/
def Performed (e : Entry) (p : Program) : Prop :=
  p.addr = e.addr.toWord ∧
    ∀ virtualQuery mem, follow virtualQuery mem p.ops p.addr = e.meaning virtualQuery mem

end Entry

/-- The field is an entry for which a program has room, and the program is its program. -/
def Watches (f : Text) (p : Program) : Prop :=
  ∃ e : Entry, f = e.text ∧ e.size ≤ PEEK_OPS ∧ e.Performed p

/-- How a width is written; nothing is four bytes. -/
def widths : List (Text × Nat) :=
  [([], 4), ([':', 'b'], 1), ([':', 'B'], 1), ([':', 'w'], 2), ([':', 'W'], 2)]

/-- The field is such an entry, a width, and a value. -/
def HoldsDown (f : Text) (k : Poke) : Prop :=
  ∃ (e : Entry) (mark : Text) (value : Numeral), f = e.text ++ (mark ++ '=' :: value.text) ∧
    (mark, k.width) ∈ widths ∧ e.size ≤ PEEK_OPS ∧ e.Performed k.program ∧ k.value = value.toWord

theorem follow_map (virtualQuery : UInt32 → Option RegionInfo) (mem : Memory32)
    (suffixes : List Suffix) (v : UInt32) :
    follow virtualQuery mem (suffixes.map Suffix.op) v =
      suffixes.foldlM (Suffix.step virtualQuery mem) v := by
  induction suffixes generalizing v with
  | nil => rfl
  | cons s suffixes ih =>
    rw [List.map_cons, List.foldlM_cons]
    cases s with
    | deref =>
      rw [Suffix.op, follow, Suffix.step, ih]
      split <;> rfl
    | add offset =>
      rw [Suffix.op, follow, Suffix.step, ih]
      rfl

/-- A program with the operations in order. -/
theorem performed_of_ops {e : Entry} {p : Program} (addr : p.addr = e.addr.toWord)
    (ops : p.ops = List.replicate e.stars .deref ++ e.suffixes.map Suffix.op) : e.Performed p := by
  refine ⟨addr, fun virtualQuery mem => ?_⟩
  have in_order : p.ops = (List.replicate e.stars Suffix.deref ++ e.suffixes).map Suffix.op := by
    rw [ops, List.map_append, List.map_replicate]
    rfl
  rw [addr, in_order, follow_map]
  rfl

/-! ## Reading an entry -/

/-- What is not read as a part of an entry. -/
def Stops (rest : Text) : Prop := Ends rest ∧ rest.head? ≠ some '*' ∧ rest.head? ≠ some '+'

theorem ends_suffixes (suffixes : List Suffix) {rest : Text} (stops : Stops rest) :
    Ends (suffixes.flatMap Suffix.text ++ rest) := by
  cases suffixes with
  | nil => exact stops.1
  | cons s suffixes =>
    intro c first
    cases s with
    | deref =>
      cases first
      decide
    | add offset =>
      cases first
      decide

theorem chainLoop_stop {room : Nat} {rest : Text} (stops : Stops rest) :
    chainLoop room rest = ([], rest) := by
  cases room with
  | zero => rfl
  | succ room =>
    cases rest with
    | nil => rfl
    | cons c rest =>
      have star : c ≠ '*' := fun same => stops.2.1 (congrArg some same)
      have plus : c ≠ '+' := fun same => stops.2.2 (congrArg some same)
      rw [chainLoop, if_neg star, if_neg plus]

theorem chainLoop_suffixes (suffixes : List Suffix) {room : Nat} (fits : suffixes.length ≤ room)
    {rest : Text} (stops : Stops rest) :
    chainLoop room (suffixes.flatMap Suffix.text ++ rest) = (suffixes.map Suffix.op, rest) := by
  induction suffixes generalizing room with
  | nil => exact chainLoop_stop stops
  | cons s suffixes ih =>
    cases room with
    | zero => exact absurd fits (Nat.not_succ_le_zero _)
    | succ room =>
      have later := ih (Nat.le_of_succ_le_succ fits)
      rw [List.flatMap_cons, List.append_assoc, List.map_cons]
      cases s with
      | deref =>
        rw [Suffix.text, List.singleton_append, chainLoop, if_pos rfl]
        simp only [later, Suffix.op]
      | add offset =>
        have other : ('+' : Char) ≠ '*' := by decide
        rw [Suffix.text, List.cons_append, chainLoop, if_neg other, if_pos rfl,
          strtoul_numeral offset (ends_suffixes suffixes stops)]
        simp only [later, Suffix.op]

theorem chain_of_starts {e : Text} (starts : Starts (unstarred e)) :
    ∃ p, chain e = some (p, (chainLoop (roomLeft e) (strtoul 16 (unstarred e)).2).2) ∧
      p.addr = (strtoul 16 (unstarred e)).1 ∧
        p.ops = leading e ++ (chainLoop (roomLeft e) (strtoul 16 (unstarred e)).2).1 := by
  have moved : (strtoul 16 (unstarred e)).2 ≠ unstarred e := fun same =>
    (strtoul_start_iff _).mp same starts
  exact ⟨_, if_neg moved, rfl, rfl⟩

theorem chain_isSome_iff (e : Text) : (chain e).isSome ↔ Starts (unstarred e) := by
  by_cases starts : Starts (unstarred e)
  · obtain ⟨p, read, _⟩ := chain_of_starts starts
    exact iff_of_true (by rw [read]; rfl) starts
  · have none : chain e = none := if_pos ((strtoul_start_iff _).mpr starts)
    exact iff_of_false (by rw [none]; decide) starts

theorem unstarred_entry (e : Entry) (rest : Text) :
    stars (e.text ++ rest) = e.stars ∧
      unstarred (e.text ++ rest) =
        e.addr.text ++ (e.suffixes.flatMap Suffix.text ++ rest) := by
  obtain ⟨d, more, split, hex⟩ := e.addr.text_first
  have other : ¬ decide (d = '*') = true := fun star =>
    (plain_of_hex hex).2.2.2.2 (of_decide_eq_true star)
  have all : ∀ c ∈ List.replicate e.stars '*', decide (c = '*') = true := fun c member =>
    decide_eq_true (List.eq_of_mem_replicate member)
  have shape : e.text ++ rest = List.replicate e.stars '*' ++
      (e.addr.text ++ (e.suffixes.flatMap Suffix.text ++ rest)) := by
    rw [Entry.text, List.append_assoc, List.append_assoc]
  rw [stars, unstarred, shape, List.takeWhile_append_of_pos all, List.dropWhile_append_of_pos all,
    split, List.cons_append, List.takeWhile_cons_of_neg (p := fun a => decide (a = '*')) other,
    List.dropWhile_cons_of_neg (p := fun a => decide (a = '*')) other, List.append_nil,
    List.length_replicate]
  exact ⟨rfl, rfl⟩

/-- An entry for which there is room is read whole. -/
theorem chain_entry (e : Entry) (fits : e.size ≤ PEEK_OPS) {rest : Text} (stops : Stops rest) :
    ∃ p, chain (e.text ++ rest) = some (p, rest) ∧ e.Performed p := by
  obtain ⟨stars_eq, unstarred_eq⟩ := unstarred_entry e rest
  have number := strtoul_numeral e.addr (ends_suffixes e.suffixes stops)
  have starts : Starts (unstarred (e.text ++ rest)) := by
    obtain ⟨d, more, split, hex⟩ := e.addr.text_first
    refine ⟨[], [], d, more ++ (e.suffixes.flatMap Suffix.text ++ rest), ?_, ?_, ?_, hex⟩
    · rw [unstarred_eq, split]
      rfl
    · exact fun c member => nomatch member
    · exact List.mem_cons_self
  rw [Entry.size] at fits
  have all : min e.stars PEEK_OPS = e.stars := Nat.min_eq_left (by omega)
  have room : e.suffixes.length ≤ roomLeft (e.text ++ rest) := by
    rw [roomLeft, stars_eq, all]
    omega
  obtain ⟨p, read, addr, ops⟩ := chain_of_starts starts
  rw [unstarred_eq, number] at read addr ops
  rw [chainLoop_suffixes e.suffixes room stops] at read ops
  rw [leading, stars_eq, all] at ops
  exact ⟨p, read, performed_of_ops addr ops⟩

/-! ## Reading stays inside a field -/

theorem comma_foreign : Foreign ',' := by decide

theorem comma_stops (rest : Text) : Stops (',' :: rest) := by
  refine ⟨fun c same => ?_, by simp, by simp⟩
  cases same
  decide

theorem chainLoop_append (room : Nat) (e rest : Text) :
    chainLoop room (e ++ ',' :: rest) =
      ((chainLoop room e).1, (chainLoop room e).2 ++ ',' :: rest) := by
  induction room generalizing e with
  | zero => rfl
  | succ room ih =>
    cases e with
    | nil =>
      rw [List.nil_append, chainLoop_stop (comma_stops rest)]
      rfl
    | cons c e =>
      rw [List.cons_append, chainLoop, chainLoop, strtoul_append comma_foreign, ih, ih]
      split
      · rfl
      · split <;> rfl

theorem stars_append (e rest : Text) : stars (e ++ ',' :: rest) = stars e :=
  congrArg List.length (takeWhile_append_cons (by decide) e rest)

theorem unstarred_append (e rest : Text) :
    unstarred (e ++ ',' :: rest) = unstarred e ++ ',' :: rest :=
  dropWhile_append_cons (by decide) e rest

theorem chain_append (e rest : Text) :
    chain (e ++ ',' :: rest) = (chain e).map fun r => (r.1, r.2 ++ ',' :: rest) := by
  have moved : (strtoul 16 (unstarred e)).2 ++ ',' :: rest = unstarred e ++ ',' :: rest ↔
      (strtoul 16 (unstarred e)).2 = unstarred e := List.append_left_inj _
  have room : roomLeft (e ++ ',' :: rest) = roomLeft e := by
    rw [roomLeft, stars_append, roomLeft]
  have lead : leading (e ++ ',' :: rest) = leading e := by rw [leading, stars_append, leading]
  simp only [chain, unstarred_append, strtoul_append comma_foreign, chainLoop_append, moved, room,
    lead]
  split <;> rfl

/-! ## ES3_PEEK -/

/-- Behind the stars there is a number, as far as C is concerned. -/
def Addressed (f : Text) : Prop := Starts (unstarred f)

theorem chain_parses : Parser ',' Watches chain where
  inside f rest _ := chain_append f rest
  empty := by decide +kernel
  whole f p watches := by
    obtain ⟨e, rfl, fits, _⟩ := watches
    have stops : Stops [] := ⟨fun _ absurd => (nomatch absurd), by decide, by decide⟩
    obtain ⟨q, read, performed⟩ := chain_entry e fits stops
    rw [List.append_nil] at read
    exact ⟨q, read, e, rfl, fits, performed⟩

theorem peek_iff (text : Text) :
    Reads Watches PEEK_MAX (text.splitOn ',') (peekInit text) ↔
      Refuses Watches Addressed PEEK_MAX (text.splitOn ',') := by
  have taken : (fun f => (chain f).isSome = true) = Addressed :=
    funext fun f => propext (chain_isSome_iff f)
  rw [← taken]
  exact loop_reads_iff chain_parses PEEK_MAX text

/-! ## ES3_POKE -/

/-- So many suffixes, as C reads their numbers, and what is behind them. -/
inductive Suffixes : Nat → Text → Text → Prop where
  | done (t : Text) : Suffixes 0 t t
  | star {k : Nat} {t rest : Text} (later : Suffixes k t rest) : Suffixes (k + 1) ('*' :: t) rest
  | plus {k : Nat} {t rest : Text} (later : Suffixes k (strtoul 16 t).2 rest) :
    Suffixes (k + 1) ('+' :: t) rest

/-- Behind the stars there is a number, behind that no more suffixes than there is room for, and
behind those a width and `=`. -/
def Assigns (f : Text) : Prop :=
  Addressed f ∧ ∃ k rest, k ≤ roomLeft f ∧ Suffixes k (strtoul 16 (unstarred f)).2 rest ∧
    ∃ mark width value, (mark, width) ∈ widths ∧ rest = mark ++ '=' :: value

theorem chainLoop_takes (room : Nat) (e : Text) :
    Suffixes (chainLoop room e).1.length e (chainLoop room e).2 := by
  fun_induction chainLoop room e with
  | case1 e => exact .done e
  | case2 => exact .done []
  | case3 room e rest ih => exact .star ih
  | case4 room e _ rest ih => exact .plus ih
  | case5 room c e => exact .done (c :: e)

theorem chainLoop_of_suffixes {k room : Nat} {e rest : Text} (suffixes : Suffixes k e rest)
    (fits : k ≤ room) (stops : Stops rest) : (chainLoop room e).2 = rest := by
  induction suffixes generalizing room with
  | done t => rw [chainLoop_stop stops]
  | star later ih =>
    cases room with
    | zero => exact absurd fits (Nat.not_succ_le_zero _)
    | succ room =>
      rw [chainLoop, if_pos rfl]
      exact ih (Nat.le_of_succ_le_succ fits) stops
  | plus later ih =>
    cases room with
    | zero => exact absurd fits (Nat.not_succ_le_zero _)
    | succ room =>
      have other : ('+' : Char) ≠ '*' := by decide
      rw [chainLoop, if_neg other, if_pos rfl]
      exact ih (Nat.le_of_succ_le_succ fits) stops

/-- What is behind the program in an entry of ES3_POKE. -/
def assigned (program : Program) (e : Text) : Option (Poke × Text) :=
  (pokeWidth e).bind fun w =>
    if w.2.head? = some '=' then
      some (⟨program, (strtoul 16 w.2.tail).1, w.1⟩, (strtoul 16 w.2.tail).2)
    else none

theorem pokeEntry_eq (e : Text) : pokeEntry e = (chain e).bind fun r => assigned r.1 r.2 := rfl

theorem mark_stops {mark : Text} {width : Nat} (known : (mark, width) ∈ widths) (value : Text) :
    Stops (mark ++ '=' :: value) := by
  have first : ∀ w ∈ widths, (w.1 ++ ['=']).head? = some ':' ∨ (w.1 ++ ['=']).head? = some '=' := by
    decide
  have head : (mark ++ '=' :: value).head? = (mark ++ ['=']).head? := by cases mark <;> rfl
  rw [Stops, Ends, head]
  rcases first _ known with colon | equal
  · rw [colon]
    exact ⟨fun c same => by cases same; decide, by decide, by decide⟩
  · rw [equal]
    exact ⟨fun c same => by cases same; decide, by decide, by decide⟩

/-- A width before `=` is read as such. -/
theorem pokeWidth_mark {mark : Text} {width : Nat} (known : (mark, width) ∈ widths)
    (value : Text) : pokeWidth (mark ++ '=' :: value) = some (width, '=' :: value) := by
  simp only [widths, List.mem_cons, Prod.mk.injEq, List.not_mem_nil, or_false] at known
  rcases known with ⟨rfl, rfl⟩ | ⟨rfl, rfl⟩ | ⟨rfl, rfl⟩ | ⟨rfl, rfl⟩ | ⟨rfl, rfl⟩ <;> rfl

theorem pokeWidth_colon (d : Char) (e : Text) :
    pokeWidth (':' :: d :: e) =
      if d = 'b' ∨ d = 'B' then some (1, e)
      else if d = 'w' ∨ d = 'W' then some (2, e)
      else none := by
  simp [pokeWidth]

theorem pokeWidth_spec {e rest : Text} {width : Nat} (read : pokeWidth e = some (width, rest)) :
    ∃ mark, (mark, width) ∈ widths ∧ e = mark ++ rest := by
  cases e with
  | nil =>
    cases read
    exact ⟨[], by decide, rfl⟩
  | cons c e =>
    by_cases colon : c = ':'
    · rw [colon] at read ⊢
      cases e with
      | nil => cases read
      | cons d e =>
        rw [pokeWidth_colon] at read
        split at read
        · rename_i byte
          cases read
          refine ⟨[':', d], ?_, rfl⟩
          rcases byte with rfl | rfl <;> decide
        · split at read
          · rename_i half
            cases read
            refine ⟨[':', d], ?_, rfl⟩
            rcases half with rfl | rfl <;> decide
          · cases read
    · rw [pokeWidth, if_neg colon] at read
      cases read
      exact ⟨[], by decide, rfl⟩

theorem assigned_mark (program : Program) {mark : Text} {width : Nat}
    (known : (mark, width) ∈ widths) (value : Text) :
    assigned program (mark ++ '=' :: value) =
      some (⟨program, (strtoul 16 value).1, width⟩, (strtoul 16 value).2) := by
  rw [assigned, pokeWidth_mark known value]
  rfl

theorem assigned_isSome_iff (program : Program) (e : Text) :
    (assigned program e).isSome ↔
      ∃ mark width value, (mark, width) ∈ widths ∧ e = mark ++ '=' :: value := by
  constructor
  · intro taken
    rw [assigned] at taken
    cases read : pokeWidth e with
    | none =>
      rw [read] at taken
      cases taken
    | some w =>
      rw [read, Option.bind_some] at taken
      split at taken
      · rename_i equal
        obtain ⟨mark, known, split⟩ := pokeWidth_spec read
        obtain ⟨value, rest⟩ := List.head?_eq_some_iff.mp equal
        exact ⟨mark, w.1, value, known, by rw [split, rest]⟩
      · cases taken
  · intro marked
    obtain ⟨mark, width, value, known, rfl⟩ := marked
    rw [assigned_mark program known value]
    rfl

theorem pokeEntry_isSome_iff (f : Text) : (pokeEntry f).isSome ↔ Assigns f := by
  rw [pokeEntry_eq]
  constructor
  · intro taken
    have starts : Starts (unstarred f) := by
      rw [← chain_isSome_iff]
      cases read : chain f with
      | none =>
        rw [read] at taken
        cases taken
      | some r => rfl
    obtain ⟨p, read, _⟩ := chain_of_starts starts
    rw [read, Option.bind_some, assigned_isSome_iff] at taken
    exact ⟨starts, _, _, chainLoop_fits _ _, chainLoop_takes _ _, taken⟩
  · intro assigns
    obtain ⟨starts, k, rest, fits, suffixes, mark, width, value, known, rfl⟩ := assigns
    obtain ⟨p, read, _⟩ := chain_of_starts starts
    rw [chainLoop_of_suffixes suffixes fits (mark_stops known value)] at read
    rw [read, Option.bind_some, assigned_mark p known value]
    rfl

theorem pokeWidth_append (e rest : Text) :
    pokeWidth (e ++ ',' :: rest) = (pokeWidth e).map fun w => (w.1, w.2 ++ ',' :: rest) := by
  cases e with
  | nil => rfl
  | cons c e =>
    by_cases colon : c = ':'
    · rw [colon]
      cases e with
      | nil => simp [pokeWidth]
      | cons d e =>
        rw [List.cons_append, List.cons_append, pokeWidth_colon, pokeWidth_colon]
        split
        · rfl
        · split <;> rfl
    · simp [pokeWidth, colon]

theorem assigned_append (program : Program) (e rest : Text) :
    assigned program (e ++ ',' :: rest) =
      (assigned program e).map fun r => (r.1, r.2 ++ ',' :: rest) := by
  rw [assigned, assigned, pokeWidth_append]
  cases pokeWidth e with
  | none => rfl
  | some w =>
    obtain ⟨width, value⟩ := w
    simp only [Option.map_some, Option.bind_some]
    cases value with
    | nil => simp
    | cons c value =>
      rw [List.cons_append, List.head?_cons, List.head?_cons, List.tail_cons, List.tail_cons,
        strtoul_append comma_foreign]
      split <;> rfl

theorem pokeEntry_parses : Parser ',' HoldsDown pokeEntry where
  inside f rest _ := by
    rw [pokeEntry_eq, pokeEntry_eq, chain_append]
    cases chain f with
    | none => rfl
    | some r => exact assigned_append r.1 r.2 rest
  empty := by decide +kernel
  whole f k holds := by
    obtain ⟨e, mark, value, rfl, known, fits, _⟩ := holds
    have ends : Ends [] := fun _ absurd => nomatch absurd
    have number := strtoul_numeral value ends
    rw [List.append_nil] at number
    obtain ⟨p, read, performed⟩ := chain_entry e fits (mark_stops known value.text)
    refine ⟨⟨p, value.toWord, k.width⟩, ?_, e, mark, value, rfl, known, fits, performed, rfl⟩
    rw [pokeEntry_eq, read, Option.bind_some, assigned_mark p known, number]

theorem poke_iff (text : Text) :
    Reads HoldsDown POKE_MAX (text.splitOn ',') (pokeInit text) ↔
      Refuses HoldsDown Assigns POKE_MAX (text.splitOn ',') := by
  have taken : (fun f => (pokeEntry f).isSome = true) = Assigns :=
    funext fun f => propext (pokeEntry_isSome_iff f)
  rw [← taken]
  exact loop_reads_iff pokeEntry_parses POKE_MAX text

/-- The two variables are read as they are written just when the first field that is no entry of
the notation, or one that is too long, does not begin as one that is read. -/
theorem chain_reads_iff (text : Text) :
    (Reads Watches PEEK_MAX (text.splitOn ',') (peekInit text) ↔
        Refuses Watches Addressed PEEK_MAX (text.splitOn ',')) ∧
      (Reads HoldsDown POKE_MAX (text.splitOn ',') (pokeInit text) ↔
        Refuses HoldsDown Assigns POKE_MAX (text.splitOn ',')) :=
  ⟨peek_iff text, poke_iff text⟩

/-- Ten operations: the last two are an entry of their own. -/
theorem tenth_operation_astray :
    ¬ Reads Watches PEEK_MAX ("*1********+8".toList.splitOn ',')
      (peekInit "*1********+8".toList) := by
  intro reads
  have one : ("*1********+8".toList.splitOn ',').length = 1 := by decide +kernel
  have two : (peekInit "*1********+8".toList).length = 2 := by decide +kernel
  obtain ⟨f, there, _⟩ := reads.each 1 _ (List.getElem?_eq_getElem (two ▸ Nat.lt_succ_self 1))
  have inside := (List.getElem?_eq_some_iff.mp there).1
  omega

/-! ## What comes of it -/

section Memory

variable (virtualQuery : UInt32 → Option RegionInfo) (mem : Memory32)

/-- What is reported for an entry is what there is at the address that it means. -/
theorem peeks_reported {fields : List Text} {peeks : List Program}
    (reads : Reads Watches PEEK_MAX fields peeks) {k : Nat}
    {r : UInt32 × Option (UInt32 × List UInt32)}
    (reported : (es3ReportPeeks virtualQuery mem peeks)[k]? = some r) :
    ∃ e : Entry, fields[k]? = some e.text ∧ r.1 = e.addr.toWord ∧
      ∀ v words, r.2 = some (v, words) → e.meaning virtualQuery mem = some v ∧
        words = (List.range 8).map fun j => dword mem (v + 4 * UInt32.ofNat j) := by
  rw [es3ReportPeeks, List.getElem?_map] at reported
  obtain ⟨p, at_k, rfl⟩ := Option.map_eq_some_iff.mp reported
  obtain ⟨f, there, e, rfl, _, addr, means⟩ := reads.each k p at_k
  refine ⟨e, there, addr, fun v words shown => ?_⟩
  rw [report, means virtualQuery mem] at shown
  obtain ⟨v', meant, shown⟩ := Option.bind_eq_some_iff.mp shown
  split at shown
  · cases shown
    exact ⟨meant, rfl⟩
  · cases shown

/-- The byte is one of those that the poke is to write. -/
def Covers (k : Poke) (a : UInt32) : Prop :=
  ∃ v, follow virtualQuery mem k.program.ops k.program.addr = some v ∧
    (a - v).toNat < if k.width = 0 then 4 else k.width

/-- A poke changes no more bytes than its width says. -/
theorem apply_outside {k : Poke} {a : UInt32} (outside : ¬ Covers virtualQuery mem k a) :
    apply virtualQuery mem k a = mem a := by
  rw [apply]
  cases come : follow virtualQuery mem k.program.ops k.program.addr with
  | none => rfl
  | some v =>
    have behind := Nat.not_lt.mp fun inside => outside ⟨v, come, inside⟩
    simp only
    generalize (if k.width = 0 then 4 else k.width) = w at behind ⊢
    split
    · exact write_outside mem (Nat.le_trans (List.length_take_le w _) behind)
    · rfl

theorem pokes_outside (pokes : List Poke) (a : UInt32)
    (outside : ∀ k ∈ pokes, ∀ now, ¬ Covers virtualQuery now k a) :
    es3ApplyPokes virtualQuery mem pokes a = mem a := by
  induction pokes generalizing mem with
  | nil => rfl
  | cons k pokes ih =>
    obtain ⟨first, others⟩ := List.forall_mem_cons.mp outside
    have later := ih (apply virtualQuery mem k) others
    exact later.trans (apply_outside virtualQuery mem (first mem))

end Memory

end Es3Recomp.Guarantees.Chain
