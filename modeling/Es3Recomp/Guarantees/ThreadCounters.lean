import Es3Recomp.Library.SignedIndex
import Es3Recomp.Source.ThreadCounters
import Mathlib.Algebra.Group.Nat.Defs
import Mathlib.Data.List.Nodup

/-!
# Whose dispatches a row counts

Rows are given out in the order of the first dispatches, and a thread that has one goes on
counting there (src/src/runtime64/dispatch64.c:89-101). A thread that came too late is parked on
the last row (91): its first dispatch is counted nowhere, the next ones are counted for the
thread that the row was given to.
-/
namespace Es3Recomp.Guarantees.ThreadCounters
open Library Source.ThreadCounters

variable {τ : Type}

/-- The row is the row of a thread that has dispatched this, latest first. -/
structure Counts (tid : UInt32) (t : τ) (log : List UInt64) (row : Row τ) : Prop where
  tid : row.tid = tid
  n : row.n.toInt = log.length
  first : row.first = log.getLastD 0
  last : row.last = log.headD 0
  published : row.cs = some t ∧ row.depth = some t

/-- The same in the middle of `tc_bump`: the dispatch that is being counted may be missing. -/
def Counting (tid : UInt32) (log : List UInt64) (row : Row τ) : Prop :=
  ∃ p before, log = p :: before ∧ (row.tid = tid ∨ row.tid = 0 ∧ before = []) ∧
    (row.n.toInt = before.length ∨ row.n.toInt = log.length) ∧ row.last = before.headD 0

/-- The thread was the `k`-th to dispatch, and there was a row for it. -/
def Given (s : State τ) (k : Nat) (t : τ) : Prop := s.arrivals[k]? = some t ∧ k < 64

/-- Every row is the row of one thread, and of its dispatches only. -/
structure Attributed (tid : τ → UInt32) (s : State τ) : Prop where
  once : s.arrivals.Nodup
  settled : ∀ k t, Given s k t → s.phase t = .out →
    Counts (tid t) t (s.log t) (s.rows (Int32.ofNat k))
  moving : ∀ k t, Given s k t → s.phase t ≠ .out →
    Counting (tid t) (s.log t) (s.rows (Int32.ofNat k))
  rest : ∀ i, (∀ k t, Given s k t → i ≠ Int32.ofNat k) → s.rows i = .empty

/-- The thread that dispatches has no row yet, or it is one of those that were given one. -/
def Admits (s : State τ) : Event τ → Prop
  | .dispatch t _ => s.phase t = .out →
    (t ∉ s.arrivals ∧ s.arrivals.length < 2 ^ 31 ∨ t ∈ s.arrivals.take 64) ∧
      (s.log t).length + 1 < 2 ^ 63
  | .access _ => True

/-! ## One thread and its row -/

/-- What a thread with the row `k` has made of it, phase by phase. -/
inductive Sound (tid : UInt32) (t : τ) (k : Int32) :
    List UInt64 → Int32 → Phase → Row τ → Prop where
  | setTid (p : UInt64) : Sound tid t k [p] (-1) (.setTid k p) .empty
  | setFirst (p : UInt64) : Sound tid t k [p] (-1) (.setFirst k p) ⟨tid, 0, 0, 0, none, none⟩
  | setCs (p : UInt64) : Sound tid t k [p] (-1) (.setCs k p) ⟨tid, 0, p, 0, none, none⟩
  | setDepth (p : UInt64) : Sound tid t k [p] (-1) (.setDepth k p) ⟨tid, 0, p, 0, some t, none⟩
  | setSlot (p : UInt64) : Sound tid t k [p] (-1) (.setSlot k p) ⟨tid, 0, p, 0, some t, some t⟩
  | load (p : UInt64) (before : List UInt64) : Sound tid t k (p :: before) k (.load p)
      ⟨tid, Int64.ofNat before.length, (p :: before).getLastD 0, before.headD 0, some t, some t⟩
  | store (p : UInt64) (before : List UInt64) :
      Sound tid t k (p :: before) k (.store (Int64.ofNat before.length) p)
      ⟨tid, Int64.ofNat before.length, (p :: before).getLastD 0, before.headD 0, some t, some t⟩
  | setLast (p : UInt64) (before : List UInt64) : Sound tid t k (p :: before) k (.setLast p)
      ⟨tid, Int64.ofNat (before.length + 1), (p :: before).getLastD 0, before.headD 0, some t,
        some t⟩
  | out (p : UInt64) (before : List UInt64) : Sound tid t k (p :: before) k .out
      ⟨tid, Int64.ofNat (before.length + 1), (p :: before).getLastD 0, p, some t, some t⟩

/-- A thread that dispatches again. -/
theorem Sound.again {tid : UInt32} {t : τ} {k slot : Int32} {log : List UInt64} {row : Row τ}
    (sound : Sound tid t k log slot .out row) (p : UInt64) :
    slot = k ∧ Sound tid t k (p :: log) slot (.load p) row := by
  cases sound with
  | out q before => exact ⟨rfl, .load p (q :: before)⟩

theorem toInt_ofNat {k : Nat} (small : k < 2 ^ 63) : (Int64.ofNat k).toInt = k :=
  Int64.toInt_ofNat_of_lt small

theorem Sound.counts {tid : UInt32} {t : τ} {k slot : Int32} {log : List UInt64} {row : Row τ}
    (sound : Sound tid t k log slot .out row) (short : log.length < 2 ^ 63) :
    Counts tid t log row := by
  cases sound with
  | out p before => exact ⟨rfl, toInt_ofNat short, rfl, rfl, rfl, rfl⟩

theorem Sound.counting {tid : UInt32} {t : τ} {k slot : Int32} {log : List UInt64} {phase : Phase}
    {row : Row τ} (sound : Sound tid t k log slot phase row) (short : log.length < 2 ^ 63)
    (inside : phase ≠ .out) : Counting tid log row := by
  have fewer {p : UInt64} {before : List UInt64} (short : (p :: before).length < 2 ^ 63) :
      before.length < 2 ^ 63 := Nat.lt_of_succ_lt short
  cases sound with
  | setTid p => exact ⟨p, [], rfl, .inr ⟨rfl, rfl⟩, .inl rfl, rfl⟩
  | setFirst p => exact ⟨p, [], rfl, .inl rfl, .inl rfl, rfl⟩
  | setCs p => exact ⟨p, [], rfl, .inl rfl, .inl rfl, rfl⟩
  | setDepth p => exact ⟨p, [], rfl, .inl rfl, .inl rfl, rfl⟩
  | setSlot p => exact ⟨p, [], rfl, .inl rfl, .inl rfl, rfl⟩
  | load p before => exact ⟨p, before, rfl, .inl rfl, .inl (toInt_ofNat (fewer short)), rfl⟩
  | store p before => exact ⟨p, before, rfl, .inl rfl, .inl (toInt_ofNat (fewer short)), rfl⟩
  | setLast p before => exact ⟨p, before, rfl, .inl rfl, .inr (toInt_ofNat short), rfl⟩
  | out => exact absurd rfl inside

/-! ## All the threads -/

structure Inv (tid : τ → UInt32) (s : State τ) : Prop where
  once : s.arrivals.Nodup
  tcn : s.tcn = Int32.ofNat s.arrivals.length
  few : s.arrivals.length ≤ 2 ^ 31
  absent : ∀ t, t ∉ s.arrivals → s.slot t = -1 ∧ s.phase t = .out ∧ s.log t = []
  late : ∀ k t, s.arrivals[k]? = some t → 64 ≤ k → s.phase t = .out
  given : ∀ k t, Given s k t →
    Sound (tid t) t (Int32.ofNat k) (s.log t) (s.slot t) (s.phase t) (s.rows (Int32.ofNat k))
  short : ∀ t, (s.log t).length < 2 ^ 63
  rest : ∀ i, (∀ k t, Given s k t → i ≠ Int32.ofNat k) → s.rows i = .empty

theorem arrival_inj {s : State τ} (once : s.arrivals.Nodup) {k k' : Nat} {t : τ}
    (at_k : s.arrivals[k]? = some t) (at_k' : s.arrivals[k']? = some t) : k = k' := by
  have inside : k < s.arrivals.length := (List.getElem?_eq_some_iff.mp at_k).1
  exact (List.getElem?_inj inside once).mp (at_k.trans at_k'.symm)

/-- A thread with a row is none of those that have not arrived. -/
theorem ne_of_absent {s : State τ} {k : Nat} {t t' : τ} (given : Given s k t)
    (away : t' ∉ s.arrivals) : t' ≠ t := by
  intro same
  subst same
  exact away (List.mem_of_getElem? given.1)

/-- And none of those that came when there were no more rows. -/
theorem ne_of_late {s : State τ} {k k' : Nat} {t t' : τ} (once : s.arrivals.Nodup)
    (given : Given s k t) (at_k' : s.arrivals[k']? = some t') (behind : 64 ≤ k') : t' ≠ t := by
  intro same
  subst same
  have index := arrival_inj once at_k' given.1
  exact absurd given.2 (by omega)

theorem inv_initial (tid : τ → UInt32) : Inv tid (State.initial : State τ) where
  once := List.nodup_nil
  tcn := rfl
  few := Nat.zero_le _
  absent _ _ := ⟨rfl, rfl, rfl⟩
  late _ _ at_k := absurd at_k (by simp [State.initial])
  given _ _ given := absurd given.1 (by simp [State.initial])
  short _ := (by decide : 0 < 2 ^ 63)
  rest _ _ := rfl

theorem Inv.attributed {tid : τ → UInt32} {s : State τ} (inv : Inv tid s) : Attributed tid s where
  once := inv.once
  settled k t given out := by
    have sound := inv.given k t given
    rw [out] at sound
    exact sound.counts (inv.short t)
  moving k t given inside := (inv.given k t given).counting (inv.short t) inside
  rest := inv.rest

/-! ## Steps -/

variable [DecidableEq τ]

/-- What one thread and its row become. -/
def move (s : State τ) (t : τ) (k : Int32) (slot : Int32) (phase : Phase) (row : Row τ) : State τ :=
  { s with
    rows := Function.update s.rows k row
    slot := Function.update s.slot t slot
    phase := Function.update s.phase t phase }

theorem advance_sound (tid : τ → UInt32) {s : State τ} {t : τ} {k : Int32}
    (sound : Sound (tid t) t k (s.log t) (s.slot t) (s.phase t) (s.rows k)) :
    ∃ slot phase row, advance tid s t = move s t k slot phase row ∧
      Sound (tid t) t k (s.log t) slot phase row := by
  generalize hlog : s.log t = log at sound
  generalize hslot : s.slot t = slot at sound
  generalize hphase : s.phase t = phase at sound
  generalize hrow : s.rows k = row at sound
  have keptRow : Function.update s.rows k row = s.rows := by
    rw [← hrow, Function.update_eq_self]
  have keptSlot : Function.update s.slot t slot = s.slot := by
    rw [← hslot, Function.update_eq_self]
  cases sound with
  | setTid p =>
    refine ⟨-1, _, _, ?_, .setFirst p⟩
    simp only [advance, hphase, move, State.setRow, State.goto, hrow, keptSlot]
    rfl
  | setFirst p =>
    refine ⟨-1, _, _, ?_, .setCs p⟩
    simp only [advance, hphase, move, State.setRow, State.goto, hrow, keptSlot]
  | setCs p =>
    refine ⟨-1, _, _, ?_, .setDepth p⟩
    simp only [advance, hphase, move, State.setRow, State.goto, hrow, keptSlot]
  | setDepth p =>
    refine ⟨-1, _, _, ?_, .setSlot p⟩
    simp only [advance, hphase, move, State.setRow, State.goto, hrow, keptSlot]
  | setSlot p =>
    refine ⟨k, _, _, ?_, .load p []⟩
    simp only [advance, hphase, move, State.setSlot, State.goto]
    exact congrArg (State.mk · _ _ _ _ _) keptRow.symm
  | load p before =>
    refine ⟨k, _, _, ?_, .store p before⟩
    simp only [advance, hphase, move, State.goto, hslot, hrow, keptSlot, keptRow]
  | store p before =>
    refine ⟨k, _, _, ?_, .setLast p before⟩
    simp only [advance, hphase, move, State.setRow, State.goto, hslot, hrow, keptSlot]
    rw [Int64.ofNat_add]
    rfl
  | setLast p before =>
    refine ⟨k, _, _, ?_, .out p before⟩
    simp only [advance, hphase, move, State.setRow, State.goto, hslot, hrow, keptSlot]
  | out p before =>
    refine ⟨k, _, _, ?_, .out p before⟩
    have keptPhase : Function.update s.phase t .out = s.phase := by
      rw [← hphase, Function.update_eq_self]
    simp only [advance, hphase, move, keptSlot, keptRow, keptPhase]

/-- What one thread does to its row and to itself leaves the others alone. -/
theorem inv_move {tid : τ → UInt32} {s : State τ} (inv : Inv tid s) {k : Nat} {t : τ}
    (given : Given s k t) {slot : Int32} {phase : Phase} {row : Row τ}
    (sound : Sound (tid t) t (Int32.ofNat k) (s.log t) slot phase row) :
    Inv tid (move s t (Int32.ofNat k) slot phase row) where
  once := inv.once
  tcn := inv.tcn
  few := inv.few
  absent t' away := by
    have other := ne_of_absent given away
    obtain ⟨slot', phase', log'⟩ := inv.absent t' away
    exact ⟨(Function.update_of_ne other ..).trans slot',
      (Function.update_of_ne other ..).trans phase', log'⟩
  late k' t' at_k' behind := by
    have other := ne_of_late inv.once given at_k' behind
    exact (Function.update_of_ne other ..).trans (inv.late k' t' at_k' behind)
  given k' t' given' := by
    by_cases same : t' = t
    · subst same
      obtain rfl : k' = k := arrival_inj inv.once given'.1 given.1
      simp only [move, Function.update_self]
      exact sound
    · have apart : Int32.ofNat k' ≠ Int32.ofNat k := by
        intro index
        have bound := given.2
        have bound' := given'.2
        obtain rfl := ofNat32_inj (by omega) (by omega) index
        exact same (Option.some.inj (given'.1.symm.trans given.1))
      simp only [move, Function.update_of_ne same, Function.update_of_ne apart]
      exact inv.given k' t' given'
  short := inv.short
  rest i away := by
    have apart : i ≠ Int32.ofNat k := away k t given
    exact (Function.update_of_ne apart ..).trans (inv.rest i away)

theorem inv_advance {tid : τ → UInt32} {s : State τ} (inv : Inv tid s) (t : τ) :
    Inv tid (advance tid s t) := by
  have idle (out : s.phase t = .out) : Inv tid (advance tid s t) := by
    rw [advance, out]
    exact inv
  by_cases known : t ∈ s.arrivals
  · obtain ⟨k, at_k⟩ := List.mem_iff_getElem?.mp known
    rcases Nat.lt_or_ge k 64 with early | late
    · have given : Given s k t := ⟨at_k, early⟩
      obtain ⟨slot, phase, row, moved, sound⟩ := advance_sound tid (inv.given k t given)
      rw [moved]
      exact inv_move inv given sound
    · exact idle (inv.late k t at_k late)
  · exact idle (inv.absent t known).2.1

/-- A thread with a row dispatches again. -/
theorem inv_enter_again {tid : τ → UInt32} {s : State τ} (inv : Inv tid s) {k : Nat} {t : τ}
    (given : Given s k t) (out : s.phase t = .out) (short : (s.log t).length + 1 < 2 ^ 63)
    (pref : UInt64) : Inv tid (enter s t pref) := by
  have sound := inv.given k t given
  rw [out] at sound
  obtain ⟨slot, sound⟩ := sound.again pref
  have there : ¬ s.slot t < 0 := by
    have bound := given.2
    rw [slot]
    exact ofNat32_not_neg (by omega)
  have entered : enter s t pref = (s.note t pref).goto t (.load pref) := by
    rw [enter]
    exact if_neg there
  rw [entered]
  refine ⟨inv.once, inv.tcn, inv.few, ?_, ?_, ?_, ?_, inv.rest⟩
  · intro t' away
    have other := ne_of_absent given away
    obtain ⟨slot', phase', log'⟩ := inv.absent t' away
    exact ⟨slot', (Function.update_of_ne other ..).trans phase',
      (Function.update_of_ne other ..).trans log'⟩
  · intro k' t' at_k' behind
    have other := ne_of_late inv.once given at_k' behind
    exact (Function.update_of_ne other ..).trans (inv.late k' t' at_k' behind)
  · intro k' t' given'
    by_cases same : t' = t
    · subst same
      obtain rfl : k' = k := arrival_inj inv.once given'.1 given.1
      simp only [State.note, State.goto, Function.update_self]
      exact sound
    · simp only [State.note, State.goto, Function.update_of_ne same]
      exact inv.given k' t' given'
  · intro t'
    by_cases same : t' = t
    · subst same
      simp only [State.note, State.goto, Function.update_self]
      exact short
    · simp only [State.note, State.goto, Function.update_of_ne same]
      exact inv.short t'

/-- The state after a thread's first dispatch. -/
def arrive (s : State τ) (t : τ) (pref : UInt64) (slot : Int32) (phase : Phase) : State τ where
  rows := s.rows
  tcn := s.tcn + 1
  slot := Function.update s.slot t slot
  phase := Function.update s.phase t phase
  arrivals := s.arrivals ++ [t]
  log := Function.update s.log t (pref :: s.log t)

theorem inv_arrive {tid : τ → UInt32} {s : State τ} (inv : Inv tid s) {t : τ}
    (first : t ∉ s.arrivals) (few : s.arrivals.length < 2 ^ 31) {pref : UInt64} {slot : Int32}
    {phase : Phase}
    (row : s.arrivals.length < 64 ∧
        Sound (tid t) t (Int32.ofNat s.arrivals.length) [pref] slot phase .empty ∨
      64 ≤ s.arrivals.length ∧ phase = .out) :
    Inv tid (arrive s t pref slot phase) := by
  have fresh := (inv.absent t first).2.2
  have other {t' : τ} {k : Nat} (at_k : s.arrivals[k]? = some t') : t' ≠ t := by
    rintro rfl
    exact first (List.mem_of_getElem? at_k)
  refine ⟨?_, ?_, ?_, ?_, ?_, ?_, ?_, ?_⟩
  · have once := List.Nodup.concat first inv.once
    rwa [List.concat_eq_append] at once
  · rw [arrive, inv.tcn, List.length_append, List.length_singleton, Int32.ofNat_add]
    rfl
  · rw [arrive, List.length_append, List.length_singleton]
    exact few
  · intro t' away
    obtain ⟨away, apart⟩ := not_or.mp (mt List.mem_append.mpr away)
    have other : t' ≠ t := fun same => apart (List.mem_singleton.mpr same)
    simp only [arrive, Function.update_of_ne other]
    exact inv.absent t' away
  · intro k t' at_k behind
    rcases getElem?_concat at_k with old | ⟨rfl, rfl⟩
    · simp only [arrive, Function.update_of_ne (other old)]
      exact inv.late k t' old behind
    · simp only [arrive, Function.update_self]
      rcases row with ⟨early, -⟩ | ⟨-, out⟩
      · exact absurd behind (Nat.not_le_of_lt early)
      · exact out
  · intro k t' given
    rcases getElem?_concat given.1 with old | ⟨rfl, rfl⟩
    · simp only [arrive, Function.update_of_ne (other old)]
      exact inv.given k t' ⟨old, given.2⟩
    · have unused : s.rows (Int32.ofNat s.arrivals.length) = .empty := by
        refine inv.rest _ fun k' t'' given' index => ?_
        have bound := given'.2
        have inside : k' < s.arrivals.length := (List.getElem?_eq_some_iff.mp given'.1).1
        have same := ofNat32_inj (by omega) (by omega) index
        omega
      simp only [arrive, Function.update_self, unused, fresh]
      rcases row with ⟨-, sound⟩ | ⟨late, -⟩
      · exact sound
      · exact absurd given.2 (by omega)
  · intro t'
    by_cases same : t' = t
    · subst same
      simp only [arrive, Function.update_self, fresh]
      exact (by decide : 1 < 2 ^ 63)
    · simp only [arrive, Function.update_of_ne same]
      exact inv.short t'
  · intro i away
    refine inv.rest i fun k t' given => away k t' ⟨?_, given.2⟩
    have inside : k < s.arrivals.length := (List.getElem?_eq_some_iff.mp given.1).1
    rw [arrive, List.getElem?_append_left inside]
    exact given.1

/-- The thread's first dispatch; it is given the next row, if there is one. -/
theorem inv_enter_first {tid : τ → UInt32} {s : State τ} (inv : Inv tid s) {t : τ}
    (first : t ∉ s.arrivals) (few : s.arrivals.length < 2 ^ 31) (pref : UInt64) :
    Inv tid (enter s t pref) := by
  obtain ⟨slot, phase, -⟩ := inv.absent t first
  have none_yet : s.slot t < 0 := by
    rw [slot]
    decide
  have keptSlot : Function.update s.slot t (-1) = s.slot := by
    rw [← slot, Function.update_eq_self]
  have keptPhase : Function.update s.phase t .out = s.phase := by
    rw [← phase, Function.update_eq_self]
  have taken : s.tcn + 1 - 1 = Int32.ofNat s.arrivals.length := by
    rw [Int32.add_sub_cancel, inv.tcn]
  have full : TC_MAX ≤ Int32.ofNat s.arrivals.length ↔ 64 ≤ s.arrivals.length :=
    ofNat32_le_iff (by decide) few
  by_cases late : 64 ≤ s.arrivals.length
  · have entered : enter s t pref = arrive s t pref 63 .out := by
      simp only [enter, State.note, if_pos none_yet, taken, if_pos (full.mpr late), State.setSlot,
        arrive, keptPhase]
      rfl
    rw [entered]
    exact inv_arrive inv first few (.inr ⟨late, rfl⟩)
  · have entered : enter s t pref =
        arrive s t pref (-1) (.setTid (Int32.ofNat s.arrivals.length) pref) := by
      simp only [enter, State.note, if_pos none_yet, taken, if_neg (mt full.mp late), State.goto,
        arrive, keptSlot]
    rw [entered]
    exact inv_arrive inv first few (.inl ⟨Nat.lt_of_not_le late, .setTid pref⟩)

theorem inv_step {tid : τ → UInt32} {s : State τ} (inv : Inv tid s) {e : Event τ}
    (admits : Admits s e) : Inv tid (step tid s e) := by
  cases e with
  | access t => exact inv_advance inv t
  | dispatch t pref =>
    by_cases out : s.phase t = .out
    · obtain ⟨which, short⟩ := admits out
      rw [step, if_pos out]
      rcases which with ⟨first, few⟩ | early
      · exact inv_enter_first inv first few pref
      · obtain ⟨k, at_k⟩ := List.mem_iff_getElem?.mp early
        rw [List.getElem?_take] at at_k
        split at at_k
        · exact inv_enter_again inv ⟨at_k, by assumption⟩ out short pref
        · exact absurd at_k (by simp)
    · rw [step, if_neg out]
      exact inv

/-! ## Runs -/

/-- In every run in which no thread that came too late for a row dispatches again, every row
counts one thread's dispatches, all of them, and no others. -/
theorem rows_attributed (tid : τ → UInt32) (events : List (Event τ))
    (admitted : (threads tid).Along Admits State.initial events) :
    Attributed tid ((threads tid).run State.initial events).1 := by
  have inv : Inv tid ((threads tid).run State.initial events).1 :=
    (threads tid).along_induction (motive := fun s _ => Inv tid s) (inv_initial tid)
      (fun _ _ _ inv admits => inv_step inv admits) admitted
  exact inv.attributed

instance (s : State τ) (e : Event τ) : Decidable (Admits s e) :=
  match e with
  | .dispatch _ _ => inferInstanceAs (Decidable (_ → _ ∧ _))
  | .access _ => inferInstanceAs (Decidable True)

/-- So many threads start one after the other, and dispatch once. -/
def started (n : Nat) : List (Event Nat) :=
  (List.range n).flatMap fun t =>
    .dispatch t (0x140001000 + 16 * UInt64.ofNat t) :: List.replicate 8 (.access t)

def threadId (t : Nat) : UInt32 := 0x1000 + 4 * UInt32.ofNat t

theorem started_attributed :
    Attributed threadId ((threads threadId).run State.initial (started 65)).1 :=
  rows_attributed threadId (started 65) (by decide +kernel)

/-- The 65th thread, dispatching again, is counted for the 64th. -/
theorem late_thread_counted : ¬ Attributed threadId ((threads threadId).run State.initial
    (started 65 ++ [.dispatch 64 0x140003000, .access 64, .access 64, .access 64])).1 := by
  intro attributed
  have counts := attributed.settled 63 63 (by unfold Given; decide +kernel) (by decide +kernel)
  exact absurd counts.last (by decide +kernel)

end Es3Recomp.Guarantees.ThreadCounters
