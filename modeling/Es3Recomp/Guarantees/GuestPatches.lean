import Es3Recomp.Source.GuestPatches

/-!
# Every rewritten byte is reported once

A call reports the first runs of differing bytes and takes over what it reported, and only that
(src/src/runtime/guest.c:939-957). The limit is passed and then tested, so it is the 41st run that
the scan stops after (954). What a call leaves out is still different in the next one.
-/
namespace Es3Recomp.Guarantees.GuestPatches
open Library Source.GuestPatches

/-- How many runs a call reports. -/
def LIMIT : Nat := 41

def size (s : Snapshot) : Nat := (s.hi - s.lo).toNat

/-- The byte is not what it was when the snapshot was taken. -/
def differs (s : Snapshot) (mem : Memory) (i : Nat) : Bool := now s mem i ≠ s.copy i

/-- One of the reports is about the byte. -/
def Mentions (reports : List Report) (i : Nat) : Prop := ∃ r ∈ reports, r.range.Has i

instance (reports : List Report) (i : Nat) : Decidable (Mentions reports i) :=
  inferInstanceAs (Decidable (∃ r ∈ reports, r.range.Has i))

/-- One call: the first maximal runs, each with its bytes, and the copy they leave. -/
structure Exact (s : Snapshot) (mem : Memory) (s' : Snapshot) (reports : List Report) : Prop where
  runs : FirstRuns (differs s mem) (size s) 0 LIMIT (reports.map Report.range)
  contents : ∀ r ∈ reports, r = reportOf s.lo (now s mem) s.copy r.range
  refreshed : ∀ i, s'.copy i = if Mentions reports i then now s mem i else s.copy i
  same : s'.lo = s.lo ∧ s'.hi = s.hi

/-! ## The scan -/

theorem runEnd_congr {p q : Nat → Bool} {left i : Nat} (same : ∀ j, i ≤ j → p j = q j) :
    runEnd p left i = runEnd q left i := by
  induction left generalizing i with
  | zero => rfl
  | succ left ih =>
    have rest := ih fun j behind => same j (Nat.le_of_succ_le behind)
    rw [runEnd, runEnd, same i (Nat.le_refl i), rest]

theorem shown_congr {f g : Nat → UInt8} {r : Range} (same : ∀ j, r.start ≤ j → f j = g j) :
    shown f r = shown g r := by
  refine List.map_congr_left fun j member => same j ?_
  exact (List.mem_range'_1.mp member).1

theorem mentions_cons (r : Report) (rs : List Report) (i : Nat) :
    Mentions (r :: rs) i ↔ r.range.Has i ∨ Mentions rs i := by
  simp [Mentions]

theorem not_mentions_nil (i : Nat) : ¬ Mentions [] i := fun mentions =>
  absurd mentions.choose_spec.1 List.not_mem_nil

/-- What is taken over with one more report. -/
theorem refresh_cons (now copy : Nat → UInt8) (r : Report) (rs : List Report) (i : Nat) :
    (if Mentions rs i then now i else refresh now copy r.range i) =
      if Mentions (r :: rs) i then now i else copy i := by
  simp only [mentions_cons, refresh]
  by_cases here : r.range.Has i
  · simp [here]
  · simp [here]

/-- From `i` on the copy is still the one that the call began with. -/
theorem diffFrom_exact {lo : UInt32} {now old : Nat → UInt8} {n turns i runs : Nat}
    {copy : Nat → UInt8} (enough : n ≤ i + turns) (few : runs ≤ 40)
    (same : ∀ j, i ≤ j → copy j = old j)
    (left : ∀ j, j + 1 = i → j < n → decide (now j ≠ old j) = false) :
    let d := diffFrom lo now n turns i runs copy
    FirstRuns (fun j => now j ≠ old j) n i (LIMIT - runs) (d.reports.map Report.range) ∧
      (∀ r ∈ d.reports, r = reportOf lo now old r.range) ∧
      ∀ j, d.copy j = if Mentions d.reports j then now j else copy j := by
  have nothing (copy : Nat → UInt8) (j : Nat) :
      copy j = if Mentions [] j then now j else copy j := (if_neg (not_mentions_nil j)).symm
  induction turns generalizing i runs copy with
  | zero =>
    exact ⟨FirstRuns.nil (by omega) _, fun _ member => absurd member List.not_mem_nil, nothing copy⟩
  | succ turns ih =>
    rw [diffFrom]
    by_cases inside : i < n
    · rw [if_pos inside]
      by_cases equal : now i = copy i
      · rw [if_pos equal]
        have here : decide (now i ≠ old i) = false := by
          rw [← same i (Nat.le_refl i), equal]
          simp
        have rest := ih (by omega) few (fun j behind => same j (Nat.le_of_succ_le behind))
          fun j next _ => by rwa [Nat.succ.inj next]
        exact ⟨rest.1.skip here, rest.2⟩
      · have here : decide (now i ≠ old i) = true := by
          rw [← same i (Nat.le_refl i)]
          exact decide_eq_true equal
        have ends : runEnd (fun j => decide (now j ≠ copy j)) (n - i) i =
            runEnd (fun j => decide (now j ≠ old j)) (n - i) i :=
          runEnd_congr fun j behind => by rw [same j behind]
        have bounds := runEnd_bounds (p := fun j => decide (now j ≠ old j)) (n - i) i
        have before (j : Nat) (next : j + 1 = i) : decide (now j ≠ old j) = false :=
          left j next (by omega)
        rw [if_neg equal]
        simp only [ends]
        generalize hr : Range.mk i (runEnd (fun j => decide (now j ≠ old j)) (n - i) i) = r
        have starts : r.start = i := by rw [← hr]
        have stops : r.stop = runEnd (fun j => decide (now j ≠ old j)) (n - i) i := by rw [← hr]
        have report : reportOf lo now copy r = reportOf lo now old r := by
          rw [reportOf, reportOf, shown_congr fun j behind => same j (by omega)]
        by_cases last : 40 < runs + 1
        · have one : LIMIT - runs = 0 + 1 := by
            unfold LIMIT
            omega
          rw [if_pos last, one]
          have refreshed (j : Nat) : refresh now copy r j =
              if Mentions [reportOf lo now copy r] j then now j else copy j := by
            have := refresh_cons now copy (reportOf lo now copy r) [] j
            rwa [if_neg (not_mentions_nil j)] at this
          refine ⟨?_, List.forall_mem_singleton.mpr report, refreshed⟩
          subst hr
          exact (FirstRuns.none _ n _).cons inside here before
        · have more : LIMIT - runs = LIMIT - (runs + 1) + 1 := by
            unfold LIMIT
            omega
          have kept (j : Nat) (behind : r.stop + 1 ≤ j) : refresh now copy r j = old j := by
            rw [refresh, if_neg fun has => absurd has.2 (by omega)]
            exact same j (by omega)
          have after (j : Nat) (next : j + 1 = r.stop + 1) (short : j < n) :
              decide (now j ≠ old j) = false := by
            obtain rfl : j = r.stop := Nat.succ.inj next
            rw [stops] at short ⊢
            exact runEnd_stops (p := fun j => decide (now j ≠ old j)) (by omega)
          have few' : runs + 1 ≤ 40 := Nat.le_of_not_lt last
          obtain ⟨found, contents, refreshed⟩ := ih (by omega) few' kept after
          rw [if_neg last, more, ← stops]
          refine ⟨?_, List.forall_mem_cons.mpr ⟨report, contents⟩, fun j => ?_⟩
          · rw [stops] at found ⊢
            subst hr
            exact found.cons inside here before
          · exact (refreshed j).trans (refresh_cons now copy (reportOf lo now copy r) _ j)
    · rw [if_neg inside]
      exact ⟨FirstRuns.nil (by omega) _, fun _ member => absurd member List.not_mem_nil,
        nothing copy⟩

/-! ## One call -/

theorem guest_diff_exact (when_ : Option String) (mem : Memory) (s : Snapshot) :
    Exact s mem (es3GuestDiff when_ mem s).1 (es3GuestDiff when_ mem s).2.reports := by
  have whole : size s ≤ 0 + size s := Nat.le_of_eq (Nat.zero_add _).symm
  have old (j : Nat) (_ : 0 ≤ j) : s.copy j = s.copy j := rfl
  have start (j : Nat) (next : j + 1 = 0) (_ : j < size s) :
      decide (now s mem j ≠ s.copy j) = false := absurd next (Nat.succ_ne_zero j)
  obtain ⟨runs, contents, refreshed⟩ := diffFrom_exact whole (Nat.zero_le 40) old start
  exact ⟨runs, contents, refreshed, rfl, rfl⟩

theorem Exact.mentions {s s' : Snapshot} {mem : Memory} {reports : List Report}
    (exact_ : Exact s mem s' reports) {i : Nat} (mentioned : Mentions reports i) :
    i < size s ∧ differs s mem i = true := by
  obtain ⟨r, member, has⟩ := mentioned
  have run := (exact_.runs.maximal r.range (List.mem_map_of_mem member)).1
  exact ⟨Nat.lt_of_lt_of_le has.2 run.inside, run.holds i has⟩

/-- The first byte that differs is always reported. -/
theorem Exact.progress {s s' : Snapshot} {mem : Memory} {reports : List Report}
    (exact_ : Exact s mem s' reports) {i : Nat} (inside : i < size s)
    (here : differs s mem i = true) (before : ∀ j, j < i → differs s mem j = false) :
    Mentions reports i := by
  obtain ⟨r, member, has⟩ := exact_.runs.has_first (by decide) inside here before
  obtain ⟨report, listed, rfl⟩ := List.mem_map.mp member
  exact ⟨report, listed, has⟩

/-- A snapshot that was just taken has nothing to report. -/
theorem nothing_after_snapshot (mem : Memory) {lo hi : UInt32} (below : lo < hi)
    (when_ : Option String) :
    ∃ s, es3GuestSnapshot true mem none lo hi = some s ∧
      (es3GuestDiff when_ mem s).2.reports = [] := by
  have fresh : ¬ ((none : Option Snapshot).isSome = true ∨ hi ≤ lo) := by
    simpa using below
  refine ⟨_, by rw [es3GuestSnapshot, if_neg fresh, if_pos rfl], ?_⟩
  rw [List.eq_nil_iff_forall_not_mem]
  intro r member
  have exact_ := guest_diff_exact when_ mem ⟨lo, hi, fun i => mem (lo.toNat + i)⟩
  have run := (exact_.runs.maximal r.range (List.mem_map_of_mem member)).1
  have differ := run.holds r.range.start ⟨Nat.le_refl _, run.nonempty⟩
  simp [differs, now] at differ

/-! ## Call after call -/

section Calls
variable (s : Snapshot) (mem : Memory) (whens : Nat → Option String)

/-- The snapshot before the call number `k`. -/
def before : Nat → Snapshot
  | 0 => s
  | k + 1 => (es3GuestDiff (whens k) mem (before k)).1

def reportsOf (k : Nat) : List Report :=
  (es3GuestDiff (whens k) mem (before s mem whens k)).2.reports

variable {s mem whens}

theorem exact_call (k : Nat) :
    Exact (before s mem whens k) mem (before s mem whens (k + 1)) (reportsOf s mem whens k) :=
  guest_diff_exact (whens k) mem (before s mem whens k)

theorem before_range (k : Nat) :
    (before s mem whens k).lo = s.lo ∧ (before s mem whens k).hi = s.hi := by
  induction k with
  | zero => exact ⟨rfl, rfl⟩
  | succ k ih =>
    have call : Exact (before s mem whens k) mem (before s mem whens (k + 1))
        (reportsOf s mem whens k) := exact_call k
    have same := call.same
    exact ⟨same.1.trans ih.1, same.2.trans ih.2⟩

theorem now_before (k i : Nat) : now (before s mem whens k) mem i = now s mem i := by
  rw [now, (before_range k).1]
  rfl

theorem size_before (k : Nat) : size (before s mem whens k) = size s := by
  rw [size, (before_range k).1, (before_range k).2]
  rfl

/-- After a call what is still different is what it has not reported. -/
theorem differs_succ (k i : Nat) : differs (before s mem whens (k + 1)) mem i = true ↔
    differs (before s mem whens k) mem i = true ∧ ¬ Mentions (reportsOf s mem whens k) i := by
  have call : Exact (before s mem whens k) mem (before s mem whens (k + 1))
      (reportsOf s mem whens k) := exact_call k
  have refreshed := call.refreshed i
  simp only [differs, now_before, decide_eq_true_eq, ne_eq] at refreshed ⊢
  rw [refreshed]
  by_cases mentioned : Mentions (reportsOf s mem whens k) i
  · simp [mentioned]
  · simp [mentioned]

theorem differs_antitone {k k' : Nat} (later : k ≤ k') {i : Nat}
    (still : differs (before s mem whens k') mem i = true) :
    differs (before s mem whens k) mem i = true := by
  induction later with
  | refl => exact still
  | step _ ih => exact ih ((differs_succ _ i).mp still).1

theorem mentioned_differs {k i : Nat} (mentioned : Mentions (reportsOf s mem whens k) i) :
    i < size s ∧ differs s mem i = true := by
  obtain ⟨inside, differ⟩ := (exact_call k).mentions mentioned
  rw [size_before] at inside
  exact ⟨inside, differs_antitone (Nat.zero_le k) differ⟩

/-- Each call deals at least with one byte more, from the left. -/
theorem settled_below (k : Nat) : ∀ i, i < k → i < size s →
    differs (before s mem whens k) mem i = false := by
  induction k with
  | zero => exact fun i before_zero => absurd before_zero (Nat.not_lt_zero i)
  | succ k ih =>
    intro i below inside
    by_contra differ
    obtain ⟨still, unmentioned⟩ := (differs_succ k i).mp (Bool.not_eq_false _ ▸ differ)
    rcases Nat.eq_or_lt_of_le (Nat.le_of_lt_succ below) with rfl | earlier
    · refine unmentioned ((exact_call i).progress (by rwa [size_before]) still fun j less => ?_)
      exact ih j less (Nat.lt_trans less inside)
    · rw [ih i earlier inside] at still
      exact Bool.false_ne_true still

theorem mentioned_once {k k' i : Nat} (mentioned : Mentions (reportsOf s mem whens k) i)
    (again : Mentions (reportsOf s mem whens k') i) : k' ≤ k := by
  by_contra later
  have differ := ((exact_call k').mentions again).2
  have after := differs_antitone (show k + 1 ≤ k' by omega) differ
  exact ((differs_succ k i).mp after).2 mentioned

theorem mentioned_some_time {i : Nat} (inside : i < size s) (differ : differs s mem i = true) :
    ∃ k, Mentions (reportsOf s mem whens k) i := by
  by_contra never
  have still (k : Nat) : differs (before s mem whens k) mem i = true := by
    induction k with
    | zero => exact differ
    | succ k ih => exact (differs_succ k i).mpr ⟨ih, fun mentioned => never ⟨k, mentioned⟩⟩
  have settled : differs (before s mem whens (i + 1)) mem i = false :=
    settled_below (i + 1) i (Nat.lt_succ_self i) inside
  rw [still (i + 1)] at settled
  exact Bool.true_eq_false.mp settled

theorem nothing_left {k : Nat} (enough : size s ≤ k) : reportsOf s mem whens k = [] := by
  rw [List.eq_nil_iff_forall_not_mem]
  intro r member
  have run := ((exact_call k).runs.maximal r.range (List.mem_map_of_mem member)).1
  have first : r.range.Has r.range.start := ⟨Nat.le_refl _, run.nonempty⟩
  have inside : r.range.start < size s := by
    have within := Nat.lt_of_lt_of_le run.nonempty run.inside
    rwa [size_before] at within
  have settled : differs (before s mem whens k) mem r.range.start = false :=
    settled_below k r.range.start (by omega) inside
  rw [run.holds _ first] at settled
  exact Bool.true_eq_false.mp settled

end Calls

/-- Every call is exact; over all the calls each byte that differs, and no other, is reported by
just one of them, and from some call on nothing is. -/
theorem guest_diff_reports (s : Snapshot) (mem : Memory) (whens : Nat → Option String) :
    (∀ k, Exact (before s mem whens k) mem (before s mem whens (k + 1)) (reportsOf s mem whens k)) ∧
      (∀ i, (i < size s ∧ differs s mem i = true) ↔
        ∃! k, Mentions (reportsOf s mem whens k) i) ∧
      ∃ last, ∀ k, last ≤ k → reportsOf s mem whens k = [] := by
  refine ⟨exact_call, fun i => ⟨?_, ?_⟩, size s, fun k => nothing_left⟩
  · rintro ⟨inside, differ⟩
    obtain ⟨k, mentioned⟩ : ∃ k, Mentions (reportsOf s mem whens k) i :=
      mentioned_some_time inside differ
    refine ⟨k, mentioned, fun k' again => ?_⟩
    exact Nat.le_antisymm (mentioned_once mentioned again) (mentioned_once again mentioned)
  · rintro ⟨k, mentioned, -⟩
    exact mentioned_differs mentioned

end Es3Recomp.Guarantees.GuestPatches
