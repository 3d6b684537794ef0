import Es3Recomp.Source.Jvs.Timetable

/-!
# When the timetable is on time

`seq_tick` (src/src/runtime/jvs.c:520-539) goes through the entries with one cursor, in the
order they were written, and stops at the first that is not due by a clock of 32 bits. The
comment in front of it gives an entry its time, and asks for no order.
-/
namespace Es3Recomp.Guarantees.Jvs.Switches
open Library Source.Jvs Source.Jvs.Switches

/-! ## What is asked for -/

/-- The milliseconds since the board opened. -/
def elapsed (s : Timetable) (now : UInt64) : Nat := now.toNat - s.t0.toNat

def Due (e : Nat) (k : Entry) : Prop := k.when.toNat ≤ e

instance (e : Nat) : DecidablePred (Due e) := fun k => inferInstanceAs (Decidable (k.when.toNat ≤ e))

/-- The entries of a field that are due, as they were written. -/
def dueOf (seq : List Entry) (f : Field) (e : Nat) : List Entry :=
  seq.filter fun k => k.field = f ∧ Due e k

/-- The entry with the greatest time, the later one among equals. -/
def latest (entries : List Entry) : Option Entry :=
  entries.foldl (fun best k =>
    match best with
    | none => some k
    | some b => if b.when ≤ k.when then some k else some b) none

def bitsOr (initial : UInt32) (k : Option Entry) : UInt32 := k.elim initial Entry.bits

/-- After a tick at which `e` milliseconds have gone: `applied` are the places in `g_seq` that
all the ticks so far came to. -/
structure OnTime (s : Timetable) (applied : List Nat) (e : Nat) : Prop where
  once : ∀ i, applied.count i = if ∃ k, s.seq[i]? = some k ∧ Due e k then 1 else 0
  switches : ∀ f, f ≠ .shot → switches s.inputs f =
    bitsOr (switches Inputs.initial f) (latest (dueOf s.seq f e))

/-! ## When it is kept -/

/-- Before a tick at `now`. -/
structure InOrder (s : Timetable) (now : UInt64) : Prop where
  /-- no entry that is due stands behind one that is not -/
  front : ∀ (i j : Nat) ki kj, i < j → s.seq[i]? = some ki → s.seq[j]? = some kj →
    Due (elapsed s now) kj → Due (elapsed s now) ki
  /-- the last due entry of a field has the bits of the one with the greatest time -/
  last : ∀ f, f ≠ .shot → bitsOr (switches Inputs.initial f)
      (dueOf s.seq f (elapsed s now)).getLast? =
    bitsOr (switches Inputs.initial f) (latest (dueOf s.seq f (elapsed s now)))
  /-- the clock of 32 bits has not begun again, or what is left is due by it too -/
  clock : elapsed s now < 2 ^ 32 ∨ ∀ k ∈ s.seq.drop s.done, Due (elapsed s now % 2 ^ 32) k

/-! ## One tick -/

/-- What a tick does to the cursor and to what goes with it. -/
structure Ticked (s : Timetable) (now : UInt64) (s' : Timetable) (applied : List Nat) : Prop where
  same : s'.seq = s.seq ∧ s'.t0 = s.t0
  further : s.done ≤ s'.done ∧ (s.done ≤ s.seq.length → s'.done ≤ s.seq.length)
  applied : applied = List.range' s.done (s'.done - s.done)
  inputs : s'.inputs = ((s.seq.drop s.done).take (s'.done - s.done)).foldl Entry.apply s.inputs
  due : ∀ i k, s.done ≤ i → i < s'.done → s.seq[i]? = some k →
    Due (elapsed s now % 2 ^ 32) k
  stop : ∀ k, s.seq[s'.done]? = some k → ¬Due (elapsed s now % 2 ^ 32) k

theorem toNat_elapsed {s : Timetable} {now : UInt64} (later : s.t0 ≤ now) :
    (now - s.t0).toUInt32.toNat = elapsed s now % 2 ^ 32 := by
  rw [UInt64.toNat_toUInt32, UInt64.toNat_sub_of_le _ _ later, elapsed]

theorem due_iff_le {s : Timetable} {now : UInt64} (later : s.t0 ≤ now) (k : Entry) :
    k.when ≤ (now - s.t0).toUInt32 ↔ Due (elapsed s now % 2 ^ 32) k := by
  rw [UInt32.le_iff_toNat_le, toNat_elapsed later, Due]

/-- The loop is left where it stands. -/
theorem ticked_stop {s : Timetable} {now : UInt64}
    (stop : ∀ k, s.seq[s.done]? = some k → ¬Due (elapsed s now % 2 ^ 32) k) :
    Ticked s now s [] where
  same := ⟨rfl, rfl⟩
  further := ⟨Nat.le_refl _, id⟩
  applied := by rw [Nat.sub_self]; rfl
  inputs := by rw [Nat.sub_self]; rfl
  due := fun _ _ from_ below => absurd below (Nat.not_lt.mpr from_)
  stop := stop

/-- The entry at the cursor, and then the rest. -/
theorem ticked_next {s : Timetable} {now : UInt64} {k : Entry} (here : s.seq[s.done]? = some k)
    (due : Due (elapsed s now % 2 ^ 32) k) {s' : Timetable} {applied : List Nat}
    (rest : Ticked { s with done := s.done + 1, inputs := k.apply s.inputs } now s' applied) :
    Ticked s now s' (s.done :: applied) := by
  have further := rest.further.1
  have inside := (List.getElem?_eq_some_iff.mp here).1
  have count : s'.done - s.done = s'.done - (s.done + 1) + 1 := by
    dsimp only at further
    omega
  refine ⟨rest.same, ⟨Nat.le_of_succ_le further, fun _ => rest.further.2 inside⟩, ?_, ?_, ?_,
    rest.stop⟩
  · rw [rest.applied, count, List.range'_succ]
  · have first : s.seq[s.done] = k := (List.getElem?_eq_some_iff.mp here).2
    rw [rest.inputs, count, List.drop_eq_getElem_cons inside, List.take_succ_cons, List.foldl_cons,
      first]
  · intro i k' from_ below there
    rcases Nat.eq_or_lt_of_le from_ with rfl | past
    · rw [here] at there
      cases there
      exact due
    · exact rest.due i k' past below there

theorem applyDue_ticked {s : Timetable} {now : UInt64} (later : s.t0 ≤ now) {turns : Nat}
    (enough : s.seq.length - s.done ≤ turns) :
    Ticked s now (applyDue (now - s.t0).toUInt32 turns s).1
      (applyDue (now - s.t0).toUInt32 turns s).2 := by
  induction turns generalizing s with
  | zero =>
    apply ticked_stop
    intro k here
    have inside := (List.getElem?_eq_some_iff.mp here).1
    omega
  | succ turns ih =>
    rw [applyDue]
    split
    · rename_i none
      apply ticked_stop
      intro k here
      rw [none] at here
      cases here
    · rename_i k here
      split
      · rename_i le
        exact ticked_next here ((due_iff_le later k).mp le)
          (ih (s := { s with done := s.done + 1, inputs := k.apply s.inputs }) later
            (by dsimp only; omega))
      · rename_i notYet
        apply ticked_stop
        intro k' there
        rw [here] at there
        cases there
        exact mt (due_iff_le later k).mpr notYet

theorem seqTick_ticked {s : Timetable} {now : UInt64} (later : s.t0 ≤ now) :
    Ticked s now (seqTick s now).1 (seqTick s now).2 := by
  unfold seqTick
  split
  · rename_i all
    apply ticked_stop
    intro k here
    have inside := (List.getElem?_eq_some_iff.mp here).1
    omega
  · exact applyDue_ticked later (Nat.le_refl _)

/-! ## Runs of ticks -/

/-- After some ticks: the cursor stands behind the entries that were applied, each once, and
nothing was applied before its time. -/
structure Reached (start : Timetable) (ticks : List UInt64) (s : Timetable) (applied : List Nat) :
    Prop where
  same : s.seq = start.seq ∧ s.t0 = start.t0
  inside : s.done ≤ s.seq.length
  applied : applied = List.range s.done
  inputs : s.inputs = (s.seq.take s.done).foldl Entry.apply start.inputs
  due : ∀ now, (∀ t ∈ ticks, t ≤ now) → ∀ i k, i < s.done → s.seq[i]? = some k →
    Due (elapsed s now) k

theorem Reached.tick {start s s' : Timetable} {ticks : List UInt64} {applied new : List Nat}
    {now : UInt64} (reached : Reached start ticks s applied)
    (ticked : Ticked s now s' new) : Reached start (ticks ++ [now]) s' (applied ++ new) := by
  obtain ⟨seq, t0⟩ := ticked.same
  have further := ticked.further.1
  have whole : s.done + (s'.done - s.done) = s'.done := by omega
  refine ⟨?_, ?_, ?_, ?_, ?_⟩
  · rw [seq, t0]
    exact reached.same
  · rw [seq]
    exact ticked.further.2 reached.inside
  · have both : List.range' 0 s.done ++ List.range' (0 + s.done) (s'.done - s.done) =
        List.range' 0 (s.done + (s'.done - s.done)) := List.range'_append_1
    rw [Nat.zero_add, whole] at both
    rw [reached.applied, ticked.applied, List.range_eq_range', both, List.range_eq_range']
  · rw [ticked.inputs, reached.inputs, seq, ← List.foldl_append, ← whole, List.take_add, whole]
  · intro now' bound i k below there
    obtain ⟨earlier, last⟩ := forall_mem_concat.mp bound
    rw [seq] at there
    have same : elapsed s' now' = elapsed s now' := by rw [elapsed, t0, elapsed]
    rw [same]
    by_cases before : i < s.done
    · exact reached.due now' earlier i k before there
    · have due := ticked.due i k (Nat.not_lt.mp before) below there
      have order := UInt64.le_iff_toNat_le.mp last
      have wraps := Nat.mod_le (elapsed s now) (2 ^ 32)
      unfold Due elapsed at *
      omega

theorem run_reached (env : Option Text) (t0 : UInt64) {ticks : List UInt64}
    (later : ∀ t ∈ ticks, t0 ≤ t) :
    Reached (seqInit env t0) ticks (ticker.run (seqInit env t0) ticks).1
      (ticker.run (seqInit env t0) ticks).2 := by
  induction ticks using List.reverseRecOn with
  | nil =>
    refine ⟨⟨rfl, rfl⟩, Nat.zero_le _, rfl, rfl, ?_⟩
    exact fun _ _ i k below => absurd below (Nat.not_lt_zero i)
  | append_singleton ticks now ih =>
    obtain ⟨before, now'⟩ := forall_mem_concat.mp later
    have reached := ih before
    rw [Transducer.run_concat]
    refine reached.tick (seqTick_ticked ?_)
    rwa [reached.same.2]

/-! ## The switches -/

theorem switches_apply (inputs : Inputs) (k : Entry) {f : Field} (switch : f ≠ .shot) :
    switches (k.apply inputs) f = if k.field = f then k.bits else switches inputs f := by
  obtain ⟨when, field, bits⟩ := k
  cases field <;> cases f <;> first | rfl | exact absurd rfl switch

/-- A switch has the bits of the last entry for it. -/
theorem switches_foldl (inputs : Inputs) (entries : List Entry) {f : Field} (switch : f ≠ .shot) :
    switches (entries.foldl Entry.apply inputs) f =
      bitsOr (switches inputs f) (entries.filter fun k => k.field = f).getLast? := by
  induction entries using List.reverseRecOn with
  | nil => rfl
  | append_singleton entries k ih =>
    rw [List.foldl_append, List.foldl_cons, List.foldl_nil, switches_apply _ _ switch,
      List.filter_append]
    by_cases here : k.field = f
    · rw [if_pos here, List.filter_cons_of_pos (by rwa [decide_eq_true_iff]), List.filter_nil,
        List.getLast?_concat]
      rfl
    · rw [if_neg here, ih, List.filter_cons_of_neg (by rwa [decide_eq_true_iff]), List.filter_nil,
        List.append_nil]

/-! ## The law -/

/-- The entries before the cursor are those that are due. -/
def Exact (s : Timetable) (cursor e : Nat) : Prop :=
  ∀ i, i < cursor ↔ ∃ k, s.seq[i]? = some k ∧ Due e k

theorem count_range_iff (s : Timetable) (cursor e : Nat) :
    (∀ i, (List.range cursor).count i = if ∃ k, s.seq[i]? = some k ∧ Due e k then 1 else 0) ↔
      Exact s cursor e := by
  refine forall_congr' fun i => ?_
  rw [List.nodup_range.count]
  simp only [List.mem_range]
  split <;> split <;> simp [*]

/-- Which entries are due does not change behind the cursor and before it. -/
theorem dueOf_exact {s : Timetable} {cursor e : Nat} (exact : Exact s cursor e) (f : Field) :
    dueOf s.seq f e = (s.seq.take cursor).filter fun k => k.field = f := by
  have split : dueOf s.seq f e = dueOf (s.seq.take cursor) f e ++ dueOf (s.seq.drop cursor) f e := by
    rw [dueOf, dueOf, dueOf, ← List.filter_append, List.take_append_drop]
  have before : dueOf (s.seq.take cursor) f e =
      (s.seq.take cursor).filter fun k => k.field = f := by
    apply List.filter_congr
    intro k member
    obtain ⟨i, there⟩ := List.mem_iff_getElem?.mp member
    rw [List.getElem?_take] at there
    split at there
    · rename_i below
      obtain ⟨k', there', due⟩ := (exact i).mp below
      rw [there'] at there
      cases there
      simp only [due, and_true]
    · cases there
  have behind : dueOf (s.seq.drop cursor) f e = [] := by
    rw [dueOf, List.filter_eq_nil_iff]
    intro k member due
    obtain ⟨i, there⟩ := List.mem_iff_getElem?.mp member
    rw [List.getElem?_drop] at there
    have below := (exact (cursor + i)).mpr ⟨k, there, (of_decide_eq_true due).2⟩
    omega
  rw [split, before, behind, List.append_nil]

section Tick
variable {start s s' : Timetable} {ticks : List UInt64} {applied new : List Nat} {now : UInt64}

theorem exact_iff (reached : Reached start ticks s applied)
    (order : ∀ t ∈ ticks, t ≤ now) (ticked : Ticked s now s' new) :
    Exact s s'.done (elapsed s now) ↔
      (∀ (i j : Nat) ki kj, i < j → s.seq[i]? = some ki → s.seq[j]? = some kj →
        Due (elapsed s now) kj → Due (elapsed s now) ki) ∧
      (elapsed s now < 2 ^ 32 ∨ ∀ k ∈ s.seq.drop s.done, Due (elapsed s now % 2 ^ 32) k) := by
  have after := reached.tick ticked
  have same : elapsed s' now = elapsed s now := by rw [elapsed, ticked.same.2, elapsed]
  have applied : ∀ i k, i < s'.done → s.seq[i]? = some k → Due (elapsed s now) k := by
    intro i k below there
    rw [← ticked.same.1] at there
    rw [← same]
    exact after.due now (forall_mem_concat.mpr ⟨order, UInt64.le_refl now⟩) i k below there
  have inside : s'.done ≤ s.seq.length := ticked.further.2 reached.inside
  constructor
  · intro exact
    refine ⟨fun i j ki kj before here there due => ?_, ?_⟩
    · have below := (exact j).mpr ⟨kj, there, due⟩
      exact applied i ki (Nat.lt_trans before below) here
    · by_cases short : elapsed s now < 2 ^ 32
      · exact Or.inl short
      · refine Or.inr fun k member => ?_
        obtain ⟨i, there⟩ := List.mem_iff_getElem?.mp member
        rw [List.getElem?_drop] at there
        have due : Due (elapsed s now) k :=
          Nat.le_trans (Nat.le_of_lt k.when.toNat_lt) (Nat.not_lt.mp short)
        have below := (exact (s.done + i)).mpr ⟨k, there, due⟩
        exact ticked.due _ k (Nat.le_add_right _ _) below there
  · rintro ⟨front, clock⟩ i
    refine ⟨fun below => ?_, ?_⟩
    · have there := List.getElem?_eq_getElem (Nat.lt_of_lt_of_le below inside)
      exact ⟨_, there, applied i _ below there⟩
    · rintro ⟨k, there, due⟩
      by_contra past
      have bound := (List.getElem?_eq_some_iff.mp there).1
      obtain ⟨stopped, atStop⟩ : ∃ k', s.seq[s'.done]? = some k' :=
        ⟨_, List.getElem?_eq_getElem (Nat.lt_of_le_of_lt (Nat.not_lt.mp past) bound)⟩
      -- the entry the loop stopped at is due as well, so it would not have stopped
      have dueThere : Due (elapsed s now) stopped := by
        rcases Nat.eq_or_lt_of_le (Nat.not_lt.mp past) with same | before
        · rw [same, there] at atStop
          cases atStop
          exact due
        · exact front s'.done i stopped k before atStop there due
      apply ticked.stop stopped atStop
      rcases clock with short | rest
      · rwa [Nat.mod_eq_of_lt short]
      · apply rest
        have place : s.seq[s.done + (s'.done - s.done)]? = some stopped := by
          rwa [Nat.add_sub_cancel' ticked.further.1]
        rw [← List.getElem?_drop] at place
        exact List.mem_of_getElem? place

theorem onTime_iff_inOrder (fresh : start.inputs = Inputs.initial)
    (reached : Reached start ticks s applied) (order : ∀ t ∈ ticks, t ≤ now)
    (ticked : Ticked s now s' new) :
    OnTime s' (applied ++ new) (elapsed s now) ↔ InOrder s now := by
  have after := reached.tick ticked
  have exactly := exact_iff reached order ticked
  have once : (∀ i, (applied ++ new).count i =
      if ∃ k, s'.seq[i]? = some k ∧ Due (elapsed s now) k then 1 else 0) ↔
        Exact s s'.done (elapsed s now) := by
    rw [after.applied, ticked.same.1]
    exact count_range_iff s s'.done (elapsed s now)
  have held : Exact s s'.done (elapsed s now) → ∀ f, f ≠ .shot → switches s'.inputs f =
      bitsOr (switches Inputs.initial f) (dueOf s.seq f (elapsed s now)).getLast? := by
    intro exact f switch
    rw [after.inputs, switches_foldl _ _ switch, fresh, ticked.same.1, dueOf_exact exact]
  constructor
  · rintro ⟨count, fields⟩
    have exact := once.mp count
    obtain ⟨front, clock⟩ := exactly.mp exact
    refine ⟨front, fun f switch => ?_, clock⟩
    rw [← held exact f switch, fields f switch, ticked.same.1]
  · rintro ⟨front, last, clock⟩
    have exact := exactly.mpr ⟨front, clock⟩
    refine ⟨once.mpr exact, fun f switch => ?_⟩
    rw [held exact f switch, last f switch, ticked.same.1]

end Tick

/-- Whatever the text of ES3_JVS_SEQ is and whenever it ticks: after every tick the timetable is
on time just when it was in order before it. -/
theorem timetable_on_time_iff (env : Option Text) (t0 : UInt64) (ticks : List UInt64)
    (now : UInt64) (ordered : (t0 :: (ticks ++ [now])).Pairwise (· ≤ ·)) :
    let before := ticker.run (seqInit env t0) ticks
    let after := ticker.run (seqInit env t0) (ticks ++ [now])
    OnTime after.1 after.2 (now.toNat - t0.toNat) ↔ InOrder before.1 now := by
  obtain ⟨later, ordered⟩ := List.pairwise_cons.mp ordered
  obtain ⟨-, -, order⟩ := List.pairwise_append.mp ordered
  obtain ⟨laterTicks, laterNow⟩ := forall_mem_concat.mp later
  have reached := run_reached env t0 laterTicks
  have clock : (ticker.run (seqInit env t0) ticks).1.t0 = t0 := reached.same.2
  have started : (ticker.run (seqInit env t0) ticks).1.t0 ≤ now := by
    rwa [clock]
  have law := onTime_iff_inOrder rfl reached
    (fun t member => order t member now List.mem_cons_self) (seqTick_ticked started)
  dsimp only
  rw [Transducer.run_concat]
  rwa [elapsed, clock] at law

/-- Two entries in the order of their times, a tick at the first and one past the second. -/
theorem forwards_on_time :
    let env : Option Text := some "100:sys=80,200:p1=0200".toList
    ((1000 : UInt64) :: ([1100] ++ [1207])).Pairwise (· ≤ ·) ∧
      (OnTime (ticker.run (seqInit env 1000) ([1100] ++ [1207])).1
          (ticker.run (seqInit env 1000) ([1100] ++ [1207])).2 207 ↔
        InOrder (ticker.run (seqInit env 1000) [1100]).1 1207) :=
  ⟨by decide, timetable_on_time_iff _ 1000 [1100] 1207 (by decide)⟩

/-- A press that is written behind a later one. -/
def backwards : Text := "200:p1=0200,100:sys=80".toList

/-- It is not applied when its time has come. -/
theorem earlier_entry_waits :
    let after := ticker.run (seqInit (some backwards) 1000) [1100]
    after.2 = [] ∧ after.1.inputs.swSys = 0 ∧ ¬OnTime after.1 after.2 100 := by
  refine ⟨by decide +kernel, by decide +kernel, fun onTime => ?_⟩
  have pressed := onTime.switches .sys (by decide)
  revert pressed
  decide +kernel

end Es3Recomp.Guarantees.Jvs.Switches
