import Es3Recomp.Model.Trail

/-!
# When the readers of the trail agree with its writer

The slots are right for ever, because 2^20 divides 2^32. What the three readers
take from the counter is how many entries there are (src/src/runtime/crash.c:311, 596,
src/tools/__main__.py:106-129), and the counter is 32 bits wide: once it has wrapped
they take the few dispatches since the wrap for all there have been.
-/
namespace Es3Recomp.Guarantees.Trail
open Library Source.Trail Model.Trail

/-- Each reader finds exactly the newest recorded entries, as many as the ring has
or as the reader asks for, oldest first. -/
structure ReadersAgree (sym : Symbols) (t : Trace) (entries : List Entry) : Prop where
  report : ∀ why, (es3ReportState sym t why).lines.map (fun l => (l.tid, l.va)) =
    entries.rtake 24
  lastVa : ∀ tid, lastVaOn sym t tid = lastCall sym tid (entries.rtake cap)
  trail : ∀ file thread imports, ∃ listing,
    cmdTrail file (dump (List.ofFn t.ring)) thread imports = .ok listing ∧
      listing.lines.map (fun l => (l.tid, l.va)) =
        ((entries.rtake cap).map fun e => (e.1.toNat, e.2.toNat)).filter
          fun e => thread = 0 ∨ e.1 = thread

/-- The condition on how many entries have been recorded: the counter has not
wrapped, or has filled the ring again since it last did. -/
def Counted (n : Nat) : Prop := n < 4294967296 ∨ 1048576 ≤ n % 4294967296

theorem length_rtake {α : Type} (xs : List α) (k : Nat) : (xs.rtake k).length = min k xs.length := by
  rw [List.rtake, List.length_drop]
  omega

/-- As far back as a reader may go, it finds what was recorded. -/
theorem recent_recorded (t : Trace) (calls : List Entry) {limit : Nat} (fits : limit ≤ cap)
    (counted : Counted (recorded t calls).length) :
    (logOf (noted t calls)).recent (min (logOf (noted t calls)).count.val limit) =
      (recorded t calls).rtake limit := by
  have logs := (noted_logs t calls).1
  have count : (logOf (noted t calls)).count.val = (recorded t calls).length % 4294967296 :=
    logs.count
  have newest := RingLog.recent_eq cap_dvd_modulus logs
    (k := min (logOf (noted t calls)).count.val limit) (Nat.min_le_left _ _)
    (Nat.le_trans (Nat.min_le_right _ _) fits)
  have bound : cap = 1048576 := rfl
  rw [newest, List.rtake, List.rtake]
  congr 1
  rcases counted with small | full
  · omega
  · omega

theorem readersAgree_of_counted (sym : Symbols) (t : Trace) (calls : List Entry)
    (counted : Counted (recorded t calls).length) :
    ReadersAgree sym (noted t calls) (recorded t calls) := by
  have window := recent_recorded t calls (Nat.le_refl cap) counted
  refine ⟨fun why => ?_, fun tid => ?_, fun file thread imports => ?_⟩
  · rw [reportState_entries, recent_recorded t calls (by decide) counted]
  · rw [lastVaOn_entries, window]
  · rw [← window]
    exact cmdTrail_entries _ (noted_logs t calls).2.1 file thread imports

/-- `cmd_trail` lists as many entries as the counter says, so agreement needs a
counter that says enough. -/
theorem counted_of_readersAgree (sym : Symbols) (t : Trace) (calls : List Entry)
    (agree : ReadersAgree sym (noted t calls) (recorded t calls)) :
    Counted (recorded t calls).length := by
  obtain ⟨logs, stride, -⟩ := noted_logs t calls
  obtain ⟨listing, run, wanted⟩ := agree.trail "es3_trail.bin" 0 []
  obtain ⟨listing', run', lines⟩ := cmdTrail_entries _ stride "es3_trail.bin" 0 []
  obtain rfl : listing' = listing := by
    rw [run] at run'
    exact (Except.ok.inj run').symm
  have count : (logOf (noted t calls)).count.val = (recorded t calls).length % 4294967296 :=
    logs.count
  have lengths := congrArg List.length (lines.symm.trans wanted)
  simp only [true_or, decide_true, List.filter_true, List.length_map, length_rtake,
    RingLog.recent, List.length_range] at lengths
  have bound : cap = 1048576 := rfl
  unfold Counted
  omega

/-- Writer and readers agree exactly as long as the counter has not wrapped, or has
filled the ring again since. -/
theorem readers_agree_iff (sym : Symbols) (t : Trace) (calls : List Entry) :
    ReadersAgree sym (noted t calls) (recorded t calls) ↔ Counted (recorded t calls).length :=
  ⟨counted_of_readersAgree sym t calls, readersAgree_of_counted sym t calls⟩

/-- After 2^32 dispatches of one thread the counter is 0 and a full ring reads as
an empty one. -/
theorem readers_disagree :
    ¬ ReadersAgree ⟨0, fun _ => "", fun _ => "", 0⟩
      (noted ⟨fun _ => 0, false⟩ (List.replicate 4294967296 (0x1234, 0x401000)))
      (List.replicate 4294967296 (0x1234, 0x401000)) := by
  intro agree
  have counted := counted_of_readersAgree _ ⟨fun _ => 0, false⟩ _ agree
  rw [recorded, if_neg Bool.false_ne_true, List.length_replicate] at counted
  exact absurd counted (by unfold Counted; decide)

end Es3Recomp.Guarantees.Trail
