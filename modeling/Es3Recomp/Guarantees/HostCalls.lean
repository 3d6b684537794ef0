import Es3Recomp.Library.ProbeTable
import Es3Recomp.Library.Transducer
import Es3Recomp.Source.HostCalls

/-!
# Which host calls are reported

A target that finds 65 slots taken by others is put in the last of them all the same
(src/src/runtime/hle_native.c:383-392). The one that was there is then not found any more, and
reported again. As long as that does not happen the table is sound.
-/
namespace Es3Recomp.Guarantees.HostCalls
open Library Library.ProbeTable Source.HostCalls

variable {seen : Seen} {target : UInt32} {targets : List UInt32}

/-- The slots that a call looks at. -/
def TRIES : Nat := 65

def stop (seen : Seen) (target : UInt32) : Option Nat := search 0 4096 home seen target TRIES 0

/-- All the slots that a call looks at have other targets in them. -/
def Crowded (seen : Seen) (target : UInt32) : Prop :=
  ∀ n, n < TRIES → seen ((home target + n) % 4096) ≠ 0 ∧ seen ((home target + n) % 4096) ≠ target

instance (seen : Seen) (target : UInt32) : Decidable (Crowded seen target) :=
  inferInstanceAs (Decidable (∀ n, n < TRIES → _ ∧ _))

theorem crowded_iff : Crowded seen target ↔ stop seen target = none := by
  rw [stop, search_none_iff]
  constructor
  · intro crowded n _ tried
    exact (crowded n (by omega)).symm
  · intro taken n tried
    exact (taken n (Nat.zero_le n) (by omega)).symm

theorem next_place (n : Nat) :
    (place 4096 home target n + 1) &&& 4095 = place 4096 home target (n + 1) := by
  have masked : ∀ m : Nat, m &&& 4095 = m % 4096 := fun m => Nat.and_two_pow_sub_one_eq_mod m 12
  rw [masked, place, place, Nat.mod_add_mod, Nat.add_assoc]

theorem first_place : place 4096 home target 0 = home target := by
  rw [place, Nat.add_zero]
  refine Nat.mod_eq_of_lt (Nat.lt_of_le_of_lt Nat.and_le_right (by decide))

/-- The loop stops where the search does, and after the last try all the same. -/
theorem probe_eq (tries n : Nat) :
    probe seen target tries (place 4096 home target n) =
      (search 0 4096 home seen target (tries + 1) n).getD (place 4096 home target (n + tries)) := by
  induction tries generalizing n with
  | zero =>
    rw [probe, search]
    split <;> rfl
  | succ tries ih =>
    rw [probe, search]
    by_cases here : seen (place 4096 home target n) = target ∨ seen (place 4096 home target n) = 0
    · have halt : ¬ (seen (place 4096 home target n) ≠ 0 ∧
          seen (place 4096 home target n) ≠ target) := by tauto
      rw [if_neg halt, if_pos here, Option.getD_some]
    · have on : seen (place 4096 home target n) ≠ 0 ∧
          seen (place 4096 home target n) ≠ target := by tauto
      rw [if_pos on, if_neg here, next_place, ih, Nat.add_right_comm, Nat.add_assoc]

/-- A call that is not crowded ends in the slot where the search ends. -/
theorem noteHostCall_eq {k : Nat} (found : stop seen target = some k) :
    noteHostCall true seen target =
      if seen k = target then (seen, false) else (put seen k target, true) := by
  have slot : probe seen target 64 (home target) = k := by
    rw [← first_place, probe_eq]
    exact congrArg (Option.getD · _) found
  rw [noteHostCall, if_neg (by decide), slot]
  rfl

/-- The table has what has been called, and nothing else. -/
structure Knows (seen : Seen) (targets : List UInt32) : Prop where
  sound : Sound 0 4096 home TRIES seen
  called : ∀ target, target ≠ 0 → (Has 4096 seen target ↔ target ∈ targets)

def empty : Seen := fun _ => 0

theorem knows_nil : Knows empty [] := by
  refine ⟨sound_empty, fun target some_ => iff_of_false (fun has => ?_) List.not_mem_nil⟩
  obtain ⟨_, _, zero⟩ := has
  exact some_ zero.symm

/-- A new target in the free slot where the search for it ends. -/
theorem Knows.put (knows : Knows seen targets) {k : Nat} (found : stop seen target = some k)
    (was_free : seen k = 0) : Knows (put seen k target) (targets ++ [target]) := by
  have inside : k < 4096 := search_lt (by decide) found
  refine ⟨knows.sound.put found was_free, fun other some_ => ?_⟩
  rw [has_put inside was_free some_, knows.called other some_, List.mem_append,
    List.mem_singleton]

/-- One call reports the target just when it is new. -/
theorem Knows.step (knows : Knows seen targets) (some_ : target ≠ 0)
    (roomy : ¬ Crowded seen target) :
    Knows (noteHostCall true seen target).1 (targets ++ [target]) ∧
      ((noteHostCall true seen target).2 = true ↔ target ∉ targets) := by
  obtain ⟨k, found⟩ := Option.ne_none_iff_exists'.mp fun none => roomy (crowded_iff.mpr none)
  have inside : k < 4096 := search_lt (by decide) found
  rw [noteHostCall_eq found]
  by_cases there : seen k = target
  · have member : target ∈ targets := (knows.called target some_).mp ⟨k, inside, there⟩
    rw [if_pos there]
    refine ⟨⟨knows.sound, fun other nonzero => ?_⟩, ?_⟩
    · rw [knows.called other nonzero, List.mem_append, List.mem_singleton]
      exact ⟨Or.inl, fun either => either.elim id fun same => same ▸ member⟩
    · exact iff_of_false Bool.false_ne_true fun new => new member
  · have was_free : seen k = 0 := (search_some found).2.resolve_left there
    have new : target ∉ targets := by
      intro member
      obtain ⟨k', found', _, there'⟩ :=
        (knows.sound.has_iff some_).mp ((knows.called target some_).mpr member)
      rw [← Option.some.inj (found.symm.trans found')] at there'
      exact there there'
    rw [if_neg there]
    exact ⟨knows.put found was_free, iff_of_true rfl new⟩

/-! ## Calls in a row -/

/-- `note_host_call`, call after call, with the trace on. -/
def hostCalls : Transducer Seen UInt32 Bool where
  step seen target := ((noteHostCall true seen target).1, [(noteHostCall true seen target).2])

/-- A call is reported just when its target has not been called before. -/
structure Once (targets : List UInt32) (reports : List Bool) : Prop where
  answered : reports.length = targets.length
  first : ∀ (i : Nat) (target : UInt32), targets[i]? = some target →
    (reports[i]? = some true ↔ target ∉ targets.take i)

theorem Once.concat {reports : List Bool} {report : Bool} (once : Once targets reports)
    (here : report = true ↔ target ∉ targets) :
    Once (targets ++ [target]) (reports ++ [report]) := by
  refine ⟨by rw [List.length_append, List.length_append, once.answered]; rfl, ?_⟩
  intro i t at_i
  rcases Nat.lt_or_ge i targets.length with old | new
  · rw [List.getElem?_append_left old] at at_i
    rw [List.getElem?_append_left (once.answered ▸ old), List.take_append_of_le_length
      (Nat.le_of_lt old)]
    exact once.first i t at_i
  · rcases getElem?_concat at_i with earlier | ⟨last, same⟩
    · exact absurd (List.getElem?_eq_some_iff.mp earlier).1 (Nat.not_lt.mpr new)
    · have at_last : (reports ++ [report])[i]? = some report := by
        rw [last, ← once.answered, List.getElem?_concat_length]
      rw [at_last, Option.some.injEq, last, List.take_left, same]
      exact here

/-- As long as no call finds its slots crowded, each target is reported when it comes first and
never again. -/
theorem note_host_call_once (targets : List UInt32) (some_ : ∀ target ∈ targets, target ≠ 0)
    (roomy : hostCalls.Along (fun seen target => ¬ Crowded seen target) empty targets) :
    Once targets (hostCalls.run empty targets).2 := by
  have both : Knows (hostCalls.run empty targets).1 targets ∧
      Once targets (hostCalls.run empty targets).2 := by
    induction targets using List.reverseRecOn with
    | nil => exact ⟨knows_nil, rfl, fun _ _ absurd => nomatch absurd⟩
    | append_singleton targets target ih =>
      obtain ⟨before, nonzero⟩ := forall_mem_concat.mp some_
      obtain ⟨earlier, here, _⟩ := hostCalls.along_append.mp roomy
      obtain ⟨knows, once⟩ := ih before earlier
      obtain ⟨knows', reported⟩ := knows.step nonzero here
      rw [Transducer.run_concat]
      exact ⟨knows', once.concat reported⟩
  exact both.2

/-- Two targets with one home, and both again. -/
theorem one_home_reported_once :
    Once [0x10000, 0x14000, 0x10000, 0x14000] [true, true, false, false] :=
  note_host_call_once [0x10000, 0x14000, 0x10000, 0x14000] (by simp) (by decide +kernel)

/-- Sixty-six targets with one home. -/
def colliding : List UInt32 :=
  (List.range 66).map fun k => 0x10000 + 0x4000 * UInt32.ofNat k

theorem evicted_again :
    ¬ Once (colliding ++ [0x110000]) (hostCalls.run empty (colliding ++ [0x110000])).2 := by
  intro once
  have reported : (hostCalls.run empty (colliding ++ [0x110000])).2[66]? = some true := by
    decide +kernel
  have again : (0x110000 : UInt32) ∈ (colliding ++ [0x110000]).take 66 := by decide +kernel
  exact (once.first 66 0x110000 (by decide +kernel)).mp reported again

end Es3Recomp.Guarantees.HostCalls
