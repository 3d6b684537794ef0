import Es3Recomp.Model.Jvs.Execution

/-!
# When packet handling stays inside its arrays

`handle_packet` tests neither its argument reads against `n` nor a report against
the 256 bytes of `body` before it has written it (src/src/runtime/jvs.c:204-332); the
only size test comes after a command. `handlePacket_inBounds_iff` gives the exact
condition on the bytes of the packet under which no access leaves its array.
-/
namespace Es3Recomp.Guarantees.Jvs
open Library Source.Jvs Model.Jvs

/-- Reads of `data` below `n`, writes of `body` below 256, and a reply that is not
longer than `body`. -/
structure StaysInBounds (h : Handling) (n : Nat) : Prop where
  reads : ∀ i ∈ h.reads, i < n
  writes : h.top ≤ 256
  replied : ∀ body, h.replied = some body → body.length ≤ 256

/-- Every command the packet gets as far as has, inside the packet, the argument
bytes that the source reads, and a report that still fits into `body`. -/
def CommandsFit (data : Nat → UInt8) (n : Nat) : Prop :=
  ∀ v ∈ visited data n, v.i + v.cmd.argReads < n ∧ v.len + v.cmd.reportLength ≤ 256

instance (data : Nat → UInt8) (n : Nat) : Decidable (CommandsFit data n) :=
  inferInstanceAs (Decidable (∀ v ∈ visited data n, _))

theorem highWater_le_iff (top bound : Nat) (vs : List Visit) :
    highWater top vs ≤ bound ↔
      top ≤ bound ∧ ∀ v ∈ vs, v.len + v.cmd.reportLength ≤ bound := by
  induction vs generalizing top with
  | nil => simp [highWater]
  | cons v vs ih =>
    have step : highWater top (v :: vs) =
        highWater (max top (v.len + v.cmd.reportLength)) vs := rfl
    rw [step, ih, Nat.max_le, List.forall_mem_cons, and_assoc]

theorem readsAt_lt_iff (i n : Nat) (c : Command) :
    (∀ r ∈ readsAt i c, r < n) ↔ i + c.argReads < n := by
  simp only [readsAt, List.mem_map, List.mem_range, forall_exists_index, and_imp,
    forall_apply_eq_imp_iff₂]
  constructor
  · intro h
    exact h c.argReads (by omega)
  · intro h k hk
    omega

/-- The reports of a walk end at its high-water mark. -/
theorem total_le_highWater (data : Nat → UInt8) (n turns i len top : Nat) (start : len ≤ top) :
    len + ((visits data n turns i len).map (fun v => v.cmd.reportLength)).sum ≤
      highWater top (visits data n turns i len) := by
  induction turns generalizing i len top with
  | zero => exact start
  | succ turns ih =>
    unfold visits
    by_cases inside : i < n
    · simp only [if_pos inside]
      generalize Command.decode data i = c
      split
      · exact Nat.le_max_right _ _
      · have rest := ih (i + c.size) (len + c.reportLength) (max top (len + c.reportLength))
          (Nat.le_max_right _ _)
        simp only [List.map_cons, List.sum_cons, ← Nat.add_assoc]
        exact rest
    · rw [if_neg inside]
      exact start

theorem length_replyBody_le (m : Machine) (inputs : Inputs) (p : JvsPort) (data : Nat → UInt8)
    (n : Nat) (body : List UInt8) (replied : replyBody m inputs p data n = some body) :
    body.length ≤ highWater 1 (visited data n) := by
  have total := total_le_highWater data n n 0 1 1 (Nat.le_refl 1)
  have positive : 1 ≤ highWater 1 (visited data n) :=
    ((highWater_le_iff 1 _ (visited data n)).mp (Nat.le_refl _)).1
  unfold replyBody at replied
  split at replied
  · cases replied
  · cases replied
    exact positive
  · cases replied
    rw [performed, length_perform, executed, List.map_map]
    exact total

/-- An accepted packet that stays in bounds has only commands that fit. -/
theorem commandsFit_of_inBounds (m : Machine) (inputs : Inputs) (p : JvsPort) (dest : UInt8)
    (data : Nat → UInt8) (n : Nat) (ours : Accepts p dest)
    (inBounds : StaysInBounds (handlePacket m inputs p dest data n) n) : CommandsFit data n := by
  rw [handlePacket_accepted m inputs p dest data n ours] at inBounds
  intro v member
  refine ⟨(readsAt_lt_iff v.i n v.cmd).mp fun r hr => inBounds.reads r ?_, ?_⟩
  · exact List.mem_flatMap.mpr ⟨v, member, hr⟩
  · exact ((highWater_le_iff _ _ _).mp inBounds.writes).2 v member

theorem inBounds_of_commandsFit (m : Machine) (inputs : Inputs) (p : JvsPort) (dest : UInt8)
    (data : Nat → UInt8) (n : Nat) (ours : Accepts p dest) (fits : CommandsFit data n) :
    StaysInBounds (handlePacket m inputs p dest data n) n := by
  have high : highWater 1 (visited data n) ≤ 256 :=
    (highWater_le_iff _ _ _).mpr ⟨by decide, fun v member => (fits v member).2⟩
  rw [handlePacket_accepted m inputs p dest data n ours]
  refine ⟨?_, high, ?_⟩
  · intro r member
    obtain ⟨v, visit, read⟩ := List.mem_flatMap.mp member
    exact (readsAt_lt_iff v.i n v.cmd).mpr (fits v visit).1 r read
  · intro body replied
    exact Nat.le_trans (length_replyBody_le m inputs p data n body replied) high

/-- Packet handling stays in bounds exactly when the packet is not for this node
or every command it gets as far as fits. -/
theorem handlePacket_inBounds_iff (m : Machine) (inputs : Inputs) (p : JvsPort) (dest : UInt8)
    (data : Nat → UInt8) (n : Nat) :
    StaysInBounds (handlePacket m inputs p dest data n) n ↔
      (Accepts p dest → CommandsFit data n) := by
  constructor
  · intro inBounds ours
    exact commandsFit_of_inBounds m inputs p dest data n ours inBounds
  · intro fits
    by_cases ours : Accepts p dest
    · exact inBounds_of_commandsFit m inputs p dest data n ours (fits ours)
    · rw [handlePacket_ignored m inputs p dest data n ours]
      exact ⟨by simp, Nat.zero_le 256, by simp⟩

/-- SET ADDRESS cut off before its argument reads the byte after the packet; SWINP
for 255 players of 255 bytes writes far past the end of `body`. -/
theorem handlePacket_out_of_bounds :
    ¬ StaysInBounds (handlePacket .x86 Inputs.initial JvsPort.initial JVS_BROADCAST
        (pointer [0xF1] (fun _ => 0)) 1) 1 ∧
      ¬ StaysInBounds (handlePacket .x86 Inputs.initial JvsPort.initial JVS_BROADCAST
        (pointer [0x20, 0xFF, 0xFF] (fun _ => 0)) 3) 3 := by
  have broadcast : Accepts JvsPort.initial JVS_BROADCAST := Or.inl rfl
  constructor
  · intro h
    exact absurd (commandsFit_of_inBounds _ _ _ _ _ _ broadcast h) (by decide)
  · intro h
    exact absurd (commandsFit_of_inBounds _ _ _ _ _ _ broadcast h) (by decide)

end Es3Recomp.Guarantees.Jvs
