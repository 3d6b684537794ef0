import Es3Recomp.Model.CardReader.Calls

/-!
# Frames with a wrong data checksum

`consume` checks the length checksum of a frame and takes the data checksum byte with
it unread (src/src/runtime/card.c:587-602), while `send_frame` puts a right one behind every
body it sends (`frame_turn`). Every command that is carried out is answered, so a frame
that was corrupted on the way is acted on whenever it is taken.
-/
namespace Es3Recomp.Guarantees.CardReader
open Library Source.CardReader Model.CardReader

/-- The command left no trace: not in the card, not on the wire. -/
structure NoEffect (e : Executed) : Prop where
  image : e.after.image = e.before.image
  authSector : e.after.authSector = e.before.authSector
  nReads : e.after.nReads = e.before.nReads
  nWrites : e.after.nWrites = e.before.nWrites
  silent : e.reply = []

/-- Every command is answered. -/
theorem execute_answered (world : World) (r : Reader) (body : List UInt8) (dcs : UInt8) :
    (execute world r body dcs).2.reply ≠ [] := by
  have answered := (command_spec
    (cardInField world.always (world.moment r.commands).tick r.presentUntil)
    (world.moment r.commands).save r.card body).answered
  unfold execute
  dsimp only
  rw [if_neg answered]
  exact answered

theorem consume_answered (world : World) (r : Reader) :
    ∀ e ∈ (consume world r).2, e.reply ≠ [] := by
  refine consume_induction world
    (motive := fun _ result => ∀ e ∈ result.2, e.reply ≠ []) ?_ ?_ ?_ r
  · intro r _ e member
    cases member
  · intro r n result _ ih
    exact ih
  · intro r body dcs result _ ih e member
    rcases List.mem_cons.mp member with here | later
    · rw [here]
      exact execute_answered world r body dcs
    · exact ih e later

theorem run_answered (world : World) (r : Reader) (ops : List Op) :
    ∀ e ∈ executedOf ((reader world).run r ops).2, e.reply ≠ [] := by
  induction ops generalizing r with
  | nil => nofun
  | cons op ops ih =>
    intro e member
    rw [Transducer.run_cons, executedOf_append, List.mem_append] at member
    rcases member with here | later
    · have executed : e ∈ executedOf (step world r op).2 := here
      rw [(step_spec world r op).executed] at executed
      cases op with
      | write env bytes => exact consume_answered world (received r bytes) e executed
      | _ => cases executed
    · exact ih _ e later

/-- No command of a run answers to a corrupted frame. -/
def CorruptedIgnored (world : World) (r : Reader) (ops : List Op) : Prop :=
  ∀ e ∈ executedOf ((reader world).run r ops).2, ¬ SumRight (frameOf e) → NoEffect e

theorem sums_of_ignored {world : World} {r : Reader} {ops : List Op}
    (ignored : CorruptedIgnored world r ops) : ∀ f ∈ framesOf world r ops, SumRight f := by
  intro f member
  rw [← run_frames, List.mem_map] at member
  obtain ⟨e, executed, rfl⟩ := member
  refine of_not_not fun wrong => ?_
  exact run_answered world r ops e executed (ignored e executed wrong).silent

/-- Corrupted frames have no effect exactly in the runs that meet none: every frame
that is complete when it is looked at has a right data checksum. -/
theorem corrupted_ignored_iff (world : World) (r : Reader) (ops : List Op) :
    CorruptedIgnored world r ops ↔ ∀ f ∈ framesOf world r ops, SumRight f := by
  constructor
  · exact sums_of_ignored
  · intro right e executed wrong
    refine absurd (right (frameOf e) ?_) wrong
    rw [← run_frames]
    exact List.mem_map_of_mem executed

/-! ## A corrupted write -/

/-- Authenticate block 4, then sixteen bytes of 0x55 for it, with 0x00 for a checksum. -/
def corruptedWrite : List UInt8 :=
  frame [0xD4, 0x40, 0x01, 0x60, 0x04] ++
    [0x00, 0x00, 0xFF, 0x15, 0xEB, 0xD4, 0x40, 0x01, 0xA0, 0x04] ++ List.replicate 16 0x55 ++
    [0x00, 0x00]

/-- The reader, with the card left on it, acts on the corrupted frame. -/
theorem corrupted_write_acted_on :
    ¬ CorruptedIgnored ⟨true, fun _ => ⟨0, SaveOutcome.good⟩⟩ (Reader.start blankWorld)
      [.write ⟨0, true, true⟩ corruptedWrite] := by
  intro ignored
  have right := sums_of_ignored ignored
    ([0xD4, 0x40, 0x01, 0xA0, 0x04] ++ List.replicate 16 0x55, 0x00) (by decide)
  exact absurd right (by decide)

end Es3Recomp.Guarantees.CardReader
