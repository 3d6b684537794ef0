import Es3Recomp.Model.CardReader.Sessions

/-!
# The card file follows the card

`card_save` opens the file, which empties it, writes and closes, and clears the mark
without a look at what `fwrite` and `fclose` returned (src/src/runtime/card.c:248-257). A
file that cannot be opened leaves the mark, so the next write tries again; a file that
takes less than the whole card does not.
-/
namespace Es3Recomp.Guarantees.CardReader
open Library Source.CardReader Model.CardReader

/-- A card that is not marked has its image at the front of the file. -/
def Follows (c : Card) : Prop :=
  c.dirty = false → ∃ content, c.file = some content ∧ content.take CARD_BYTES = c.bytes

/-- A save that opens the file brings the whole image into it. -/
def SaveReaches (o : SaveOutcome) : Prop := o.opened = true → o.stored = CARD_BYTES

/-- The condition: every save that is made, by `card_load` for a new card and by each
write that is granted, reaches the file completely or does not open it. -/
structure SavesReach (always : Bool) (w : LoadWorld) (now : UInt64) (events : List Event) :
    Prop where
  load : MakesNew w → SaveReaches w.save
  writes : ∀ pre body o post, events = pre ++ .command body o :: post →
    isWrite (grantedBy (((session always).run (Session.start w now) pre).1.inField always)
      ((session always).run (Session.start w now) pre).1.card.authSector (demandOf body)) = true →
    SaveReaches o

theorem length_bytes (c : Card) : c.bytes.length = CARD_BYTES := length_load _ _

/-- After a save the card is followed exactly when the save reached the file. -/
theorem follows_save (o : SaveOutcome) {c : Card} (dirty : c.dirty = true) :
    Follows (cardSave o c) ↔ SaveReaches o := by
  by_cases opened : o.opened = true
  · have saved : cardSave o c = { c with file := some (c.bytes.take o.stored), dirty := false } := by
      simp [cardSave, dirty, opened]
    have short : o.stored ≤ CARD_BYTES := Nat.le_trans o.stored_le o.written_le
    rw [saved]
    constructor
    · intro follows _
      obtain ⟨content, file, front⟩ := follows rfl
      cases file
      have length := congrArg List.length front
      simp only [List.length_take, Card.bytes, length_load] at length
      omega
    · intro reaches _
      refine ⟨_, rfl, ?_⟩
      have whole := length_bytes c
      rw [reaches opened, ← whole, List.take_length, List.take_length]
      rfl
  · have same : cardSave o c = c := by simp [cardSave, opened]
    rw [same]
    constructor
    · intro _ isOpen
      exact absurd isOpen opened
    · intro _ clean
      rw [dirty] at clean
      cases clean

theorem follows_grant (o : SaveOutcome) (c : Card) (a : Access) :
    Follows (grant o c a) ↔ if isWrite (some a) then SaveReaches o else Follows c := by
  cases a with
  | write b data =>
    by_cases first : b = 0
    · simp [grant, isWrite, first]
    · have counts : isWrite (some (.write b data)) = true := by simp [isWrite, first]
      rw [if_pos counts, grant, if_neg first, writeBlock, follows_save o rfl]
  | _ => exact Iff.rfl

theorem follows_command (inField : Bool) (o : SaveOutcome) (c : Card) (body : List UInt8) :
    Follows (command inField o c body).1 ↔
      if isWrite (grantedBy inField c.authSector (demandOf body)) then SaveReaches o
      else Follows c := by
  rw [(command_spec inField o c body).card]
  obtain ⟨a, granted, after⟩ | ⟨granted, k, after⟩ := perform_cases inField o c (demandOf body)
  · rw [granted, after]
    exact follows_grant o c a
  · rw [granted, after]
    exact Iff.rfl

theorem follows_load (w : LoadWorld) : Follows (cardLoad w) ↔ (MakesNew w → SaveReaches w.save) := by
  obtain ⟨content, full, same⟩ | ⟨new, image, same⟩ := cardLoad_cases w
  · have whole := (read_of_full full).2
    rw [same]
    refine iff_of_true ?_ fun new => absurd ⟨content, full⟩ new
    intro _
    refine ⟨content, full.1, ?_⟩
    have stored := load_store_take (fun _ => 0) 0 CARD_BYTES (content.take CARD_BYTES)
      (Nat.le_of_eq whole.symm)
    rw [Card.bytes, stored, List.take_take, Nat.min_self]
  · rw [same, newCard, follows_save _ rfl]
    exact ⟨fun reaches _ => reaches, fun reaches => reaches new⟩

theorem reaches_of_follows (always : Bool) (w : LoadWorld) (now : UInt64) (events : List Event)
    (follows : ∀ pre, pre <+: events →
      Follows ((session always).run (Session.start w now) pre).1.card) :
    SavesReach always w now events := by
  constructor
  · exact (follows_load w).mp (follows [] List.nil_prefix)
  · intro pre body o post split writes
    have after := follows (pre ++ [.command body o]) ⟨post, by simp [split]⟩
    rw [run_snoc] at after
    have saved := (follows_command _ o _ body).mp after
    rwa [if_pos writes] at saved

theorem follows_of_reaches (always : Bool) (w : LoadWorld) (now : UInt64) (events : List Event)
    (reach : SavesReach always w now events) (pre : List Event) (front : pre <+: events) :
    Follows ((session always).run (Session.start w now) pre).1.card := by
  induction pre using List.reverseRecOn with
  | nil => exact (follows_load w).mpr reach.load
  | append_singleton pre ev ih =>
    have before := ih ((List.prefix_append pre [ev]).trans front)
    obtain ⟨post, split⟩ := front
    rw [run_snoc]
    cases ev with
    | clock | tap => simpa only [Session.step, es3CardTap] using before
    | command body o =>
      apply (follows_command _ o _ body).mpr
      split
      · rename_i writes
        exact reach.writes pre body o post (by simp [← split]) writes
      · exact before

/-- In every state of a run the file follows the card, exactly when every save of the
run that opened the file brought the whole image into it. -/
theorem file_follows_iff (always : Bool) (w : LoadWorld) (now : UInt64) (events : List Event) :
    (∀ pre, pre <+: events → Follows ((session always).run (Session.start w now) pre).1.card) ↔
      SavesReach always w now events :=
  ⟨reaches_of_follows always w now events, follows_of_reaches always w now events⟩

/-! ## A disk that fills up -/

/-- The file was opened, and so emptied, and took 512 bytes. -/
def shortSave : SaveOutcome := ⟨true, 512, true, 512, by decide, by decide, fun _ => rfl⟩

/-- Sixteen bytes of 0x55 into block 4. -/
def writeFour : List UInt8 := [0xD4, 0x40, 0x01, 0xA0, 0x04] ++ List.replicate 16 0x55

def openAndWrite (o : SaveOutcome) : List Event :=
  [.command [0xD4, 0x40, 0x01, 0x60, 0x04] o, .command writeFour o]

/-- The card is no longer marked, and half of it is in the file. -/
theorem short_save_not_followed :
    ¬ ∀ pre, pre <+: openAndWrite shortSave →
      Follows ((session true).run (Session.start blankWorld 0) pre).1.card := by
  intro follows
  have reach := reaches_of_follows true blankWorld 0 _ follows
  have reaches : SaveReaches shortSave :=
    reach.writes [.command [0xD4, 0x40, 0x01, 0x60, 0x04] shortSave] writeFour shortSave [] rfl
      (by decide)
  cases reaches rfl

end Es3Recomp.Guarantees.CardReader
