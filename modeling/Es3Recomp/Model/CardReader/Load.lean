import Es3Recomp.Model.CardReader.Demand

/-!
# The card that `card_load` leaves

Source: src/src/runtime/card.c:174-257. Either the file held a whole image, and the card is
that image, or a blank card was made and saved. Both ways the UID is the front of
block 0 and nothing is authenticated or counted yet.
-/
namespace Es3Recomp.Model.CardReader
open Library Source.CardReader

/-- The file held the 1024 bytes of an image and they were read. -/
def FullImage (w : LoadWorld) (content : List UInt8) : Prop :=
  w.file = some content ∧ CARD_BYTES ≤ content.length ∧ CARD_BYTES ≤ w.got ∧ w.opened = true

/-- `card_load` had to make a new card. -/
def MakesNew (w : LoadWorld) : Prop := ¬ ∃ content, FullImage w content

/-- No trailer reaches the front of block 0. -/
theorem load_trailers (mem : Memory) (sectors : List Nat) {s : Span} (front : s.start + s.len ≤ 48) :
    load (sectors.foldl (fun mem s => store mem ((s * 4 + 3) * BLOCK_BYTES) sectorTrailer) mem) s =
      load mem s := by
  induction sectors generalizing mem with
  | nil => rfl
  | cons k sectors ih =>
    rw [List.foldl_cons, ih]
    apply load_store_clear
    simp only [Span.Apart, BLOCK_BYTES]
    omega

theorem take_block_zero (c : Card) : (c.block 0).take 4 = load c.image ⟨0, 4⟩ :=
  take_load c.image 0 (by decide)

/-- A formatted card announces itself in its first block. -/
theorem format_uid (c : Card) : ((cardFormat c).block 0).take 4 = c.uid.val := by
  have length := c.uid.property
  rw [take_block_zero]
  simp only [cardFormat]
  rw [load_trailers _ _ (by decide), load_store_take _ _ _ _ (by simp [manufacturerBytes, length])]
  simp [manufacturerBytes, ← length]

/-- The card of a program that has just started, with an image and a UID. -/
structure Fresh (c : Card) : Prop where
  authSector : c.authSector = -1
  nReads : c.nReads = 0
  nWrites : c.nWrites = 0
  uid : c.uid.val = (c.block 0).take 4

theorem fresh_newCard {w : LoadWorld} {c : Card} (sector : c.authSector = -1)
    (reads : c.nReads = 0) (writes : c.nWrites = 0) : Fresh (newCard w c) where
  authSector := by simpa [newCard, cardFormat] using sector
  nReads := by simpa [newCard, cardFormat] using reads
  nWrites := by simpa [newCard, cardFormat] using writes
  uid := by
    have formatted := format_uid c
    simp only [newCard, Card.block, cardSave_uid, cardSave_image] at formatted ⊢
    exact formatted.symm

theorem read_of_full {w : LoadWorld} {content : List UInt8} (full : FullImage w content) :
    w.read = some (content.take CARD_BYTES) ∧ (content.take CARD_BYTES).length = CARD_BYTES := by
  obtain ⟨file, long, got, opened⟩ := full
  constructor
  · simp only [LoadWorld.read, file, opened, Nat.min_eq_right got]
  · rw [List.length_take, Nat.min_eq_left long]

theorem full_of_read {w : LoadWorld} {bytes : List UInt8} (read : w.read = some bytes)
    (whole : bytes.length = CARD_BYTES) : ∃ content, FullImage w content := by
  unfold LoadWorld.read at read
  split at read
  · rename_i content file opened
    cases read
    rw [List.length_take] at whole
    exact ⟨content, file, by omega, by omega, opened⟩
  · cases read

/-- The two ways `card_load` ends. -/
theorem cardLoad_cases (w : LoadWorld) :
    (∃ content, FullImage w content ∧
      cardLoad w = { Card.initial w.file with
        image := store (fun _ => 0) 0 (content.take CARD_BYTES)
        uid := ⟨load (store (fun _ => 0) 0 (content.take CARD_BYTES)) ⟨0, 4⟩, length_load _ _⟩ }) ∨
      (MakesNew w ∧ ∃ image, cardLoad w =
        newCard w { Card.initial w.file with
          image := image
          uid := optionUid w (Card.initial w.file).uid }) := by
  by_cases full : ∃ content, FullImage w content
  · obtain ⟨content, image⟩ := full
    obtain ⟨read, whole⟩ := read_of_full image
    refine Or.inl ⟨content, image, ?_⟩
    simp only [cardLoad, read, if_pos whole]
    rfl
  · refine Or.inr ⟨full, ?_⟩
    cases read : w.read with
    | none =>
      refine ⟨(Card.initial w.file).image, ?_⟩
      simp only [cardLoad, read]
    | some bytes =>
      have short : ¬ bytes.length = CARD_BYTES := fun whole => full (full_of_read read whole)
      refine ⟨store (Card.initial w.file).image 0 bytes, ?_⟩
      simp only [cardLoad, read, if_neg short]

theorem fresh_cardLoad (w : LoadWorld) : Fresh (cardLoad w) := by
  obtain ⟨content, -, same⟩ | ⟨-, image, same⟩ := cardLoad_cases w
  · rw [same]
    exact ⟨rfl, rfl, rfl, (take_load _ 0 (by decide)).symm⟩
  · rw [same]
    exact fresh_newCard rfl rfl rfl

end Es3Recomp.Model.CardReader
