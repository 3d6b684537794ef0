import Mathlib.Algebra.Group.Nat.Defs
import Es3Recomp.Library.ByteMemory

/-!
# The card: its image, its file, and the commands of the reader

Source: src/src/runtime/card.c:50-65 (the globals), 164-257 (`hexnib`, `card_format`,
`card_load`, `card_save`), 383-441 (`mifare`), 452-569 (`command`). `g_card` is the
part [0, 1024) of a byte memory. What the file functions return and how much of a
write reaches the file are arguments. The trace lines and `dump_blowfish`, which
touch nothing the reader keeps, are left out.
-/
namespace Es3Recomp.Source.CardReader
open Library

def CARD_BYTES : Nat := 1024
def BLOCK_BYTES : Nat := 16
def BLOCKS : Nat := CARD_BYTES / BLOCK_BYTES

def NAMCO_KEY_A : List UInt8 := [0x60, 0x90, 0xD0, 0x06, 0x32, 0xF5]

abbrev Uid := { bytes : List UInt8 // bytes.length = 4 }

/-- The statics of card.c that belong to the card, and the file at `g_card_path`. -/
structure Card where
  /-- `g_card` -/
  image : Memory
  uid : Uid
  dirty : Bool
  nReads : Int32
  nWrites : Int32
  /-- the sector the game last authenticated against; -1 for none -/
  authSector : Int
  file : Option (List UInt8)

def Card.initial (file : Option (List UInt8)) : Card where
  image := fun _ => 0
  uid := ⟨[0x3E, 0x86, 0xD0, 0x2D], rfl⟩
  dirty := false
  nReads := 0
  nWrites := 0
  authSector := -1
  file := file

/-- Where block `b` lies in the image. -/
def blockSpan (b : Nat) : Span := ⟨b * BLOCK_BYTES, BLOCK_BYTES⟩

def Card.block (c : Card) (b : Nat) : List UInt8 := load c.image (blockSpan b)

/-- All of `g_card`. -/
def Card.bytes (c : Card) : List UInt8 := load c.image ⟨0, CARD_BYTES⟩

/-! ## Format, load, save -/

/-- Key A, the access bits, key B. -/
def sectorTrailer : List UInt8 := NAMCO_KEY_A ++ [0xFF, 0x07, 0x80, 0x69] ++ List.replicate 6 0xFF

def manufacturerBytes (uid : Uid) : List UInt8 :=
  uid.val ++ [uid.val.foldl (· ^^^ ·) 0, 0x08, 0x04, 0x00]

/-- `card_format` -/
def cardFormat (c : Card) : Card :=
  let blank := store (fun _ => 0) 0 (manufacturerBytes c.uid)
  let trailer (mem : Memory) (s : Nat) := store mem ((s * 4 + 3) * BLOCK_BYTES) sectorTrailer
  { c with image := (List.range 16).foldl trailer blank }

/-- What `fopen(.., "wb")`, `fwrite` and `fclose` came to, and what it left in the
file. A successful `fclose` has flushed all that `fwrite` counted. -/
structure SaveOutcome where
  opened : Bool
  /-- the result of `fwrite` -/
  written : Nat
  /-- `fclose` returned 0 -/
  closed : Bool
  /-- the bytes of the image that are in the file afterwards -/
  stored : Nat
  written_le : written ≤ CARD_BYTES
  stored_le : stored ≤ written
  flushed : closed = true → stored = written

/-- Everything went well. -/
def SaveOutcome.good : SaveOutcome :=
  ⟨true, CARD_BYTES, true, CARD_BYTES, Nat.le_refl _, Nat.le_refl _, fun _ => rfl⟩

/-- `card_save`: neither `fwrite` nor `fclose` is looked at. -/
def cardSave (o : SaveOutcome) (c : Card) : Card :=
  if ¬ c.dirty then c
  else if ¬ o.opened then c
  else { c with file := some (c.bytes.take o.stored), dirty := false }

def hexnib (c : UInt8) : Option UInt8 :=
  if 0x30 ≤ c ∧ c ≤ 0x39 then some (c - 0x30)
  else if 0x61 ≤ c ∧ c ≤ 0x66 then some (c - 0x61 + 10)
  else if 0x41 ≤ c ∧ c ≤ 0x46 then some (c - 0x41 + 10)
  else none

/-- The loop over ES3_CARD_UID: two digits a byte, up to the first that is none. -/
def uidDigits : List UInt8 → List UInt8 → List UInt8
  | u :: uid, hi :: lo :: hex =>
    match hexnib hi, hexnib lo with
    | some h, some l => (h * 16 + l) :: uidDigits uid hex
    | _, _ => u :: uid
  | uid, _ => uid

theorem length_uidDigits (uid hex : List UInt8) : (uidDigits uid hex).length = uid.length := by
  fun_induction uidDigits uid hex with
  | case1 u uid hi lo hex h l _ _ ih => simp [ih]
  | case2 | case3 => rfl

/-- What `card_load` finds: the option, the file, `fopen(.., "rb")`, the result of
`fread`, and how the save of a new card goes. -/
structure LoadWorld where
  uidOption : Option (List UInt8)
  file : Option (List UInt8)
  opened : Bool
  got : Nat
  save : SaveOutcome

/-- The bytes `fread` put into `g_card`; `none` when `fopen` failed. -/
def LoadWorld.read (w : LoadWorld) : Option (List UInt8) :=
  match w.file, w.opened with
  | some content, true => some (content.take (min w.got CARD_BYTES))
  | _, _ => none

/-- `g_uid` after the option is read. -/
def optionUid (w : LoadWorld) (uid : Uid) : Uid :=
  match w.uidOption with
  | some hex => ⟨uidDigits uid.val hex, (length_uidDigits _ _).trans uid.property⟩
  | none => uid

/-- A blank card, written at once. -/
def newCard (w : LoadWorld) (c : Card) : Card := cardSave w.save { cardFormat c with dirty := true }

/-- `card_load`, on the statics as the program starts with them. -/
def cardLoad (w : LoadWorld) : Card :=
  let c := Card.initial w.file
  let c := { c with uid := optionUid w c.uid }
  match w.read with
  | some bytes =>
    let c := { c with image := store c.image 0 bytes }
    -- the image owns the UID
    if bytes.length = CARD_BYTES then { c with uid := ⟨load c.image ⟨0, 4⟩, length_load _ _⟩ }
    else newCard w c
  | none => newCard w c

/-! ## Commands -/

def MIFARE_SUCCESS : List UInt8 := [0xD5, 0x41, 0x00]
def MIFARE_TIMEOUT : List UInt8 := [0xD5, 0x41, 0x01]
def MIFARE_REFUSED : List UInt8 := [0xD5, 0x41, 0x14]

/-- `mifare(p, n, r, rn)` with the `n` bytes at `p`; the result's list is `r[0 .. rn)`. -/
def mifare (inField : Bool) (o : SaveOutcome) (c : Card) (p : List UInt8) : Card × List UInt8 :=
  let cmd := p.getD 0 0
  let blk := (p.getD 1 0).toNat
  if ¬ inField then (c, MIFARE_TIMEOUT)
  else if cmd = 0x60 ∨ cmd = 0x61 then
    if 16 ≤ blk / 4 then (c, MIFARE_REFUSED)
    else ({ c with authSector := (blk / 4 : Nat) }, MIFARE_SUCCESS)
  else if cmd = 0x30 then
    if BLOCKS ≤ blk then (c, MIFARE_REFUSED)
    else if c.authSector ≠ (blk / 4 : Nat) then (c, MIFARE_REFUSED)
    else ({ c with nReads := c.nReads + 1 }, MIFARE_SUCCESS ++ c.block blk)
  else if cmd = 0xA0 then
    if BLOCKS ≤ blk ∨ p.length < 2 + BLOCK_BYTES then (c, MIFARE_REFUSED)
    else if c.authSector ≠ (blk / 4 : Nat) then (c, MIFARE_REFUSED)
    else if blk = 0 then (c, MIFARE_SUCCESS)
    else
      (cardSave o { c with
        image := store c.image (blk * BLOCK_BYTES) ((p.drop 2).take BLOCK_BYTES)
        dirty := true
        nWrites := c.nWrites + 1 }, MIFARE_SUCCESS)
  else (c, MIFARE_REFUSED)

/-- ReadRegister's answer: one byte for every register asked for, four values in turn. -/
def registerBytes (regs : Nat) : List UInt8 :=
  (List.range (min regs 62)).map fun i => [0x77, 0x1C, 0x11, 0xF1].getD (i % 4) 0

/-- `command(p, n)` with the `n` bytes at `p`: the card afterwards, and `r[0 .. rn)`. -/
def command (inField : Bool) (o : SaveOutcome) (c : Card) (p : List UInt8) : Card × List UInt8 :=
  let cmd := p.getD 1 0
  if cmd = 0x02 then (c, [0xD5, 0x03, 0x32, 0x01, 0x06, 0x07])
  else if cmd = 0x06 then (c, [0xD5, 0x07] ++ registerBytes ((p.length - 2) / 2))
  else if cmd = 0x08 then (c, [0xD5, 0x09, 0x00])
  else if cmd = 0x0C then (c, [0xD5, 0x0D, 0x3F, 0x01, 0x03])
  else if cmd = 0x0E then (c, [0xD5, 0x0F])
  else if cmd = 0x12 then (c, [0xD5, 0x13])
  else if cmd = 0x14 then (c, [0xD5, 0x15])
  else if cmd = 0x18 then (c, [0xD5, 0x19])
  else if cmd = 0x32 then (c, [0xD5, 0x33])
  else if cmd = 0x4A then
    if ¬ inField then (c, [0xD5, 0x4B, 0x00])
    else ({ c with authSector := -1 },
      [0xD5, 0x4B, 0x01, 0x01, 0x00, 0x04, 0x08, 0x04] ++ c.uid.val)
  else if cmd = 0x40 then mifare inField o c (p.drop 3)
  else if cmd = 0x44 then
    let (c, r) := mifare inField o c (p.drop 2)
    (c, r.set 1 0x45)
  else if cmd = 0x52 then ({ c with authSector := -1 }, [0xD5, 0x53, 0x01, 0x00])
  else (c, [0x7F, cmd + 1])

end Es3Recomp.Source.CardReader
