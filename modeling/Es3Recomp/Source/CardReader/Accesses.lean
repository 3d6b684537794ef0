import Es3Recomp.Library.Traced
import Es3Recomp.Source.CardReader.Card

/-!
# The commands of the reader, access by access

Source: src/src/runtime/card.c:248-257 (`card_save`), 388-441 (`mifare`), 452-569 (`command`).
The functions of `Card` once more, now with every byte that is read or written, by the array
the access is meant for. `p` is whatever memory lies from the body on, and `r` the array on
the stack, which holds anything at first. Lengths are `unsigned`.
-/
namespace Es3Recomp.Source.CardReader.Touching
open Library Library.Traced

/-- `size` bytes from an offset on. -/
inductive Access where
  | readBody (offset size : Nat)
  | readCard (offset size : Nat)
  | writeCard (offset size : Nat)
  | readAnswer (offset size : Nat)
  | writeAnswer (offset size : Nat)
  | readUid (offset size : Nat)
  | readPattern (offset size : Nat)
  deriving DecidableEq

abbrev Handling := Traced Empty Access

/-- The answer that is being made: `g_card` and what goes with it, `r`, and `rn`. -/
abbrev Answer := Card × Memory × UInt32

/-- `r[i] = ..; r[i + 1] = ..;` and so on. -/
def put (r : Memory) (i : Nat) (bytes : List UInt8) : Handling Memory :=
  find (.writeAnswer i bytes.length) (store r i bytes)

/-- `n > i ? p[i] : 0`, for the `p` of a command that begins at `base`. -/
def byteAt (p : Memory) (base : Nat) (n : UInt32) (i : Nat) : Handling UInt8 :=
  if i < n.toNat then find (.readBody (base + i) 1) (p (base + i)) else pure 0

def refused (c : Card) (r : Memory) : Handling Answer := do
  let r ← put r 2 [0x14]
  pure (c, r, 3)

/-- `card_save`; `fwrite` goes through all of `g_card`. -/
def cardSave (o : SaveOutcome) (c : Card) : Handling Card :=
  if ¬ c.dirty then pure c
  else if ¬ o.opened then pure c
  else find (.readCard 0 CARD_BYTES) (CardReader.cardSave o c)

/-- `mifare(p + base, n, r, rn)` -/
def mifare (inField : Bool) (o : SaveOutcome) (p : Memory) (base : Nat) (n : UInt32) (c : Card)
    (r : Memory) : Handling Answer := do
  let cmd ← byteAt p base n 0
  let byte ← byteAt p base n 1
  let blk := byte.toNat
  let r ← put r 0 [0xD5, 0x41, 0x00]
  if ¬ inField then do
    let r ← put r 2 [0x01]
    pure (c, r, 3)
  else if cmd = 0x60 ∨ cmd = 0x61 then
    if 16 ≤ blk / 4 then refused c r
    else pure ({ c with authSector := (blk / 4 : Nat) }, r, 3)
  else if cmd = 0x30 then
    if BLOCKS ≤ blk then refused c r
    else if c.authSector ≠ (blk / 4 : Nat) then refused c r
    else do
      let bytes ← find (.readCard (blk * BLOCK_BYTES) BLOCK_BYTES) (c.block blk)
      let r ← put r 3 bytes
      pure ({ c with nReads := c.nReads + 1 }, r, 19)
  else if cmd = 0xA0 then
    if BLOCKS ≤ blk ∨ n.toNat < 2 + BLOCK_BYTES then refused c r
    else if c.authSector ≠ (blk / 4 : Nat) then refused c r
    else if blk = 0 then pure (c, r, 3)
    else do
      let bytes ← find (.readBody (base + 2) BLOCK_BYTES) (load p ⟨base + 2, BLOCK_BYTES⟩)
      let image ← find (.writeCard (blk * BLOCK_BYTES) BLOCK_BYTES)
        (store c.image (blk * BLOCK_BYTES) bytes)
      let c ← cardSave o { c with image := image, dirty := true, nWrites := c.nWrites + 1 }
      pure (c, r, 3)
  else refused c r

/-- `for (i = 0; i < regs && i < sizeof r - 2; i++) r[2 + i] = pat[i % 4];` from `i` on, for at
most `turns` turns. -/
def fillRegisters (regs : Nat) : Nat → Nat → Memory → Handling (Memory × Nat)
  | 0, i, r => pure (r, i)
  | turns + 1, i, r =>
    if i < regs ∧ i < 62 then do
      let byte ← find (.readPattern (i % 4) 1) ([0x77, 0x1C, 0x11, 0xF1].getD (i % 4) 0)
      let r ← put r (2 + i) [byte]
      fillRegisters regs turns (i + 1) r
    else pure (r, i)

/-- A case that only stores its answer. -/
def fixed (c : Card) (r : Memory) (bytes : List UInt8) : Handling Answer := do
  let r ← put r 0 bytes
  pure (c, r, UInt32.ofNat bytes.length)

/-- The `switch` of `command(p, n)`. -/
def answer (inField : Bool) (o : SaveOutcome) (p : Memory) (n : UInt32) (c : Card) (r : Memory) :
    Handling Answer := do
  let cmd ← byteAt p 0 n 1
  if cmd = 0x02 then fixed c r [0xD5, 0x03, 0x32, 0x01, 0x06, 0x07]
  else if cmd = 0x06 then do
    let regs := (n - 2) / 2
    let r ← put r 0 [0xD5, 0x07]
    -- the bound on `i` is met before the turns are used up
    let (r, i) ← fillRegisters regs.toNat 63 0 r
    pure (c, r, UInt32.ofNat (2 + i))
  else if cmd = 0x08 then fixed c r [0xD5, 0x09, 0x00]
  else if cmd = 0x0C then fixed c r [0xD5, 0x0D, 0x3F, 0x01, 0x03]
  else if cmd = 0x0E then fixed c r [0xD5, 0x0F]
  else if cmd = 0x12 then fixed c r [0xD5, 0x13]
  else if cmd = 0x14 then fixed c r [0xD5, 0x15]
  else if cmd = 0x18 then fixed c r [0xD5, 0x19]
  else if cmd = 0x32 then fixed c r [0xD5, 0x33]
  else if cmd = 0x4A then
    if ¬ inField then fixed c r [0xD5, 0x4B, 0x00]
    else do
      let r ← put r 0 [0xD5, 0x4B, 0x01, 0x01, 0x00, 0x04, 0x08, 0x04]
      let uid ← find (.readUid 0 4) c.uid.val
      let r ← put r 8 uid
      pure ({ c with authSector := -1 }, r, 12)
  else if cmd = 0x40 then mifare inField o p 3 (if 3 < n then n - 3 else 0) c r
  else if cmd = 0x44 then do
    let (c, r, rn) ← mifare inField o p 2 (if 2 < n then n - 2 else 0) c r
    let r ← put r 1 [0x45]
    pure (c, r, rn)
  else if cmd = 0x52 then do
    let (c, r, rn) ← fixed c r [0xD5, 0x53, 0x01, 0x00]
    pure ({ c with authSector := -1 }, r, rn)
  else fixed c r [0x7F, cmd + 1]

/-- `command(p, n)`: the card afterwards, and what `send_frame` reads of `r`. -/
def command (inField : Bool) (o : SaveOutcome) (p : Memory) (n : UInt32) (c : Card) (r : Memory) :
    Handling (Card × List UInt8) := do
  let (c, r, rn) ← answer inField o p n c r
  if rn = 0 then pure (c, [])
  else find (.readAnswer 0 rn.toNat) (c, load r ⟨0, rn.toNat⟩)

end Es3Recomp.Source.CardReader.Touching
