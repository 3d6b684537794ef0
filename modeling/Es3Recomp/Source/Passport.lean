import Es3Recomp.Library.Json
import Es3Recomp.Library.Traced
import Es3Recomp.Library.Utf8
import Es3Recomp.Source.CardReader.Card

/-!
# The state document of the passport window

Source: src/src/runtime/passport.c:190-209 (`state_json`), 224-229 (`serve_one`, the answer to
`GET /state.json`), src/src/runtime/card.c:65 (`g_card_path`), 132-145 (`es3_card_state`,
`es3_card_file`). The rest of the server is left out. `sprintf_s` writes the text and its
terminator, or ends the process where they do not fit.
-/
namespace Es3Recomp.Source.Passport
open Library Library.Traced Source.CardReader

def MAX_PATH : Nat := 260

/-- The size of `body`. -/
def BODY_BYTES : Nat := CARD_BYTES * 2 + 512

/-- What `g_card_path` can hold. -/
structure CardPath where
  bytes : List UInt8
  whole : 0 ∉ bytes
  short : bytes.length < MAX_PATH

structure CardState where
  uid : Uid
  present : Bool
  reads : Int32
  writes : Int32
  image : { bytes : List UInt8 // bytes.length = CARD_BYTES }

/-- `present` is what `card_in_field` says. -/
def es3_card_state (c : Card) (present : Bool) : CardState :=
  ⟨c.uid, present, c.nReads, c.nWrites, ⟨c.bytes, length_load _ _⟩⟩

/-! ## Conversions of `printf` -/

def hexDigit (n : Nat) : Char := "0123456789ABCDEF".toList.getD n '0'

/-- `%02X` of a byte. -/
def hex02 (b : UInt8) : List Char := [hexDigit (b.toNat / 16), hexDigit (b.toNat % 16)]

def hexText (bytes : List UInt8) : List Char := bytes.flatMap hex02

/-! ## The document -/

/-- `sprintf_s` refuses its arguments. -/
inductive Refused where
  | invalidParameter

/-- A write is a place in `body` and the bytes that go there. -/
abbrev Print := Traced Refused (Nat × List UInt8)

/-- `sprintf_s(out + used, n - used, ..)`, with the text already converted. -/
def sprintf_s (n used : Nat) (text : List UInt8) : Print Nat :=
  if used + text.length < n then find (used, text ++ [0]) text.length
  else refuse .invalidParameter

/-- Up to the path. -/
def opening (s : CardState) : List Char :=
  "\x7b\"uid\":\"".toList ++ (hexText s.uid.val ++ ("\",\"present\":".toList ++
    ((if s.present then "true".toList else "false".toList) ++ (",\"reads\":".toList ++
      (Json.decimal s.reads.toInt ++ (",\"writes\":".toList ++
        (Json.decimal s.writes.toInt ++ ",\"file\":\"".toList)))))))

def beforeBlocks : List Char := "\",\"blocks\":\"".toList

def closing : List Char := "\"\x7d".toList

/-- The loop over the image. -/
def print_blocks (n : Nat) : List UInt8 → Nat → Print Nat
  | [], used => pure used
  | b :: image, used => do
    let k ← sprintf_s n used (utf8 (hex02 b))
    print_blocks n image (used + k)

def state_json (n : Nat) (s : CardState) (path : CardPath) : Print Nat := do
  let used ← sprintf_s n 0 (utf8 (opening s) ++ (path.bytes ++ utf8 beforeBlocks))
  let used ← print_blocks n s.image.val used
  sprintf_s n used (utf8 closing)

/-- What is sent: `body` up to its terminator, after the writes of `state_json`. -/
def sent (body : Memory) (x : Print Nat) : Option (List UInt8) :=
  match x.outcome with
  | .ok _ => some ((load (storeAll body x.events) ⟨0, BODY_BYTES⟩).takeWhile fun b => b ≠ 0)
  | .error _ => none

end Es3Recomp.Source.Passport
