import Es3Recomp.Library.Transducer
import Es3Recomp.Source.CardReader.Card

/-!
# The card on the reader: taps, time, and one command after another

Source: src/src/runtime/card.c:82-126 (`g_present_until`, `card_always`, `card_in_field`,
`es3_card_tap`). The clock is part of the state, so that a run also says what
happens between two commands, when no code runs. It never goes back.
-/
namespace Es3Recomp.Source.CardReader
open Library

def CARD_DWELL_MS : UInt64 := 2000

/-- `card_in_field`; `always` is ES3_CARD_ALWAYS, read once. -/
def cardInField (always : Bool) (now presentUntil : UInt64) : Bool := always || now < presentUntil

structure Session where
  card : Card
  /-- what `GetTickCount64` returns -/
  now : UInt64
  presentUntil : UInt64

/-- After `card_load`, with the other statics zero. -/
def Session.start (w : LoadWorld) (now : UInt64) : Session := ⟨cardLoad w, now, 0⟩

def Session.inField (always : Bool) (s : Session) : Bool := cardInField always s.now s.presentUntil

inductive Event where
  /-- the clock reads `t`, or what it read before if that is later -/
  | clock (t : UInt64)
  | tap
  | command (body : List UInt8) (o : SaveOutcome)

/-- A command and the answer to it. -/
structure Exchange where
  body : List UInt8
  reply : List UInt8
  deriving DecidableEq

/-- `es3_card_tap` -/
def es3CardTap (s : Session) : Session := { s with presentUntil := s.now + CARD_DWELL_MS }

def reply (always : Bool) (s : Session) (body : List UInt8) (o : SaveOutcome) : List UInt8 :=
  (command (s.inField always) o s.card body).2

def Session.step (always : Bool) (s : Session) : Event → Session × List Exchange
  | .clock t => ({ s with now := max s.now t }, [])
  | .tap => (es3CardTap s, [])
  | .command body o =>
    ({ s with card := (command (s.inField always) o s.card body).1 },
      [⟨body, reply always s body o⟩])

def session (always : Bool) : Transducer Session Event Exchange := ⟨Session.step always⟩

end Es3Recomp.Source.CardReader
