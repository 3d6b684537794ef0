import Es3Recomp.Model.CardReader.Load
import Es3Recomp.Source.CardReader.Session

/-!
# Sessions, command by command

What one event of a session does to the card, in the terms of what was asked.
-/
namespace Es3Recomp.Model.CardReader
open Library Source.CardReader

section Sessions
variable (always : Bool) (s : Session) (body : List UInt8) (o : SaveOutcome)

theorem step_card : (s.step always (.command body o)).1.card =
    perform (s.inField always) o s.card (demandOf body) :=
  (command_spec (s.inField always) o s.card body).card

/-- No command changes whether the card is in the field. -/
theorem step_inField : (s.step always (.command body o)).1.inField always = s.inField always := rfl

theorem step_authSector : (s.step always (.command body o)).1.card.authSector =
    sectorAfter (s.inField always) s.card.authSector (demandOf body) := by
  rw [step_card, perform_authSector]

theorem doneBy_reply : doneBy body (reply always s body o) =
    grantedBy (s.inField always) s.card.authSector (demandOf body) :=
  doneBy_command (s.inField always) o s.card body

end Sessions

/-- The state of a run, one event later. -/
theorem run_snoc (always : Bool) (s : Session) (pre : List Event) (ev : Event) :
    ((session always).run s (pre ++ [ev])).1 =
      (Session.step always ((session always).run s pre).1 ev).1 := by
  rw [Transducer.run_concat]
  rfl

/-- No file yet, no option, and every file function succeeds: a blank card. -/
def blankWorld : LoadWorld := ⟨none, none, false, 0, SaveOutcome.good⟩

end Es3Recomp.Model.CardReader
