import Es3Recomp.Model.CardReader.Pieces

/-!
# What `send_frame` writes, `consume` reads

The reader's two halves of the frame format are two functions, src/src/runtime/card.c:312-327 and
574-609. Nothing keeps them in step but that each follows the same format.
-/
namespace Es3Recomp.Guarantees.CardReader
open Library Source.CardReader Model.CardReader

/-- What `send_frame` appended to the FIFO. -/
def appended (p : CardPort) (body : List UInt8) : List UInt8 :=
  (sendFrame p body).out.contents.drop p.out.contents.length

/-- The three bytes behind the two of the start code, as `consume` has them. -/
def lengthByte (inp : List UInt8) : UInt8 := inp.getD 3 0
def lengthCheck (inp : List UInt8) : UInt8 := inp.getD 4 0

/-- The bytes are one frame around `body`, and its checksums are right. -/
structure OneFrame (world : World) (clean : Reader) (sent body : List UInt8) : Prop where
  start : IsStart (sent.getD 0 0) (sent.getD 1 0) (sent.getD 2 0)
  information : ¬ IsAck (lengthByte sent) (lengthCheck sent)
  length : (lengthByte sent).toNat = body.length ∧ lengthByte sent + lengthCheck sent = 0
  found : ∃ dcs, turn sent = .frame body dcs ∧ body.sum + dcs = 0
  postamble : sent.getLast? = some 0x00
  /-- one command is carried out, on that body, and nothing is left in the buffer -/
  executed : (consume world (clean.setInp sent)).2.map Executed.body = [body]
  consumed : (consume world (clean.setInp sent)).1.port.inp = []

theorem length_frame (body : List UInt8) : (frame body).length = body.length + 7 := by
  simp only [frame, List.length_append, List.length_cons, List.length_nil]
  omega

/-- With room for all of it, the whole frame is behind what the FIFO held. -/
theorem contents_sendFrame {p : CardPort} {body : List UInt8}
    (room : body.length + 7 ≤ p.out.room) :
    (sendFrame p body).out.contents = p.out.contents ++ frame body := by
  have fits : (frame body).length ≤ p.out.room := by rwa [length_frame]
  rw [sendFrame, Ring.contents_pushAll, List.take_of_length_le fits]

theorem appended_frame {p : CardPort} {body : List UInt8} (room : body.length + 7 ≤ p.out.room) :
    appended p body = frame body := by
  rw [appended, contents_sendFrame room, List.drop_left]

theorem consume_frame (world : World) (clean : Reader) {body : List UInt8}
    (short : body.length ≤ 255) :
    (consume world (clean.setInp (frame body))).2.map Executed.body = [body] ∧
      (consume world (clean.setInp (frame body))).1.port.inp = [] := by
  obtain ⟨taken, left⟩ := consume_frames world (clean.setInp (frame body))
  have one : frames (clean.setInp (frame body)).port.inp = ([(body, 0 - body.sum)], []) :=
    frames_sent body short
  rw [one] at taken left
  refine ⟨?_, left⟩
  have bodies : ∀ es : List Executed, es.map Executed.body = (es.map frameOf).map Prod.fst := by
    intro es
    rw [List.map_map]
    rfl
  rw [bodies, taken]
  rfl

theorem frame_oneFrame (world : World) (clean : Reader) {body : List UInt8}
    (short : body.length ≤ 255) : OneFrame world clean (frame body) body := by
  obtain ⟨executed, consumed⟩ := consume_frame world clean short
  have turned := frame_turn body [] short
  rw [List.append_nil] at turned
  refine ⟨⟨rfl, rfl, rfl⟩, notAck_complement _, ⟨?_, ?_⟩, ⟨_, turned⟩, ?_, executed, consumed⟩
  · show (UInt8.ofNat body.length).toNat = body.length
    rw [UInt8.toNat_ofNat', Nat.mod_eq_of_lt (by omega)]
  · show UInt8.ofNat body.length + (0 - UInt8.ofNat body.length) = 0
    rw [UInt8.zero_sub, UInt8.add_right_neg]
  · have ends : frame body = ([0x00, 0x00, 0xFF, UInt8.ofNat body.length,
        0 - UInt8.ofNat body.length] ++ body ++ [0 - body.sum]) ++ [0x00] := by
      simp only [frame, List.append_assoc, List.cons_append, List.nil_append]
    rw [ends, List.getLast?_concat]

/-- Whatever the body holds, start codes and ACKs included; it may also be empty. -/
theorem sent_frame_received (world : World) (clean : Reader) (p : CardPort) (body : List UInt8)
    (short : body.length ≤ 64) (room : body.length + 7 ≤ p.out.room) :
    (sendFrame p body).out.contents = p.out.contents ++ appended p body ∧
      OneFrame world clean (appended p body) body := by
  rw [appended_frame room]
  exact ⟨contents_sendFrame room, frame_oneFrame world clean (by omega)⟩

/-- A body that holds an ACK and the start of a frame, in a FIFO as it starts. -/
theorem nested_frame_received :
    let body : List UInt8 := [0x00, 0x00, 0xFF, 0x00, 0xFF, 0x00, 0x00, 0xFF, 0x01]
    let clean : Reader := ⟨CardPort.initial, Card.initial none, 0, 0⟩
    let world : World := ⟨false, fun _ => ⟨0, SaveOutcome.good⟩⟩
    (sendFrame CardPort.initial body).out.contents =
        CardPort.initial.out.contents ++ appended CardPort.initial body ∧
      OneFrame world clean (appended CardPort.initial body) body :=
  sent_frame_received _ _ _ _ (by decide) (by decide)

end Es3Recomp.Guarantees.CardReader
