import Es3Recomp.Model.CardReader.Calls
import Es3Recomp.Model.CardReader.Pieces

/-!
# The input buffer drains

`consume` (src/src/runtime/card.c:574-609) stops only for want of bytes: fewer than the five of a
header, or fewer than its frame needs, which is 262 at most. So it leaves 261 or fewer behind,
whatever was written, and the next call of `es3_card_write` (718-730) finds that much room.
-/
namespace Es3Recomp.Guarantees.CardReader
open Library Source.CardReader Model.CardReader

/-- One byte less than the longest frame. -/
def LEFTOVER : Nat := 261

/-! ## The loop by its index -/

theorem turnAt_drop (inp : List UInt8) (i : Nat) : turnAt inp i = turn (inp.drop i) := by
  have byte : ∀ n, inp.getD (i + n) 0 = (inp.drop i).getD n 0 := by
    intro n
    rw [List.getD_eq_getElem?_getD, List.getD_eq_getElem?_getD, List.getElem?_drop]
  have first : inp.getD i 0 = (inp.drop i).getD 0 0 := byte 0
  have header : inp.length < i + 5 ↔ (inp.drop i).length < 5 := by
    rw [List.length_drop]
    omega
  have need : ∀ len, inp.length < i + (5 + (len + 2)) ↔
      (inp.drop i).length < 5 + (len + 2) := by
    intro len
    rw [List.length_drop]
    omega
  unfold turnAt turn ackLength
  simp only [header, first, byte, Nat.add_assoc, need, List.drop_drop, List.length_drop]

/-- `in_len`, and what stands in front of it, is not touched by a command. -/
theorem roundAt_buffer {world : World} {s t : Nat × Reader} {taken : Option Executed}
    (round : roundAt world s = some (taken, t)) :
    t.2.port.inp = s.2.port.inp ∧ s.1 < t.1 ∧ t.1 ≤ s.2.port.inp.length := by
  unfold roundAt at round
  rw [turnAt_drop] at round
  split at round
  · cases round
  · rename_i n found
    cases round
    have bounds := turn_skip found
    rw [List.length_drop] at bounds
    exact ⟨rfl, by omega, by omega⟩
  · rename_i body dcs found
    cases round
    have bounds := turn_frame found
    rw [List.length_drop] at bounds
    exact ⟨execute_inp world s.2 body dcs, by omega, by omega⟩

/-- The `while` of `consume`: its index and the reader. -/
def indexScan (world : World) : Scan (Nat × Reader) Executed where
  size s := s.2.port.inp.length - s.1
  next := roundAt world
  shorter := by
    intro s taken t round
    obtain ⟨same, further, inside⟩ := roundAt_buffer round
    rw [same]
    omega

/-- A command does not see what is in front of its frame. -/
theorem execute_moveDown (world : World) (i : Nat) (r : Reader) (body : List UInt8) (dcs : UInt8) :
    execute world (moveDown i r) body dcs =
      (moveDown i (execute world r body dcs).1, (execute world r body dcs).2) := by
  by_cases silent : (command (cardInField world.always (world.moment r.commands).tick
      r.presentUntil) (world.moment r.commands).save r.card body).2 = []
  · simp only [execute, moveDown, Reader.setInp, silent, if_true]
  · simp only [execute, moveDown, Reader.setInp, silent, if_false, sendFrame]

theorem behind_moveDown (i : Nat) (r : Reader) (body : List UInt8) :
    behind (moveDown i r) body = moveDown (i + (5 + body.length + 2)) r := by
  have buffer : (moveDown i r).port.inp = r.port.inp.drop i := rfl
  rw [behind, buffer, List.drop_drop]
  rfl

/-- A round by its index is a turn on the bytes from there on. -/
theorem roundAt_turn (world : World) (s : Nat × Reader) :
    (readerScan world).next (moveDown s.1 s.2) =
      (roundAt world s).map fun n => (n.1.map id, moveDown n.2.1 n.2.2) := by
  obtain ⟨i, r⟩ := s
  have buffer : (moveDown i r).port.inp = r.port.inp.drop i := rfl
  simp only [readerScan, roundAt, buffer, turnAt_drop]
  cases turn (r.port.inp.drop i) with
  | wait => rfl
  | skip n =>
    simp only [Option.map_some, Option.map_none, moveDown, List.drop_drop]
    rfl
  | frame body dcs =>
    simp only [execute_moveDown, behind_moveDown, Option.map_some, id]

/-- The loop by its index, and the `memmove` behind it, is `consume`. -/
theorem consume_moveDown (world : World) (r : Reader) :
    consume world r = (moveDown ((indexScan world).all (0, r)).2.1 ((indexScan world).all (0, r)).2.2,
      ((indexScan world).all (0, r)).1) := by
  have same := (indexScan world).all_map (readerScan world) (fun s => moveDown s.1 s.2) id
    (roundAt_turn world) (0, r)
  have whole : moveDown 0 r = r := rfl
  rw [whole, List.map_id] at same
  rw [consume_all, same]

/-- Wherever the loop comes, its index is inside the buffer it began with. -/
theorem visits_inside {world : World} {s t : Nat × Reader} (inside : s.1 ≤ s.2.port.inp.length)
    (visits : (indexScan world).Visits s t) :
    t.1 ≤ t.2.port.inp.length ∧ t.2.port.inp = s.2.port.inp := by
  induction visits with
  | here s => exact ⟨inside, rfl⟩
  | @next s rest t taken round later ih =>
    obtain ⟨same, -, bound⟩ := roundAt_buffer round
    obtain ⟨there, buffer⟩ := ih (same ▸ bound)
    exact ⟨there, buffer.trans same⟩

/-! ## What is left -/

/-- The loop stops where a header or a frame is not complete. -/
theorem length_wait {inp : List UInt8} (stop : turn inp = .wait) : inp.length ≤ LEFTOVER := by
  rcases five_or_more inp with short | ⟨a, b, c, len, lcs, rest, rfl⟩
  · exact Nat.le_trans (Nat.le_of_lt short) (by decide)
  · have byte := len.toNat_lt
    have incomplete : rest.length < len.toNat + 2 := by
      by_contra complete
      rw [turn_five] at stop
      split at stop
      · cases stop
      · split at stop
        · cases stop
        · split at stop
          · cases stop
          · cases stop
    simp only [List.length_cons, LEFTOVER]
    omega

theorem length_consume (world : World) (r : Reader) :
    (consume world r).1.port.inp.length ≤ LEFTOVER := by
  rw [(consume_frames world r).2]
  exact length_wait (turn_frames _)

theorem length_step (world : World) (r : Reader) (op : Op) (short : r.port.inp.length ≤ LEFTOVER) :
    (step world r op).1.port.inp.length ≤ LEFTOVER := by
  rw [(step_spec world r op).inp]
  cases op with
  | write env bytes => exact length_consume world (received r bytes)
  | read | postRead | tick | cancel | tap => exact short

theorem accepted_whole {p : CardPort} {bytes : List UInt8} (short : p.inp.length ≤ LEFTOVER)
    (fits : bytes.length ≤ FIFO - LEFTOVER) : accepted p bytes = bytes := by
  apply List.take_of_length_le
  omega

/-- `consume` on the buffer of `r`, whatever is in it. -/
structure Drains (world : World) (r : Reader) : Prop where
  /-- at every turn the index is inside the buffer, which is the one the loop began with -/
  inside : ∀ s, (indexScan world).Visits (0, r) s →
    s.1 ≤ r.port.inp.length ∧ s.2.port.inp = r.port.inp
  /-- after as many turns as there are bytes the loop is left -/
  terminates : roundAt world ((indexScan world).loop (r.port.inp.length + 1) (0, r)).2 = none
  result : ∀ i q, ((indexScan world).loop (r.port.inp.length + 1) (0, r)).2 = (i, q) →
    (consume world r).1 = moveDown i q
  left : (consume world r).1.port.inp.length ≤ LEFTOVER

theorem consume_drains (world : World) (r : Reader) : Drains world r where
  inside s visits := by
    obtain ⟨bound, same⟩ := visits_inside (Nat.zero_le _) visits
    exact ⟨same ▸ bound, same⟩
  terminates := (indexScan world).next_all (0, r)
  result i q stop := by
    have stop' : ((indexScan world).all (0, r)).2 = (i, q) := stop
    rw [consume_moveDown, stop']
  left := length_consume world r

/-- After any calls there is room for a write of 3835 bytes. -/
theorem buffer_always_drains (world : World) :
    (∀ r, Drains world r) ∧
      ∀ (w : LoadWorld) (ops : List Op),
        let r := ((reader world).run (Reader.start w) ops).1
        r.port.inp.length ≤ LEFTOVER ∧
          ∀ bytes, bytes.length ≤ FIFO - LEFTOVER → accepted r.port bytes = bytes := by
  refine ⟨consume_drains world, fun w ops => ?_⟩
  have short := (reader world).run_invariant (fun r => r.port.inp.length ≤ LEFTOVER)
    (Reader.start w) (Nat.zero_le _) (fun r op h => length_step world r op h) ops
  exact ⟨short, fun bytes fits => accepted_whole short fits⟩

end Es3Recomp.Guarantees.CardReader
