import Es3Recomp.Library.ReadChannel
import Es3Recomp.Source.Jvs.Read

/-!
# A posted read as a request

What the two ports have in common: the request that a posted read is, and the effects
on the game that its completion has (src/src/runtime/jvs.c:429-461, src/src/runtime/card.c:626-654).
-/
namespace Es3Recomp.Model.Reads
open Library Source.Jvs

/-- Where a completed read goes: the buffer, the OVERLAPPED, the routine, its thread. -/
structure Ticket where
  buf : Word
  ovl : Word
  routine : Word
  thread : Word
  deriving DecidableEq

abbrev ReadRequest := Request Ticket UInt64
abbrev ReadMove := Channel.Move UInt8 Ticket UInt64 Word
abbrev ReadDelivery := Channel.Delivery UInt8 Ticket UInt64 Word

/-- A stored deadline of 0 is none. -/
def deadlineOf (d : UInt64) : Option UInt64 := if d = 0 then none else some d

theorem expired_iff (d now : UInt64) : (∃ e ∈ deadlineOf d, e ≤ now) ↔ d ≠ 0 ∧ d ≤ now := by
  unfold deadlineOf
  by_cases zero : d = 0
  · simp [zero]
  · simp [zero]

/-- When a posted read is due, in the words that a port keeps. -/
theorem request_due_iff (len : UInt32) (deadline : UInt64) (t : Ticket) (waiting : Nat)
    (now : UInt64) :
    (⟨len.toNat, deadlineOf deadline, t⟩ : ReadRequest).Due waiting now ↔
      len.toNat ≤ waiting ∨ (deadline ≠ 0 ∧ deadline ≤ now) := by
  rw [Request.Due, expired_iff]

/-- What the game sees: the bytes in its buffer; for a posted read STATUS_SUCCESS and the
count in the OVERLAPPED, and the routine queued with the same count. -/
def effects : ReadDelivery → List Effect
  | .taken buf bytes => [.store buf bytes]
  | .completed r bytes =>
    let n := UInt32.ofNat bytes.length
    [.store r.ticket.buf bytes, .wr32 r.ticket.ovl 0, .wr32 (r.ticket.ovl + 4) n,
      .queueApc r.ticket.thread ⟨r.ticket.routine, 0, n, r.ticket.ovl⟩]

theorem bytesRead_effects (ds : List ReadDelivery) :
    bytesRead (ds.flatMap effects) = ds.flatMap Channel.Delivery.elements := by
  induction ds with
  | nil => rfl
  | cons d ds ih =>
    rw [List.flatMap_cons, bytesRead_append, ih]
    cases d with
    | taken buf bytes => simp [effects, Channel.Delivery.elements]
    | completed r bytes => simp [effects, Channel.Delivery.elements, bytesRead, Effect.bytes]

/-- The words of a request that the assumptions are about. -/
def Ticket.Whole (t : Ticket) : Prop := t.ovl ≠ 0 ∧ t.routine ≠ 0 ∧ t.thread ≠ 0

/-- `malloc` and `QueueUserAPC` succeed. -/
def EnvOk (env : Env) : Prop := env.mallocOk = true ∧ env.queueOk = true

end Es3Recomp.Model.Reads
