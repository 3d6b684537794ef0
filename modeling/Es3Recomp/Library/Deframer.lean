import Mathlib.Data.List.Basic

/-!
# Deframing a stream that arrives in pieces

A receiver keeps the bytes it could not use yet, appends what arrives, and takes
whole frames off the front until none is complete. `Deframer` says what one pass
must satisfy: it shortens the buffer, what it finds does not depend on later
bytes, and what it keeps after finding nothing (`trim`) stands for the whole
buffer. From these, `drain_append` shows that draining commutes with arrival,
and `feedAll_eq_drain` that the cutting of a stream into pieces does not matter.
-/
namespace Es3Recomp.Library

structure Deframer (α ε : Type) where
  /-- One pass: the first frame and the buffer after it, or `none` to wait. -/
  next : List α → Option (ε × List α)
  /-- What is kept of the buffer when a pass has to wait. -/
  trim : List α → List α
  next_shorter : ∀ {b e r}, next b = some (e, r) → r.length < b.length
  next_append : ∀ {b e r} (x), next b = some (e, r) → next (b ++ x) = some (e, r ++ x)
  next_trim : ∀ {b} (x), next b = none → next (trim b ++ x) = next (b ++ x)
  trim_append : ∀ {b} (x), next b = none → trim (trim b ++ x) = trim (b ++ x)

namespace Deframer
variable {α ε : Type} (d : Deframer α ε)

def drainFuel : Nat → List α → List ε × List α
  | 0, b => ([], b)
  | k + 1, b =>
    match d.next b with
    | none => ([], d.trim b)
    | some (e, r) =>
      let rest := drainFuel k r
      (e :: rest.1, rest.2)

/-- All frames of the buffer, in order, and what is left of it. -/
def drain (b : List α) : List ε × List α := d.drainFuel (b.length + 1) b

theorem drainFuel_enough {k : Nat} {b : List α} (enough : b.length < k) :
    d.drainFuel k b = d.drain b := by
  unfold drain
  generalize hm : b.length + 1 = m
  have both : b.length < k ∧ b.length < m := ⟨enough, by omega⟩
  clear hm enough
  induction k generalizing b m with
  | zero => omega
  | succ k ih =>
    cases m with
    | zero => omega
    | succ m =>
      cases found : d.next b with
      | none => simp [drainFuel, found]
      | some p =>
        obtain ⟨e, r⟩ := p
        have shorter := d.next_shorter found
        have rest := ih (b := r) m ⟨by omega, by omega⟩
        simp [drainFuel, found, rest]

theorem drain_none {b : List α} (h : d.next b = none) : d.drain b = ([], d.trim b) := by
  simp [drain, drainFuel, h]

theorem drain_some {b r : List α} {e : ε} (h : d.next b = some (e, r)) :
    d.drain b = (e :: (d.drain r).1, (d.drain r).2) := by
  have shorter := d.next_shorter h
  have rest := d.drainFuel_enough (k := b.length) (b := r) shorter
  simp [drain, drainFuel, h, rest]

/-- Induction over the passes of a drain. -/
theorem drain_induction {motive : List α → Prop}
    (wait : ∀ b, d.next b = none → motive b)
    (frame : ∀ b e r, d.next b = some (e, r) → motive r → motive b) (b : List α) : motive b := by
  induction hn : b.length using Nat.strongRecOn generalizing b with
  | _ n ih =>
    cases found : d.next b with
    | none => exact wait b found
    | some p =>
      obtain ⟨e, r⟩ := p
      exact frame b e r found (ih r.length (hn ▸ d.next_shorter found) r rfl)

/-- What is left after draining holds no further frame. -/
theorem next_drain (b : List α) : d.next (d.drain b).2 = none := by
  induction b using d.drain_induction with
  | wait b h =>
    rw [d.drain_none h]
    simpa using (d.next_trim [] h).trans (by simpa using h)
  | frame b e r h ih => rwa [d.drain_some h]

theorem trim_drain (b : List α) : d.trim (d.drain b).2 = (d.drain b).2 := by
  induction b using d.drain_induction with
  | wait b h =>
    rw [d.drain_none h]
    simpa using d.trim_append [] h
  | frame b e r h ih => rwa [d.drain_some h]

theorem length_drain_le (trimmed : ∀ b, (d.trim b).length ≤ b.length) (b : List α) :
    (d.drain b).2.length ≤ b.length := by
  induction b using d.drain_induction with
  | wait b h => simpa [d.drain_none h] using trimmed b
  | frame b e r h ih =>
    have shorter := d.next_shorter h
    rw [d.drain_some h]
    exact Nat.le_trans ih (Nat.le_of_lt shorter)

/-- Draining what has arrived and then the rest is draining it all at once. -/
theorem drain_append (b x : List α) :
    d.drain (b ++ x) =
      ((d.drain b).1 ++ (d.drain ((d.drain b).2 ++ x)).1, (d.drain ((d.drain b).2 ++ x)).2) := by
  induction b using d.drain_induction with
  | wait b h =>
    have same := d.next_trim x h
    rw [d.drain_none h]
    cases found : d.next (b ++ x) with
    | none =>
      rw [d.drain_none found, d.drain_none (same.trans found), d.trim_append x h]
      rfl
    | some p =>
      obtain ⟨e, r⟩ := p
      rw [d.drain_some found, d.drain_some (same.trans found)]
      rfl
  | frame b e r h ih =>
    rw [d.drain_some (d.next_append x h), ih, d.drain_some h]
    rfl

/-- A buffer nothing can be taken off: draining leaves it as it is. -/
def Settled (b : List α) : Prop := (d.drain b).2 = b

theorem drain_of_settled {b : List α} (h : d.Settled b) : d.drain b = ([], b) := by
  have none := d.next_drain b
  have kept := d.trim_drain b
  rw [h] at none kept
  rw [d.drain_none none, kept]

theorem settled_drain (b : List α) : d.Settled (d.drain b).2 := by
  have none := d.next_drain b
  unfold Settled
  rw [d.drain_none none]
  exact d.trim_drain b

/-- Arrivals one after another: each is appended and the buffer drained. -/
def feedAll : List α → List (List α) → List ε × List α
  | b, [] => ([], b)
  | b, piece :: pieces =>
    let here := d.drain (b ++ piece)
    let rest := feedAll here.2 pieces
    (here.1 ++ rest.1, rest.2)

/-- However a stream is cut, the frames and the rest are those of the whole. -/
theorem feedAll_eq_drain {b : List α} (settled : d.Settled b) (pieces : List (List α)) :
    d.feedAll b pieces = d.drain (b ++ pieces.flatten) := by
  induction pieces generalizing b with
  | nil => simp [feedAll, d.drain_of_settled settled]
  | cons piece pieces ih =>
    rw [feedAll, ih (d.settled_drain (b ++ piece)), List.flatten_cons, ← List.append_assoc,
      d.drain_append (b ++ piece)]

end Deframer
end Es3Recomp.Library
