import Mathlib.Data.Option.Basic
import Mathlib.Data.List.Basic

/-!
# Loops that use up a buffer

A loop whose turns stop, drop something, or take something, and that has less before it
after every turn that does not stop. `loop` runs it with fuel; one turn more than the
size is enough (`loop_enough`), so `all` is the loop itself, with its three equations
and its induction. `all_map` relates two loops turn by turn.
-/
namespace Es3Recomp.Library

structure Scan (β δ : Type) where
  size : β → Nat
  /-- One turn: `none` stops; what was taken, if anything, and what is left. -/
  next : β → Option (Option δ × β)
  shorter : ∀ {b taken rest}, next b = some (taken, rest) → size rest < size b

namespace Scan
variable {β δ : Type} (s : Scan β δ)

def loop : Nat → β → List δ × β
  | 0, b => ([], b)
  | k + 1, b =>
    match s.next b with
    | none => ([], b)
    | some (taken, rest) => (taken.toList ++ (loop k rest).1, (loop k rest).2)

/-- Everything the loop takes, in order, and where it stops. -/
def all (b : β) : List δ × β := s.loop (s.size b + 1) b

theorem loop_enough {k : Nat} {b : β} (enough : s.size b < k) : s.loop k b = s.all b := by
  unfold all
  generalize hm : s.size b + 1 = m
  have both : s.size b < k ∧ s.size b < m := ⟨enough, by omega⟩
  clear hm enough
  induction k generalizing b m with
  | zero => omega
  | succ k ih =>
    cases m with
    | zero => omega
    | succ m =>
      cases found : s.next b with
      | none => simp only [loop, found]
      | some turn =>
        obtain ⟨taken, rest⟩ := turn
        have shorter := s.shorter found
        have same := ih (b := rest) m ⟨by omega, by omega⟩
        simp only [loop, found, same]

theorem all_stop {b : β} (h : s.next b = none) : s.all b = ([], b) := by
  simp only [all, loop, h]

theorem all_next {b rest : β} {taken : Option δ} (h : s.next b = some (taken, rest)) :
    s.all b = (taken.toList ++ (s.all rest).1, (s.all rest).2) := by
  have shorter := s.shorter h
  rw [← s.loop_enough shorter, all]
  simp only [loop, h]

/-- Induction over the turns. -/
theorem all_induction {motive : β → List δ × β → Prop}
    (stop : ∀ b, s.next b = none → motive b ([], b))
    (next : ∀ b taken rest result, s.next b = some (taken, rest) → motive rest result →
      motive b (taken.toList ++ result.1, result.2))
    (b : β) : motive b (s.all b) := by
  induction hn : s.size b using Nat.strongRecOn generalizing b with
  | _ n ih =>
    cases found : s.next b with
    | none =>
      rw [s.all_stop found]
      exact stop b found
    | some turn =>
      obtain ⟨taken, rest⟩ := turn
      rw [s.all_next found]
      exact next b taken rest _ found (ih (s.size rest) (hn ▸ s.shorter found) rest rfl)

/-- The buffers that the loop comes to. -/
inductive Visits : β → β → Prop where
  | here (b : β) : Visits b b
  | next {b rest t : β} {taken : Option δ} (turn : s.next b = some (taken, rest))
      (later : Visits rest t) : Visits b t

/-- What holds wherever the loop comes holds here, and wherever it comes from the next
turn on. -/
theorem forall_visits_iff {P : β → Prop} (b : β) :
    (∀ t, s.Visits b t → P t) ↔
      P b ∧ ∀ taken rest, s.next b = some (taken, rest) → ∀ t, s.Visits rest t → P t := by
  constructor
  · intro all
    exact ⟨all b (.here b), fun taken rest turn t later => all t (.next turn later)⟩
  · rintro ⟨here, rest⟩ t visits
    cases visits with
    | here => exact here
    | next turn later => exact rest _ _ turn t later

/-- Nothing is left to take where the loop stops. -/
theorem next_all (b : β) : s.next (s.all b).2 = none := by
  refine s.all_induction (motive := fun _ result => s.next result.2 = none) ?_ ?_ b
  · intro b stop
    exact stop
  · intro b taken rest result _ ih
    exact ih

/-- A loop whose turns are those of another, seen through `abs` and `f`, takes what the
other takes, seen so. -/
theorem all_map {β' δ' : Type} (t : Scan β' δ') (abs : β → β') (f : δ → δ')
    (turn : ∀ b, t.next (abs b) = (s.next b).map fun n => (n.1.map f, abs n.2)) (b : β) :
    t.all (abs b) = ((s.all b).1.map f, abs (s.all b).2) := by
  refine s.all_induction
    (motive := fun b result => t.all (abs b) = (result.1.map f, abs result.2)) ?_ ?_ b
  · intro b stop
    have stop' : t.next (abs b) = none := by rw [turn, stop]; rfl
    rw [t.all_stop stop']
    rfl
  · intro b taken rest result found ih
    have found' : t.next (abs b) = some (taken.map f, abs rest) := by rw [turn, found]; rfl
    rw [t.all_next found', ih, List.map_append]
    cases taken <;> rfl

end Scan
end Es3Recomp.Library
