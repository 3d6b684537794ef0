import Mathlib.Data.List.Nodup

/-!
# Closing a collection under its edges, a round at a time

What is done has a key and edges to other keys. A round works off keys that are pending, and
what it adds decides what is pending next: the keys inside that an edge leads to and that
are not done. As long as no round leaves anything pending behind (`Complete`), what is
pending is always exactly what is open (`Exact`), so that nothing is open when nothing is
pending; and everything that is done was asked for at the start or by an edge (`Sound`).
-/
namespace Es3Recomp.Library

structure Worklist (α ε : Type) where
  done : List ε
  pending : List α

namespace Worklist
variable {α ε : Type} (key : ε → α) (edges : ε → List α) (inside : α → Prop)

def keys (w : Worklist α ε) : List α := w.done.map key

/-- An edge of what is done leads there. -/
def Leads (w : Worklist α ε) (a : α) : Prop := ∃ e ∈ w.done, a ∈ edges e

def Exact (w : Worklist α ε) : Prop :=
  ∀ a, a ∈ w.pending ↔ inside a ∧ w.Leads edges a ∧ a ∉ w.keys key

def Sound (start : List α) (w : Worklist α ε) : Prop :=
  ∀ a, a ∈ w.keys key ∨ a ∈ w.pending → a ∈ start ∨ inside a ∧ w.Leads edges a

/-- One round, and what it adds. -/
structure Round (w : Worklist α ε) (new : List ε) (w' : Worklist α ε) : Prop where
  done : w'.done = w.done ++ new
  asked : ∀ e ∈ new, key e ∈ w.pending
  opened : ∀ a, a ∈ w'.pending ↔ inside a ∧ (∃ e ∈ new, a ∈ edges e) ∧ a ∉ w'.keys key

/-- Nothing pending is left behind. -/
def Complete (w w' : Worklist α ε) : Prop := ∀ a ∈ w.pending, a ∈ w'.keys key

variable {key edges inside} {w w' : Worklist α ε} {new : List ε}

theorem Round.keys (round : Round key edges inside w new w') :
    w'.keys key = w.keys key ++ new.map key := by
  rw [Worklist.keys, round.done, List.map_append, Worklist.keys]

theorem Round.leads_iff (round : Round key edges inside w new w') (a : α) :
    w'.Leads edges a ↔ w.Leads edges a ∨ ∃ e ∈ new, a ∈ edges e := by
  simp only [Leads, round.done, List.mem_append, or_and_right, exists_or]

/-- The first round. -/
theorem Round.exact_first (round : Round key edges inside w new w') (first : w.done = []) :
    w'.Exact key edges inside := by
  intro a
  have nothing : ¬w.Leads edges a := by
    rintro ⟨e, member, -⟩
    rw [first] at member
    exact absurd member List.not_mem_nil
  rw [round.opened, round.leads_iff, or_iff_right nothing]

theorem Round.exact (round : Round key edges inside w new w') (exact : w.Exact key edges inside)
    (complete : w.Complete key w') : w'.Exact key edges inside := by
  intro a
  rw [round.opened, round.leads_iff]
  constructor
  · rintro ⟨within, reached, isOpen⟩
    exact ⟨within, Or.inr reached, isOpen⟩
  · rintro ⟨within, reached | reached, isOpen⟩
    · -- an old edge: its end was done or pending before, so it is done now
      have undone : a ∉ w.keys key := by
        intro before
        rw [round.keys] at isOpen
        exact isOpen (List.mem_append_left _ before)
      exact absurd (complete a ((exact a).mpr ⟨within, reached, undone⟩)) isOpen
    · exact ⟨within, reached, isOpen⟩

theorem Round.sound (round : Round key edges inside w new w') {start : List α}
    (sound : w.Sound key edges inside start) : w'.Sound key edges inside start := by
  have kept : ∀ a, a ∈ start ∨ inside a ∧ w.Leads edges a →
      a ∈ start ∨ inside a ∧ w'.Leads edges a := fun a =>
    Or.imp_right fun led => ⟨led.1, (round.leads_iff a).mpr (Or.inl led.2)⟩
  rintro a (done | pending)
  · rw [round.keys] at done
    rcases List.mem_append.mp done with before | added
    · exact kept a (sound a (Or.inl before))
    · obtain ⟨e, member, rfl⟩ := List.mem_map.mp added
      exact kept _ (sound _ (Or.inr (round.asked e member)))
  · obtain ⟨within, reached, -⟩ := (round.opened a).mp pending
    exact Or.inr ⟨within, (round.leads_iff a).mpr (Or.inr reached)⟩

end Worklist
end Es3Recomp.Library
