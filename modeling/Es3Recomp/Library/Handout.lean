import Mathlib.Algebra.GroupWithZero.Nat
import Mathlib.Data.List.Nodup

/-!
# Handing out what has come in

A pool takes tokens in one by one and hands everything it has to whoever asks next. What
has been handed out, in order, and what still waits make up what came in (`all_put`,
`all_takeAll`); so as long as no token comes in twice nobody gets what somebody else got.
-/
namespace Es3Recomp.Library

structure Handout (τ κ : Type) where
  waiting : List τ
  handed : List (κ × List τ)

namespace Handout
variable {τ κ : Type}

def empty : Handout τ κ := ⟨[], []⟩

def put (p : Handout τ κ) (t : τ) : Handout τ κ := { p with waiting := p.waiting ++ [t] }

def takeAll (p : Handout τ κ) (caller : κ) : Handout τ κ :=
  ⟨[], p.handed ++ [(caller, p.waiting)]⟩

/-- Everything that came in. -/
def all (p : Handout τ κ) : List τ := p.handed.flatMap Prod.snd ++ p.waiting

variable (p : Handout τ κ) (t : τ) (caller : κ)

@[simp] theorem all_put : (p.put t).all = p.all ++ [t] := by
  rw [all, put, all, List.append_assoc]

@[simp] theorem all_takeAll : (p.takeAll caller).all = p.all := by
  simp [all, takeAll]

theorem length_all :
    p.all.length = (p.handed.map fun h => h.2.length).sum + p.waiting.length := by
  rw [all, List.length_append, List.length_flatMap]

variable {p}

theorem handed_sublist {h : κ × List τ} (member : h ∈ p.handed) : h.2.Sublist p.all := by
  have part := List.sublist_flatten_of_mem (List.mem_map_of_mem (f := Prod.snd) member)
  rw [← List.flatMap_def] at part
  exact part.trans (List.sublist_append_left _ _)

theorem handed_nodup (once : p.all.Nodup) {h : κ × List τ} (member : h ∈ p.handed) : h.2.Nodup :=
  (handed_sublist member).nodup once

/-- No two who asked have a token in common. -/
theorem handed_disjoint (once : p.all.Nodup) :
    p.handed.Pairwise fun h h' => h.2.Disjoint h'.2 :=
  (List.nodup_flatMap.mp (List.Nodup.of_append_left once)).2

end Handout
end Es3Recomp.Library
