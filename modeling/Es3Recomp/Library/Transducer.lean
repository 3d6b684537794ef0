import Mathlib.Data.List.Induction

/-!
# Runs of a machine with outputs

A machine takes one input at a time, moves its state and gives a list of outputs.
`run` feeds it a list of inputs. `run_induction` is the rule for what holds in
every state reached together with the outputs so far, `run_invariant` the same
rule for the state alone, `along_induction` the one for runs under a condition on
the inputs. A `Refinement` relates a machine to a more abstract one step
by step; `Refinement.run` carries it over to runs.
-/
namespace Es3Recomp.Library

/-- All of the inputs before, and the last one. -/
theorem forall_mem_concat {α : Type} {p : α → Prop} {xs : List α} {x : α} :
    (∀ y ∈ xs ++ [x], p y) ↔ (∀ y ∈ xs, p y) ∧ p x := by
  rw [List.forall_mem_append, List.forall_mem_singleton]

/-- One of the inputs before, or the last one. -/
theorem getElem?_concat {α : Type} {xs : List α} {x y : α} {k : Nat}
    (found : (xs ++ [x])[k]? = some y) : xs[k]? = some y ∨ k = xs.length ∧ y = x := by
  rcases Nat.lt_or_ge k xs.length with old | new
  · rw [List.getElem?_append_left old] at found
    exact .inl found
  · rw [List.getElem?_append_right new] at found
    obtain ⟨index, last⟩ := List.getElem?_eq_some_iff.mp found
    rw [List.length_singleton] at index
    rw [List.getElem_singleton] at last
    exact .inr ⟨by omega, last.symm⟩

structure Transducer (σ ι ω : Type) where
  step : σ → ι → σ × List ω

namespace Transducer
variable {σ ι ω : Type} (t : Transducer σ ι ω)

def run : σ → List ι → σ × List ω
  | s, [] => (s, [])
  | s, i :: is =>
    let here := t.step s i
    let rest := run here.1 is
    (rest.1, here.2 ++ rest.2)

@[simp] theorem run_nil (s : σ) : t.run s [] = (s, []) := rfl

theorem run_cons (s : σ) (i : ι) (is : List ι) :
    t.run s (i :: is) =
      ((t.run (t.step s i).1 is).1, (t.step s i).2 ++ (t.run (t.step s i).1 is).2) := rfl

theorem run_append (s : σ) (xs ys : List ι) :
    t.run s (xs ++ ys) =
      ((t.run (t.run s xs).1 ys).1, (t.run s xs).2 ++ (t.run (t.run s xs).1 ys).2) := by
  induction xs generalizing s with
  | nil => simp
  | cons x xs ih => simp [run_cons, ih, List.append_assoc]

theorem run_concat (s : σ) (is : List ι) (i : ι) :
    t.run s (is ++ [i]) =
      ((t.step (t.run s is).1 i).1, (t.run s is).2 ++ (t.step (t.run s is).1 i).2) := by
  simp [run_append, run_cons]

/-- What holds at the start and survives each step, outputs included, holds at
the end of every run. -/
theorem run_induction {motive : σ → List ω → Prop} (s : σ) (start : motive s [])
    (step : ∀ s' out i, motive s' out → motive (t.step s' i).1 (out ++ (t.step s' i).2))
    (is : List ι) : motive (t.run s is).1 (t.run s is).2 := by
  induction is using List.reverseRecOn with
  | nil => exact start
  | append_singleton is i ih =>
    rw [run_concat]
    exact step _ _ i ih

/-- The same for a state invariant that does not speak of outputs. -/
theorem run_invariant (inv : σ → Prop) (s : σ) (start : inv s)
    (step : ∀ s' i, inv s' → inv (t.step s' i).1) (is : List ι) : inv (t.run s is).1 :=
  t.run_induction (motive := fun s' _ => inv s') s start (fun s' _ i h => step s' i h) is

/-- Every input meets a condition in the state in which it comes. -/
def Along (P : σ → ι → Prop) : σ → List ι → Prop
  | _, [] => True
  | s, i :: is => P s i ∧ Along P (t.step s i).1 is

instance decidableAlong (P : σ → ι → Prop) [∀ s i, Decidable (P s i)] :
    ∀ (s : σ) (is : List ι), Decidable (t.Along P s is)
  | _, [] => .isTrue trivial
  | s, i :: is =>
    have := decidableAlong P (t.step s i).1 is
    inferInstanceAs (Decidable (P s i ∧ t.Along P (t.step s i).1 is))

theorem along_append {P : σ → ι → Prop} {s : σ} {xs ys : List ι} :
    t.Along P s (xs ++ ys) ↔ t.Along P s xs ∧ t.Along P (t.run s xs).1 ys := by
  induction xs generalizing s with
  | nil => simp only [List.nil_append, Along, run_nil, true_and]
  | cons x xs ih => simp only [List.cons_append, Along, ih, run_cons, and_assoc]

/-- The rule for runs whose inputs all meet a condition. -/
theorem along_induction {P : σ → ι → Prop} {motive : σ → List ω → Prop} {s : σ}
    (start : motive s [])
    (step : ∀ s' out i, motive s' out → P s' i → motive (t.step s' i).1 (out ++ (t.step s' i).2))
    {is : List ι} (along : t.Along P s is) : motive (t.run s is).1 (t.run s is).2 := by
  induction is using List.reverseRecOn with
  | nil => exact start
  | append_singleton is i ih =>
    obtain ⟨earlier, here, -⟩ := t.along_append.mp along
    rw [run_concat]
    exact step _ _ i (ih earlier) here

end Transducer

/-- Every step of `t` is a step of `u`, on the state that `abs` sees and on the input
that `input` reads into it, and observers of the two see the same. -/
structure Refinement {σ ι ω σ' ι' ω' : Type} (t : Transducer σ ι ω) (u : Transducer σ' ι' ω')
    (ε : Type) where
  abs : σ → σ'
  input : σ → ι → ι'
  /-- what an output of `t` shows, and what one of `u` does -/
  seen : ω → List ε
  shown : ω' → List ε
  /-- the states and the inputs that the relation is about -/
  Inv : σ → Prop
  Ok : ι → Prop
  inv_step : ∀ {s i}, Inv s → Ok i → Inv (t.step s i).1
  state : ∀ {s i}, Inv s → Ok i → abs (t.step s i).1 = (u.step (abs s) (input s i)).1
  outputs : ∀ {s i}, Inv s → Ok i →
    (t.step s i).2.flatMap seen = (u.step (abs s) (input s i)).2.flatMap shown

namespace Refinement
variable {σ ι ω σ' ι' ω' ε : Type} {t : Transducer σ ι ω} {u : Transducer σ' ι' ω'}
  (r : Refinement t u ε)

/-- The inputs of a run, as the abstract machine gets them. -/
def inputs : σ → List ι → List ι'
  | _, [] => []
  | s, i :: is => r.input s i :: inputs (t.step s i).1 is

theorem run {s : σ} {is : List ι} (start : r.Inv s) (ok : ∀ i ∈ is, r.Ok i) :
    r.abs (t.run s is).1 = (u.run (r.abs s) (r.inputs s is)).1 ∧
      (t.run s is).2.flatMap r.seen = (u.run (r.abs s) (r.inputs s is)).2.flatMap r.shown := by
  induction is generalizing s with
  | nil => exact ⟨rfl, rfl⟩
  | cons i is ih =>
    have here := ok i List.mem_cons_self
    have rest := ih (r.inv_step start here) fun j member => ok j (List.mem_cons_of_mem i member)
    rw [r.state start here] at rest
    constructor
    · exact rest.1
    · rw [Transducer.run_cons, List.flatMap_append, rest.2, r.outputs start here]
      simp only [inputs, Transducer.run_cons, List.flatMap_append]

/-- What holds of every input of the abstract machine holds along a run. -/
theorem forall_inputs {P : ι' → Prop} (all : ∀ s i, P (r.input s i)) (s : σ) (is : List ι) :
    ∀ i' ∈ r.inputs s is, P i' := by
  induction is generalizing s with
  | nil => nofun
  | cons i is ih =>
    intro i' member
    rcases List.mem_cons.mp member with here | later
    · rw [here]
      exact all s i
    · exact ih _ i' later

end Refinement
end Es3Recomp.Library
