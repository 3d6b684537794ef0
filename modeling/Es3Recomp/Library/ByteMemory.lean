import Mathlib.Order.Basic

/-!
# Byte memory, and what a store leaves alone

Memory is a byte for every address; a `Span` is a range of addresses. The lemmas
are frame lemmas: a store or a copy changes nothing outside its destination.
-/
namespace Es3Recomp.Library

structure Span where
  start : Nat
  len : Nat
  deriving DecidableEq

namespace Span

def Holds (s : Span) (a : Nat) : Prop := s.start ≤ a ∧ a < s.start + s.len

def Apart (s t : Span) : Prop := s.start + s.len ≤ t.start ∨ t.start + t.len ≤ s.start

def Within (s t : Span) : Prop := t.start ≤ s.start ∧ s.start + s.len ≤ t.start + t.len

/-- No address is in both. -/
def Clear (s t : Span) : Prop := ∀ a, s.Holds a → ¬ t.Holds a

instance (s : Span) (a : Nat) : Decidable (s.Holds a) := inferInstanceAs (Decidable (_ ∧ _))
instance (s t : Span) : Decidable (s.Apart t) := inferInstanceAs (Decidable (_ ∨ _))
instance (s t : Span) : Decidable (s.Within t) := inferInstanceAs (Decidable (_ ∧ _))

theorem Apart.symm {s t : Span} (apart : s.Apart t) : t.Apart s := Or.symm apart

theorem Within.trans {s t u : Span} (inner : s.Within t) (outer : t.Within u) : s.Within u :=
  ⟨Nat.le_trans outer.1 inner.1, Nat.le_trans inner.2 outer.2⟩

/-- Parts of ranges that lie apart share no address. -/
theorem Apart.clear {s t s' t' : Span} (apart : s.Apart t) (left : s'.Within s)
    (right : t'.Within t) : s'.Clear t' := by
  intro a here there
  simp only [Apart, Within, Holds] at apart left right here there
  omega

theorem Apart.disjoint {s t : Span} (apart : s.Apart t) : s.Clear t :=
  apart.clear ⟨Nat.le_refl _, Nat.le_refl _⟩ ⟨Nat.le_refl _, Nat.le_refl _⟩

end Span

abbrev Memory := Nat → UInt8

def load (mem : Memory) (s : Span) : List UInt8 := (List.range s.len).map fun k => mem (s.start + k)

def store (mem : Memory) (start : Nat) (bytes : List UInt8) : Memory :=
  fun a => if start ≤ a then bytes.getD (a - start) (mem a) else mem a

/-- `memcpy` between ranges that do not overlap. -/
def copy (mem : Memory) (dst src len : Nat) : Memory := store mem dst (load mem ⟨src, len⟩)

@[simp] theorem length_load (mem : Memory) (s : Span) : (load mem s).length = s.len := by
  simp [load]

/-- The two memories differ at most inside the span. -/
def SameOutside (s : Span) (mem mem' : Memory) : Prop := ∀ a, ¬ s.Holds a → mem' a = mem a

theorem SameOutside.kept {s t : Span} {mem mem' : Memory} (same : SameOutside s mem mem')
    (clear : s.Clear t) {a : Nat} (here : t.Holds a) : mem' a = mem a :=
  same a fun written => clear a written here

theorem SameOutside.trans {s : Span} {mem mem' mem'' : Memory} (first : SameOutside s mem mem')
    (second : SameOutside s mem' mem'') : SameOutside s mem mem'' :=
  fun a outside => (second a outside).trans (first a outside)

theorem SameOutside.mono {s t : Span} {mem mem' : Memory} (same : SameOutside s mem mem')
    (inside : s.Within t) : SameOutside t mem mem' := by
  intro a outside
  apply same a
  intro here
  exact outside ⟨Nat.le_trans inside.1 here.1, Nat.lt_of_lt_of_le here.2 inside.2⟩

theorem store_sameOutside (mem : Memory) (start : Nat) (bytes : List UInt8) :
    SameOutside ⟨start, bytes.length⟩ mem (store mem start bytes) := by
  intro a outside
  simp only [Span.Holds, not_and, Nat.not_lt] at outside
  unfold store
  by_cases below : start ≤ a
  · have past := outside below
    rw [if_pos below, List.getD_eq_getElem?_getD, List.getElem?_eq_none (by omega)]
    rfl
  · rw [if_neg below]

theorem load_congr {s : Span} {mem mem' : Memory} (same : ∀ a, s.Holds a → mem' a = mem a) :
    load mem' s = load mem s := by
  apply List.map_congr_left
  intro k inside
  rw [List.mem_range] at inside
  exact same _ ⟨Nat.le_add_right _ _, Nat.add_lt_add_left inside _⟩

/-- A range that no store reaches reads as before. -/
theorem load_store_clear {s : Span} (mem : Memory) {start : Nat} {bytes : List UInt8}
    (apart : Span.Apart ⟨start, bytes.length⟩ s) : load (store mem start bytes) s = load mem s := by
  apply load_congr
  intro a here
  exact (store_sameOutside mem start bytes).kept apart.disjoint here

/-- The front of what was stored reads as stored. -/
theorem load_store_take (mem : Memory) (start n : Nat) (bytes : List UInt8)
    (inside : n ≤ bytes.length) : load (store mem start bytes) ⟨start, n⟩ = bytes.take n := by
  apply List.ext_getElem
  · simp [inside]
  · intro k here _
    rw [length_load] at here
    have stored : k < bytes.length := Nat.lt_of_lt_of_le here inside
    simp [load, store, List.getD_eq_getElem?_getD, stored]

theorem take_load (mem : Memory) (start : Nat) {n m : Nat} (le : n ≤ m) :
    (load mem ⟨start, m⟩).take n = load mem ⟨start, n⟩ := by
  simp [load, ← List.map_take, List.take_range, Nat.min_eq_left le]

theorem load_append (mem : Memory) (start n m : Nat) :
    load mem ⟨start, n + m⟩ = load mem ⟨start, n⟩ ++ load mem ⟨start + n, m⟩ := by
  simp [load, List.range_add, Nat.add_assoc]

/-- Two stores, the second behind the first. -/
theorem load_store_store (mem : Memory) (start : Nat) (xs ys : List UInt8) :
    load (store (store mem start xs) (start + xs.length) ys) ⟨start, xs.length + ys.length⟩ =
      xs ++ ys := by
  have apart : Span.Apart ⟨start + xs.length, ys.length⟩ ⟨start, xs.length⟩ :=
    Or.inr (Nat.le_refl _)
  rw [load_append, load_store_clear _ apart, load_store_take _ _ _ _ (Nat.le_refl _),
    load_store_take _ _ _ _ (Nat.le_refl _), List.take_length, List.take_length]

/-- Stores one after another. -/
def storeAll (mem : Memory) (ws : List (Nat × List UInt8)) : Memory :=
  ws.foldl (fun mem w => store mem w.1 w.2) mem

theorem storeAll_append (mem : Memory) (ws vs : List (Nat × List UInt8)) :
    storeAll mem (ws ++ vs) = storeAll (storeAll mem ws) vs := List.foldl_append

/-- The range that a store writes. -/
def written (w : Nat × List UInt8) : Span := ⟨w.1, w.2.length⟩

theorem load_storeAll_clear {s : Span} (mem : Memory) {ws : List (Nat × List UInt8)}
    (apart : ∀ w ∈ ws, (written w).Apart s) : load (storeAll mem ws) s = load mem s := by
  induction ws generalizing mem with
  | nil => rfl
  | cons w ws ih =>
    have rest := ih (store mem w.1 w.2) fun w' member => apart w' (List.mem_cons_of_mem w member)
    exact rest.trans (load_store_clear mem (apart w List.mem_cons_self))

/-- Where stores do not overlap, each of them is found. -/
theorem load_storeAll (mem : Memory) {ws : List (Nat × List UInt8)}
    (apart : ws.Pairwise fun w w' => (written w).Apart (written w')) {w : Nat × List UInt8}
    (member : w ∈ ws) : load (storeAll mem ws) (written w) = w.2 := by
  induction ws generalizing mem with
  | nil => cases member
  | cons v ws ih =>
    obtain ⟨first, rest⟩ := List.pairwise_cons.mp apart
    rcases List.mem_cons.mp member with rfl | later
    · have kept := load_storeAll_clear (store mem w.1 w.2) fun w' there => (first w' there).symm
      refine kept.trans ((load_store_take mem w.1 w.2.length w.2 (Nat.le_refl _)).trans ?_)
      exact List.take_length
    · exact ih (store mem v.1 v.2) rest later

theorem copy_sameOutside (mem : Memory) (dst src len : Nat) :
    SameOutside ⟨dst, len⟩ mem (copy mem dst src len) := by
  have frame := store_sameOutside mem dst (load mem ⟨src, len⟩)
  rwa [length_load] at frame

end Es3Recomp.Library
