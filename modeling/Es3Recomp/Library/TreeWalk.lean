import Mathlib.Data.List.Perm.Basic
import Mathlib.Data.List.Perm.Subperm
import Mathlib.Data.List.Perm.Lattice
import Mathlib.Data.List.Nodup

/-!
# Walks of a forest whose links are asked for one at a time

A walker knows a node by its handle, and asks for its first child and for its next sibling.
It may leave questions open and take them up in any order; the newest first is a depth-first
walk. Once in the walk an answer "nothing more" may be a stray handle instead, which has
neither child nor sibling.
-/
namespace Es3Recomp.Library

/-- A node, its children, and the siblings after it. -/
inductive Forest (α : Type) where
  | nil
  | node (a : α) (kids next : Forest α)

namespace Forest
variable {α : Type}

def members : Forest α → List α
  | nil => []
  | node a kids next => a :: (kids.members ++ next.members)

def first : Forest α → Option α
  | nil => none
  | node a _ _ => some a

def kids : Forest α → Forest α
  | nil => nil
  | node _ kids _ => kids

def next : Forest α → Forest α
  | nil => nil
  | node _ _ next => next

variable [DecidableEq α]

/-- The part that begins with a handle, and nothing where there is no such node. -/
def find (a : α) : Forest α → Forest α
  | nil => nil
  | node b kids next =>
    if a = b then node b kids next else if a ∈ kids.members then kids.find a else next.find a

theorem find_self (a : α) (kids next : Forest α) :
    (node a kids next).find a = node a kids next := by rw [find, if_pos rfl]

theorem members_find (a : α) (f : Forest α) : (f.find a).members.Sublist f.members := by
  induction f with
  | nil => exact .refl _
  | node b kids next ihKids ihNext =>
    simp only [find]
    split
    next => exact .refl _
    split
    next => exact (ihKids.trans (List.sublist_append_left _ _)).cons b
    next => exact (ihNext.trans (List.sublist_append_right _ _)).cons b

theorem find_of_notMem {a : α} {f : Forest α} (absent : a ∉ f.members) : f.find a = nil := by
  induction f with
  | nil => rfl
  | node b kids next ihKids ihNext =>
    simp only [members, List.mem_cons, List.mem_append, not_or] at absent
    rw [find, if_neg absent.1, if_neg absent.2.1]
    exact ihNext absent.2.2

section node
variable {a b : α} {kids next : Forest α} (nodup : (node b kids next).members.Nodup)
include nodup

theorem find_of_mem_kids (inside : a ∈ kids.members) :
    (node b kids next).find a = kids.find a := by
  have other : a ≠ b := by
    rintro rfl
    exact (List.nodup_cons.mp nodup).1 (List.mem_append_left _ inside)
  rw [find, if_neg other, if_pos inside]

theorem find_of_mem_next (later : a ∈ next.members) :
    (node b kids next).find a = next.find a := by
  obtain ⟨fresh, nodup⟩ := List.nodup_cons.mp nodup
  have other : a ≠ b := by
    rintro rfl
    exact fresh (List.mem_append_right _ later)
  have outside : a ∉ kids.members := fun inside => (List.nodup_append'.mp nodup).2.2 inside later
  rw [find, if_neg other, if_neg outside]

end node

theorem find_kids {f : Forest α} {a : α} {inner later : Forest α} (nodup : f.members.Nodup)
    (found : f.kids = node a inner later) :
    a ∈ f.members ∧ f.find a = node a inner later := by
  cases f with
  | nil => cases found
  | node b kids next =>
    rw [Forest.kids] at found
    have inside : a ∈ kids.members := found ▸ List.mem_cons_self
    refine ⟨List.mem_cons_of_mem _ (List.mem_append_left _ inside), ?_⟩
    rw [find_of_mem_kids nodup inside, found, find_self]

theorem find_next {f : Forest α} {a : α} {inner later : Forest α} (nodup : f.members.Nodup)
    (found : f.next = node a inner later) :
    a ∈ f.members ∧ f.find a = node a inner later := by
  cases f with
  | nil => cases found
  | node b kids next =>
    rw [Forest.next] at found
    have later : a ∈ next.members := found ▸ List.mem_cons_self
    refine ⟨List.mem_cons_of_mem _ (List.mem_append_right _ later), ?_⟩
    rw [find_of_mem_next nodup later, found, find_self]

/-- Where handles are not repeated, a part is found in a part as in the whole. -/
theorem find_find {a b : α} {f : Forest α} (nodup : f.members.Nodup)
    (there : a ∈ (f.find b).members) : (f.find b).find a = f.find a := by
  induction f with
  | nil => cases there
  | node c kids next ihKids ihNext =>
    obtain ⟨nodupKids, nodupNext, -⟩ := List.nodup_append'.mp (List.nodup_cons.mp nodup).2
    rw [find.eq_2 b] at there ⊢
    by_cases same : b = c
    · rw [if_pos same]
    rw [if_neg same] at there ⊢
    by_cases inside : b ∈ kids.members
    · rw [if_pos inside] at there ⊢
      rw [find_of_mem_kids nodup ((members_find b kids).subset there)]
      exact ihKids nodupKids there
    · rw [if_neg inside] at there ⊢
      rw [find_of_mem_next nodup ((members_find b next).subset there)]
      exact ihNext nodupNext there

end Forest

/-- A question that a walker has open. -/
inductive Question (α : Type) where
  | child (a : α)
  | sibling (a : α)

namespace Question
variable {α : Type} [DecidableEq α]

/-- What is reached through the answer. -/
def rest (f : Forest α) : Question α → Forest α
  | child a => (f.find a).kids
  | sibling a => (f.find a).next

theorem rest_of_notMem {f : Forest α} {a : α} (absent : a ∉ f.members) :
    (child a).rest f = .nil ∧ (sibling a).rest f = .nil := by
  simp only [rest, Forest.find_of_notMem absent, Forest.kids, Forest.next, and_self]

/-- Every part that a question reaches is the part that begins with its first node. -/
theorem find_of_rest {f : Forest α} (nodup : f.members.Nodup) {q : Question α} {a : α}
    {kids next : Forest α} (found : q.rest f = .node a kids next) :
    a ∈ f.members ∧ f.find a = .node a kids next := by
  suffices part : ∃ b, a ∈ (f.find b).members ∧ (f.find b).find a = .node a kids next by
    obtain ⟨b, there, part⟩ := part
    rw [Forest.find_find nodup there] at part
    exact ⟨(f.members_find b).subset there, part⟩
  cases q with
  | child b => exact ⟨b, Forest.find_kids (nodup.sublist (f.members_find b)) found⟩
  | sibling b => exact ⟨b, Forest.find_next (nodup.sublist (f.members_find b)) found⟩

theorem first_mem {f : Forest α} (nodup : f.members.Nodup) {q : Question α} {a : α}
    (first : (q.rest f).first = some a) : a ∈ f.members := by
  cases found : q.rest f with
  | nil => rw [found] at first; cases first
  | node b kids next =>
    rw [found] at first
    cases first
    exact (find_of_rest nodup found).1

end Question

/-- The handles that have been given, in their order, the questions that are open, and how
many have been asked. -/
structure Walk (α : Type) where
  visited : List α
  pending : List (Question α)
  asked : Nat

namespace Walk
variable {α : Type}

/-- A walk begins at one node. It may ask for the siblings of that one too. -/
def start (root : α) (top : Bool) : Walk α :=
  ⟨[root], .child root :: if top then [.sibling root] else [], 0⟩

/-- The walker hears the answer to the question at `i`. -/
def answered (w : Walk α) (i : Nat) : Option α → Walk α
  | none => ⟨w.visited, w.pending.eraseIdx i, w.asked + 1⟩
  | some a => ⟨w.visited ++ [a], .child a :: .sibling a :: w.pending.eraseIdx i, w.asked + 1⟩

/-- What is right of a walk at any time: nothing twice, nothing that is not there but for the
stray handle, everything once no question is open, and an end. -/
structure Sound (members : List α) (stray : α) (w : Walk α) : Prop where
  once : w.visited.Nodup
  real : ∀ a ∈ w.visited, a ∈ members ∨ a = stray
  all : w.pending = [] → ∀ a ∈ members, a ∈ w.visited
  ends : w.asked + w.pending.length ≤ 2 * (members.length + 1)

variable [DecidableEq α]

/-- The invariant: what is visited and what is reached through open questions make up the
forest. `may` is whether the stray handle can still be given. -/
structure Covers (f : Forest α) (stray : α) (may : Bool) (w : Walk α) : Prop where
  parts : (w.visited.filter (· ≠ stray) ++ w.pending.flatMap fun q => (q.rest f).members).Perm
    f.members
  once : w.visited.count stray + may.toNat ≤ 1
  asked : w.asked + w.pending.length ≤ 2 * w.visited.length

/-- The answers that a walker may get: what is there, or the stray handle in the place of
nothing while it can still be given. -/
inductive Answer (f : Forest α) (stray : α) (may : Bool) (q : Question α) : Option α → Bool → Prop
  | own (may' : Bool) (less : may'.toNat ≤ may.toNat) : Answer f stray may q (q.rest f).first may'
  | stray (still : may = true) (nothing : (q.rest f).first = none) :
    Answer f stray may q (some stray) false

section runs
variable {f : Forest α} {stray : α} {may : Bool} {w : Walk α}

theorem Covers.start {root : α} {kids : Forest α}
    (absent : stray ∉ (Forest.node root kids .nil).members) (may top : Bool) : Covers (.node root kids .nil) stray may (start root top) := by
  have other : root ≠ stray := fun same => absent (same ▸ List.mem_cons_self)
  have kept : [root].filter (· ≠ stray) = [root] := List.filter_eq_self.mpr (by simpa using other)
  constructor
  · rw [Walk.start, kept]
    cases top <;>
      simp [Question.rest, Forest.find_self, Forest.kids, Forest.next, Forest.members]
  · have none : [root].count stray = 0 := List.count_eq_zero_of_not_mem (by simpa using other.symm)
    rw [Walk.start, none]
    have := may.toNat_le
    omega
  · cases top <;> simp [Walk.start]

theorem Covers.less {may' : Bool} (covers : Covers f stray may w) (less : may'.toNat ≤ may.toNat) :
    Covers f stray may' w :=
  ⟨covers.parts, Nat.le_trans (Nat.add_le_add_left less _) covers.once, covers.asked⟩

/-- The forest apart from what the question at `i` reaches. -/
theorem Covers.split {i : Nat} {q : Question α} (covers : Covers f stray may w)
    (picked : w.pending[i]? = some q) :
    (w.visited.filter (· ≠ stray) ++ ((q.rest f).members ++
      (w.pending.eraseIdx i).flatMap fun q => (q.rest f).members)).Perm f.members := by
  obtain ⟨inside, rfl⟩ := List.getElem?_eq_some_iff.mp picked
  have perm := (List.getElem_cons_eraseIdx_perm inside).flatMap_right fun q => (q.rest f).members
  exact (perm.append_left _).trans covers.parts

omit [DecidableEq α] in
theorem length_eraseIdx {i : Nat} {q : Question α} (picked : w.pending[i]? = some q) :
    (w.pending.eraseIdx i).length + 1 = w.pending.length := by
  obtain ⟨inside, -⟩ := List.getElem?_eq_some_iff.mp picked
  rw [List.length_eraseIdx_of_lt inside]
  omega

section answered
variable {i : Nat} {q : Question α} (covers : Covers f stray may w)
  (picked : w.pending[i]? = some q)
include covers picked

/-- Nothing more, which is right. -/
theorem Covers.ended (nothing : q.rest f = .nil) : Covers f stray may (w.answered i none) := by
  have split := covers.split picked
  have shorter := length_eraseIdx picked
  have asked := covers.asked
  rw [nothing] at split
  exact ⟨split, covers.once, by simp only [Walk.answered]; omega⟩

/-- A node that is there: its own two questions reach what the one that led to it did. -/
theorem Covers.found (nodup : f.members.Nodup) (absent : stray ∉ f.members) {a : α}
    {kids next : Forest α} (there : q.rest f = .node a kids next) :
    Covers f stray may (w.answered i (some a)) := by
  obtain ⟨member, part⟩ := Question.find_of_rest nodup there
  have other : a ≠ stray := fun same => absent (same ▸ member)
  have split := covers.split picked
  have shorter := length_eraseIdx picked
  have asked := covers.asked
  rw [there] at split
  constructor
  · simpa [Walk.answered, Question.rest, part, Forest.kids, Forest.next, Forest.members,
      other] using split
  · simpa [Walk.answered, other] using covers.once
  · simp only [Walk.answered, List.length_append, List.length_cons, List.length_nil]
    omega

/-- The stray handle, whose own two questions reach nothing. -/
theorem Covers.strayed (absent : stray ∉ f.members) (still : may = true)
    (nothing : q.rest f = .nil) : Covers f stray false (w.answered i (some stray)) := by
  obtain ⟨noChild, noSibling⟩ := Question.rest_of_notMem absent
  have split := covers.split picked
  have shorter := length_eraseIdx picked
  have once := covers.once
  have asked := covers.asked
  rw [nothing] at split
  rw [still, Bool.toNat_true] at once
  constructor
  · simpa [Walk.answered, noChild, noSibling, Forest.members] using split
  · simp only [Walk.answered, List.count_append, List.count_singleton_self, Bool.toNat_false]
    omega
  · simp only [Walk.answered, List.length_append, List.length_cons, List.length_nil]
    omega

end answered

theorem Covers.answered (nodup : f.members.Nodup) (absent : stray ∉ f.members) {i : Nat}
    {q : Question α} {answer : Option α} {may' : Bool} (covers : Covers f stray may w)
    (picked : w.pending[i]? = some q) (answers : Answer f stray may q answer may') :
    Covers f stray may' (w.answered i answer) := by
  cases answers with
  | own may' less =>
    have covers := covers.less less
    cases reached : q.rest f with
    | nil => exact covers.ended picked reached
    | node a kids next => exact covers.found picked nodup absent reached
  | stray still nothing =>
    cases reached : q.rest f with
    | nil => exact covers.strayed picked absent still reached
    | node => rw [reached] at nothing; cases nothing

theorem Covers.sound (nodup : f.members.Nodup) (covers : Covers f stray may w) :
    Sound f.members stray w := by
  have real : ∀ a ∈ w.visited, a ≠ stray → a ∈ f.members := fun a visited other =>
    covers.parts.subset (List.mem_append_left _
      (List.mem_filter.mpr ⟨visited, decide_eq_true other⟩))
  have once : w.visited.Nodup := by
    rw [List.nodup_iff_count_le_one]
    intro a
    by_cases same : a = stray
    · rw [same]
      exact Nat.le_trans (Nat.le_add_right _ _) covers.once
    · have kept : (w.visited.filter (· ≠ stray)).count a = w.visited.count a :=
        List.count_filter (by simpa using same)
      rw [← kept]
      exact List.nodup_iff_count_le_one.mp ((covers.parts.nodup_iff.mpr nodup).of_append_left) a
  have bound : w.visited.length ≤ f.members.length + 1 := by
    have within : w.visited ⊆ stray :: f.members := fun a visited =>
      (eq_or_ne a stray).elim (fun same => List.mem_cons.mpr (Or.inl same))
        fun other => List.mem_cons_of_mem _ (real a visited other)
    exact (once.subperm within).length_le
  refine ⟨once, fun a visited => ?_, fun ended a member => ?_, ?_⟩
  · exact (eq_or_ne a stray).elim Or.inr fun other => Or.inl (real a visited other)
  · have there := covers.parts.symm.subset member
    rw [ended, List.flatMap_nil, List.append_nil] at there
    exact (List.mem_filter.mp there).1
  · exact Nat.le_trans covers.asked (Nat.mul_le_mul_left 2 bound)

end runs
end Walk
end Es3Recomp.Library
