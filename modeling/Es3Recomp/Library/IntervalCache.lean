import Es3Recomp.Library.Transducer

/-!
# Yes, remembered by intervals

An oracle says yes about a point by naming an interval around it. The cache keeps a few of the
intervals and answers from them first. What it keeps was said at some time before, so as long as
no yes becomes a no its answers are those of the oracle at the time they are given
(`answers_plain`). As long as there is room the oracle says yes about a point once
(`asked_once`).
-/
namespace Es3Recomp.Library.IntervalCache

structure Extent (α : Type) where
  lo : α
  hi : α

variable {α : Type} [LE α] [LT α] [DecidableLE α] [DecidableLT α]

def Extent.Has (r : Extent α) (a : α) : Prop := r.lo ≤ a ∧ a < r.hi

instance (r : Extent α) (a : α) : Decidable (r.Has a) :=
  inferInstanceAs (Decidable (r.lo ≤ a ∧ a < r.hi))

abbrev Oracle (α : Type) := α → Option (Extent α)

/-- Yes about the points of a set. -/
def Oracle.yes (ask : Oracle α) (a : α) : Bool := (ask a).isSome

/-- What it says about a point it says about the whole interval. -/
def Oracle.Uniform (ask : Oracle α) : Prop := ∀ a r, ask a = some r → ∀ b, r.Has b → ask.yes b

/-- The interval is around the point. -/
def Oracle.Around (ask : Oracle α) : Prop := ∀ a r, ask a = some r → r.Has a

/-- No yes of the first is a no of the second. -/
def Oracle.Keeps (ask ask' : Oracle α) : Prop := ∀ a, ask.yes a → ask'.yes a

/-- A point, with what the oracle says at the time. -/
structure Query (α : Type) where
  ask : Oracle α
  point : α

structure Answer where
  yes : Bool
  /-- whether the oracle was asked -/
  asked : Bool
  deriving DecidableEq

variable (ignored : α → Bool) (room : Nat)

def known (kept : List (Extent α)) (a : α) : Bool := kept.any fun r => decide (r.Has a)

def cache : Transducer (List (Extent α)) (Query α) Answer where
  step kept q :=
    if ignored q.point then (kept, [⟨false, false⟩])
    else if known kept q.point then (kept, [⟨true, false⟩])
    else
      match q.ask q.point with
      | none => (kept, [⟨false, true⟩])
      | some r => (if kept.length < room then kept ++ [r] else kept, [⟨true, true⟩])

/-- The answer without the cache. -/
def plain (q : Query α) : Bool := !ignored q.point && q.ask.yes q.point

/-- Each interval was named by one of the queries. -/
def Named (qs : List (Query α)) (kept : List (Extent α)) : Prop :=
  ∀ r ∈ kept, ∃ q ∈ qs, ∃ a, q.ask a = some r

variable {ignored room} {kept : List (Extent α)} {qs : List (Query α)} {q : Query α}

theorem known_iff {a : α} : known kept a = true ↔ ∃ r ∈ kept, r.Has a := by
  simp only [known, List.any_eq_true, decide_eq_true_eq]

theorem known_append {r : Extent α} {a : α} :
    known (kept ++ [r]) a = (known kept a || decide (r.Has a)) := by
  rw [known, known, List.any_append, List.any_cons, List.any_nil, Bool.or_false]

/-! ## One query -/

theorem step_ignored (skip : ignored q.point = true) :
    (cache ignored room).step kept q = (kept, [⟨false, false⟩]) := if_pos skip

theorem step_known (look : ignored q.point = false) (hit : known kept q.point = true) :
    (cache ignored room).step kept q = (kept, [⟨true, false⟩]) := by
  rw [cache]
  simp only [look, hit, Bool.false_eq_true, ↓reduceIte]

theorem step_no (look : ignored q.point = false) (miss : known kept q.point = false)
    (no : q.ask q.point = none) :
    (cache ignored room).step kept q = (kept, [⟨false, true⟩]) := by
  rw [cache]
  simp only [look, miss, no, Bool.false_eq_true, ↓reduceIte]

theorem step_yes {r : Extent α} (look : ignored q.point = false)
    (miss : known kept q.point = false) (yes : q.ask q.point = some r) :
    (cache ignored room).step kept q =
      (if kept.length < room then kept ++ [r] else kept, [⟨true, true⟩]) := by
  rw [cache]
  simp only [look, miss, yes, Bool.false_eq_true, ↓reduceIte]

/-- What the oracle has said before about a point that is known, it says again. -/
theorem known_yes (named : Named qs kept) (uniform : ∀ p ∈ qs, p.ask.Uniform)
    (keeps : ∀ p ∈ qs, p.ask.Keeps q.ask) {a : α} (hit : known kept a = true) : q.ask.yes a := by
  obtain ⟨r, member, inside⟩ := known_iff.mp hit
  obtain ⟨p, before, b, said⟩ := named r member
  exact keeps p before a (uniform p before b r said a inside)

theorem step_answer (named : Named qs kept) (uniform : ∀ p ∈ qs, p.ask.Uniform)
    (keeps : ∀ p ∈ qs, p.ask.Keeps q.ask) :
    Named (qs ++ [q]) ((cache ignored room).step kept q).1 ∧
      ((cache ignored room).step kept q).2.map Answer.yes = [plain ignored q] := by
  have before : Named (qs ++ [q]) kept := fun r member =>
    let ⟨p, earlier, said⟩ := named r member
    ⟨p, List.mem_append_left _ earlier, said⟩
  cases look : ignored q.point with
  | true =>
    rw [step_ignored look, plain, look]
    exact ⟨before, rfl⟩
  | false =>
    rw [plain, look]
    cases hit : known kept q.point with
    | true =>
      rw [step_known look hit, known_yes named uniform keeps hit]
      exact ⟨before, rfl⟩
    | false =>
      cases said : q.ask q.point with
      | none =>
        rw [step_no look hit said, Oracle.yes, said]
        exact ⟨before, rfl⟩
      | some r =>
        rw [step_yes look hit said, Oracle.yes, said]
        refine ⟨?_, rfl⟩
        by_cases space : kept.length < room
        · rw [if_pos space]
          exact forall_mem_concat.mpr
            ⟨before, q, List.mem_append_right _ (List.mem_singleton_self q), q.point, said⟩
        · rw [if_neg space]
          exact before

/-! ## A run -/

/-- The cache answers as the oracle does at the time. -/
theorem answers_plain (uniform : ∀ q ∈ qs, q.ask.Uniform)
    (keeps : qs.Pairwise fun p q => p.ask.Keeps q.ask) :
    ((cache ignored room).run [] qs).2.map Answer.yes = qs.map (plain ignored) := by
  suffices both : Named qs ((cache ignored room).run [] qs).1 ∧
      ((cache ignored room).run [] qs).2.map Answer.yes = qs.map (plain ignored) from both.2
  induction qs using List.reverseRecOn with
  | nil => exact ⟨nofun, rfl⟩
  | append_singleton qs q ih =>
    obtain ⟨earlier, last⟩ := forall_mem_concat.mp uniform
    obtain ⟨ordered, -, across⟩ := List.pairwise_append.mp keeps
    obtain ⟨named, answers⟩ := ih earlier ordered
    obtain ⟨grown, answer⟩ := step_answer named earlier
      fun p member => across p member q (List.mem_singleton_self q)
    rw [Transducer.run_concat]
    refine ⟨grown, ?_⟩
    rw [List.map_append, List.map_append, answers, answer, List.map_singleton]

/-! ## How often the oracle is asked -/

theorem step_keeps_known {a : α} (hit : known kept a = true) :
    known ((cache ignored room).step kept q).1 a = true := by
  cases look : ignored q.point with
  | true =>
    rw [step_ignored look]
    exact hit
  | false =>
    cases there : known kept q.point with
    | true =>
      rw [step_known look there]
      exact hit
    | false =>
      cases said : q.ask q.point with
      | none =>
        rw [step_no look there said]
        exact hit
      | some r =>
        rw [step_yes look there said]
        by_cases space : kept.length < room
        · rw [if_pos space, known_append, hit, Bool.true_or]
        · rw [if_neg space]
          exact hit

theorem run_keeps_known {a : α} (hit : known kept a = true) :
    known ((cache ignored room).run kept qs).1 a = true :=
  (cache ignored room).run_invariant (fun kept => known kept a = true) kept hit
    (fun _ _ => step_keeps_known) qs

/-- After a yes the point is known, if there was room. -/
theorem step_learns (around : q.ask.Around) (space : kept.length < room)
    (yes : plain ignored q = true) : known ((cache ignored room).step kept q).1 q.point = true := by
  obtain ⟨look, said⟩ := Bool.and_eq_true_iff.mp yes
  rw [Bool.not_eq_true'] at look
  obtain ⟨r, named⟩ := Option.isSome_iff_exists.mp said
  cases there : known kept q.point with
  | true => exact step_keeps_known there
  | false =>
    rw [step_yes look there named, if_pos space, known_append, decide_eq_true (around _ r named),
      Bool.or_true]

/-- A point that got a yes while there was room is answered without the oracle from then on. -/
theorem asked_once {before between : List (Query α)} {q' : Query α} (around : q.ask.Around)
    (space : ((cache ignored room).run [] before).1.length < room) (yes : plain ignored q = true)
    (same : q'.point = q.point) :
    ((cache ignored room).step ((cache ignored room).run [] (before ++ q :: between)).1 q').2 =
      [⟨true, false⟩] := by
  have look : ignored q'.point = false := by
    rw [same]
    exact Bool.not_eq_true' _ ▸ (Bool.and_eq_true_iff.mp yes).1
  have hit : known ((cache ignored room).run [] (before ++ q :: between)).1 q'.point = true := by
    rw [same, Transducer.run_append, Transducer.run_cons]
    exact run_keeps_known (step_learns around space yes)
  rw [step_known look hit]

end Es3Recomp.Library.IntervalCache
