/-!
# Programs with a trail of what they touch

A `Traced` program is the events of its run, in order, and how it ends: with a value, or
refused. A law about every event of a sequence is the law about its parts, the later ones
with the value the earlier ones found.
-/
namespace Es3Recomp.Library

structure Traced (ε ω α : Type) where
  events : List ω
  outcome : Except ε α

namespace Traced

variable {ε ω α β : Type}

def refuse (reason : ε) : Traced ε ω α := ⟨[], .error reason⟩

/-- One event, which finds `a`. -/
def find (w : ω) (a : α) : Traced ε ω α := ⟨[w], .ok a⟩

def andThen (x : Traced ε ω α) (f : α → Traced ε ω β) : Traced ε ω β :=
  match x.outcome with
  | .ok a => ⟨x.events ++ (f a).events, (f a).outcome⟩
  | .error reason => ⟨x.events, .error reason⟩

instance : Monad (Traced ε ω) where
  pure a := ⟨[], .ok a⟩
  bind := andThen

theorem bind_of_ok {x : Traced ε ω α} {a : α} (found : x.outcome = .ok a) (f : α → Traced ε ω β) :
    x >>= f = ⟨x.events ++ (f a).events, (f a).outcome⟩ := by
  obtain ⟨events, outcome⟩ := x
  cases found
  rfl

/-- Every event keeps the law. -/
def Keeps (law : ω → Prop) (x : Traced ε ω α) : Prop := ∀ w ∈ x.events, law w

variable {law : ω → Prop}

instance [DecidablePred law] (x : Traced ε ω α) : Decidable (x.Keeps law) :=
  inferInstanceAs (Decidable (∀ w ∈ x.events, law w))

@[simp] theorem keeps_pure (a : α) : (pure a : Traced ε ω α).Keeps law :=
  fun _ member => nomatch member

@[simp] theorem keeps_refuse (reason : ε) : (refuse reason : Traced ε ω α).Keeps law :=
  fun _ member => nomatch member

theorem keeps_find (w : ω) (a : α) : (find w a : Traced ε ω α).Keeps law ↔ law w :=
  List.forall_mem_singleton

theorem keeps_bind (x : Traced ε ω α) (f : α → Traced ε ω β) :
    (x >>= f).Keeps law ↔ x.Keeps law ∧ ∀ a, x.outcome = .ok a → (f a).Keeps law := by
  obtain ⟨events, outcome⟩ := x
  cases outcome with
  | error reason =>
    have rest : ∀ a, (Except.error reason : Except ε α) = .ok a → (f a).Keeps law := by
      intro a absurd
      cases absurd
    exact ⟨fun kept => ⟨kept, rest⟩, And.left⟩
  | ok a =>
    have split : ((⟨events, .ok a⟩ : Traced ε ω α) >>= f).Keeps law ↔
        (∀ w ∈ events, law w) ∧ (f a).Keeps law := List.forall_mem_append
    rw [split]
    constructor
    · rintro ⟨here, later⟩
      refine ⟨here, fun b same => ?_⟩
      cases same
      exact later
    · rintro ⟨here, later⟩
      exact ⟨here, later a rfl⟩

theorem keeps_find_bind (w : ω) (a : α) (f : α → Traced ε ω β) :
    (find w a >>= f).Keeps law ↔ law w ∧ (f a).Keeps law := by
  rw [keeps_bind, keeps_find]
  constructor
  · rintro ⟨here, later⟩
    exact ⟨here, later a rfl⟩
  · rintro ⟨here, later⟩
    refine ⟨here, fun b same => ?_⟩
    cases same
    exact later

/-- Refused where the condition holds. -/
def refuseIf (c : Prop) [Decidable c] (reason : ε) : Traced ε ω Unit :=
  if c then refuse reason else pure ()

theorem keeps_refuseIf_bind (c : Prop) [Decidable c] (reason : ε) (f : Unit → Traced ε ω α) :
    (refuseIf c reason >>= f).Keeps law ↔ (¬c → (f ()).Keeps law) := by
  rw [keeps_bind]
  by_cases stop : c
  · simp only [refuseIf, stop, if_true, keeps_refuse, not_true_eq_false, false_imp_iff, iff_true,
      true_and]
    intro a absurd
    cases absurd
  · simp only [refuseIf, stop, if_false, not_false_eq_true, forall_const]
    exact ⟨fun kept => kept.2 () rfl, fun kept => ⟨keeps_pure (), fun _ _ => kept⟩⟩

/-! ## Programs that come to an end -/

/-- Every event keeps the law, and the program ends with a value of which `post` holds. -/
def Yields (law : ω → Prop) (x : Traced ε ω α) (post : α → Prop) : Prop :=
  x.Keeps law ∧ ∃ a, x.outcome = .ok a ∧ post a

theorem yields_pure {a : α} {post : α → Prop} :
    (pure a : Traced ε ω α).Yields law post ↔ post a := by
  constructor
  · rintro ⟨-, b, same, holds⟩
    cases same
    exact holds
  · exact fun holds => ⟨keeps_pure a, a, rfl, holds⟩

theorem yields_find {w : ω} {a : α} {post : α → Prop} :
    (find w a : Traced ε ω α).Yields law post ↔ law w ∧ post a := by
  constructor
  · rintro ⟨kept, b, same, holds⟩
    cases same
    exact ⟨(keeps_find w a).mp kept, holds⟩
  · exact fun ⟨lawful, holds⟩ => ⟨(keeps_find w a).mpr lawful, a, rfl, holds⟩

theorem yields_bind {x : Traced ε ω α} {f : α → Traced ε ω β} {post : β → Prop} :
    (x >>= f).Yields law post ↔ x.Yields law fun a => (f a).Yields law post := by
  unfold Yields
  rw [keeps_bind]
  constructor
  · rintro ⟨⟨here, later⟩, b, ends, holds⟩
    obtain ⟨events, outcome⟩ := x
    cases outcome with
    | error reason => cases ends
    | ok a => exact ⟨here, a, rfl, later a rfl, b, ends, holds⟩
  · rintro ⟨here, a, found, later, b, ends, holds⟩
    refine ⟨⟨here, fun a' found' => ?_⟩, b, ?_, holds⟩
    · cases found.symm.trans found'
      exact later
    · rw [bind_of_ok found]
      exact ends

theorem Yields.mono {x : Traced ε ω α} {post post' : α → Prop} (yields : x.Yields law post)
    (weaker : ∀ a, post a → post' a) : x.Yields law post' := by
  obtain ⟨kept, a, found, holds⟩ := yields
  exact ⟨kept, a, found, weaker a holds⟩

end Traced

end Es3Recomp.Library
