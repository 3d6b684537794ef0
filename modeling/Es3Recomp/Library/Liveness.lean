import Es3Recomp.Library.Transducer

/-!
# Names that are handed out and taken back

In a history some entries give a name out and some take one back. A name is live when it was
given out and has not been taken back since. `Each` is what holds of every entry with what was
before it.
-/
namespace Es3Recomp.Library.Liveness
variable {ε η : Type}

def Each (P : List ε → ε → Prop) (history : List ε) : Prop :=
  ∀ before x after, history = before ++ x :: after → P before x

theorem each_nil {P : List ε → ε → Prop} : Each P [] := by
  intro before x after split
  cases before <;> cases split

theorem each_concat {P : List ε → ε → Prop} {history : List ε} {x : ε} :
    Each P (history ++ [x]) ↔ Each P history ∧ P history x := by
  constructor
  · intro all
    refine ⟨fun before y after split => all before y (after ++ [x]) ?_, all history x [] rfl⟩
    rw [split, List.append_assoc, List.cons_append]
  · rintro ⟨earlier, here⟩ before y after split
    rcases List.eq_nil_or_concat after with rfl | ⟨after, z, rfl⟩
    · obtain ⟨rfl, rfl⟩ := List.append_inj' split rfl |>.imp_right List.singleton_inj.mp
      exact here
    · rw [List.concat_eq_append, ← List.cons_append, ← List.append_assoc] at split
      obtain ⟨rfl, -⟩ := List.append_inj' split rfl
      exact earlier before y after rfl

variable (gives closes : ε → Option η)

def Live (history : List ε) (h : η) : Prop :=
  ∃ before x after, history = before ++ x :: after ∧ gives x = some h ∧
    ∀ y ∈ after, closes y ≠ some h

variable {gives closes} {history : List ε} {x : ε} {h : η}

theorem not_live_nil : ¬ Live gives closes [] h := by
  rintro ⟨before, x, after, split, -⟩
  cases before <;> cases split

theorem live_concat : Live gives closes (history ++ [x]) h ↔
    gives x = some h ∨ Live gives closes history h ∧ closes x ≠ some h := by
  constructor
  · rintro ⟨before, y, after, split, given, kept⟩
    rcases List.eq_nil_or_concat after with rfl | ⟨after, z, rfl⟩
    · obtain ⟨-, rfl⟩ := List.append_inj' split rfl |>.imp_right List.singleton_inj.mp
      exact .inl given
    · rw [List.concat_eq_append, ← List.cons_append, ← List.append_assoc] at split
      rw [List.concat_eq_append] at kept
      obtain ⟨rfl, rfl⟩ := List.append_inj' split rfl |>.imp_right List.singleton_inj.mp
      obtain ⟨earlier, last⟩ := forall_mem_concat.mp kept
      exact .inr ⟨⟨before, y, after, rfl, given, earlier⟩, last⟩
  · rintro (given | ⟨⟨before, y, after, rfl, given, kept⟩, last⟩)
    · exact ⟨history, x, [], rfl, given, nofun⟩
    · refine ⟨before, y, after ++ [x], ?_, given, forall_mem_concat.mpr ⟨kept, last⟩⟩
      rw [List.append_assoc, List.cons_append]

theorem Live.mem_given (live : Live gives closes history h) : some h ∈ history.map gives := by
  obtain ⟨before, x, after, split, given, -⟩ := live
  rw [split, ← given]
  exact List.mem_map_of_mem (List.mem_append_right _ List.mem_cons_self)

/-- Fewer names given, or more taken back, and fewer are live. -/
theorem Live.mono {gives' closes' : ε → Option η} (live : Live gives closes history h)
    (more : ∀ x, gives x = some h → gives' x = some h)
    (fewer : ∀ x, closes' x = some h → closes x = some h) : Live gives' closes' history h := by
  obtain ⟨before, x, after, split, given, kept⟩ := live
  exact ⟨before, x, after, split, more x given, fun y member closed =>
    kept y member (fewer y closed)⟩

end Es3Recomp.Library.Liveness
