import Es3Recomp.Library.Transducer
import Mathlib.Data.List.Nodup

/-!
# Answers kept, as long as there is room

`memo` keeps the answer for a key and gives it again; when it has no room for one more it gives
`nothing`. Whoever made the answers is asked once for a key, and what a run gives for the keys
is what it has kept at its end (`run_outputs`). So equal keys get equal answers, and when no
answer was made twice, other keys others (`kept_injective`).
-/
namespace Es3Recomp.Library.Memo

variable {κ υ : Type} [DecidableEq κ] (answer : List (κ × υ) → κ → υ) (room : Nat) (nothing : υ)

def memo : Transducer (List (κ × υ)) κ υ where
  step asked key :=
    match asked.lookup key with
    | some v => (asked, [v])
    | none =>
      if asked.length < room then
        (asked ++ [(key, answer asked key)], [answer asked key])
      else (asked, [nothing])

/-- What is kept for a key. -/
def kept (nothing : υ) (asked : List (κ × υ)) (key : κ) : υ := (asked.lookup key).getD nothing

variable {answer room nothing}

theorem step_known {asked : List (κ × υ)} {key : κ} {v : υ} (known : asked.lookup key = some v) :
    (memo answer room nothing).step asked key = (asked, [v]) := by
  rw [memo]
  simp only [known]

theorem step_new {asked : List (κ × υ)} {key : κ} (new : asked.lookup key = none)
    (space : asked.length < room) :
    (memo answer room nothing).step asked key =
      (asked ++ [(key, answer asked key)], [answer asked key]) := by
  rw [memo]
  simp only [new, if_pos space]

theorem step_full {asked : List (κ × υ)} {key : κ} (new : asked.lookup key = none)
    (full : ¬ asked.length < room) :
    (memo answer room nothing).step asked key = (asked, [nothing]) := by
  rw [memo]
  simp only [new, if_neg full]

theorem lookup_none_iff {asked : List (κ × υ)} {key : κ} :
    asked.lookup key = none ↔ key ∉ asked.map Prod.fst := by
  rw [List.lookup_eq_none_iff, List.mem_map]
  constructor
  · intro others member
    obtain ⟨entry, inside, same⟩ := member
    exact absurd same.symm (bne_iff_ne.mp (others entry inside))
  · intro absent entry inside
    exact bne_iff_ne.mpr fun same => absent ⟨entry, inside, same.symm⟩

theorem mem_of_lookup {asked : List (κ × υ)} {key : κ} {v : υ}
    (found : asked.lookup key = some v) : (key, v) ∈ asked := by
  obtain ⟨before, behind, split, _⟩ := List.lookup_eq_some_iff.mp found
  rw [split]
  exact List.mem_append_right _ List.mem_cons_self

/-- No key is asked twice, only keys that came are asked, and what came is kept as long as there
is room. -/
structure Log (room : Nat) (asked : List (κ × υ)) (keys : List κ) : Prop where
  once : (asked.map Prod.fst).Nodup
  came : ∀ key ∈ asked.map Prod.fst, key ∈ keys
  keeps : ∀ key ∈ keys, asked.lookup key = none → room ≤ asked.length

theorem Log.nil : Log room ([] : List (κ × υ)) [] :=
  ⟨List.nodup_nil, fun _ member => member, fun _ member => nomatch member⟩

/-- What one call does to the log, and to what is kept for the keys before it. -/
theorem Log.step {asked : List (κ × υ)} {keys : List κ} (log : Log room asked keys)
    (answer : List (κ × υ) → κ → υ) (nothing : υ) (key : κ) :
    Log room ((memo answer room nothing).step asked key).1 (keys ++ [key]) ∧
      (∀ k ∈ keys, kept nothing ((memo answer room nothing).step asked key).1 k =
        kept nothing asked k) ∧
      ((memo answer room nothing).step asked key).2 =
        [kept nothing ((memo answer room nothing).step asked key).1 key] := by
  have came : ∀ k ∈ asked.map Prod.fst, k ∈ keys ++ [key] := fun k member =>
    List.mem_append_left _ (log.came k member)
  cases found : asked.lookup key with
  | some v =>
    rw [step_known found]
    refine ⟨⟨log.once, came, forall_mem_concat.mpr ⟨log.keeps, fun none => ?_⟩⟩,
      fun _ _ => rfl, by rw [kept, found]; rfl⟩
    rw [found] at none
    cases none
  | none =>
    by_cases space : asked.length < room
    · have unasked := lookup_none_iff.mp found
      have at_key : (asked ++ [(key, answer asked key)]).lookup key = some (answer asked key) := by
        rw [List.lookup_append, found, List.lookup_cons_self, Option.none_or]
      have known : ∀ k ∈ keys, asked.lookup k ≠ none := fun k member none =>
        absurd (log.keeps k member none) (by omega)
      have before : ∀ k ∈ keys,
          (asked ++ [(key, answer asked key)]).lookup k = asked.lookup k := by
        intro k member
        obtain ⟨v, there⟩ := Option.ne_none_iff_exists'.mp (known k member)
        rw [List.lookup_append, there, Option.some_or]
      rw [step_new found space]
      refine ⟨⟨?_, ?_, forall_mem_concat.mpr ⟨fun k member none => ?_, fun none => ?_⟩⟩,
        fun k member => by rw [kept, before k member, kept], by rw [kept, at_key]; rfl⟩
      · rw [List.map_append, List.nodup_append_comm, List.map_singleton, List.singleton_append,
          List.nodup_cons]
        exact ⟨unasked, log.once⟩
      · rw [List.map_append, List.map_singleton, forall_mem_concat]
        exact ⟨came, List.mem_append_right _ (List.mem_singleton_self key)⟩
      · rw [before k member] at none
        exact absurd none (known k member)
      · rw [at_key] at none
        cases none
    · rw [step_full found space]
      refine ⟨⟨log.once, came, forall_mem_concat.mpr ⟨log.keeps, fun _ => Nat.not_lt.mp space⟩⟩,
        fun _ _ => rfl, by rw [kept, found]; rfl⟩

/-- What a run gives for each key is what it keeps for it at its end. -/
theorem run_outputs (keys : List κ) :
    let r := (memo answer room nothing).run [] keys
    Log room r.1 keys ∧ r.2 = keys.map (kept nothing r.1) := by
  induction keys using List.reverseRecOn with
  | nil => exact ⟨Log.nil, rfl⟩
  | append_singleton keys key ih =>
    obtain ⟨log, outputs⟩ := ih
    obtain ⟨log', before, here⟩ := log.step answer nothing key
    rw [Transducer.run_concat]
    refine ⟨log', ?_⟩
    rw [outputs, here, List.map_append, List.map_singleton, List.map_congr_left before]

/-- No answer was made twice, and none is `nothing`. -/
def Fresh (nothing : υ) (asked : List (κ × υ)) : Prop :=
  (asked.map Prod.snd).Nodup ∧ nothing ∉ asked.map Prod.snd

theorem kept_injective {asked : List (κ × υ)} (fresh : Fresh nothing asked) {j k : κ}
    (some_ : kept nothing asked j ≠ nothing) (same : kept nothing asked j = kept nothing asked k) :
    j = k := by
  cases at_j : asked.lookup j with
  | none => exact absurd (by rw [kept, at_j]; rfl) some_
  | some v =>
    cases at_k : asked.lookup k with
    | none =>
      have nothing_ : kept nothing asked k = nothing := by rw [kept, at_k]; rfl
      exact absurd (same.trans nothing_) some_
    | some w =>
      rw [kept, at_j, kept, at_k] at same
      have entry := List.inj_on_of_nodup_map fresh.1 (mem_of_lookup at_j) (mem_of_lookup at_k) same
      exact congrArg Prod.fst entry

end Es3Recomp.Library.Memo
