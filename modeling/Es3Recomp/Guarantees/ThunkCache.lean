import Es3Recomp.Library.Memo
import Es3Recomp.Library.ProbeTable
import Es3Recomp.Source.ThunkCache

/-!
# A thunk for each address

What the cache is for is a list of addresses with their thunks and room for 512. The table does
the same: as long as it is sound, a search finds an address that has a thunk, and ends in a free
slot for one that has none, if there is a free slot.
-/
namespace Es3Recomp.Guarantees.ThunkCache
open Library Library.Memo Library.ProbeTable Source.ThunkCache

variable {es3Callback : Callback} {s : State} {va : UInt32}

/-- The addresses in the table. -/
def keys (s : State) (k : Nat) : UInt32 := (s.slots k).va

/-- Where both loops stop. -/
def stop (s : State) (va : UInt32) : Option Nat :=
  search 0 THUNK_CACHE home (keys s) va THUNK_CACHE 0

/-! ## The two loops -/

theorem readLoop_eq (left n : Nat) :
    readLoop s.slots va left n =
      (search 0 THUNK_CACHE home (keys s) va left n).bind fun k =>
        if keys s k = va then some (s.slots k).thunk else none := by
  induction left generalizing n with
  | zero => rfl
  | succ left ih =>
    rw [readLoop, search, ih]
    by_cases hit : keys s (place THUNK_CACHE home va n) = va
    · rw [if_pos (Or.inl hit), Option.bind_some, if_pos hit]
      exact if_pos hit
    · by_cases none : keys s (place THUNK_CACHE home va n) = 0
      · rw [if_pos (Or.inr none), Option.bind_some, if_neg hit]
        exact (if_neg hit).trans (if_pos none)
      · rw [if_neg (not_or.mpr ⟨hit, none⟩)]
        exact (if_neg hit).trans (if_neg none)

theorem lockedLoop_eq (left n : Nat) :
    lockedLoop es3Callback s va left n =
      match search 0 THUNK_CACHE home (keys s) va left n with
      | none => (s, 0)
      | some k =>
        if keys s k = va then (s, (s.slots k).thunk) else mint es3Callback s va k := by
  induction left generalizing n with
  | zero => rfl
  | succ left ih =>
    rw [lockedLoop, search, ih]
    by_cases hit : keys s (place THUNK_CACHE home va n) = va
    · rw [if_pos (Or.inl hit)]
      exact (if_pos hit).trans (if_pos hit).symm
    · by_cases none : keys s (place THUNK_CACHE home va n) = 0
      · rw [if_pos (Or.inr none)]
        exact ((if_neg hit).trans (if_pos none)).trans (if_neg hit).symm
      · rw [if_neg (not_or.mpr ⟨hit, none⟩)]
        exact (if_neg hit).trans (if_neg none)

/-- The second loop finds what the first has found, or goes on from there. -/
theorem thunkFor_eq (ready : s.ready = true) :
    thunkFor es3Callback s va =
      match stop s va with
      | none => (s, 0)
      | some k =>
        if keys s k = va then (s, (s.slots k).thunk) else mint es3Callback s va k := by
  rw [thunkFor, readLoop_eq, ready, if_pos rfl, lockedLoop_eq, stop]
  cases search 0 THUNK_CACHE home (keys s) va THUNK_CACHE 0 with
  | none => rfl
  | some k => by_cases hit : keys s k = va <;> simp [hit]

/-! ## The table and the list -/

/-- The table has the entries of the list, and no others. -/
structure Holds (s : State) : Prop where
  ready : s.ready = true
  sound : Sound 0 THUNK_CACHE home THUNK_CACHE (keys s)
  entry : ∀ k, k < THUNK_CACHE → keys s k ≠ 0 →
    s.asked.lookup (keys s k) = some (s.slots k).thunk
  slot : ∀ va t, s.asked.lookup va = some t → ∃ k, k < THUNK_CACHE ∧ keys s k = va ∧ va ≠ 0
  count : taken 0 THUNK_CACHE (keys s) = s.asked.length

/-- The table with the lock ready, before the first call. -/
def ready : State := { initial with ready := true }

theorem ready_holds : Holds ready where
  ready := rfl
  sound := sound_empty
  entry _ _ taken := absurd rfl taken
  slot _ _ found := nomatch found
  count := by
    have empty : ∀ k ∈ Finset.range THUNK_CACHE, ¬ keys ready k ≠ 0 := fun k _ taken => taken rfl
    rw [taken, Finset.filter_false_of_mem empty]
    rfl

theorem hash_size : 0 < THUNK_CACHE := by decide

/-- An address has a thunk just when the search for it ends at it. -/
theorem Holds.found_iff (holds : Holds s) (some_ : va ≠ 0) {k : Nat} :
    stop s va = some k ∧ keys s k = va ↔ k < THUNK_CACHE ∧ keys s k = va := by
  constructor
  · exact fun found => ⟨search_lt hash_size found.1, found.2⟩
  · intro there
    have found := holds.sound k there.1 (there.2 ▸ some_)
    rw [there.2] at found
    exact ⟨found, there.2⟩

/-- An address that the list does not have is not in the table. -/
theorem Holds.absent (holds : Holds s) (new : s.asked.lookup va = none) (some_ : va ≠ 0) {k : Nat}
    (inside : k < THUNK_CACHE) : keys s k ≠ va := by
  intro there
  have entry := holds.entry k inside (there ▸ some_)
  rw [there, new] at entry
  cases entry

/-! What a new thunk changes. -/

theorem mint_slots_self (k : Nat) :
    (mint es3Callback s va k).1.slots k = ⟨va, es3Callback s.asked va⟩ := if_pos rfl

theorem mint_slots_other {j k : Nat} (other : j ≠ k) :
    (mint es3Callback s va k).1.slots j = s.slots j := if_neg other

theorem mint_keys (k : Nat) : keys (mint es3Callback s va k).1 = put (keys s) k va := by
  funext j
  by_cases same : j = k
  · rw [same, put_self, keys, mint_slots_self]
  · rw [put_other va same, keys, mint_slots_other same, keys]

theorem mint_asked (k : Nat) :
    (mint es3Callback s va k).1.asked = s.asked ++ [(va, es3Callback s.asked va)] := rfl

theorem lookup_mint_self (k : Nat) (new : s.asked.lookup va = none) :
    (mint es3Callback s va k).1.asked.lookup va = some (es3Callback s.asked va) := by
  rw [mint_asked, List.lookup_append, new, List.lookup_cons_self, Option.none_or]

theorem lookup_mint_other {a : UInt32} (k : Nat) (other : a ≠ va) :
    (mint es3Callback s va k).1.asked.lookup a = s.asked.lookup a := by
  rw [mint_asked, List.lookup_append, List.lookup_cons, beq_false_of_ne other, List.lookup_nil,
    Option.or_none]

/-- A new address in the free slot where the search for it ends. -/
theorem Holds.minted (holds : Holds s) (some_ : va ≠ 0) (new : s.asked.lookup va = none) {k : Nat}
    (found : stop s va = some k) (was_free : keys s k = 0) :
    Holds (mint es3Callback s va k).1 := by
  have inside : k < THUNK_CACHE := search_lt hash_size found
  refine ⟨holds.ready, ?_, fun j in_j full => ?_, fun a t there => ?_, ?_⟩
  · rw [mint_keys]
    exact holds.sound.put found was_free
  · rw [mint_keys] at full ⊢
    by_cases same : j = k
    · rw [same, put_self, lookup_mint_self k new, mint_slots_self]
    · rw [put_other va same] at full ⊢
      have other : keys s j ≠ va := holds.absent new some_ in_j
      rw [lookup_mint_other k other, mint_slots_other same, holds.entry j in_j full]
  · rw [mint_keys]
    by_cases same : a = va
    · exact ⟨k, inside, by rw [put_self, same], same ▸ some_⟩
    · rw [lookup_mint_other k same] at there
      obtain ⟨j, in_j, at_j, nonzero⟩ := holds.slot a t there
      have other : j ≠ k := fun here => nonzero (by rw [← at_j, here, was_free])
      exact ⟨j, in_j, by rw [put_other va other, at_j], nonzero⟩
  · rw [mint_keys, taken_put inside was_free some_, holds.count, mint_asked, List.length_append,
      List.length_singleton]

/-- The abstract cache. -/
abbrev answers (es3Callback : Callback) : Transducer (List (UInt32 × UInt32)) UInt32 UInt32 :=
  memo es3Callback THUNK_CACHE 0

/-- One call does to the table what it does to the list. -/
theorem Holds.step (holds : Holds s) (es3Callback : Callback) (some_ : va ≠ 0) :
    Holds (thunkFor es3Callback s va).1 ∧
      (answers es3Callback).step s.asked va =
        ((thunkFor es3Callback s va).1.asked, [(thunkFor es3Callback s va).2]) := by
  rw [thunkFor_eq holds.ready]
  cases known : s.asked.lookup va with
  | some t =>
    obtain ⟨k, inside, at_k, _⟩ := holds.slot va t known
    have found := ((holds.found_iff some_).mpr ⟨inside, at_k⟩).1
    have entry := holds.entry k inside (at_k ▸ some_)
    rw [at_k, known] at entry
    simp only [found, if_pos at_k]
    exact ⟨holds, by rw [step_known known, Option.some.inj entry]⟩
  | none =>
    have absent : ∀ k, k < THUNK_CACHE → keys s k ≠ va := fun _ => holds.absent known some_
    cases found : stop s va with
    | none =>
      have full : taken 0 THUNK_CACHE (keys s) = THUNK_CACHE :=
        taken_full fun k inside => full_of_none found inside
      have no_room : ¬ s.asked.length < THUNK_CACHE := by
        rw [← holds.count, full]
        exact Nat.lt_irrefl _
      exact ⟨holds, step_full known no_room⟩
    | some k =>
      have inside : k < THUNK_CACHE := search_lt hash_size found
      have was_free : keys s k = 0 := (search_some found).2.resolve_left (absent k inside)
      have space : s.asked.length < THUNK_CACHE := by
        rw [← holds.count]
        exact taken_lt inside was_free
      simp only [if_neg (absent k inside)]
      exact ⟨holds.minted some_ known found was_free, step_new known space⟩

/-! ## Calls in a row -/

/-- `thunk_for`, call after call. -/
def calls (es3Callback : Callback) : Transducer State UInt32 UInt32 where
  step s va := ((thunkFor es3Callback s va).1, [(thunkFor es3Callback s va).2])

theorem calls_eq (es3Callback : Callback) (vas : List UInt32) (some_ : ∀ va ∈ vas, va ≠ 0) :
    Holds ((calls es3Callback).run ready vas).1 ∧
      (answers es3Callback).run [] vas =
        (((calls es3Callback).run ready vas).1.asked, ((calls es3Callback).run ready vas).2) := by
  induction vas using List.reverseRecOn with
  | nil => exact ⟨ready_holds, rfl⟩
  | append_singleton vas va ih =>
    obtain ⟨before, here⟩ := forall_mem_concat.mp some_
    obtain ⟨holds, same⟩ := ih before
    obtain ⟨holds', step⟩ := holds.step es3Callback here
    rw [Transducer.run_concat, Transducer.run_concat, same]
    refine ⟨holds', ?_⟩
    rw [step]
    rfl

/-- One thunk for each address, and none for two. -/
structure OneEach (es3Callback : Callback) (vas thunks : List UInt32) (s : State) : Prop where
  answered : thunks.length = vas.length
  same : ∀ (i j : Nat) (va t u : UInt32), vas[i]? = some va → vas[j]? = some va →
    thunks[i]? = some t → thunks[j]? = some u → t = u
  apart : ∀ (i j : Nat) (va va' t : UInt32), vas[i]? = some va → vas[j]? = some va' →
    thunks[i]? = some t → thunks[j]? = some t → t ≠ 0 → va = va'
  once : (s.asked.map Prod.fst).Nodup
  came : ∀ va ∈ s.asked.map Prod.fst, va ∈ vas
  /-- what one more call gives when all entries are taken -/
  full : (∀ k, k < THUNK_CACHE → (s.slots k).va ≠ 0) → ∀ va, va ≠ 0 →
    ((∀ k, k < THUNK_CACHE → (s.slots k).va ≠ va) → thunkFor es3Callback s va = (s, 0)) ∧
      ∀ k, k < THUNK_CACHE → (s.slots k).va = va →
        thunkFor es3Callback s va = (s, (s.slots k).thunk) ∧ (va, (s.slots k).thunk) ∈ s.asked

/-- A call for an address that has an entry. -/
theorem Holds.cached (holds : Holds s) (some_ : va ≠ 0) {k : Nat} (inside : k < THUNK_CACHE)
    (at_k : keys s k = va) :
    thunkFor es3Callback s va = (s, (s.slots k).thunk) ∧ (va, (s.slots k).thunk) ∈ s.asked := by
  have found := ((holds.found_iff some_).mpr ⟨inside, at_k⟩).1
  have entry := holds.entry k inside (at_k ▸ some_)
  rw [at_k] at entry
  rw [thunkFor_eq holds.ready]
  simp only [found, if_pos at_k, true_and]
  exact mem_of_lookup entry

/-- A call for another one when there is no room. -/
theorem Holds.refused (holds : Holds s) (full : ∀ k, k < THUNK_CACHE → keys s k ≠ 0)
    (absent : ∀ k, k < THUNK_CACHE → keys s k ≠ va) : thunkFor es3Callback s va = (s, 0) := by
  rw [thunkFor_eq holds.ready]
  cases found : stop s va with
  | none => rfl
  | some k =>
    have inside : k < THUNK_CACHE := search_lt hash_size found
    exact ((search_some found).2.elim (absent k inside) (full k inside)).elim

/-- The cache gives one thunk for each address and asks for none twice, as long as every answer
of `es3_callback` was a new one and not zero. -/
theorem thunk_for_injective (es3Callback : Callback) (vas : List UInt32)
    (some_ : ∀ va ∈ vas, va ≠ 0)
    (fresh : Fresh 0 ((calls es3Callback).run ready vas).1.asked) :
    OneEach es3Callback vas ((calls es3Callback).run ready vas).2
      ((calls es3Callback).run ready vas).1 := by
  obtain ⟨holds, same⟩ := calls_eq es3Callback vas some_
  obtain ⟨log, outputs⟩ : Log THUNK_CACHE ((answers es3Callback).run [] vas).1 vas ∧ _ :=
    run_outputs vas
  rw [same] at log outputs
  have given : ∀ (i : Nat) (va t : UInt32), vas[i]? = some va →
      ((calls es3Callback).run ready vas).2[i]? = some t →
      t = kept 0 ((calls es3Callback).run ready vas).1.asked va := by
    intro i va t at_i result
    have kept_i := congrArg (·[i]?) outputs
    simp only [List.getElem?_map, at_i, result, Option.map_some, Option.some.injEq] at kept_i
    exact kept_i
  refine ⟨?_, ?_, ?_, log.once, log.came, ?_⟩
  · exact (congrArg List.length outputs).trans (List.length_map _)
  · intro i j va t u at_i at_j result_i result_j
    rw [given i va t at_i result_i, given j va u at_j result_j]
  · intro i j va va' t at_i at_j result_i result_j nonzero
    have first := given i va t at_i result_i
    have second := given j va' t at_j result_j
    exact kept_injective fresh (first ▸ nonzero) (first.symm.trans second)
  · exact fun full va nonzero =>
      ⟨holds.refused full, fun k inside at_k => holds.cached nonzero inside at_k⟩

/-- Two addresses with one home, the first of them again. -/
theorem one_home_two_thunks :
    OneEach (fun asked _ => 0x70000000 + 16 * UInt32.ofNat asked.length)
      [0x401000, 0x402000, 0x401000] [0x70000000, 0x70000010, 0x70000000]
      ((calls fun asked _ => 0x70000000 + 16 * UInt32.ofNat asked.length).run ready
        [0x401000, 0x402000, 0x401000]).1 :=
  thunk_for_injective (fun asked _ => 0x70000000 + 16 * UInt32.ofNat asked.length)
    [0x401000, 0x402000, 0x401000] (by simp) ⟨by decide +kernel, by decide +kernel⟩

end Es3Recomp.Guarantees.ThunkCache
