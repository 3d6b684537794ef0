import Es3Recomp.Source.Dispatch
import Mathlib.Data.List.Induction

/-!
# A direct call is a dispatch

The driver writes a call whose target it knows as `DCALL`, which goes straight to the
lifted body (src/src/runtime/es3_rt.h:357-371); any other call goes through `dispatch`
(src/src/runtime/dispatch.c:183-352). What the dispatcher does on the way and the macro
leaves out finds nothing for an address that has a lifted body, and what both do they do
to the same state. They print different things when the address is watched.
-/
namespace Es3Recomp.Guarantees.Dispatch
open Library Source.Trail Source.Dispatch

/-! ## Binding -/

theorem bound_es3BindGuest {η : Type} (g : GuestHle η) (va : UInt32) (fn : η) :
    (es3BindGuest g va fn).bound = (g.bound ++ [(va, fn)]).take GUEST_HLE_MAX := by
  have inside := g.room
  unfold es3BindGuest
  split
  · rename_i full
    rw [List.take_append_of_le_length full, List.take_of_length_le inside]
  · rename_i room
    rw [List.take_of_length_le (by rw [List.length_append]; exact Nat.not_le.mp room)]

/-- The handlers that there was room for, in the order they were bound. -/
theorem bound_boundBy {η : Type} (calls : List (UInt32 × η)) :
    (boundBy calls).bound = calls.take GUEST_HLE_MAX := by
  induction calls using List.reverseRecOn with
  | nil => rfl
  | append_singleton calls b ih =>
    have last : boundBy (calls ++ [b]) = es3BindGuest (boundBy calls) b.1 b.2 := by
      rw [boundBy, List.foldl_append]
      rfl
    have room : GUEST_HLE_MAX - min GUEST_HLE_MAX calls.length = GUEST_HLE_MAX - calls.length := by
      omega
    rw [last, bound_es3BindGuest, ih, List.take_append, List.take_append, List.take_take,
      Nat.min_self, List.length_take, room]

/-! ## Looking a body up -/

section Lookup
variable {φ : Type} {table : List (Entry φ)} (ascending : BinarySearch.Ascending Entry.key table)
  {e : Entry φ} (member : e ∈ table)

include ascending in
/-- Two entries for one address are one entry. -/
theorem entry_unique {e' : Entry φ} (member : e ∈ table) (member' : e' ∈ table)
    (same : e.va = e'.va) : e = e' := by
  have key : e.key = e'.key := congrArg UInt32.toNat same
  have found := BinarySearch.search_found ascending member
  rw [key, BinarySearch.search_found ascending member'] at found
  exact (Option.some.inj found).symm

include ascending member in
theorem searchTable_lifted : searchTable table e.va = some e.fn := by
  have found := BinarySearch.search_found ascending member
  rw [searchTable]
  exact congrArg (Option.map Entry.fn) found

/-- The index holds, at every place it has, the body of an entry that belongs there, if any
does. -/
theorem fill_cases {lo span va : UInt32} (within : va - lo < span) (entries : List (Entry φ))
    (g : (UInt32 → Option φ) × List UInt32) :
    (∃ e ∈ entries, e.va = va ∧ (entries.foldl (fill lo span) g).1 (va - lo) = some e.fn) ∨
      (∀ e ∈ entries, e.va ≠ va) ∧
        (entries.foldl (fill lo span) g).1 (va - lo) = g.1 (va - lo) := by
  induction entries generalizing g with
  | nil => exact Or.inr ⟨nofun, rfl⟩
  | cons e entries ih =>
    rw [List.foldl_cons]
    rcases ih (fill lo span g e) with ⟨later, there, same, found⟩ | ⟨none, kept⟩
    · exact Or.inl ⟨later, List.mem_cons_of_mem e there, same, found⟩
    · by_cases here : e.va = va
      · refine Or.inl ⟨e, List.mem_cons_self, here, ?_⟩
        rw [kept, fill, here, if_pos within]
        exact Function.update_self _ _ _
      · have apart : va - lo ≠ e.va - lo := by
          intro same
          have back := congrArg (· + lo) same
          simp only [UInt32.sub_add_cancel] at back
          exact here back.symm
        refine Or.inr ⟨List.forall_mem_cons.mpr ⟨here, none⟩, ?_⟩
        rw [kept, fill]
        split
        · exact Function.update_of_ne apart _ _
        · rfl

/-- The addresses the index is for have places in it. -/
theorem place_within {lo hi va : UInt32} (range : lo ≤ va ∧ va < hi) : va - lo < hi - lo := by
  obtain ⟨low, high⟩ := range
  have le := UInt32.le_iff_toNat_le.mp low
  have lt := UInt32.lt_iff_toNat_lt.mp high
  rw [UInt32.lt_iff_toNat_lt, UInt32.toNat_sub_of_le va lo low,
    UInt32.toNat_sub_of_le hi lo (UInt32.le_iff_toNat_le.mpr (Nat.le_trans le (Nat.le_of_lt lt)))]
  omega

include ascending member in
theorem filled_lifted {lo span : UInt32} (within : e.va - lo < span) :
    (filled lo span table).1 (e.va - lo) = some e.fn := by
  rcases fill_cases within table (fun _ => none, []) with ⟨e', there, same, found⟩ | ⟨none, -⟩
  · rw [filled, found, entry_unique ascending there member same]
  · exact absurd rfl (none e member)

include ascending member in
/-- Index or search, the dispatcher finds the lifted body. -/
theorem find_lifted (allocated : Bool) :
    find table (dispatchBuildIndex allocated table) e.va = some e.fn := by
  have searched := searchTable_lifted ascending member
  unfold dispatchBuildIndex
  split
  · split
    · rw [find]
      split
      · rename_i range
        exact filled_lifted ascending member (place_within range)
      · exact searched
    · exact searched
  · exact searched

end Lookup

/-! ## The two calls -/

section Calls
variable {σ η φ : Type} (rt : Runtime σ η φ)

/-- What a call of a lifted function comes to: the first handler bound to it, and its own
body when there is none or the handler declines. -/
def answer (first : Option (UInt32 × η)) (fn : φ) (s : State σ η) : State σ η :=
  match first with
  | none => rt.body fn s
  | some b => if (rt.handler b.2 s).2 ≠ 0 then (rt.handler b.2 s).1 else rt.body fn (rt.handler b.2 s).1

/-- The test of the range never keeps a handler from being found. -/
theorem hooked_eq (s : State σ η) (va : UInt32) : hooked rt s va = es3GuestHleRun rt s va := by
  unfold hooked
  split
  · rfl
  · rename_i outside
    have none : s.hle.bound.find? (fun b => b.1 = va) = none := by
      rw [List.find?_eq_none]
      intro b member same
      have span := s.hle.spans b member
      rw [of_decide_eq_true same] at span
      exact outside span
    rw [es3GuestHleRun, none]

theorem answer_hooked (s : State σ η) (va : UInt32) (fn : φ) :
    (if (hooked rt s va).2 ≠ 0 then (hooked rt s va).1 else rt.body fn (hooked rt s va).1) =
      answer rt (s.hle.bound.find? fun b => b.1 = va) fn s := by
  rw [hooked_eq, es3GuestHleRun]
  cases s.hle.bound.find? fun b => b.1 = va with
  | none => rfl
  | some b => rfl

theorem dcall_answer (s : State σ η) (va : UInt32) (fn : φ) :
    (dcall rt s va fn).1 = answer rt (s.hle.bound.find? fun b => b.1 = va) fn (note rt s va) := by
  have hle : (note rt s va).hle = s.hle := rfl
  rw [← hle, ← answer_hooked]
  unfold dcall
  dsimp only
  split
  · rfl
  · split <;> rfl

/-- However much is traced, `dispatch` does what `dispatch_inner` does. -/
theorem dispatch_inner (s : State σ η) (va : UInt32) :
    (dispatch rt s va).map Prod.fst = dispatchInner rt (note rt s va) va := by
  unfold dispatch
  dsimp only
  split
  · rw [Option.map_map]
    exact Option.map_id'
  · split
    · rw [Option.map_map]
      exact Option.map_id'
    · rw [Option.map_map]
      exact Option.map_id'

theorem dispatchInner_answer (ascending : BinarySearch.Ascending Entry.key rt.table)
    {e : Entry φ} (lifted : e ∈ rt.table) (notImport : hleIsAddr rt.symbols e.va = false)
    (s : State σ η) (notThunk : rt.thunkTarget s e.va = none) :
    dispatchInner rt s e.va =
      some (answer rt (s.hle.bound.find? fun b => b.1 = e.va) e.fn s) := by
  rw [← answer_hooked, dispatchInner, notImport, notThunk]
  simp only [Bool.false_eq_true, if_false, Option.getD_none, find_lifted ascending lifted]
  split <;> rfl

/-- Whatever was bound, in whatever order, before a call of a lifted function: made directly
or through the dispatcher, it leaves the same CPU and memory, bindings and trail. What
happens is what the first handler bound to it makes of it. -/
theorem dcall_is_dispatch (ascending : BinarySearch.Ascending Entry.key rt.table) {e : Entry φ}
    (lifted : e ∈ rt.table) (notImport : hleIsAddr rt.symbols e.va = false)
    (calls : List (UInt32 × η)) (guest : σ) (trail : Trace)
    (notThunk : rt.thunkTarget (note rt ⟨guest, boundBy calls, trail⟩ e.va) e.va = none) :
    (dispatch rt ⟨guest, boundBy calls, trail⟩ e.va).map Prod.fst =
        some (dcall rt ⟨guest, boundBy calls, trail⟩ e.va e.fn).1 ∧
      (dcall rt ⟨guest, boundBy calls, trail⟩ e.va e.fn).1 =
        answer rt ((calls.take GUEST_HLE_MAX).find? fun b => b.1 = e.va) e.fn
          (note rt ⟨guest, boundBy calls, trail⟩ e.va) ∧
      ∀ b ∈ calls.take GUEST_HLE_MAX, (boundBy calls).lo ≤ b.1 ∧ b.1 ≤ (boundBy calls).hi := by
  have direct := dcall_answer rt ⟨guest, boundBy calls, trail⟩ e.va e.fn
  have through := dispatchInner_answer rt ascending lifted notImport
    (note rt ⟨guest, boundBy calls, trail⟩ e.va) notThunk
  refine ⟨?_, ?_, ?_⟩
  · rw [dispatch_inner, through, direct]
    rfl
  · rw [direct, bound_boundBy]
  · rw [← bound_boundBy]
    exact (boundBy calls).spans

end Calls

/-! ## A board check that is answered, and one that is not -/

/-- Three lifted functions that put their own address into the register, and two handlers:
the first answers with 1, the second declines. -/
def cabinet : Runtime UInt32 Bool UInt32 where
  symbols := ⟨0, fun _ => "", fun _ => "", 0x00400000⟩
  table := [⟨0x00401000, 0x00401000⟩, ⟨0x00401200, 0x00401200⟩, ⟨0x0041EAA0, 0x0041EAA0⟩]
  allocated := true
  watch := watchVaInit [0x00401200]
  traceFrom := 0
  tid := 7
  stackWord := fun _ _ => 0
  eax := fun guest => guest
  handler := fun answers s => if answers then ({ s with guest := 1 }, 1) else (s, 0)
  body := fun fn s => { s with guest := fn }
  hleCall := fun _ s => s
  hleCallAddress := fun _ s => s
  thunkTarget := fun _ _ => none
  isHostCode := fun _ _ => false

def boardChecks : List (UInt32 × Bool) :=
  [(0x0041EAA0, true), (0x00401200, false), (0x0041EAA0, false), (0x00401200, true)]

/-- The first handler of 00401200 declines, so its body runs, either way it is called. -/
theorem board_checks_same_call :
    (dispatch cabinet ⟨0, boundBy boardChecks, ⟨fun _ => 0, true⟩⟩ 0x00401200).map Prod.fst =
        some (dcall cabinet ⟨0, boundBy boardChecks, ⟨fun _ => 0, true⟩⟩ 0x00401200 0x00401200).1 ∧
      (dcall cabinet ⟨0, boundBy boardChecks, ⟨fun _ => 0, true⟩⟩ 0x00401200 0x00401200).1 =
        answer cabinet ((boardChecks.take GUEST_HLE_MAX).find? fun b => b.1 = 0x00401200) 0x00401200
          (note cabinet ⟨0, boundBy boardChecks, ⟨fun _ => 0, true⟩⟩ 0x00401200) ∧
      ∀ b ∈ boardChecks.take GUEST_HLE_MAX,
        (boundBy boardChecks).lo ≤ b.1 ∧ b.1 ≤ (boundBy boardChecks).hi :=
  dcall_is_dispatch cabinet (by decide) (e := ⟨0x00401200, 0x00401200⟩)
    (List.mem_cons_of_mem _ List.mem_cons_self) (by decide) boardChecks 0 ⟨fun _ => 0, true⟩ rfl

end Es3Recomp.Guarantees.Dispatch
