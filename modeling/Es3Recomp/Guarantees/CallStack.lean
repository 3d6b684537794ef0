import Es3Recomp.Library.ShadowStack
import Es3Recomp.Source.CallStack

/-!
# When the shadow call stack is consistent

`dispatch` counts calls beyond the array and stores none of them, but the two readers look
below the count without asking whether there is a slot there
(src/src/runtime64/dispatch64.c:128-137, 418-426); the stall watchdog does ask (195). A logged
call is not on the stack at all. Everything else holds in every run: a return restores the
depth, and what is stored are the calls in order.
-/
namespace Es3Recomp.Guarantees.CallStack
open Library Source.CallStack

/-! ## What is claimed of a step, and when it holds -/

def Inside (accesses : List Access) : Prop := ∀ a ∈ accesses, 0 ≤ a.index ∧ a.index < CS_MAX

def names (active : List Frame) : List UInt64 := active.map Frame.pref

/-- Accesses are inside the array; what a dump reads names the innermost active calls, what
the callee logger reads the caller of the innermost; a return restores the depth. -/
def Consistent (o : Options) (t : Thread) : Act → Prop
  | .call pref => Inside (enter o t pref).2 ∧
      entries (enter o t pref).2 <+: names (enter o t pref).1.active.tail
  | .ret => ∀ f rest, t.active = f :: rest → (leave t).csDepth = f.depth
  | .dump => Inside (es3DumpCallstack t) ∧ entries (es3DumpCallstack t) <+: names t.active

/-- The calls that are on the stack. -/
def onStack (active : List Frame) : List UInt64 := names (active.filter Frame.pushed)

/-- The depth with one more call. -/
def deeper (t : Thread) : ℤ := wrap (t.csDepth + 1)

/-- No reader gets to a place that is not there or to a call that a logged one stands before;
and the count has not wrapped where an entry is to be stored. -/
def Meets (o : Options) (t : Thread) : Act → Prop
  | .call pref => pref ∈ o.logCalls ∨ (onStack t.active).length < 2 ^ 31 ∧
      (o.trace = true → o.calleesOf ≠ 0 → 2 ≤ deeper t →
        deeper t ≤ CS_MAX + 1 ∧ ∀ f ∈ t.active.head?, f.pref ∉ o.logCalls)
  | .ret => True
  | .dump => t.csDepth ≤ CS_MAX ∧
      ∀ f ∈ t.active.take (min t.csDepth 40).toNat, f.pref ∉ o.logCalls

/-- Every step, in the state that the steps before it leave. -/
def Always (o : Options) (holds : Thread → Act → Prop) : Thread → List Act → Prop
  | _, [] => True
  | t, a :: acts => holds t a ∧ Always o holds (step o t a).1 acts

/-! ## What the stack is -/

theorem wrap_small {n : ℕ} (small : n < 2 ^ 31) : wrap n = n := by
  rw [wrap, Int.bmod_eq_of_le (by omega) (by omega)]

theorem wrap_add (x y : ℤ) : wrap (wrap x + y) = wrap (x + y) := Int.bmod_add_bmod

theorem wrap_sub (x y : ℤ) : wrap (wrap x - y) = wrap (x - y) := Int.bmod_sub_bmod

structure Kept (o : Options) (t : Thread) : Prop where
  few : (onStack t.active).length ≤ 2 ^ 31
  depth : t.csDepth = wrap (onStack t.active).length
  shadows : Shadows 256 t.csStack (onStack t.active)
  logged : ∀ f ∈ t.active, f.pushed = true ↔ f.pref ∉ o.logCalls
  before : ∀ outer f rest, t.active = outer ++ f :: rest →
    f.depth = wrap (onStack rest).length

theorem kept_initial (o : Options) (memory : ℤ → UInt64) : Kept o (Thread.initial memory) where
  few := Nat.zero_le _
  depth := (wrap_small (Nat.two_pow_pos 31)).symm
  shadows := Shadows.empty _ _
  logged := nofun
  before _ _ _ none := absurd none.symm (List.append_ne_nil_of_right_ne_nil _ nofun)

variable {o : Options} {t : Thread}

theorem Kept.small (kept : Kept o t) (small : (onStack t.active).length < 2 ^ 31) :
    t.csDepth = (onStack t.active).length := kept.depth.trans (wrap_small small)

theorem onStack_pushed {f : Frame} (pushed : f.pushed = true) (rest : List Frame) :
    onStack (f :: rest) = f.pref :: onStack rest := by
  rw [onStack, List.filter_cons_of_pos pushed, names, List.map_cons]
  rfl

theorem onStack_logged {f : Frame} (logged : ¬f.pushed = true) (rest : List Frame) :
    onStack (f :: rest) = onStack rest := by
  rw [onStack, List.filter_cons_of_neg logged]
  rfl

/-- The top of the stack names the innermost calls just when none of these is a logged one. -/
theorem take_onStack_prefix {logCalls : List UInt64} {active : List Frame}
    (logged : ∀ f ∈ active, f.pushed = true ↔ f.pref ∉ logCalls) {n : ℕ}
    (enough : n ≤ (onStack active).length) :
    (onStack active).take n <+: names active ↔ ∀ f ∈ active.take n, f.pref ∉ logCalls := by
  induction active generalizing n with
  | nil => simp [onStack, names]
  | cons f rest ih =>
    obtain ⟨here, later⟩ := List.forall_mem_cons.mp logged
    cases n with
    | zero => simp
    | succ n =>
      rw [List.take_succ_cons, List.forall_mem_cons]
      by_cases pushed : f.pushed = true
      · rw [onStack_pushed pushed] at enough ⊢
        rw [List.take_succ_cons, names, List.map_cons, List.cons_prefix_cons]
        rw [← ih later (Nat.le_of_succ_le_succ enough)]
        exact ⟨fun both => ⟨here.mp pushed, both.2⟩, fun both => ⟨rfl, both.2⟩⟩
      · rw [onStack_logged pushed] at enough ⊢
        refine iff_of_false ?_ fun both => pushed (here.mpr both.1)
        intro front
        cases onto : onStack rest with
        | nil =>
          rw [onto] at enough
          exact absurd enough (Nat.not_succ_le_zero n)
        | cons va vas =>
          rw [onto, List.take_succ_cons, names, List.map_cons, List.cons_prefix_cons] at front
          obtain ⟨g, there, named⟩ := List.mem_map.mp (onto ▸ List.mem_cons_self : va ∈ onStack rest)
          obtain ⟨inside, stored⟩ := List.mem_filter.mp there
          have unlogged := (later g inside).mp stored
          rw [named, front.1] at unlogged
          exact pushed (here.mpr unlogged)

/-! ## A return -/

theorem leave_cons (stack : ℤ → UInt64) (depth : ℤ) (f : Frame) (rest : List Frame) :
    leave ⟨stack, depth, f :: rest⟩ =
      ⟨stack, if f.pushed then wrap (depth - 1) else depth, rest⟩ := rfl

theorem Kept.leave (kept : Kept o t) : Kept o (leave t) ∧ Consistent o t .ret := by
  rcases t with ⟨stack, depth, active⟩
  cases active with
  | nil => exact ⟨kept, nofun⟩
  | cons f rest =>
    have before : f.depth = wrap (onStack rest).length := kept.before [] f rest rfl
    have logged := (List.forall_mem_cons.mp kept.logged).2
    have outer : ∀ outer g inner, rest = outer ++ g :: inner → g.depth = wrap (onStack inner).length :=
      fun outer g inner split => kept.before (f :: outer) g inner (congrArg (f :: ·) split)
    have few := kept.few
    have here := kept.depth
    have shadows := kept.shadows
    by_cases pushed : f.pushed = true
    · have left : Source.CallStack.leave ⟨stack, depth, f :: rest⟩ =
          ⟨stack, wrap (depth - 1), rest⟩ := by
        rw [leave_cons, if_pos pushed]
      simp only [onStack_pushed pushed, List.length_cons] at few here shadows
      have restored : wrap (depth - 1) = wrap (onStack rest).length := by
        rw [here, wrap_sub, Int.natCast_succ, Int.add_sub_cancel]
      rw [left]
      refine ⟨⟨Nat.le_of_succ_le few, restored, shadows.pop, logged, outer⟩, ?_⟩
      rintro g inner ⟨rfl, rfl⟩
      rw [left]
      exact restored.trans before.symm
    · have left : Source.CallStack.leave ⟨stack, depth, f :: rest⟩ = ⟨stack, depth, rest⟩ := by
        rw [leave_cons, if_neg pushed]
      simp only [onStack_logged pushed] at few here shadows
      rw [left]
      refine ⟨⟨few, here, shadows, logged, outer⟩, ?_⟩
      rintro g inner ⟨rfl, rfl⟩
      rw [left]
      exact here.trans before.symm

/-! ## A dump -/

theorem wrap_last : wrap (2 ^ 31 : ℕ) = -2 ^ 31 := by decide

theorem entries_map (t : Thread) (is : List ℤ) :
    entries (is.map (readAt t)) = is.map t.csStack := by
  rw [entries, List.filterMap_map, ← List.filterMap_eq_map]
  rfl

theorem inside_map (t : Thread) (is : List ℤ) :
    Inside (is.map (readAt t)) ↔ ∀ i ∈ is, 0 ≤ i ∧ i < CS_MAX := List.forall_mem_map

theorem dumped (t : Thread) :
    es3DumpCallstack t = ((List.range (min t.csDepth 40).toNat).map
      fun i : ℕ => t.csDepth - 1 - i).map (readAt t) := by
  have count : (if t.csDepth < 40 then t.csDepth else 40) = min t.csDepth 40 := by
    split <;> omega
  rw [es3DumpCallstack, count, List.map_map]
  rfl

theorem consistent_dump_iff (kept : Kept o t) : Consistent o t .dump ↔ Meets o t .dump := by
  unfold Consistent Meets
  rw [dumped, inside_map, entries_map, List.map_map]
  rcases Nat.lt_or_eq_of_le kept.few with small | last
  · have depth := kept.small small
    have least : (min t.csDepth 40).toNat ≤ (onStack t.active).length := by omega
    by_cases room : t.csDepth ≤ CS_MAX
    · have slots : (onStack t.active).length ≤ 256 := by
        unfold CS_MAX at room
        omega
      have read := kept.shadows.recent slots least
      rw [← depth] at read
      have shown : (List.range (min t.csDepth 40).toNat).map
          (t.csStack ∘ fun i : ℕ => t.csDepth - 1 - i) = _ := read
      have inside : ∀ i ∈ (List.range (min t.csDepth 40).toNat).map
          (fun i : ℕ => t.csDepth - 1 - i), 0 ≤ i ∧ i < CS_MAX := by
        intro i member
        obtain ⟨k, below, rfl⟩ := List.mem_map.mp member
        rw [List.mem_range] at below
        omega
      rw [shown, take_onStack_prefix kept.logged least]
      exact and_congr (iff_of_true inside room) Iff.rfl
    · have first : t.csDepth - 1 - (0 : ℕ) ∈ (List.range (min t.csDepth 40).toNat).map
          (fun i : ℕ => t.csDepth - 1 - i) := by
        refine List.mem_map.mpr ⟨0, List.mem_range.mpr ?_, rfl⟩
        unfold CS_MAX at room
        omega
      refine iff_of_false (fun both => ?_) fun both => room both.1
      have bound := (both.1 _ first).2
      omega
  · have depth : t.csDepth = -2 ^ 31 := by rw [kept.depth, last, wrap_last]
    have none : (min t.csDepth 40).toNat = 0 := by omega
    have low : t.csDepth ≤ CS_MAX := by rw [depth]; decide
    rw [none]
    simp [low]

/-! ## A call -/

/-- The thread when a call has been pushed. -/
def withCall (t : Thread) (pref : UInt64) : Thread where
  csStack := if t.csDepth < CS_MAX then Function.update t.csStack t.csDepth pref else t.csStack
  csDepth := deeper t
  active := ⟨pref, true, t.csDepth⟩ :: t.active

theorem enter_logged {pref : UInt64} (logged : pref ∈ o.logCalls) :
    enter o t pref = ({ t with active := ⟨pref, false, t.csDepth⟩ :: t.active }, []) := if_pos logged

theorem enter_unlogged {pref : UInt64} (unlogged : pref ∉ o.logCalls) :
    enter o t pref = (withCall t pref, (if t.csDepth < CS_MAX then [.write t.csDepth] else []) ++
      if o.trace then es3LogCallee o (withCall t pref) else []) := if_neg unlogged

theorem Kept.push_before (kept : Kept o t) (pref : UInt64) (pushed : Bool) :
    ∀ outer f rest, ⟨pref, pushed, t.csDepth⟩ :: t.active = outer ++ f :: rest →
      f.depth = wrap (onStack rest).length := by
  intro outer f rest split
  cases outer with
  | nil =>
    obtain ⟨rfl, rfl⟩ := List.cons.inj split
    exact kept.depth
  | cons _ outer => exact kept.before outer f rest (List.cons.inj split).2

theorem Kept.logged_call (kept : Kept o t) {pref : UInt64} (logged : pref ∈ o.logCalls) :
    Kept o { t with active := ⟨pref, false, t.csDepth⟩ :: t.active } where
  few := kept.few
  depth := kept.depth
  shadows := kept.shadows
  logged := List.forall_mem_cons.mpr ⟨iff_of_false nofun fun unlogged => unlogged logged, kept.logged⟩
  before := kept.push_before pref false

theorem Kept.withCall (kept : Kept o t) {pref : UInt64} (unlogged : pref ∉ o.logCalls)
    (small : (onStack t.active).length < 2 ^ 31) : Kept o (withCall t pref) where
  few := small
  depth := by
    have next : deeper t = wrap ((onStack t.active).length + 1) := by
      rw [deeper, kept.depth, wrap_add]
    exact next
  shadows := by
    have stack := kept.shadows.push pref
    rw [← kept.small small] at stack
    exact stack
  logged := List.forall_mem_cons.mpr ⟨iff_of_true rfl unlogged, kept.logged⟩
  before := kept.push_before pref true

theorem Kept.enter (kept : Kept o t) {pref : UInt64} (meets : Meets o t (.call pref)) :
    Kept o (enter o t pref).1 := by
  by_cases logged : pref ∈ o.logCalls
  · rw [enter_logged logged]
    exact kept.logged_call logged
  · rw [enter_unlogged logged]
    exact kept.withCall logged (meets.resolve_left logged).1

/-- A count that the callee logger goes on is the true one. -/
theorem deeper_eq (kept : Kept o t) {pref : UInt64} (unlogged : pref ∉ o.logCalls)
    (small : (onStack t.active).length < 2 ^ 31) (two : 2 ≤ deeper t) :
    deeper t = (onStack t.active).length + 1 := by
  have kept' := kept.withCall unlogged small
  rcases Nat.lt_or_eq_of_le kept'.few with fits | last
  · exact kept'.small fits
  · have wrapped : deeper t = -2 ^ 31 := by rw [← wrap_last, ← last]; exact kept'.depth
    omega

/-- The second slot from the top is the caller's. -/
theorem caller_read (kept : Kept o t) {pref : UInt64} (unlogged : pref ∉ o.logCalls)
    (small : (onStack t.active).length < 2 ^ 31) (two : 2 ≤ deeper t)
    (room : deeper t ≤ CS_MAX + 1) :
    (onStack t.active).take 1 = [(withCall t pref).csStack (deeper t - 2)] := by
  have depth := deeper_eq kept unlogged small two
  have top : onStack (withCall t pref).active = pref :: onStack t.active := onStack_pushed rfl _
  have enough : 0 < (onStack t.active).length := by omega
  obtain ⟨va, vas, onto⟩ := List.exists_cons_of_length_pos enough
  have slots : (pref :: onStack t.active).length ≤ 256 + 1 := by
    rw [List.length_cons]
    unfold CS_MAX at room
    omega
  have second : (pref :: onStack t.active)[1]? = some va := by rw [onto]; rfl
  have read := (top ▸ (kept.withCall unlogged small).shadows).peek second slots
  have place : ((pref :: onStack t.active).length : ℤ) - 1 - (1 : ℕ) = deeper t - 2 := by
    rw [List.length_cons, depth]
    omega
  rw [place] at read
  rw [read, onto]
  rfl

/-- What the callee logger reads is the caller, if it reads. -/
theorem callee_iff (kept : Kept o t) {pref : UInt64} (unlogged : pref ∉ o.logCalls)
    (small : (onStack t.active).length < 2 ^ 31) :
    Inside (es3LogCallee o (withCall t pref)) ∧
        entries (es3LogCallee o (withCall t pref)) <+: names t.active ↔
      (o.calleesOf ≠ 0 → 2 ≤ deeper t →
        deeper t ≤ CS_MAX + 1 ∧ ∀ f ∈ t.active.head?, f.pref ∉ o.logCalls) := by
  by_cases off : o.calleesOf = 0 ∨ (withCall t pref).csDepth < 2
  · have nothing : es3LogCallee o (withCall t pref) = [] := if_pos off
    rw [nothing]
    refine iff_of_true ⟨nofun, List.nil_prefix⟩ fun on deep => ?_
    exact absurd deep (Int.not_le.mpr (off.resolve_left on))
  · obtain ⟨on, deep⟩ := not_or.mp off
    have two : 2 ≤ deeper t := Int.not_lt.mp deep
    have one : es3LogCallee o (withCall t pref) = [deeper t - 2].map (readAt (withCall t pref)) :=
      if_neg off
    have depth := deeper_eq kept unlogged small two
    rw [one, inside_map, entries_map, List.forall_mem_singleton, List.map_singleton]
    by_cases room : deeper t ≤ CS_MAX + 1
    · have inside : 0 ≤ deeper t - 2 ∧ deeper t - 2 < CS_MAX := by omega
      have enough : 1 ≤ (onStack t.active).length := by omega
      have head : (∀ f ∈ t.active.take 1, f.pref ∉ o.logCalls) ↔
          ∀ f ∈ t.active.head?, f.pref ∉ o.logCalls := by
        cases t.active <;> simp
      rw [← caller_read kept unlogged small two room, take_onStack_prefix kept.logged enough, head]
      exact ⟨fun both _ _ => ⟨room, both.2⟩, fun asked => ⟨inside, (asked on two).2⟩⟩
    · refine iff_of_false (fun both => ?_) fun asked => room (asked on two).1
      have bound := both.1.2
      omega

/-- The write of a push is inside, and reads no entry. -/
theorem Kept.pushes (kept : Kept o t) (small : (onStack t.active).length < 2 ^ 31)
    (more : List Access) :
    (Inside ((if t.csDepth < CS_MAX then [.write t.csDepth] else []) ++ more) ↔ Inside more) ∧
      entries ((if t.csDepth < CS_MAX then [.write t.csDepth] else []) ++ more) =
        entries more := by
  have depth := kept.small small
  split
  next below =>
    have inside : 0 ≤ t.csDepth ∧ t.csDepth < CS_MAX := ⟨by omega, below⟩
    exact ⟨List.forall_mem_cons.trans (and_iff_right inside), rfl⟩
  next => exact ⟨Iff.rfl, rfl⟩

theorem consistent_call_iff (kept : Kept o t) (pref : UInt64) :
    Consistent o t (.call pref) ↔ Meets o t (.call pref) := by
  rw [Consistent, Meets]
  by_cases logged : pref ∈ o.logCalls
  · rw [enter_logged logged]
    exact iff_of_true ⟨nofun, List.nil_prefix⟩ (Or.inl logged)
  · rw [enter_unlogged logged, or_iff_right logged]
    rcases Nat.lt_or_eq_of_le kept.few with small | last
    · obtain ⟨whole, read⟩ :=
        kept.pushes small (if o.trace then es3LogCallee o (withCall t pref) else [])
      rw [whole, read, and_iff_right small]
      cases o.trace with
      | false => exact iff_of_true ⟨nofun, List.nil_prefix⟩ nofun
      | true => exact (callee_iff kept logged small).trans ⟨fun asked _ => asked, fun asked => asked rfl⟩
    · -- the count has wrapped, and the write goes far below the array
      have depth : t.csDepth = -2 ^ 31 := by rw [kept.depth, last, wrap_last]
      have low : t.csDepth < CS_MAX := by rw [depth]; decide
      refine iff_of_false (fun both => ?_) fun both => absurd last (Nat.ne_of_lt both.1)
      have written : Access.write t.csDepth ∈ (if t.csDepth < CS_MAX then [.write t.csDepth] else []) ++
          if o.trace then es3LogCallee o (withCall t pref) else [] := by
        rw [if_pos low]
        exact List.mem_cons_self
      have bound : 0 ≤ t.csDepth := (both.1 _ written).1
      omega

/-! ## Runs -/

theorem consistent_iff (kept : Kept o t) : ∀ a, Consistent o t a ↔ Meets o t a
  | .call pref => consistent_call_iff kept pref
  | .ret => iff_of_true kept.leave.2 trivial
  | .dump => consistent_dump_iff kept

theorem Kept.step (kept : Kept o t) : ∀ {a}, Meets o t a → Kept o (step o t a).1
  | .call _, meets => kept.enter meets
  | .ret, _ => kept.leave.1
  | .dump, _ => kept

/-- Whatever is called, returns and is dumped, in any order and to any depth: the shadow
stack is consistent in every step of a run just when every step meets the condition. -/
theorem callstack_consistent_iff (o : Options) (memory : ℤ → UInt64) (acts : List Act) :
    Always o (Consistent o) (Thread.initial memory) acts ↔
      Always o (Meets o) (Thread.initial memory) acts := by
  have general : ∀ t, Kept o t → (Always o (Consistent o) t acts ↔ Always o (Meets o) t acts) := by
    induction acts with
    | nil => exact fun _ _ => Iff.rfl
    | cons a acts ih =>
      intro t kept
      rw [Always, Always, consistent_iff kept]
      exact and_congr_right fun meets => ih _ (kept.step meets)
  exact general _ (kept_initial o memory)

/-! ## One call too deep -/

theorem always_append {holds : Thread → Act → Prop} {acts more : List Act}
    (always : Always o holds t (acts ++ more)) :
    Always o holds (acts.foldl (fun t a => (step o t a).1) t) more := by
  induction acts generalizing t with
  | nil => exact always
  | cons a acts ih => exact ih always.2

def deepCalls : List Act := List.replicate 257 (.call 0x140001000)

/-- The dump reads the place behind the array for the innermost of 257 calls. -/
theorem too_deep_inconsistent :
    ¬Always ⟨[], 0, false⟩ (Consistent ⟨[], 0, false⟩) (Thread.initial fun _ => 0)
      (deepCalls ++ [.dump]) := by
  intro always
  have deep : (deepCalls.foldl (fun t a => (step ⟨[], 0, false⟩ t a).1)
      (Thread.initial fun _ => 0)).csDepth = 257 := by decide +kernel
  obtain ⟨⟨inside, -⟩, -⟩ := always_append always
  rw [dumped, inside_map, deep] at inside
  have first := inside 256 (by decide)
  exact absurd first.2 (by decide)

end Es3Recomp.Guarantees.CallStack
