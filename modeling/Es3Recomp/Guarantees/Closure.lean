import Es3Recomp.Library.Worklist
import Es3Recomp.Source.Closure

/-!
# The closure rounds close

Whatever the lifter makes of an address (src/tools/recomp/driver.py:221-245, 310-335): the
driver stops with nothing open, or tells how much is. The literal targets of a body are read
off everywhere in its text; the driver's own pattern finds them all.
-/
namespace Es3Recomp.Guarantees.Closure
open Library Pattern Source.Driver Source.Closure

/-- The literal targets that occur in a text, wherever one begins. -/
def literalTargets (body : Text) : List ℤ :=
  (hits dispatchPattern body).map fun m => (ofHex (group1 m) : ℤ)

theorem dispatched_eq (body : Text) : dispatched body = literalTargets body := by
  have ne : dispatchPattern ≠ [] := List.cons_ne_nil _ _
  have free : Free dispatchPattern dispatchPattern.tail := by decide +kernel
  rw [dispatched, findall_eq_hits ne free, literalTargets]

/-! ## One round -/

/-- What lifting some of the addresses leaves, and the bodies it adds. -/
structure Lifts (funcs : Funcs) (vas : List ℤ) (r : Lifted) (new : List (ℤ × Text))
    (r' : Lifted) : Prop where
  bodies : r'.bodies = r.bodies ++ new
  calls : r'.calls = r.calls ++ new.map Prod.fst
  asked : ∀ e ∈ new, e.1 ∈ vas
  once : r.keys.Nodup → r'.keys.Nodup
  reached : ∀ a, a ∈ r'.reached ↔ a ∈ r.reached ∨ ∃ e ∈ new, a ∈ literalTargets e.2
  sized : ∀ va ∈ vas, funcs.get va ≠ 0 → va ∈ r'.keys

variable {lifter : Lifter} {info : Info} {funcs : Funcs}

theorem Lifts.keys {vas : List ℤ} {r r' : Lifted} {new : List (ℤ × Text)}
    (lifts : Lifts funcs vas r new r') : r'.keys = r.keys ++ new.map Prod.fst := by
  rw [Lifted.keys, lifts.bodies, List.map_append, Lifted.keys]

theorem Lifts.refl (funcs : Funcs) (r : Lifted) : Lifts funcs [] r [] r where
  bodies := (List.append_nil _).symm
  calls := (List.append_nil _).symm
  asked := nofun
  once := id
  reached := by simp
  sized := nofun

theorem Lifts.trans {vas vas' : List ℤ} {r r' r'' : Lifted} {new new' : List (ℤ × Text)}
    (first : Lifts funcs vas r new r') (second : Lifts funcs vas' r' new' r'') :
    Lifts funcs (vas ++ vas') r (new ++ new') r'' where
  bodies := by rw [second.bodies, first.bodies, List.append_assoc]
  calls := by rw [second.calls, first.calls, List.append_assoc, List.map_append]
  asked := by
    intro e member
    rw [List.mem_append] at member ⊢
    exact member.imp (first.asked e) (second.asked e)
  once := fun once => second.once (first.once once)
  reached := by
    intro a
    rw [second.reached, first.reached]
    simp only [List.mem_append, or_and_right, exists_or, or_assoc]
  sized := by
    intro va member size
    rcases List.mem_append.mp member with early | late
    · rw [second.keys]
      exact List.mem_append_left _ (first.sized va early size)
    · exact second.sized va late size

/-- An address that has a body or no size is left alone; any other gets a body. -/
theorem liftOne_lifts (lifter : Lifter) (funcs : Funcs) (r : Lifted) (va : ℤ) :
    ∃ new, Lifts funcs [va] r new (liftOne lifter funcs r va) := by
  unfold liftOne
  split
  next known =>
    have sized : ∀ a ∈ [va], funcs.get a ≠ 0 → a ∈ r.keys := by
      intro a member _
      rwa [List.mem_singleton.mp member]
    exact ⟨[], { Lifts.refl funcs r with asked := nofun, sized }⟩
  next unknown =>
    dsimp only
    split
    next none =>
      have sized : ∀ a ∈ [va], funcs.get a ≠ 0 → a ∈ r.keys := by
        intro a member size
        exact absurd (List.mem_singleton.mp member ▸ none) size
      exact ⟨[], { Lifts.refl funcs r with asked := nofun, sized }⟩
    next =>
      refine ⟨[(va, (tryLift lifter va (funcs.get va)).1)], rfl, rfl, ?_, ?_, ?_, ?_⟩
      · intro e member
        rw [List.mem_singleton.mp member]
        exact List.mem_singleton_self va
      · intro once
        rw [Lifted.keys, List.map_append, List.nodup_append]
        refine ⟨once, List.nodup_singleton va, ?_⟩
        rintro a before b here rfl
        rw [List.mem_singleton.mp here] at before
        exact unknown before
      · intro a
        simp [dispatched_eq]
      · intro a member _
        rw [List.mem_singleton.mp member, Lifted.keys, List.map_append]
        exact List.mem_append_right _ (List.mem_singleton_self va)

theorem foldl_lifts (lifter : Lifter) (funcs : Funcs) (vas : List ℤ) (r : Lifted) :
    ∃ new, Lifts funcs vas r new (vas.foldl (liftOne lifter funcs) r) := by
  induction vas generalizing r with
  | nil => exact ⟨[], Lifts.refl funcs r⟩
  | cons va vas ih =>
    obtain ⟨here, first⟩ := liftOne_lifts lifter funcs r va
    obtain ⟨rest, second⟩ := ih (liftOne lifter funcs r va)
    exact ⟨here ++ rest, first.trans second⟩

/-! ## The loop -/

theorem extentToNext_pos (va : ℤ) (funcs : Funcs) (codeEnd cap : ℤ) :
    0 < extentToNext va funcs codeEnd cap :=
  Int.lt_of_lt_of_le Int.one_pos (Int.le_max_left _ _)

/-- The addresses that a round opens all get a size. -/
theorem get_extents (codeEnd : ℤ) (vas : List ℤ) (funcs : Funcs) {va : ℤ}
    (sized : va ∈ vas ∨ funcs.get va ≠ 0) :
    Funcs.get (vas.foldl
      (fun funcs va => (va, extentToNext va funcs codeEnd 0x4000) :: funcs) funcs) va ≠ 0 := by
  induction vas generalizing funcs with
  | nil => exact sized.resolve_left List.not_mem_nil
  | cons a vas ih =>
    apply ih
    by_cases here : va = a
    · have extent := extentToNext_pos a funcs codeEnd 0x4000
      rw [here, Funcs.get, List.lookup_cons_self]
      exact Or.inr (Int.ne_of_gt extent)
    · have other : (va == a) = false := beq_eq_false_iff_ne.mpr here
      rcases sized with member | size
      · exact Or.inl ((List.mem_cons.mp member).resolve_left here)
      · rw [Funcs.get, List.lookup_cons, other]
        exact Or.inr size

/-- The worklist that the loop keeps. -/
def worklist (s : Rounds) : Worklist ℤ (ℤ × Text) := ⟨s.lifted.bodies, s.pending⟩

/-- An edge leads from a body to what it dispatches to. -/
def Targets (e : ℤ × Text) : List ℤ := literalTargets e.2

theorem closeRound_cases (lifter : Lifter) (info : Info) (s : Rounds) :
    ∃ new, Worklist.Round Prod.fst Targets info.Inside (worklist s) new
        (worklist (closeRound lifter info s)) ∧
      (closeRound lifter info s).lifted.calls = s.lifted.calls ++ new.map Prod.fst ∧
      (s.lifted.keys.Nodup → (closeRound lifter info s).lifted.keys.Nodup) ∧
      ∀ va ∈ s.pending, s.funcs.get va ≠ 0 → va ∈ (closeRound lifter info s).lifted.keys := by
  obtain ⟨new, lifts⟩ := foldl_lifts lifter s.funcs s.pending { s.lifted with reached := ∅ }
  have bodies : (closeRound lifter info s).lifted.bodies =
      (liftRound lifter s.funcs s.pending s.lifted).1.bodies := by
    dsimp only [closeRound]
    split <;> rfl
  have calls : (closeRound lifter info s).lifted.calls =
      (liftRound lifter s.funcs s.pending s.lifted).1.calls := by
    dsimp only [closeRound]
    split <;> rfl
  have keys : (closeRound lifter info s).lifted.keys =
      (liftRound lifter s.funcs s.pending s.lifted).1.keys := congrArg (List.map Prod.fst) bodies
  refine ⟨new, ⟨bodies.trans lifts.bodies, lifts.asked, ?_⟩, calls.trans lifts.calls, ?_, ?_⟩
  · intro a
    have opened : a ∈ (worklist (closeRound lifter info s)).pending ↔
        a ∈ (liftRound lifter s.funcs s.pending s.lifted).2 ∧ info.Inside a := by
      rw [← Finset.mem_filter, ← Finset.mem_sort (· ≤ ·)]
      rfl
    have undone : a ∈ (liftRound lifter s.funcs s.pending s.lifted).2 ↔
        a ∈ (liftRound lifter s.funcs s.pending s.lifted).1.reached ∧
          a ∉ (closeRound lifter info s).lifted.keys := by
      rw [keys]
      exact Finset.mem_filter
    have reached : a ∈ (liftRound lifter s.funcs s.pending s.lifted).1.reached ↔
        ∃ e ∈ new, a ∈ Targets e :=
      (lifts.reached a).trans (or_iff_right (Finset.notMem_empty a))
    rw [opened, undone, reached, and_comm]
    rfl
  · rw [keys]
    exact lifts.once
  · rw [keys]
    exact lifts.sized

structure Kept (info : Info) (start : List ℤ) (s : Rounds) : Prop where
  calls : s.lifted.calls = s.lifted.keys
  once : s.lifted.keys.Nodup
  sound : (worklist s).Sound Prod.fst Targets info.Inside start
  distinct : s.rounds ≠ 0 → s.pending.Nodup
  pending : s.lifted.bodies = [] ∧ s.rounds = 0 ∨
    (worklist s).Exact Prod.fst Targets info.Inside ∧ ∀ va ∈ s.pending, s.funcs.get va ≠ 0

theorem kept_closeRound (lifter : Lifter) {start : List ℤ} {s : Rounds}
    (kept : Kept info start s) :
    Kept info start (closeRound lifter info s) := by
  obtain ⟨new, round, calls, once, sized⟩ := closeRound_cases lifter info s
  have extents : ∀ va ∈ (closeRound lifter info s).pending,
      (closeRound lifter info s).funcs.get va ≠ 0 :=
    fun va member => get_extents info.codeEnd _ s.funcs (Or.inl member)
  refine ⟨?_, once kept.once, round.sound kept.sound, fun _ => Finset.sort_nodup _ _,
    Or.inr ⟨?_, extents⟩⟩
  · rw [calls, kept.calls]
    exact round.keys.symm
  · rcases kept.pending with ⟨first, -⟩ | ⟨exact, sizes⟩
    · exact round.exact_first first
    · exact round.exact exact fun va member => sized va member (sizes va member)

theorem kept_closeRounds (lifter : Lifter) {start : List ℤ} (left : Nat) {s : Rounds}
    (kept : Kept info start s) :
    Kept info start (closeRounds lifter info left s) ∧
      (closeRounds lifter info left s).rounds ≤ s.rounds + left ∧
      ((closeRounds lifter info left s).pending = [] ∨
        (closeRounds lifter info left s).rounds = s.rounds + left) := by
  induction left generalizing s with
  | zero => exact ⟨kept, Nat.le_refl _, Or.inr rfl⟩
  | succ left ih =>
    rw [closeRounds]
    split
    next empty => exact ⟨kept, Nat.le_add_right _ _, Or.inl empty⟩
    next =>
      obtain ⟨kept', few, stop⟩ := ih (kept_closeRound lifter kept)
      have next : (closeRound lifter info s).rounds = s.rounds + 1 := rfl
      rw [next] at few stop
      exact ⟨kept', by omega, stop.imp_right fun last => by omega⟩

/-! ## The law -/

theorem kept_start (info : Info) (start : List ℤ) (funcs : Funcs) :
    Kept info start ⟨⟨[], [], ∅, [], []⟩, funcs, start, 0⟩ where
  calls := rfl
  once := List.nodup_nil
  sound _ := Or.rec (fun none => absurd none List.not_mem_nil) Or.inl
  distinct again := absurd rfl again
  pending := Or.inl ⟨rfl, rfl⟩

/-- A literal target inside the code that occurs in a body and has none itself. -/
def Open (info : Info) (s : Rounds) (a : ℤ) : Prop :=
  info.Inside a ∧ (∃ e ∈ s.lifted.bodies, a ∈ literalTargets e.2) ∧ a ∉ s.lifted.keys

/-- What there is to say of the rounds when they are over; `start` is what they began with. -/
structure Closes (info : Info) (start : List ℤ) (s : Rounds) : Prop where
  /-- With nothing pending nothing is open. -/
  closed : s.pending = [] → ∀ a, ¬Open info s a
  /-- With something pending the limit was reached, and what is pending is what is open. -/
  limit : s.pending ≠ [] → s.rounds = ROUNDS ∧ ∀ a, a ∈ s.pending ↔ Open info s a
  /-- Its size is told. -/
  told : s.pending ≠ [] → s.pending.Nodup ∧
    s.lifted.said.getLast? = some (.stillOpen s.pending.length s.rounds)
  /-- No address is lifted twice. -/
  once : s.lifted.calls.Nodup
  /-- A body was asked for, or is dispatched to. -/
  sound : ∀ a ∈ s.lifted.keys,
    a ∈ start ∨ info.Inside a ∧ ∃ e ∈ s.lifted.bodies, a ∈ literalTargets e.2
  few : s.rounds ≤ ROUNDS

theorem Kept.closes {start : List ℤ} {s : Rounds} (kept : Kept info start s)
    (few : s.rounds ≤ ROUNDS) (stop : s.pending = [] ∨ s.rounds = ROUNDS)
    (told : s.pending ≠ [] →
      s.lifted.said.getLast? = some (.stillOpen s.pending.length s.rounds)) :
    Closes info start s := by
  have exact : s.rounds ≠ 0 → ∀ a, a ∈ s.pending ↔ Open info s a := by
    intro began
    exact (kept.pending.resolve_left fun first => began first.2).1
  have reached : s.pending ≠ [] → s.rounds = ROUNDS := stop.resolve_left
  have began : s.pending ≠ [] → s.rounds ≠ 0 := fun some => by
    rw [reached some]
    decide
  refine ⟨?_, fun some => ⟨reached some, exact (began some)⟩,
    fun some => ⟨kept.distinct (began some), told some⟩, kept.calls ▸ kept.once,
    fun a member => kept.sound a (Or.inl member), few⟩
  intro none a isOpen
  rcases kept.pending with ⟨first, -⟩ | ⟨exact, -⟩
  · obtain ⟨e, member, -⟩ := isOpen.2.1
    rw [first] at member
    exact List.not_mem_nil member
  · have pending := (exact a).mpr isOpen
    rw [show (worklist s).pending = [] from none] at pending
    exact List.not_mem_nil pending

/-- The driver's rounds close, for every lifter, every set of functions and every list of
addresses. -/
theorem closure_closes (lifter : Lifter) (info : Info) (funcs : Funcs) (addrs : List ℤ) :
    Closes info (firstTargets addrs funcs) (closure lifter info funcs addrs) := by
  obtain ⟨kept, few, stop⟩ := kept_closeRounds lifter ROUNDS
    (kept_start info (firstTargets addrs funcs) funcs)
  rw [Nat.zero_add] at few stop
  unfold Source.Closure.closure
  dsimp only
  split
  next empty => exact kept.closes few stop fun some => absurd empty some
  next =>
    refine Kept.closes ⟨?_, ?_, ?_, ?_, ?_⟩ few stop fun _ => List.getLast?_concat
    · exact kept.calls
    · exact kept.once
    · exact kept.sound
    · exact kept.distinct
    · exact kept.pending

end Es3Recomp.Guarantees.Closure
