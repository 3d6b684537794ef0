import Es3Recomp.Source.ArgString

/-!
# What is read of a traced argument

The region is queried once, and the loop over wide characters checks each of them against its end
(src/src/runtime/hle_native.c:613-615). The loop over bytes before it does not (590-595): it stays
inside the region just when the region is long enough, or something in it stops the loop. The
buffer is safe in any case.
-/
namespace Es3Recomp.Guarantees.ArgString
open Library Library.Traced Source.ArgString

/-- What is relied on of Windows: the region is that of the address, and a conversion writes at
most the bytes that there is room for, and returns how many at most. -/
structure Documented (host : Host) : Prop where
  queried : ∀ va mi, host.virtualQuery va = some mi → mi.baseAddress ≤ va ∧
    va.toNat < mi.baseAddress.toNat + mi.regionSize.toNat
  written : ∀ ws room, (host.wideCharToMultiByte ws room).2.length ≤ room ∧
    (host.wideCharToMultiByte ws room).1 ≤ room

/-- The region that may be read for this argument. -/
def committed (host : Host) (va : UInt32) : Option Span :=
  if va < 0x10000 then none
  else (host.virtualQuery va).bind fun mi =>
    if mi.state = MEM_COMMIT ∧ mi.protect &&& PAGE_NOACCESS = 0 then
      some ⟨mi.baseAddress.toNat, mi.regionSize.toNat⟩
    else none

/-- Reads are as allowed, and writes are inside the buffer. -/
def Lawful (allowed : Span → Prop) : Access → Prop
  | .read p n => allowed ⟨p, n⟩
  | .write index n => index + n ≤ BUF_SIZE

/-- Inside the region that was found committed. -/
def InRegion (host : Host) (va : UInt32) (s : Span) : Prop :=
  ∃ region, committed host va = some region ∧ s.Within region

/-- A zero somewhere in the buffer. -/
def Terminated (buf : Buffer) : Prop := ∃ k < BUF_SIZE, buf k = 0

/-- The call reads inside the region, writes inside the buffer, and leaves it terminated. -/
def Safe (host : Host) (mem : Memory) (buf : Buffer) (va : UInt32) : Prop :=
  (es3ArgString host mem buf va).Yields (Lawful (InRegion host va)) fun r => Terminated r.2

/-- A byte that ends the first loop. -/
def Stops (ch : UInt8) : Prop := ch = 0 ∨ ch < 0x20 ∨ 0x7E < ch

instance (ch : UInt8) : Decidable (Stops ch) := inferInstanceAs (Decidable (_ ∨ _))

/-- What is left of the region has room for the loop, or stops it. -/
def Bounded (mem : Memory) (p : Nat) (region : Span) : Prop :=
  p + (BUF_SIZE - 1) ≤ region.start + region.len ∨
    ∃ q, p ≤ q ∧ q < region.start + region.len ∧ Stops (mem q)

/-! ## The buffer -/

/-- The last byte is never written but with a zero. -/
def Closed (buf : Buffer) : Prop := buf (BUF_SIZE - 1) = 0

theorem Closed.terminated {buf : Buffer} (closed : Closed buf) : Terminated buf :=
  ⟨BUF_SIZE - 1, by decide, closed⟩

theorem closed_store {buf : Buffer} (closed : Closed buf) {index : Nat} {bytes : List UInt8}
    (inside : index + bytes.length ≤ BUF_SIZE - 1) : Closed (store buf index bytes) := by
  have away : ¬ Span.Holds ⟨index, bytes.length⟩ (BUF_SIZE - 1) := fun here =>
    Nat.not_lt.mpr inside here.2
  exact (store_sameOutside buf index bytes _ away).trans closed

theorem closed_terminate {buf : Buffer} (closed : Closed buf) (index : Nat) :
    Closed (store buf index [0]) := by
  rw [Closed, store]
  split
  · cases h : BUF_SIZE - 1 - index with
    | zero => rfl
    | succ k => exact closed
  · exact closed

variable {allowed : Span → Prop} {mem : Memory}

theorem yields_writeBuf_bind {α : Type} {buf : Buffer} {index : Nat} {bytes : List UInt8}
    {f : Buffer → Trail α} {post : α → Prop} :
    (writeBuf buf index bytes >>= f).Yields (Lawful allowed) post ↔
      index + bytes.length ≤ BUF_SIZE ∧
        (f (store buf index bytes)).Yields (Lawful allowed) post := by
  rw [yields_bind, writeBuf, yields_find]
  rfl

theorem yields_readChar_bind {α : Type} {p : Nat} {f : UInt8 → Trail α} {post : α → Prop} :
    (readChar mem p >>= f).Yields (Lawful allowed) post ↔
      allowed ⟨p, 1⟩ ∧ (f (mem p)).Yields (Lawful allowed) post := by
  rw [yields_bind, readChar, yields_find]
  rfl

theorem yields_readWide_bind {α : Type} {p : Nat} {f : UInt16 → Trail α} {post : α → Prop} :
    (readWide mem p >>= f).Yields (Lawful allowed) post ↔
      allowed ⟨p, 2⟩ ∧ (f (wide mem p)).Yields (Lawful allowed) post := by
  rw [yields_bind, readWide, yields_find]
  rfl

/-! ## The loop over bytes -/

/-- Where the loop gets to from `i` on, it may read. -/
def ReadsFrom (allowed : Span → Prop) (mem : Memory) (p i left : Nat) : Prop :=
  ∀ k, i ≤ k → k < i + left → (∀ j, i ≤ j → j < k → ¬ Stops (mem (p + j))) → allowed ⟨p + k, 1⟩

theorem ReadsFrom.first {p i left : Nat} (reads : ReadsFrom allowed mem p i (left + 1)) :
    allowed ⟨p + i, 1⟩ :=
  reads i (Nat.le_refl _) (by omega) fun j above below => by omega

theorem readsFrom_stop {p i : Nat} (stop : Stops (mem (p + i))) (left : Nat) :
    ReadsFrom allowed mem p i (left + 1) ↔ allowed ⟨p + i, 1⟩ := by
  refine ⟨ReadsFrom.first, fun here k above _ clean => ?_⟩
  rcases Nat.eq_or_lt_of_le above with rfl | later
  · exact here
  · exact absurd stop (clean i (Nat.le_refl _) later)

theorem readsFrom_go {p i : Nat} (go : ¬ Stops (mem (p + i))) (left : Nat) :
    ReadsFrom allowed mem p i (left + 1) ↔
      allowed ⟨p + i, 1⟩ ∧ ReadsFrom allowed mem p (i + 1) left := by
  constructor
  · intro reads
    refine ⟨reads.first, fun k above below clean => reads k (by omega) (by omega) ?_⟩
    intro j past before
    rcases Nat.eq_or_lt_of_le past with rfl | later
    · exact go
    · exact clean j later before
  · intro both k above below clean
    rcases Nat.eq_or_lt_of_le above with rfl | later
    · exact both.1
    · exact both.2 k later (by omega) fun j past => clean j (by omega)

/-- What the loop ends with. -/
def Scanned (r : Option Nat × Buffer) : Prop :=
  Closed r.2 ∧ ∀ i, r.1 = some i → i ≤ BUF_SIZE - 1

theorem scanned_some {buf : Buffer} (closed : Closed buf) {i : Nat} (inside : i ≤ BUF_SIZE - 1) :
    Scanned (some i, buf) := by
  refine ⟨closed, fun j same => ?_⟩
  cases same
  exact inside

theorem scanned_none {buf : Buffer} (closed : Closed buf) : Scanned (none, buf) :=
  ⟨closed, fun _ same => nomatch same⟩

/-- The loop reads as far as nothing stops it, and no further. -/
theorem charLoop_yields_iff {post : Option Nat × Buffer → Prop}
    (enough : ∀ r, Scanned r → post r) {p left i : Nat} {buf : Buffer} (closed : Closed buf)
    (inside : i + left = BUF_SIZE - 1) :
    (charLoop mem p left i buf).Yields (Lawful allowed) post ↔ ReadsFrom allowed mem p i left := by
  induction left generalizing i buf with
  | zero =>
    have nothing : ReadsFrom allowed mem p i 0 := fun k above below => by omega
    rw [charLoop, yields_pure, iff_true_right nothing]
    exact enough _ (scanned_some closed (Nat.le_of_eq inside))
  | succ left ih =>
    rw [charLoop, yields_readChar_bind]
    by_cases stop : Stops (mem (p + i))
    · rw [readsFrom_stop stop, and_iff_left_iff_imp]
      intro _
      by_cases zero : mem (p + i) = 0
      · rw [if_pos zero, yields_pure]
        exact enough _ (scanned_some closed (by omega))
      · rw [if_neg zero, if_pos (stop.resolve_left zero), yields_pure]
        exact enough _ (scanned_none closed)
    · obtain ⟨zero, odd⟩ := not_or.mp stop
      have room : i + [mem (p + i)].length ≤ BUF_SIZE - 1 := by
        rw [List.length_singleton]
        omega
      have written : i + [mem (p + i)].length ≤ BUF_SIZE := Nat.le_trans room (Nat.sub_le _ _)
      rw [if_neg zero, if_neg odd, yields_writeBuf_bind, readsFrom_go stop,
        ih (closed_store closed room) (by omega), and_iff_right written]

/-! ## The loop over wide characters -/

theorem wideLoop_yields {w fin : Nat} (whole : ∀ q n, w ≤ q → q + n ≤ fin → allowed ⟨q, n⟩)
    {left n : Nat} (reached : w + 2 * n ≤ fin) :
    (wideLoop mem w fin left n).Yields (Lawful allowed) fun r =>
      ∀ n, r = some n → w + 2 * n ≤ fin := by
  have here : ∀ m, some n = some m → w + 2 * m ≤ fin := by
    intro m same
    cases same
    exact reached
  induction left generalizing n with
  | zero => exact yields_pure.mpr here
  | succ left ih =>
    rw [wideLoop]
    by_cases past : w + 2 * (n + 1) > fin
    · rw [if_pos past, yields_pure]
      exact fun m same => nomatch same
    · have next : w + 2 * (n + 1) ≤ fin := Nat.not_lt.mp past
      rw [if_neg past, yields_readWide_bind]
      refine ⟨whole _ 2 (Nat.le_add_right _ _) (by omega), ?_⟩
      split
      · exact yields_pure.mpr here
      · split
        · exact yields_pure.mpr fun m same => nomatch same
        · refine ih next fun m same => ?_
          cases same
          exact next

theorem convert_yields {host : Host} (documented : Documented host) {w n : Nat} {buf : Buffer}
    (closed : Closed buf) (read : allowed ⟨w, 2 * n⟩) :
    (convert host mem w n buf).Yields (Lawful allowed) fun r =>
      Closed r.2 ∧ r.1 ≤ (BUF_SIZE - 1 : Nat) := by
  obtain ⟨room, count⟩ := documented.written
    ((List.range n).map fun i => wide mem (w + 2 * i)) (BUF_SIZE - 1)
  rw [← Nat.zero_add (List.length _)] at room
  rw [convert, yields_bind, yields_find]
  refine ⟨read, ?_⟩
  dsimp only
  rw [yields_writeBuf_bind, yields_pure]
  exact ⟨Nat.le_trans room (Nat.sub_le _ _), closed_store closed room, count⟩

/-! ## The whole -/

theorem wideString_yields {host : Host} (documented : Documented host) {w fin : Nat}
    (whole : ∀ q n, w ≤ q → q + n ≤ fin → allowed ⟨q, n⟩) {post : Bool × Buffer → Prop}
    (enough : ∀ r : Bool × Buffer, Closed r.2 → post r) {buf : Buffer} (closed : Closed buf)
    (starts : w ≤ fin) : (wideString host mem w fin buf).Yields (Lawful allowed) post := by
  have scan : (wideLoop mem w fin 200 0).Yields (Lawful allowed) fun r =>
      ∀ n, r = some n → w + 2 * n ≤ fin := wideLoop_yields whole starts
  rw [wideString, yields_bind]
  refine scan.mono ?_
  intro length reached
  cases length with
  | none => exact yields_pure.mpr (enough _ closed)
  | some n =>
    dsimp only
    split
    · exact yields_pure.mpr (enough _ closed)
    · rw [yields_bind]
      refine (convert_yields documented closed (whole w _ (Nat.le_refl _) (reached n rfl))).mono ?_
      intro result written
      obtain ⟨k, converted⟩ := result
      obtain ⟨kept, count⟩ := written
      dsimp only
      split
      · exact yields_pure.mpr (enough _ kept)
      · rw [yields_writeBuf_bind, yields_pure]
        have inside : k.toNat + 1 ≤ BUF_SIZE := by
          have size : BUF_SIZE - 1 + 1 = BUF_SIZE := rfl
          omega
        exact ⟨inside, enough _ (closed_terminate kept _)⟩

theorem committedString_yields_iff {host : Host} (documented : Documented host) {p fin : Nat}
    (whole : ∀ q n, p ≤ q → q + n ≤ fin → allowed ⟨q, n⟩) {post : Bool × Buffer → Prop}
    (enough : ∀ r : Bool × Buffer, Closed r.2 → post r) {buf : Buffer} (closed : Closed buf)
    (starts : p ≤ fin) :
    (committedString host mem p fin buf).Yields (Lawful allowed) post ↔
      ReadsFrom allowed mem p 0 (BUF_SIZE - 1) := by
  rw [committedString, yields_bind, charLoop_yields_iff _ closed (Nat.zero_add _)]
  · intro result ends
    obtain ⟨scanned, buf'⟩ := result
    obtain ⟨kept, bound⟩ := ends
    cases scanned with
    | none => exact yields_pure.mpr (enough _ kept)
    | some i =>
      dsimp only
      split
      · rw [yields_writeBuf_bind, yields_pure]
        rename_i long
        exact ⟨Nat.lt_of_lt_of_le long.2 (Nat.sub_le _ _), enough _ (closed_terminate kept i)⟩
      · exact wideString_yields documented whole enough kept starts

/-- Where the loop does not come to a stop, it needs all its room. -/
theorem bounded_iff (mem : Memory) {p : Nat} {region : Span} (here : region.Holds p) :
    ReadsFrom (·.Within region) mem p 0 (BUF_SIZE - 1) ↔ Bounded mem p region := by
  obtain ⟨above, below⟩ := here
  constructor
  · intro reads
    by_contra unbounded
    obtain ⟨short, clean⟩ := not_or.mp unbounded
    have last := reads (region.start + region.len - p) (Nat.zero_le _) (by omega)
      fun j _ before stop => clean ⟨p + j, Nat.le_add_right _ _, by omega, stop⟩
    have past := last.2
    dsimp only at past
    omega
  · intro bounded k _ short clean
    rcases bounded with room | ⟨q, after_, inside, stop⟩
    · constructor <;> dsimp only <;> omega
    · have reached : p + k ≤ q := by
        by_contra beyond
        have offset : p + (q - p) = q := by omega
        exact clean (q - p) (Nat.zero_le _) (by omega) (by rwa [offset])
      constructor <;> dsimp only <;> omega

theorem committed_holds {host : Host} (documented : Documented host) {va : UInt32} {region : Span}
    (found : committed host va = some region) : region.Holds va.toNat := by
  rw [committed] at found
  split at found
  · cases found
  · obtain ⟨mi, queried, readable⟩ := Option.bind_eq_some_iff.mp found
    obtain ⟨above, below⟩ := documented.queried va mi queried
    split at readable
    · cases readable
      exact ⟨UInt32.le_iff_toNat_le.mp above, below⟩
    · cases readable

theorem es3ArgString_eq (host : Host) (mem : Memory) (buf : Buffer) (va : UInt32) :
    es3ArgString host mem buf va =
      match committed host va with
      | none => pure (false, buf)
      | some region => committedString host mem va.toNat (region.start + region.len) buf := by
  rw [es3ArgString, committed]
  by_cases low : va < 0x10000
  · rw [if_pos low, if_pos low]
  · rw [if_neg low, if_neg low]
    cases host.virtualQuery va with
    | none => rfl
    | some mi =>
      by_cases readable : mi.state = MEM_COMMIT ∧ mi.protect &&& PAGE_NOACCESS = 0
      · have goes : ¬ (mi.state ≠ MEM_COMMIT ∨ mi.protect &&& PAGE_NOACCESS ≠ 0) := by tauto
        simp only [Option.bind_some, if_pos readable, if_neg goes]
      · have stays : mi.state ≠ MEM_COMMIT ∨ mi.protect &&& PAGE_NOACCESS ≠ 0 := by tauto
        simp only [Option.bind_some, if_neg readable, if_pos stays]

/-- The buffer stays closed, whatever is read. -/
theorem after_closed {buf : Buffer} (closed : Closed buf) {c : ArgCall}
    (documented : Documented c.host) : Closed (after buf c) := by
  have ends : (es3ArgString c.host c.mem buf c.va).Yields (Lawful fun _ => True) fun r =>
      Closed r.2 := by
    rw [es3ArgString_eq]
    cases found : committed c.host c.va with
    | none => exact yields_pure.mpr closed
    | some region =>
      have starts := Nat.le_of_lt (committed_holds documented found).2
      exact (committedString_yields_iff documented (fun _ _ _ _ => trivial) (fun _ kept => kept)
        closed starts).mpr fun _ _ _ _ => trivial
  obtain ⟨-, r, outcome, kept⟩ := ends
  rw [after, outcome]
  exact kept

theorem afterAll_closed {calls : List ArgCall} (documented : ∀ c ∈ calls, Documented c.host) :
    Closed (afterAll calls) := by
  have fresh : Closed fun _ => 0 := rfl
  exact List.foldlRecOn calls after fresh fun _ closed c member =>
    after_closed closed (documented c member)

/-- After any calls before it, a call is safe just when what is left of the region, if there is
one, has room for the loop over bytes or stops it. -/
theorem arg_string_safe_iff {calls : List ArgCall} (before : ∀ c ∈ calls, Documented c.host)
    {host : Host} (documented : Documented host) (mem : Memory) (va : UInt32) :
    Safe host mem (afterAll calls) va ↔
      ∀ region, committed host va = some region → Bounded mem va.toNat region := by
  have closed := afterAll_closed before
  have enough : ∀ r : Bool × Buffer, Closed r.2 → Terminated r.2 := fun _ kept => kept.terminated
  rw [Safe, es3ArgString_eq]
  cases found : committed host va with
  | none =>
    rw [yields_pure]
    exact ⟨fun _ _ absurd => (nomatch absurd), fun _ => enough (false, _) closed⟩
  | some region =>
    have here := committed_holds documented found
    have only : InRegion host va = (·.Within region) := by
      funext s
      refine propext ⟨fun readable => ?_, fun inside => ⟨region, found, inside⟩⟩
      obtain ⟨other, same, inside⟩ := readable
      cases found.symm.trans same
      exact inside
    have whole : ∀ q n, va.toNat ≤ q → q + n ≤ region.start + region.len →
        Span.Within ⟨q, n⟩ region := fun q n above inside => ⟨Nat.le_trans here.1 above, inside⟩
    dsimp only
    rw [only, committedString_yields_iff documented whole enough closed (Nat.le_of_lt here.2),
      bounded_iff mem here]
    constructor
    · intro bounded other same
      cases same
      exact bounded
    · exact fun all => all region rfl

/-- One page is committed, at 0x20000. -/
def onePage : Host :=
  { virtualQuery := fun va =>
      if 0x20000 ≤ va ∧ va < 0x21000 then some ⟨0x20000, 0x1000, MEM_COMMIT, 4⟩ else none
    wideCharToMultiByte := fun _ _ => (0, []) }

theorem onePage_documented : Documented onePage where
  queried := by
    intro va mi found
    simp only [onePage] at found
    split at found
    · rename_i inside
      cases found
      exact ⟨inside.1, UInt32.lt_iff_toNat_lt.mp inside.2⟩
    · cases found
  written := fun _ room => ⟨Nat.zero_le room, Int.natCast_nonneg room⟩

/-- The last byte of the page is the terminator. -/
theorem terminator_safe :
    Safe onePage (fun _ => 0) (afterAll [⟨onePage, fun _ => 0x41, 0x20000⟩]) 0x20FFF :=
  (arg_string_safe_iff
    (List.forall_mem_singleton.mpr onePage_documented)
    onePage_documented _ _).mpr fun region found => by
      cases found
      exact .inr ⟨0x20FFF, by decide, by decide, by decide⟩

/-- It is a letter: the byte behind the page is read. -/
theorem letter_overrun : ¬ Safe onePage (fun _ => 0x41) (afterAll []) 0x20FFF := by
  intro safe
  have read : Access.read 0x21000 1 ∈
      (es3ArgString onePage (fun _ => 0x41) (afterAll []) 0x20FFF).events := by
    decide +kernel
  obtain ⟨region, found, inside⟩ := safe.1 _ read
  cases found
  exact absurd inside.2 (by decide)

end Es3Recomp.Guarantees.ArgString
