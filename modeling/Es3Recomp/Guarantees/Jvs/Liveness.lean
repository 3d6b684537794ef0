import Es3Recomp.Model.Jvs.Handling
import Mathlib.Data.Nat.Find

/-!
# When reception wedges, and that it does not otherwise

A packet whose size byte is 0 is never complete for `consume_input`, because the
loop that waits for it takes 0 for "size not known yet"; one whose size byte is
255 is never complete because its 257 bytes do not fit into `body[256]`
(src/src/runtime/jvs.c:351-363). Once the parser starts on such a packet the port is
deaf for ever (`deaf_forever`). In every run in which it never does, every state
can still make progress, and enough further packets get one of them through.
-/
namespace Es3Recomp.Guarantees.Jvs
open Library Source.Jvs Model.Jvs

/-- The size byte of the packet the parser would start on is known, and it is one
of the two the parser can never complete. -/
def badSize (inp : List UInt8) : Bool :=
  match findSync inp with
  | [] => false
  | _ :: t =>
    match jvsCode.readN 2 t with
    | some ([_, size], _) => size = 0 ∨ size = 255
    | _ => false

/-- Some pass over the buffer starts on such a packet. -/
inductive MeetsBadSize : List UInt8 → Prop where
  | here {b : List UInt8} (bad : badSize b = true) : MeetsBadSize b
  | later {b r : List UInt8} {e : Event} (pass : nextPacket b = some (e, r))
      (rest : MeetsBadSize r) : MeetsBadSize b

/-- No SYNC is held, or the bytes from the first SYNC on are a proper prefix of a
packet that is taken as soon as its last byte is there. -/
def Receptive (inp : List UInt8) : Prop :=
  JVS_SYNC ∉ inp ∨
    ∃ more ≠ [], (nextPacket (findSync inp ++ more)).isSome ∧
      ∀ pre, pre <+: more → pre ≠ more → nextPacket (findSync inp ++ pre) = none

/-- The condition on one operation: a write makes no pass start on a packet whose
size byte is 0 or 255. -/
def GoodStep (p : JvsPort) : Op → Prop
  | .write _ _ bytes => ¬ MeetsBadSize (p.inp ++ accepted p bytes)
  | _ => True

def GoodRun (s : Node) (ops : List Op) : Prop :=
  ∀ pre op post, ops = pre ++ op :: post → GoodStep (board.run s pre).1.port op

/-- The bytes of the writes of a run, in order. -/
def writesOf (ops : List Op) : List (List UInt8) :=
  ops.filterMap fun
    | .write _ _ bytes => some bytes
    | _ => none

/-! ## A bad size byte stops the parser, whatever arrives -/

theorem badSize_iff (inp : List UInt8) :
    badSize inp = true ↔
      ∃ t dest size rest, findSync inp = JVS_SYNC :: t ∧
        jvsCode.readN 2 t = some ([dest, size], rest) ∧ (size = 0 ∨ size = 255) := by
  unfold badSize
  rcases findSync_cases inp with empty | ⟨t, sync⟩
  · simp [empty]
  · rw [sync]
    cases read : jvsCode.readN 2 t with
    | none => simp [read]
    | some pair =>
      obtain ⟨symbols, rest⟩ := pair
      have count := (jvsCode.readN_length read).1
      match symbols, count with
      | [dest, size], _ => simp [read]

theorem badSize_append {inp : List UInt8} (bad : badSize inp = true) (later : List UInt8) :
    badSize (inp ++ later) = true := by
  obtain ⟨t, dest, size, rest, sync, read, extreme⟩ := (badSize_iff inp).mp bad
  refine (badSize_iff _).mpr ⟨t ++ later, dest, size, rest ++ later, ?_,
    jvsCode.readN_append later read, extreme⟩
  rw [findSync_append, sync]
  rfl

theorem badSize_findSync (inp : List UInt8) : badSize (findSync inp) = badSize inp := by
  have again : findSync (findSync inp) = findSync inp := by
    simpa using findSync_findSync_append inp []
  simp only [badSize, again]

/-- The size byte is the second symbol, so what the parser reads first decides. -/
theorem size_of_packetAt {t bytes rest mid : List UInt8} {dest size : UInt8}
    (packet : PacketAt t bytes rest) (read : jvsCode.readN 2 t = some ([dest, size], mid)) :
    bytes.getD 1 0 = size := by
  have long := packet.three_le
  obtain ⟨mid', first⟩ := jvsCode.readN_take packet.read (k := 2) (by omega)
  rw [read, Option.some.injEq, Prod.mk.injEq] at first
  match bytes, long, first with
  | a :: b :: _, _, first =>
    have heads : [dest, size] = [a, b] := first.1
    simp only [List.cons.injEq] at heads
    exact heads.2.1.symm

theorem nextPacket_of_badSize {inp : List UInt8} (bad : badSize inp = true) :
    nextPacket inp = none := by
  obtain ⟨t, dest, size, mid, sync, read, extreme⟩ := (badSize_iff inp).mp bad
  cases found : nextPacket inp with
  | none => rfl
  | some pair =>
    obtain ⟨e, r⟩ := pair
    obtain ⟨t', bytes, rest, sync', packet, -, -⟩ := (nextPacket_iff inp e r).mp found
    obtain rfl : t = t' := by simpa using sync.symm.trans sync'
    have known := size_of_packetAt packet read
    have announced := packet.size
    have nonzero := packet.nonzero
    have fits := packet.fits
    rw [known] at announced nonzero
    rcases extreme with rfl | rfl
    · simp at nonzero
    · have : (255 : UInt8).toNat = 255 := rfl
      omega

theorem meetsBadSize_iff (b : List UInt8) :
    MeetsBadSize b ↔ badSize (jvsDeframer.drain b).2 = true := by
  induction b using jvsDeframer.drain_induction with
  | wait b h =>
    rw [jvsDeframer.drain_none h, jvsDeframer_trim, badSize_findSync]
    constructor
    · intro met
      cases met with
      | here bad => exact bad
      | later pass => exact absurd (h.symm.trans pass) (by simp)
    · exact MeetsBadSize.here
  | frame b e r h ih =>
    rw [jvsDeframer.drain_some h, ← ih]
    constructor
    · intro met
      cases met with
      | here bad => exact absurd ((nextPacket_of_badSize bad).symm.trans h) (by simp)
      | later pass rest =>
        obtain ⟨-, rfl⟩ := Prod.mk.inj (Option.some.inj (pass.symm.trans h))
        exact rest
    · exact MeetsBadSize.later h

instance (b : List UInt8) : Decidable (MeetsBadSize b) :=
  decidable_of_iff _ (meetsBadSize_iff b).symm

/-- Once the parser is on a packet with a bad size byte, no operation brings
another packet out of the port. -/
theorem deaf_forever (s : Node) (bad : badSize s.port.inp = true) (ops : List Op) :
    badSize (board.run s ops).1.port.inp = true ∧ eventsOf (board.run s ops).2 = [] := by
  refine board.run_induction
    (motive := fun s' out => badSize s'.port.inp = true ∧ eventsOf out = []) s ⟨bad, rfl⟩ ?_ ops
  intro s' out op ih
  obtain ⟨still, silent⟩ := ih
  obtain ⟨events, inp⟩ := step_received s' op
  rw [eventsOf_append, silent, events, inp]
  cases op with
  | write m env bytes =>
    have stuck := badSize_append still (accepted s'.port bytes)
    simp only [received]
    rw [jvsDeframer.drain_none (nextPacket_of_badSize stuck)]
    exact ⟨(badSize_findSync _).trans stuck, rfl⟩
  | _ => exact ⟨still, rfl⟩

/-! ## A good size byte can always be satisfied -/

/-- Bytes after which `k` more symbols, all 1, can be read: the first of them may
have to finish an escape. -/
def filler : List UInt8 → Nat → List UInt8
  | [], k => List.replicate k 1
  | _ :: _, k => 0 :: List.replicate (k - 1) 1

theorem readN_replicate (k : Nat) :
    jvsCode.readN k (List.replicate k 1) = some (List.replicate k 1, []) := by
  induction k with
  | zero => rfl
  | succ k ih =>
    have one : jvsCode.readOne (1 :: List.replicate k 1) = some (1, List.replicate k 1) := by
      cases k <;> rfl
    exact jvsCode.readN_succ_of one ih

theorem readN_filler {tail : List UInt8} (ends : tail = [] ∨ tail = [jvsCode.escape]) (k : Nat) :
    jvsCode.readN (k + 1) (tail ++ filler tail (k + 1)) =
      some (List.replicate (k + 1) 1, []) := by
  rcases ends with rfl | rfl
  · exact readN_replicate (k + 1)
  · exact jvsCode.readN_succ_of rfl (readN_replicate k)

/-- What the parser has while it waits with a size byte that is not extreme: at
most one symbol, or a header whose packet has not all arrived. -/
theorem waiting_symbols {inp t : List UInt8} (waits : nextPacket inp = none)
    (sync : findSync inp = JVS_SYNC :: t) (good : badSize inp = false) :
    ∃ xs tail, jvsCode.readN xs.length t = some (xs, tail) ∧
      (tail = [] ∨ tail = [jvsCode.escape]) ∧
      (xs.length ≤ 1 ∨ (xs.getD 1 0 ≠ 0 ∧ xs.getD 1 0 ≠ 255 ∧
        xs.length < (xs.getD 1 0).toNat + 2)) := by
  obtain ⟨xs, tail, read, ends⟩ := jvsCode.exists_readN t
  refine ⟨xs, tail, read, ends, ?_⟩
  match xs, read with
  | [], _ => exact Or.inl (by simp)
  | [a], _ => exact Or.inl (by simp)
  | dest :: size :: ys, read =>
    right
    obtain ⟨mid, header⟩ := jvsCode.readN_take read (k := 2) (by simp)
    have moderate : ¬ (size = 0 ∨ size = 255) := fun extreme => by
      have bad := (badSize_iff inp).mpr ⟨t, dest, size, mid, sync, header, extreme⟩
      rw [good] at bad
      cases bad
    rw [not_or] at moderate
    refine ⟨moderate.1, moderate.2, ?_⟩
    -- were all symbols there, the pass would have found the packet
    by_contra arrived
    have arrived : size.toNat + 2 ≤ (dest :: size :: ys).length := Nat.le_of_not_lt arrived
    have positive : size.toNat ≠ 0 := fun zero => moderate.1 (UInt8.toNat_inj.mp zero)
    have notMax : size.toNat ≠ 255 := fun max => moderate.2 (UInt8.toNat_inj.mp max)
    have bound := size.toNat_lt
    obtain ⟨rest, first⟩ := jvsCode.readN_take read arrived
    have count : (dest :: size :: ys.take size.toNat).length = size.toNat + 2 :=
      (jvsCode.readN_length first).1
    have packet : PacketAt t (dest :: size :: ys.take size.toNat) rest :=
      ⟨by rw [count]; exact first, count, by change 1 ≤ size.toNat; omega, by omega⟩
    have found := (nextPacket_iff inp _ _).mpr ⟨t, _, rest, sync, packet, rfl, rfl⟩
    rw [waits] at found
    cases found

/-- A waiting buffer without an extreme size byte can be completed. -/
theorem exists_completion {inp t : List UInt8} (waits : nextPacket inp = none)
    (sync : findSync inp = JVS_SYNC :: t) (good : badSize inp = false) :
    ∃ more, (nextPacket (findSync inp ++ more)).isSome := by
  obtain ⟨xs, tail, read, ends, short⟩ := waiting_symbols waits sync good
  have complete : ∃ k, (xs ++ List.replicate (k + 1) 1).length =
        ((xs ++ List.replicate (k + 1) 1).getD 1 0).toNat + 2 ∧
      1 ≤ ((xs ++ List.replicate (k + 1) 1).getD 1 0).toNat ∧
      (xs ++ List.replicate (k + 1) 1).length ≤ 256 := by
    match xs, short with
    | [], _ => exact ⟨2, by decide, by decide, by decide⟩
    | [a], _ => exact ⟨1, rfl, by simp, by simp⟩
    | dest :: size :: ys, short =>
      have second : (dest :: size :: ys).getD 1 0 = size := rfl
      rw [second] at short
      rcases short with none | ⟨nonzero, notMax, waiting⟩
      · simp at none
      · have positive : size.toNat ≠ 0 := fun zero => nonzero (UInt8.toNat_inj.mp zero)
        have below : size.toNat ≠ 255 := fun max => notMax (UInt8.toNat_inj.mp max)
        have bound := size.toNat_lt
        refine ⟨size.toNat + 1 - (dest :: size :: ys).length, ?_, ?_, ?_⟩
        · simp only [List.length_append, List.length_replicate, List.length_cons] at waiting ⊢
          show _ = size.toNat + 2
          omega
        · show 1 ≤ size.toNat
          omega
        · simp only [List.length_append, List.length_replicate, List.length_cons] at waiting ⊢
          omega
  obtain ⟨k, size, nonzero, fits⟩ := complete
  have all := jvsCode.readN_join (jvsCode.readN_append (filler tail (k + 1)) read)
    (readN_filler ends k)
  have packet : PacketAt (t ++ filler tail (k + 1)) (xs ++ List.replicate (k + 1) 1) [] :=
    ⟨by rw [List.length_append, List.length_replicate]; exact all, size, nonzero, fits⟩
  have front : findSync (findSync inp ++ filler tail (k + 1)) =
      JVS_SYNC :: (t ++ filler tail (k + 1)) := by
    rw [sync, List.cons_append, findSync_cons, if_pos rfl]
  have found := (nextPacket_iff _ _ _).mpr ⟨_, _, _, front, packet, rfl, rfl⟩
  exact ⟨filler tail (k + 1), by rw [found]; rfl⟩

theorem exists_least_prefix {p : List UInt8 → Prop} [DecidablePred p] {xs : List UInt8} (h : p xs) :
    ∃ pre, p pre ∧ ∀ q, q <+: pre → q ≠ pre → ¬ p q := by
  have some_length : ∃ n, p (xs.take n) := ⟨xs.length, by rwa [List.take_length]⟩
  refine ⟨xs.take (Nat.find some_length), Nat.find_spec some_length, ?_⟩
  intro q front shorter
  have length : q.length < Nat.find some_length := by
    have le := front.length_le
    rw [List.length_take] at le
    rcases Nat.lt_or_ge q.length (Nat.find some_length) with lt | ge
    · exact lt
    · exact absurd (front.eq_of_length_le (by rw [List.length_take]; omega)) shorter
  have same : q = xs.take q.length := by
    have := List.prefix_iff_eq_take.mp (front.trans (List.take_prefix _ _))
    exact this
  rw [same]
  exact Nat.find_min some_length length

/-- While it waits, the buffer is receptive exactly when no extreme size byte
stands at its front. -/
theorem receptive_iff {inp : List UInt8} (waits : nextPacket inp = none) :
    Receptive inp ↔ badSize inp = false := by
  constructor
  · rintro (noise | ⟨more, -, taken, -⟩)
    · simp [badSize, findSync_eq_nil noise]
    · by_contra bad
      rw [Bool.not_eq_false] at bad
      have stuck := badSize_append ((badSize_findSync inp).trans bad) more
      rw [nextPacket_of_badSize stuck] at taken
      cases taken
  · intro good
    rcases findSync_cases inp with empty | ⟨t, sync⟩
    · refine Or.inl fun member => ?_
      obtain ⟨pre, post, split⟩ := List.append_of_mem member
      rw [split, findSync_append] at empty
      by_cases quiet : findSync pre = [] <;> simp [quiet, findSync_cons] at empty
    · obtain ⟨all, taken⟩ := exists_completion waits sync good
      obtain ⟨more, done, least⟩ := exists_least_prefix
        (p := fun more => (nextPacket (findSync inp ++ more)).isSome) taken
      have some_more : more ≠ [] := by
        intro empty
        subst empty
        have next : nextPacket (findSync inp ++ []) = nextPacket (inp ++ []) :=
          jvsDeframer.next_trim [] waits
        rw [next, List.append_nil, waits] at done
        cases done
      refine Or.inr ⟨more, some_more, done, fun pre front proper => ?_⟩
      have := least pre front proper
      rwa [Option.not_isSome_iff_eq_none] at this

/-- A waiting buffer without an extreme size byte is short: at most 255 symbols of
two bytes, an unfinished escape and SYNC. -/
theorem length_of_waiting {inp : List UInt8} (waits : nextPacket inp = none)
    (good : badSize inp = false) : (findSync inp).length ≤ 512 := by
  rcases findSync_cases inp with empty | ⟨t, sync⟩
  · simp [empty]
  · obtain ⟨xs, tail, read, ends, short⟩ := waiting_symbols waits sync good
    have wire := (jvsCode.readN_length read).2.2
    have tailShort : tail.length ≤ 1 := by rcases ends with rfl | rfl <;> simp
    have symbols : xs.length ≤ 255 := by
      rcases short with one | ⟨-, notMax, waiting⟩
      · omega
      · have bound := (xs.getD 1 0).toNat_lt
        have below : (xs.getD 1 0).toNat ≠ 255 := fun max => notMax (UInt8.toNat_inj.mp max)
        omega
    rw [sync, List.length_cons]
    omega

/-! ## Good runs -/

theorem goodRun_cons {s : Node} {op : Op} {ops : List Op} :
    GoodRun s (op :: ops) ↔ GoodStep s.port op ∧ GoodRun (board.step s op).1 ops := by
  constructor
  · intro good
    refine ⟨good [] op ops rfl, fun pre op' post split => ?_⟩
    exact good (op :: pre) op' post (by rw [split]; rfl)
  · intro good pre op' post split
    obtain ⟨here, rest⟩ := good
    cases pre with
    | nil =>
      simp only [List.nil_append, List.cons.injEq] at split
      rw [← split.1]
      exact here
    | cons first pre =>
      simp only [List.cons_append, List.cons.injEq] at split
      rw [← split.1]
      exact rest pre op' post split.2

theorem goodRun_append {s : Node} {ops later : List Op} (good : GoodRun s (ops ++ later)) :
    GoodRun s ops ∧ GoodRun (board.run s ops).1 later := by
  induction ops generalizing s with
  | nil => exact ⟨by rintro (_ | _) op post split <;> simp at split, good⟩
  | cons op ops ih =>
    obtain ⟨here, rest⟩ := goodRun_cons.mp good
    obtain ⟨front, back⟩ := ih rest
    exact ⟨goodRun_cons.mpr ⟨here, front⟩, back⟩

/-- The buffer between two operations: nothing can be taken off it. -/
theorem settled_step {s : Node} (settled : jvsDeframer.Settled s.port.inp) (op : Op) :
    jvsDeframer.Settled (board.step s op).1.port.inp := by
  rw [(step_received s op).2]
  cases op with
  | write m env bytes => exact jvsDeframer.settled_drain _
  | _ => exact settled

theorem settled_run (ops : List Op) :
    jvsDeframer.Settled (board.run Node.initial ops).1.port.inp :=
  board.run_invariant (fun s => jvsDeframer.Settled s.port.inp) Node.initial rfl
    (fun _ op settled => settled_step settled op) ops

theorem waits_of_settled {inp : List UInt8} (settled : jvsDeframer.Settled inp) :
    nextPacket inp = none := by
  have := jvsDeframer.next_drain inp
  rwa [settled] at this

theorem findSync_of_settled {inp : List UInt8} (settled : jvsDeframer.Settled inp) :
    findSync inp = inp := by
  have := jvsDeframer.trim_drain inp
  rwa [settled] at this

/-- One step keeps the size byte at the front good exactly when it is a good step. -/
theorem badSize_step {s : Node} (good : badSize s.port.inp = false) (op : Op) :
    badSize (board.step s op).1.port.inp = false ↔ GoodStep s.port op := by
  rw [(step_received s op).2]
  cases op with
  | write m env bytes =>
    rw [GoodStep, meetsBadSize_iff, received, Bool.not_eq_true]
  | _ => exact ⟨fun _ => trivial, fun _ => good⟩

theorem badSize_run {s : Node} (start : badSize s.port.inp = false) {ops : List Op}
    (good : GoodRun s ops) : badSize (board.run s ops).1.port.inp = false := by
  induction ops generalizing s with
  | nil => exact start
  | cons op ops ih =>
    obtain ⟨here, rest⟩ := goodRun_cons.mp good
    exact ih ((badSize_step start op).mpr here) rest

/-- Every state of a run is receptive exactly when every step is good. -/
theorem receptive_throughout_iff (ops : List Op) :
    (∀ pre, pre <+: ops → Receptive (board.run Node.initial pre).1.port.inp) ↔
      GoodRun Node.initial ops := by
  have moderate : ∀ pre, Receptive (board.run Node.initial pre).1.port.inp ↔
      badSize (board.run Node.initial pre).1.port.inp = false := fun pre =>
    receptive_iff (waits_of_settled (settled_run pre))
  constructor
  · intro all pre op post split
    have before := (moderate pre).mp (all pre ⟨op :: post, split.symm⟩)
    have after := (moderate (pre ++ [op])).mp (all (pre ++ [op]) ⟨post, by simp [split]⟩)
    rw [Transducer.run_concat] at after
    exact (badSize_step before op).mp after
  · intro good pre front
    obtain ⟨post, rfl⟩ := front
    exact (moderate pre).mpr (badSize_run rfl (goodRun_append good).1)

/-! ## Enough further packets -/

/-- The packets of the list, as they are written. -/
def wires (packets : List (UInt8 × List UInt8)) : List (List UInt8) :=
  packets.map fun q => wire q.1 q.2

/-- Cut anywhere, a stream of packets is the rest of one of them and then packets. -/
theorem drop_wires (packets : List (UInt8 × List UInt8)) (short : ∀ q ∈ packets, q.2.length ≤ 253)
    (j : Nat) :
    ∃ t rest, JVS_SYNC ∉ t ∧ (wires packets).flatten.drop j = t ++ (wires rest).flatten ∧
      rest <:+ packets ∧ (rest = [] → (wires packets).flatten.length ≤ j + 512) := by
  induction packets generalizing j with
  | nil => exact ⟨[], [], by simp, by simp [wires], List.suffix_rfl, by simp [wires]⟩
  | cons q packets ih =>
    have whole : (wires (q :: packets)).flatten = wire q.1 q.2 ++ (wires packets).flatten := rfl
    have bound := (length_wire_bounds q.1 q.2).2
    have here := short q (by simp)
    rcases Nat.eq_zero_or_pos j with rfl | positive
    · exact ⟨[], q :: packets, by simp, by simp, List.suffix_rfl, by simp⟩
    · rcases Nat.lt_or_ge (wire q.1 q.2).length j with past | inside
      · obtain ⟨t, rest, quiet, cut, suffix, none⟩ :=
          ih (fun q' h => short q' (by simp [h])) (j - (wire q.1 q.2).length)
        refine ⟨t, rest, quiet, ?_, suffix.trans (List.suffix_cons q packets), fun empty => ?_⟩
        · rw [whole, List.drop_append, List.drop_of_length_le (by omega), List.nil_append, cut]
        · have := none empty
          rw [whole, List.length_append]
          omega
      · refine ⟨(wire q.1 q.2).drop j, packets, ?_, ?_, List.suffix_cons q packets, ?_⟩
        · rw [show j = j - 1 + 1 by omega]
          exact sync_not_mem_drop_wire _ _ _
        · rw [whole, List.drop_append_of_le_length inside]
        · rintro rfl
          rw [whole, List.length_append]
          simp only [wires, List.map_nil, List.flatten_nil, List.length_nil]
          omega

/-- One of the packets is among those the deframer takes from the buffer. -/
def Taken (packets : List (UInt8 × List UInt8)) (b : List UInt8) : Prop :=
  ∃ q ∈ packets, Event.packet q.1 q.2 ∈ (jvsDeframer.drain b).1

theorem taken_of_pass {packets : List (UInt8 × List UInt8)} {b r : List UInt8} {e : Event}
    (found : nextPacket b = some (e, r)) (taken : Taken packets r) : Taken packets b := by
  obtain ⟨q, member, later⟩ := taken
  refine ⟨q, member, ?_⟩
  rw [jvsDeframer.drain_some found]
  exact List.mem_cons_of_mem e later

/-- Behind noise the next packet is taken. -/
theorem taken_behind_noise {packets rest : List (UInt8 × List UInt8)} {noise : List UInt8}
    (short : ∀ q ∈ packets, q.2.length ≤ 253) (quiet : JVS_SYNC ∉ noise)
    (suffix : rest <:+ packets) (some_left : rest ≠ []) :
    Taken packets (noise ++ (wires rest).flatten) := by
  obtain ⟨q, tail, rfl⟩ := List.exists_cons_of_ne_nil some_left
  have member : q ∈ packets := suffix.subset (by simp)
  have front : (wires (q :: tail)).flatten = wire q.1 q.2 ++ (wires tail).flatten := rfl
  refine ⟨q, member, ?_⟩
  rw [drain_noise quiet, front, drain_wire q.1 q.2 _ (short q member)]
  exact List.mem_cons_self

/-- A pass that starts in the garbage before the rest `t` of a packet and a stream of
packets ends in one of the three: it leaves less garbage, or the rest of a packet, or
it has gone into the stream. -/
theorem left_of_pass {garbage t : List UInt8} {packets : List (UInt8 × List UInt8)} {e : Event}
    {r : List UInt8} (short : ∀ q ∈ packets, q.2.length ≤ 253) (quiet : JVS_SYNC ∉ t)
    (starts : findSync garbage ≠ [])
    (found : nextPacket (garbage ++ (t ++ (wires packets).flatten)) = some (e, r)) :
    (∃ garbage' t', r = garbage' ++ (t' ++ (wires packets).flatten) ∧ JVS_SYNC ∉ t' ∧
        garbage'.length < garbage.length) ∨
      ∃ noise rest, r = noise ++ (wires rest).flatten ∧ JVS_SYNC ∉ noise ∧ rest <:+ packets ∧
        (rest = [] → (wires packets).flatten.length ≤ 768) := by
  obtain ⟨_, bytes, _, -, packet, -, left⟩ := (nextPacket_iff _ e r).mp found
  have three := packet.three_le
  have fits := packet.fits
  have shrunk := length_findSync_le garbage
  have positive := List.length_pos_iff.mpr starts
  rw [findSync_append, if_neg starts] at left
  rcases Nat.lt_or_ge (findSync garbage).length bytes.length with past | within
  · rcases Nat.lt_or_ge ((findSync garbage).length + t.length) bytes.length with deep | mid
    · -- the packet reaches into the stream
      obtain ⟨noise, rest, quiet', cut, suffix, short'⟩ := drop_wires packets short
        (bytes.length - (findSync garbage).length - t.length)
      refine Or.inr ⟨noise, rest, ?_, quiet', suffix, fun empty => ?_⟩
      · rw [left, List.drop_append, List.drop_of_length_le (by omega), List.nil_append,
          List.drop_append, List.drop_of_length_le (by omega), List.nil_append, cut]
      · have := short' empty
        omega
    · -- it ends in the rest of a packet
      refine Or.inl ⟨[], t.drop (bytes.length - (findSync garbage).length), ?_,
        fun member => quiet (List.mem_of_mem_drop member), by rw [List.length_nil]; omega⟩
      rw [left, List.drop_append, List.drop_of_length_le (by omega), List.nil_append,
        List.drop_append_of_le_length (by omega), List.nil_append]
  · -- it ends in the garbage
    refine Or.inl ⟨(findSync garbage).drop bytes.length, t, ?_, quiet, ?_⟩
    · rw [left, List.drop_append_of_le_length within]
    · rw [List.length_drop]
      omega

/-- Behind any bytes `garbage` and the rest `t` of a packet, a stream of packets has
one of them taken, unless the parser still waits on the garbage or the stream is
short. By induction on the garbage, which every pass shortens. -/
theorem packet_taken (garbage t : List UInt8) (packets : List (UInt8 × List UInt8))
    (short : ∀ q ∈ packets, q.2.length ≤ 253) (quiet : JVS_SYNC ∉ t) :
    Taken packets (garbage ++ (t ++ (wires packets).flatten)) ∨
      (wires packets).flatten.length <
        (jvsDeframer.drain (garbage ++ (t ++ (wires packets).flatten))).2.length ∨
      (wires packets).flatten.length ≤ 768 := by
  induction hn : garbage.length using Nat.strongRecOn generalizing garbage t with
  | _ n ih =>
    by_cases starts : findSync garbage = []
    · -- the garbage is noise: the first packet is next
      by_cases empty : packets = []
      · subst empty
        exact Or.inr (Or.inr (by simp [wires]))
      · have next := taken_behind_noise short quiet List.suffix_rfl empty
        rw [Taken, drain_congr (c := t ++ (wires packets).flatten)
          (by rw [findSync_append, if_pos starts])]
        exact Or.inl next
    · cases found : nextPacket (garbage ++ (t ++ (wires packets).flatten)) with
      | none =>
        have positive := List.length_pos_iff.mpr starts
        refine Or.inr (Or.inl ?_)
        rw [jvsDeframer.drain_none found, jvsDeframer_trim, findSync_append, if_neg starts]
        simp only [List.length_append]
        omega
      | some pair =>
        obtain ⟨e, r⟩ := pair
        rcases left_of_pass short quiet starts found with
          ⟨garbage', t', left, quiet', less⟩ | ⟨noise, rest, left, quiet', suffix, few⟩
        · rcases ih garbage'.length (hn ▸ less) garbage' t' quiet' rfl with taken | waiting
          · exact Or.inl (taken_of_pass found (left ▸ taken))
          · rw [jvsDeframer.drain_some found]
            exact Or.inr (left ▸ waiting)
        · by_cases empty : rest = []
          · exact Or.inr (Or.inr (few empty))
          · have next := taken_behind_noise short quiet' suffix empty
            exact Or.inl (taken_of_pass found (left ▸ next))

/-- In a good run of packets the buffer never overflows, so the deframer is fed
all of them. -/
theorem run_wires (s : Node) (later : List Op) (packets : List (UInt8 × List UInt8))
    (short : ∀ q ∈ packets, q.2.length ≤ 253) (written : writesOf later = wires packets)
    (settled : jvsDeframer.Settled s.port.inp) (start : badSize s.port.inp = false)
    (good : GoodRun s later) :
    eventsOf (board.run s later).2 = (jvsDeframer.feedAll s.port.inp (wires packets)).1 ∧
      (board.run s later).1.port.inp = (jvsDeframer.feedAll s.port.inp (wires packets)).2 := by
  induction later generalizing s packets with
  | nil =>
    obtain rfl : packets = [] := by simpa [writesOf, wires] using written.symm
    exact ⟨rfl, rfl⟩
  | cons op later ih =>
    obtain ⟨here, rest⟩ := goodRun_cons.mp good
    have next := step_received s op
    have settled' := settled_step settled op
    have start' := (badSize_step start op).mpr here
    simp only [Transducer.run_cons, eventsOf_append]
    cases op with
    | write m env bytes =>
      cases packets with
      | nil => simp [writesOf, wires] at written
      | cons q packets =>
        obtain ⟨rfl, written'⟩ : bytes = wire q.1 q.2 ∧ writesOf later = wires packets := by
          simpa [writesOf, wires] using written
        have buffered := length_of_waiting (waits_of_settled settled) start
        rw [findSync_of_settled settled] at buffered
        have all := accepted_wire q.1 (short q (by simp)) (p := s.port) (by omega)
        have tail := ih _ packets (fun q' h => short q' (by simp [h])) written' settled' start' rest
        simp only [received, all] at next
        rw [tail.1, tail.2, next.1, next.2]
        exact ⟨rfl, rfl⟩
    | _ =>
      have tail := ih _ packets short (by simpa [writesOf] using written) settled' start' rest
      simp only [received] at next
      rw [tail.1, tail.2, next.1, next.2]
      exact ⟨rfl, rfl⟩

theorem length_wires (packets : List (UInt8 × List UInt8)) :
    4 * packets.length ≤ (wires packets).flatten.length := by
  induction packets with
  | nil => simp
  | cons q packets ih =>
    have bound := (length_wire_bounds q.1 q.2).1
    simp only [wires, List.map_cons, List.flatten_cons, List.length_append, List.length_cons] at ih ⊢
    omega

/-- After a good history, 193 further packets are enough for one to be handed over. -/
theorem packet_gets_through (ops later : List Op) (packets : List (UInt8 × List UInt8))
    (good : GoodRun Node.initial (ops ++ later)) (written : writesOf later = wires packets)
    (short : ∀ q ∈ packets, q.2.length ≤ 253) (enough : 193 ≤ packets.length) :
    ∃ q ∈ packets, Event.packet q.1 q.2 ∈
      eventsOf (board.run (board.run Node.initial ops).1 later).2 := by
  obtain ⟨history, further⟩ := goodRun_append good
  have settled := settled_run ops
  have start := badSize_run (s := Node.initial) rfl history
  have fed := run_wires _ later packets short written settled start further
  rw [jvsDeframer.feedAll_eq_drain settled] at fed
  have finish := badSize_run start further
  have long := length_wires packets
  have waiting := length_of_waiting (jvsDeframer.next_drain
    ((board.run Node.initial ops).1.port.inp ++ (wires packets).flatten)) (fed.2 ▸ finish)
  rw [← jvsDeframer_trim, jvsDeframer.trim_drain] at waiting
  rcases packet_taken (board.run Node.initial ops).1.port.inp [] packets short (by simp) with
    ⟨q, member, taken⟩ | behind | few
  · exact ⟨q, member, fed.1 ▸ taken⟩
  · rw [List.nil_append] at behind
    omega
  · omega

/-! ## The guarantee, and how it fails -/

/-- Reception never wedges exactly when no pass starts on a packet of size 0 or
255; and after such a run enough further packets get one of them handled. Past a
report that overruns `body[256]` the run goes on here as if the stray write had met
nothing (`handlePacket_inBounds_iff` says which packets have no such report). -/
theorem reception_never_wedges (ops : List Op) :
    ((∀ pre, pre <+: ops → Receptive (board.run Node.initial pre).1.port.inp) ↔
        GoodRun Node.initial ops) ∧
      ∀ (later : List Op) (packets : List (UInt8 × List UInt8)),
        GoodRun Node.initial (ops ++ later) → writesOf later = wires packets →
        (∀ q ∈ packets, q.2.length ≤ 253) → 193 ≤ packets.length →
        ∃ q ∈ packets, Event.packet q.1 q.2 ∈
          eventsOf (board.run (board.run Node.initial ops).1 later).2 :=
  ⟨receptive_throughout_iff ops, fun later packets good written short enough =>
    packet_gets_through ops later packets good written short enough⟩

/-- A quiet port stays quiet when whole packets are written to it. -/
theorem goodRun_wires (m : Machine) (env : Env) (packets : List (UInt8 × List UInt8))
    (short : ∀ q ∈ packets, q.2.length ≤ 253) (s : Node) (quiet : s.port.inp = []) :
    GoodRun s ((wires packets).map (Op.write m env)) := by
  induction packets generalizing s with
  | nil => rintro (_ | _) op post split <;> simp [wires] at split
  | cons q packets ih =>
    have size := short q (by simp)
    have all := accepted_wire (p := s.port) q.1 size (by simp [quiet])
    have drained : (jvsDeframer.drain (wire q.1 q.2)).2 = [] := by
      have := drain_wire q.1 q.2 [] size
      rw [List.append_nil] at this
      rw [this]
      rfl
    refine goodRun_cons.mpr ⟨?_, ih (fun q' h => short q' (by simp [h])) _ ?_⟩
    · rw [GoodStep, all, quiet, List.nil_append, meetsBadSize_iff, drained]
      decide
    · rw [(step_received s _).2, received, all, quiet, List.nil_append, drained]

/-- Some noise, then 193 times RESET to every node: one of them is handled. -/
theorem reception_never_wedges_resets :
    ∃ q ∈ List.replicate 193 ((0xFF : UInt8), ([0xF0, 0xD9] : List UInt8)),
      Event.packet q.1 q.2 ∈ eventsOf
        (board.run (board.run Node.initial [.write .x86 ⟨0, true, true⟩ [0x12, 0x34]]).1
          ((wires (List.replicate 193 (0xFF, [0xF0, 0xD9]))).map
            (Op.write .x86 ⟨0, true, true⟩))).2 := by
  have short : ∀ q ∈ List.replicate 193 ((0xFF : UInt8), ([0xF0, 0xD9] : List UInt8)),
      q.2.length ≤ 253 := by
    intro q member
    rw [(List.mem_replicate.mp member).2]
    decide
  refine (reception_never_wedges [.write .x86 ⟨0, true, true⟩ [0x12, 0x34]]).2 _ _ ?_ ?_ short
    (by rw [List.length_replicate])
  · refine goodRun_cons.mpr ⟨by rw [GoodStep]; decide, goodRun_wires _ _ _ short _ ?_⟩
    rw [(step_received _ _).2]
    decide
  · simp [writesOf, List.filterMap_map]

/-- One write of these bytes to a fresh port leaves it in a state that nothing can
complete, and nothing is ever taken from the port again. -/
def WedgedBy (bytes : List UInt8) : Prop :=
  let s := (board.run Node.initial [.write .x86 ⟨0, true, true⟩ bytes]).1
  ¬ Receptive s.port.inp ∧ ∀ later, eventsOf (board.run s later).2 = []

theorem wedgedBy_of_badSize {bytes : List UInt8}
    (bad : badSize (jvsDeframer.drain (accepted JvsPort.initial bytes)).2 = true) :
    WedgedBy bytes := by
  have stuck : badSize (board.run Node.initial
      [.write .x86 ⟨0, true, true⟩ bytes]).1.port.inp = true := by
    rw [Transducer.run_cons, Transducer.run_nil, (step_received _ _).2]
    exact bad
  refine ⟨fun receptive => ?_, fun later => (deaf_forever _ stuck later).2⟩
  have good := (receptive_iff (nextPacket_of_badSize stuck)).mp receptive
  rw [stuck] at good
  cases good

/-- Size 0, size 255, and a stray SYNC before a broadcast packet, whose destination
is then taken for a size: each leaves the port deaf for ever. -/
theorem reception_wedges :
    WedgedBy [0xE0, 0x01, 0x00] ∧ WedgedBy [0xE0, 0x01, 0xFF] ∧
      WedgedBy (0xE0 :: wire 0xFF [0xF0, 0xD9]) :=
  ⟨wedgedBy_of_badSize (by decide), wedgedBy_of_badSize (by decide),
    wedgedBy_of_badSize (by decide)⟩

end Es3Recomp.Guarantees.Jvs
