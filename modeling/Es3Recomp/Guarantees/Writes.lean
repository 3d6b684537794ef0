import Es3Recomp.Source.Writes
import Es3Recomp.Model.CardReader.Sessions

/-!
# What the game is told of its writes

The hooks tell the game the length it asked for (src/src/runtime/hle_callback.c:1116-1181).
Two levels below, a port takes only what its input buffer has room for
(src/src/runtime/jvs.c:870, src/src/runtime/card.c:723). `hle_read_file` stores the number that
`es3_jvs_read` returns; a write has no such number to pass on.
-/
namespace Es3Recomp.Guarantees.Writes
open Library Source.Writes
open Source.Jvs (Word)
open Source.CardReader (World)

/-- What became of the writes of a run, in order. -/
def reportsOf (out : List Output) : List Report :=
  out.flatMap fun
    | .report r => [r]
    | _ => []

theorem reportsOf_append (xs ys : List Output) :
    reportsOf (xs ++ ys) = reportsOf xs ++ reportsOf ys := List.flatMap_append

theorem reportsOf_board (os : List Source.Jvs.Output) : reportsOf (os.map .board) = [] := by
  simp [reportsOf, List.flatMap_map]

theorem reportsOf_reader (os : List Source.CardReader.Output) : reportsOf (os.map .reader) = [] := by
  simp [reportsOf, List.flatMap_map]

/-- The write went to one of the two ports. -/
def OnPort (t : Target) : Prop := t = .jvs ∨ t = .card

instance : DecidablePred OnPort := fun _ => inferInstanceAs (Decidable (_ ∨ _))

/-- Every count that the game is told is the number of bytes that the port has taken. -/
def Kept (r : Report) : Prop := ∀ t ∈ r.told, t.count.toNat = r.appended.length

/-- How many bytes the input buffer of a port has room for. -/
def roomFor (p : Ports) : Target → Nat
  | .jvs => Source.Jvs.FIFO_SIZE - p.board.port.inp.length
  | .card => Source.CardReader.FIFO - p.reader.port.inp.length
  | .driveStub | .native => 0

/-! ## One write -/

theorem handOver_reports (world : World) (s : Setting) (p : Ports) (bytes : List UInt8)
    (target : Target) (told : List Told) :
    reportsOf (handOver world s p bytes target told).2 =
      if target = .native then [] else [⟨target, bytes.take (roomFor p target), told, 1⟩] := by
  cases target with
  | jvs => simp [handOver, reportsOf, List.flatMap_map, roomFor, Source.Jvs.accepted]
  | driveStub => rfl
  | card => simp [handOver, reportsOf, List.flatMap_map, roomFor, Source.CardReader.accepted]
  | native => rfl

/-- What a port has no room for might as well not have been written. -/
theorem handOver_lost (world : World) (s : Setting) (p : Ports) (bytes : List UInt8)
    {target : Target} (onPort : OnPort target) (told : List Told) :
    (handOver world s p bytes target told).1 =
      (handOver world s p (bytes.take (roomFor p target)) target told).1 := by
  have twice : ∀ room, (bytes.take room).take room = bytes.take room := by
    intro room
    rw [List.take_take, Nat.min_self]
  rcases onPort with rfl | rfl
  · simp only [handOver, Source.Jvs.step, Setting.jvsWrite, Source.Jvs.es3JvsWrite,
      Source.Jvs.accepted, roomFor, twice]
  · simp only [handOver, Source.CardReader.step, Setting.cardWrite, Source.CardReader.es3CardWrite,
      Source.CardReader.received, Source.CardReader.accepted, roomFor, twice]

theorem toNat_n (call : Call) : call.n.toNat = call.bytes.length := by
  rw [Call.n, UInt32.toNat_ofNat', Nat.mod_eq_of_lt call.short]

/-- A write is accounted for when it fits, or when nobody is told. -/
theorem kept_iff {target : Target} {call : Call} {told : List Told} {room : Nat} {returned : UInt32}
    (counts : ∀ t ∈ told, t.count = call.n) :
    Kept ⟨target, call.bytes.take room, told, returned⟩ ↔ told = [] ∨ call.bytes.length ≤ room := by
  constructor
  · intro kept
    cases told with
    | nil => exact Or.inl rfl
    | cons t told =>
      have count := kept t List.mem_cons_self
      rw [counts t List.mem_cons_self, toNat_n, List.length_take] at count
      exact Or.inr (by omega)
  · rintro (none | fits) t member
    · rw [none] at member
      cases member
    · rw [counts t member, toNat_n, List.take_of_length_le fits]

theorem writeFileTold_counts (written : Word) (n : UInt32) :
    ∀ t ∈ writeFileTold written n, t.count = n := by
  intro t member
  unfold writeFileTold at member
  split at member
  · cases member
  · rw [List.mem_singleton.mp member]
    rfl

theorem completeWrite_counts (t : Telling) (n : UInt32) :
    ∀ told ∈ completeWrite t.env t.self t.ovl n t.routine, told.count = n := by
  intro told member
  unfold completeWrite at member
  split at member
  · cases member
  · rw [List.mem_singleton.mp member]
    rfl

theorem writeFileExTold_counts (t : Telling) (n : UInt32) :
    ∀ told ∈ writeFileExTold t n, told.count = n := by
  intro told member
  rcases List.mem_append.mp member with overlapped | routine
  · split at overlapped
    · cases overlapped
    · rw [List.mem_singleton.mp overlapped]
      rfl
  · exact completeWrite_counts t n told routine

theorem writeFileTold_none (written : Word) (n : UInt32) :
    writeFileTold written n = [] ↔ written = 0 := by
  unfold writeFileTold
  split
  · rename_i zero
    simp [zero]
  · rename_i given
    simp [given]

/-- The game has given no place for the count, and no routine that comes to hear it. -/
def Silent (t : Telling) : Prop :=
  t.ovl = 0 ∧ (t.routine = 0 ∨ ¬ t.env.mallocOk ∨ t.self = 0 ∨ ¬ t.env.queueOk)

theorem writeFileExTold_none (t : Telling) (n : UInt32) : writeFileExTold t n = [] ↔ Silent t := by
  unfold writeFileExTold completeWrite Silent
  rw [List.append_eq_nil_iff]
  refine and_congr ?_ ?_
  · split
    · rename_i zero
      simp [zero]
    · rename_i given
      simp [given]
  · split
    · rename_i quiet
      simp only [quiet]
    · rename_i told
      simp only [told, List.cons_ne_nil]

/-! ## Runs -/

/-- A write to a port fits into its input buffer, or no count is told of it. -/
def Accounted (p : Ports) : Op → Prop
  | .writeFile s call written =>
    let target := writeFileTarget s.handles call.handle
    OnPort target → written = 0 ∨ call.bytes.length ≤ roomFor p target
  | .writeFileEx s call t =>
    let target := writeFileExTarget s.handles call.handle
    OnPort target → Silent t ∨ call.bytes.length ≤ roomFor p target
  | .board _ | .reader _ => True

def AccountedRun (world : World) : Ports → List Op → Prop
  | _, [] => True
  | p, op :: ops => Accounted p op ∧ AccountedRun world (step world p op).1 ops

/-- No byte that the game is told was written is missing from the input buffer. -/
def NoneLost (out : List Output) : Prop := ∀ r ∈ reportsOf out, OnPort r.target → Kept r

theorem noneLost_append (xs ys : List Output) :
    NoneLost (xs ++ ys) ↔ NoneLost xs ∧ NoneLost ys := by
  simp only [NoneLost, reportsOf_append, List.forall_mem_append]

theorem handOver_noneLost (world : World) (s : Setting) (p : Ports) (call : Call) (target : Target)
    {told : List Told} (counts : ∀ t ∈ told, t.count = call.n) :
    NoneLost (handOver world s p call.bytes target told).2 ↔
      (OnPort target → told = [] ∨ call.bytes.length ≤ roomFor p target) := by
  rw [NoneLost, handOver_reports]
  by_cases native : target = .native
  · rw [if_pos native]
    have off : ¬ OnPort target := by
      rw [native]
      decide
    exact ⟨fun _ on => absurd on off, fun _ r member => by cases member⟩
  · rw [if_neg native, List.forall_mem_singleton]
    exact imp_congr_right fun _ => kept_iff counts

/-- One operation loses nothing exactly when it is accounted for. -/
theorem step_noneLost (world : World) (p : Ports) (op : Op) :
    NoneLost (step world p op).2 ↔ Accounted p op := by
  cases op with
  | writeFile s call written =>
    have each := handOver_noneLost world s p call (writeFileTarget s.handles call.handle)
      (writeFileTold_counts written call.n)
    rw [writeFileTold_none] at each
    exact each
  | writeFileEx s call t =>
    have each := handOver_noneLost world s p call (writeFileExTarget s.handles call.handle)
      (writeFileExTold_counts t call.n)
    rw [writeFileExTold_none] at each
    exact each
  | board op =>
    refine ⟨fun _ => trivial, fun _ r member => ?_⟩
    simp only [step, reportsOf_board] at member
    cases member
  | reader op =>
    refine ⟨fun _ => trivial, fun _ r member => ?_⟩
    simp only [step, reportsOf_reader] at member
    cases member

/-- In any run on both ports, from any state, no byte reported written is lost exactly
when every write that is reported fits into the buffer it goes to. -/
theorem reported_writes_kept_iff (world : World) (p : Ports) (ops : List Op) :
    NoneLost ((ports world).run p ops).2 ↔ AccountedRun world p ops := by
  induction ops generalizing p with
  | nil => exact ⟨fun _ => trivial, fun _ r member => by cases member⟩
  | cons op ops ih =>
    rw [Transducer.run_cons, noneLost_append, ih]
    exact and_congr_left' (step_noneLost world p op)

/-! ## A write that does not fit -/

def freshPorts : Ports :=
  ⟨Source.Jvs.Node.initial, Source.CardReader.Reader.start Model.CardReader.blankWorld⟩

/-- 4097 bytes for the card reader's port, and a place for their number. -/
def overlongWrite : Op :=
  .writeFile ⟨⟨0x10, 0, 0x20⟩, .x86, ⟨0, true, true⟩⟩
    ⟨0x20, List.replicate 4097 0x55, by rw [List.length_replicate]; decide⟩ 0x0012F000

def quietWorld : World := ⟨false, fun _ => ⟨0, Source.CardReader.SaveOutcome.good⟩⟩

/-- The buffer takes 4096 of them; the game is told 4097. -/
theorem overlong_write_loses_a_byte :
    ¬ NoneLost ((ports quietWorld).run freshPorts [overlongWrite]).2 := by
  intro kept
  rw [Transducer.run_cons, noneLost_append] at kept
  have accounted := (step_noneLost quietWorld freshPorts overlongWrite).mp kept.1 (Or.inr rfl)
  rcases accounted with none | fits
  · exact absurd none (by decide)
  · rw [List.length_replicate] at fits
    exact absurd fits (by decide)

end Es3Recomp.Guarantees.Writes
