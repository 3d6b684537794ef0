import Mathlib.Data.Set.Insert
import Es3Recomp.Model.IoBoard

/-!
# One board per scan, and which answers it changes

The hub and the port of the claim are statics which each handler compares in its own way
(src/src/runtime/hle_callback.c:1500-1787): a node-connection answer only says whether there
is a claim, a descriptor compares both, and a driver key compares the port alone, since
handle numbers are recycled.
-/
namespace Es3Recomp.Guarantees.IoBoard
open Library Source.IoBoard Model.IoBoard

def Altered (c : Call) : Prop := c.answer ≠ c.op.windows

/-- The hub and the port of a rewritten node-connection answer. -/
def claims (c : Call) : Set (UInt32 × UInt32) :=
  match c.op with
  | .deviceIoControl q before _ => {place | Altered c ∧ Info q ∧ place = (q.h, req_port before q)}
  | _ => ∅

def isScan : Op → Bool
  | .classDevs _ => true
  | _ => false

/-- What has been rewritten since the last scan began. -/
def claimed (done : List Call) : Set (UInt32 × UInt32) :=
  done.foldl (fun places c => if isScan c.op then ∅ else places ∪ claims c) ∅

/-- The next call is answered as Windows answers it, or it is one of three requests to a hub.
A port is the `ConnectionIndex` of the request, which a node-connection query reads before the
call and the two others after it. -/
def Lawful (done : List Call) (c : Call) : Prop :=
  Altered c →
    match c.op with
    | .classDevs _ => False
    | .deviceIoControl q before windows =>
      Info q ∧ Empty q windows ∧
          (req_port before q ≠ UNCLAIMED → ∀ place ∈ claimed done, place.2 = UNCLAIMED) ∨
        q.code = NODE_DRIVERKEY ∧ (∃ hub, (hub, dword windows.mem q.inbuf) ∈ claimed done) ∨
        q.code = NODE_DESCRIPTOR ∧ windows.eax = 0 ∧
          (q.h, dword windows.mem q.inbuf) ∈ claimed done
    | _ => True

theorem claimed_concat (done : List Call) (c : Call) :
    claimed (done ++ [c]) = if isScan c.op then ∅ else claimed done ∪ claims c := by
  simp only [claimed, List.foldl_append, List.foldl_cons, List.foldl_nil]

/-- The statics are what the last scan has claimed. -/
structure Remembers (b : Board) (done : List Call) : Prop where
  known : b.port ≠ UNCLAIMED → (b.hub, b.port) ∈ claimed done
  only : ∀ place ∈ claimed done, place.2 ≠ UNCLAIMED → b.port ≠ UNCLAIMED

theorem Remembers.start : Remembers Board.initial [] :=
  ⟨fun taken => absurd rfl taken, nofun⟩

theorem Remembers.keep {b b' : Board} {done : List Call} {c : Call} (remembers : Remembers b done)
    (same : b'.port = b.port ∧ b'.hub = b.hub) (notScan : isScan c.op = false)
    (none : claims c = ∅) : Remembers b' (done ++ [c]) := by
  have places : claimed (done ++ [c]) = claimed done := by
    rw [claimed_concat, notScan, none, Set.union_empty, if_neg Bool.false_ne_true]
  constructor
  · rw [places, same.1, same.2]
    exact remembers.known
  · rw [places, same.1]
    exact remembers.only

theorem Remembers.scan {b : Board} {done : List Call} (windows answer : Machine) :
    Remembers (ioboard_new_scan b) (done ++ [⟨.classDevs windows, answer⟩]) := by
  constructor
  · exact fun taken => absurd rfl taken
  · rw [claimed_concat]
    nofun

theorem Remembers.control {env : Env} {b : Board} {done : List Call} {q : Request}
    {before : Memory32} {windows : Machine} {next : Board × Machine}
    (remembers : Remembers b done) (control : Control env b q before windows next) :
    Remembers next.1 (done ++ [⟨.deviceIoControl q before windows, next.2⟩]) := by
  cases control with
  | passed =>
    have none : claims ⟨.deviceIoControl q before windows, windows⟩ = ∅ :=
      Set.eq_empty_of_forall_notMem fun place claim => claim.1 rfl
    exact remembers.keep ⟨rfl, rfl⟩ rfl none
  | claimed info unclaimed empty =>
    let c : Call := ⟨.deviceIoControl q before windows,
      { windows with mem := boardInfo windows.mem q.outbuf }⟩
    have places : ∀ place, place ∈ claimed (done ++ [c]) ↔
        place ∈ claimed done ∨ place = (q.h, req_port before q) := by
      intro place
      rw [claimed_concat]
      refine or_congr Iff.rfl ⟨fun claim => claim.2.2, fun same => ⟨?_, info, same⟩⟩
      exact fun same => boardInfo_ne empty.2 (congrArg Machine.mem same)
    constructor
    · exact fun _ => (places _).mpr (Or.inr rfl)
    · intro place member real
      rcases (places place).mp member with earlier | rfl
      · exact absurd unclaimed (remembers.only place earlier real)
      · exact real
  | keyed code taken port after found =>
    have none : claims ⟨.deviceIoControl q before windows, ⟨after.2, 1, 0⟩⟩ = ∅ := by
      refine Set.eq_empty_of_forall_notMem fun place claim => ?_
      rcases claim.2.1 with other | other <;> exact absurd (code.symm.trans other) (by decide)
    refine remembers.keep ?_ rfl none
    rcases (driverkey_found found).2.2 with ⟨same, -⟩ | ⟨same, -⟩ <;> rw [same] <;>
      exact ⟨rfl, rfl⟩
  | described code refused taken hub port mem =>
    have none : claims ⟨.deviceIoControl q before windows, ⟨mem, 1, 0⟩⟩ = ∅ := by
      refine Set.eq_empty_of_forall_notMem fun place claim => ?_
      rcases claim.2.1 with other | other <;> exact absurd (code.symm.trans other) (by decide)
    exact remembers.keep ⟨rfl, rfl⟩ rfl none

theorem Remembers.step {env : Env} {b : Board} {done : List Call} (remembers : Remembers b done)
    (op : Op) : Remembers (hook env b op).1 (done ++ [⟨op, (hook env b op).2⟩]) := by
  cases op with
  | classDevs windows => exact .scan windows windows
  | deviceIoControl q before windows =>
    exact remembers.control (control_cases env b q before windows)
  | getChild | getSibling | getParent | getProperty | locate =>
    exact remembers.keep (hook_claim env b id) rfl rfl

theorem remembers_run (env : Env) (ops : List Op) :
    Remembers ((hooks env).run Board.initial ops).1 ((hooks env).run Board.initial ops).2 :=
  (hooks env).run_induction (motive := Remembers) Board.initial .start
    (fun _ _ op remembers => remembers.step op) ops

/-- One call after any others is lawful where the statics are what was claimed. -/
theorem Remembers.lawful {env : Env} {b : Board} {done : List Call}
    (remembers : Remembers b done) (op : Op) : Lawful done ⟨op, (hook env b op).2⟩ := by
  cases op with
  | classDevs windows => exact fun altered => altered rfl
  | getChild | getSibling | getParent | getProperty | locate => exact fun _ => trivial
  | deviceIoControl q before windows =>
    have control := control_cases env b q before windows
    simp only [hook]
    generalize hle_device_io_control env b before q windows = next at control
    intro altered
    cases control with
    | passed => exact absurd rfl altered
    | claimed info unclaimed empty =>
      refine Or.inl ⟨info, empty, fun _ place member => ?_⟩
      exact Classical.byContradiction fun real => remembers.only place member real unclaimed
    | keyed code taken port after found =>
      refine Or.inr (Or.inl ⟨code, b.hub, ?_⟩)
      rw [port]
      exact remembers.known taken
    | described code refused taken hub port mem =>
      refine Or.inr (Or.inr ⟨code, refused, ?_⟩)
      rw [hub, port]
      exact remembers.known taken

/-- Whatever has been called before and whatever Windows answers. -/
theorem answers_lawful (env : Env) (ops : List Op) (op : Op) :
    Lawful ((hooks env).run Board.initial ops).2
      ⟨op, (hook env ((hooks env).run Board.initial ops).1 op).2⟩ :=
  (remembers_run env ops).lawful op

/-! ## The driver key of another hub -/

/-- Windows has a driver key for port 1 of hub 2, and the caller gets the board's. -/
theorem driver_key_of_another_hub :
    let after := (hooks ⟨true, none⟩).run Board.initial oneEmptyPort
    let op := Op.deviceIoControl (request 2 NODE_DRIVERKEY) portOne ⟨portOne, 1, 0⟩
    (after.1.hub, after.1.port) = (1, 1) ∧
      Altered ⟨op, (hook ⟨true, none⟩ after.1 op).2⟩ ∧ (2, 1) ∉ claimed after.2 := by
  refine ⟨by decide +kernel, ?_, ?_⟩
  · intro same
    have byte := congrArg (fun m : Machine => m.mem 136) same
    revert byte
    decide +kernel
  · rintro (never | claim)
    · exact never
    · exact absurd (congrArg Prod.fst claim.2.2) (by decide)

end Es3Recomp.Guarantees.IoBoard
