import Es3Recomp.Source.IoBoard

/-!
# What one call can do to the board and to its answer

Every hook leaves Windows' answer alone but for the cases below.
-/
namespace Es3Recomp.Model.IoBoard
open Library Source.IoBoard

/-- The request is one of the two that the walk takes for what is on a port. -/
def Info (q : Request) : Prop := q.code = NODE_INFORMATION_EX ∨ q.code = NODE_INFORMATION

/-- Windows answered, and reports the port as empty. -/
def Empty (q : Request) (windows : Machine) : Prop :=
  windows.eax ≠ 0 ∧ dword windows.mem (q.outbuf + IOB_STATUS) = 0

/-- What `DeviceIoControl` can come to. -/
inductive Control (env : Env) (b : Board) (q : Request) (before : Memory32) (windows : Machine) :
    Board × Machine → Prop
  | passed : Control env b q before windows (b, windows)
  | claimed (info : Info q) (unclaimed : b.port = UNCLAIMED) (empty : Empty q windows) :
    Control env b q before windows ({ b with hub := q.h, port := req_port before q },
      { windows with mem := boardInfo windows.mem q.outbuf })
  | keyed (code : q.code = NODE_DRIVERKEY) (taken : b.port ≠ UNCLAIMED)
    (port : dword windows.mem q.inbuf = b.port) (after : Board × Memory32)
    (found : ioboard_driverkey env b windows.mem q.h q.inbuf q.outbuf q.outlen q.bytesret =
      some after) : Control env b q before windows (after.1, ⟨after.2, 1, 0⟩)
  | described (code : q.code = NODE_DESCRIPTOR) (refused : windows.eax = 0)
    (taken : b.port ≠ UNCLAIMED) (hub : q.h = b.hub)
    (port : dword windows.mem q.inbuf = b.port) (mem : Memory32) :
    Control env b q before windows (b, ⟨mem, 1, 0⟩)

theorem claim_cases (env : Env) (b : Board) (mem : Memory32) (hub port buf len : UInt32) :
    ioboard_claim env b mem hub port buf len = (b, mem) ∨
      b.port = UNCLAIMED ∧ dword mem (buf + IOB_STATUS) = 0 ∧
        ioboard_claim env b mem hub port buf len =
          ({ b with hub := hub, port := port }, boardInfo mem buf) := by
  unfold ioboard_claim
  split
  next => exact Or.inl rfl
  split
  next => exact Or.inl rfl
  split
  next unclaimed =>
    split
    next => exact Or.inl rfl
    next empty => exact Or.inr ⟨unclaimed, Decidable.not_not.mp empty, rfl⟩
  next => exact Or.inl rfl

theorem driverkey_found {env : Env} {b : Board} {mem : Memory32}
    {hub inbuf outbuf outlen bytesret : UInt32} {after : Board × Memory32}
    (found : ioboard_driverkey env b mem hub inbuf outbuf outlen bytesret = some after) :
    b.port ≠ UNCLAIMED ∧ dword mem inbuf = b.port ∧
      (after.1 = b ∧ outlen < 8 + UInt32.ofNat k_iob_key.length ∨
        after.1 = { b with armed := true, given := false } ∧
          8 + UInt32.ofNat k_iob_key.length ≤ outlen) := by
  unfold ioboard_driverkey at found
  dsimp only at found
  split at found
  next => cases found
  split at found
  next => cases found
  next taken =>
    split at found
    next => cases found
    next port =>
      refine ⟨taken, Decidable.not_not.mp port, ?_⟩
      split at found
      next => cases found
      split at found
      next short =>
        cases found
        exact Or.inl ⟨rfl, short⟩
      next whole =>
        cases found
        exact Or.inr ⟨rfl, UInt32.not_lt.mp whole⟩

theorem descriptor_found {env : Env} {b : Board} {mem mem' : Memory32}
    {hub inbuf outbuf outlen bytesret : UInt32}
    (found : ioboard_descriptor env b mem hub inbuf outbuf outlen bytesret = some mem') :
    b.port ≠ UNCLAIMED ∧ hub = b.hub ∧ dword mem inbuf = b.port := by
  unfold ioboard_descriptor at found
  split at found
  next => cases found
  split at found
  next => cases found
  next there =>
    obtain ⟨taken, hub⟩ := not_or.mp there
    split at found
    next => cases found
    next port => exact ⟨taken, Decidable.not_not.mp hub, Decidable.not_not.mp port⟩

theorem control_cases (env : Env) (b : Board) (q : Request) (before : Memory32)
    (windows : Machine) :
    Control env b q before windows (hle_device_io_control env b before q windows) := by
  unfold hle_device_io_control
  by_cases key : q.code = NODE_DRIVERKEY
  · have notInfo : ¬(windows.eax ≠ 0 ∧
        (q.code = NODE_INFORMATION_EX ∨ q.code = NODE_INFORMATION)) := by
      rintro ⟨-, code | code⟩ <;> exact absurd (key.symm.trans code) (by decide)
    have notDescriptor : q.code ≠ NODE_DESCRIPTOR := by
      rw [key]
      decide
    simp only [if_neg notInfo, if_pos key, notDescriptor, and_false, if_false]
    cases found : ioboard_driverkey env b windows.mem q.h q.inbuf q.outbuf q.outlen q.bytesret with
    | none => exact .passed
    | some after =>
      obtain ⟨taken, port, -⟩ := driverkey_found found
      exact .keyed key taken port after found
  · by_cases info : windows.eax ≠ 0 ∧
        (q.code = NODE_INFORMATION_EX ∨ q.code = NODE_INFORMATION)
    · simp only [if_pos info, if_neg key, info.1, false_and, if_false]
      rcases claim_cases env b windows.mem q.h (req_port before q) q.outbuf q.outlen with
        same | ⟨unclaimed, empty, same⟩
      · rw [same]
        exact .passed
      · rw [same]
        exact .claimed info.2 unclaimed ⟨info.1, empty⟩
    · simp only [if_neg info, if_neg key]
      by_cases asked : windows.eax = 0 ∧ q.code = NODE_DESCRIPTOR
      · rw [if_pos asked]
        cases found : ioboard_descriptor env b windows.mem q.h q.inbuf q.outbuf q.outlen
          q.bytesret with
        | none => exact .passed
        | some mem =>
          obtain ⟨taken, hub, port⟩ := descriptor_found found
          exact .described asked.2 asked.1 taken hub port mem
      · rw [if_neg asked]
        exact .passed

/-- A board takes the place of an empty port, so the answer differs. -/
theorem boardInfo_ne {mem : Memory32} {buf : UInt32} (empty : dword mem (buf + IOB_STATUS) = 0) :
    boardInfo mem buf ≠ mem := by
  intro same
  have status : dword (boardInfo mem buf) (buf + IOB_STATUS) = 1 := dword_write _ _ 1
  rw [same, empty] at status
  exact absurd status (by decide)

/-- Only a scan and a request to a hub move the claim. -/
def Op.Claims : Op → Prop
  | .classDevs _ | .deviceIoControl .. => True
  | _ => False

theorem hook_claim (env : Env) (b : Board) {op : Op} (other : ¬Op.Claims op) :
    (hook env b op).1.port = b.port ∧ (hook env b op).1.hub = b.hub := by
  cases op with
  | classDevs | deviceIoControl => exact absurd trivial other
  | getChild | getParent => exact ⟨rfl, rfl⟩
  | getSibling =>
    simp only [hook, hle_cm_get_sibling]
    split
    next => exact ⟨rfl, rfl⟩
    split <;> exact ⟨rfl, rfl⟩
  | getProperty =>
    simp only [hook, hle_cm_get_devnode_prop]
    split
    next => exact ⟨rfl, rfl⟩
    split
    next =>
      dsimp only
      split <;> exact ⟨rfl, rfl⟩
    next => split <;> exact ⟨rfl, rfl⟩
  | locate =>
    simp only [hook, hle_cm_locate_devnode]
    split
    next => exact ⟨rfl, rfl⟩
    split <;> exact ⟨rfl, rfl⟩

/-! ## The device node -/

/-- What `CM_Get_Sibling` can come to. -/
inductive Sibling (env : Env) (b : Board) (before : Machine) (out node : UInt32)
    (windows : Machine) : Board × Machine → Prop
  | passed : Sibling env b before out node windows (b, windows)
  | leaf (ours : node = IOB_DEVNODE) :
    Sibling env b before out node windows (b, before.ret CR_NO_SUCH_NODE)
  | spliced (other : node ≠ IOB_DEVNODE) (armed : b.armed = true) (fresh : b.given = false)
    (ended : windows.eax ≠ CR_SUCCESS) (there : out ≠ 0) :
    Sibling env b before out node windows ({ b with given := true },
      { windows with mem := wr32 windows.mem out IOB_DEVNODE, eax := CR_SUCCESS })

theorem sibling_cases (env : Env) (b : Board) (before : Machine) (out node : UInt32)
    (windows : Machine) :
    Sibling env b before out node windows (hle_cm_get_sibling env b before out node windows) := by
  unfold hle_cm_get_sibling
  split
  next ours => exact .leaf ours.2
  next notOurs =>
    split
    next splice =>
      obtain ⟨has, armed, ended, there, fresh⟩ := splice
      exact .spliced (fun ours => notOurs ⟨has, ours⟩) armed fresh ended there
    next => exact .passed

theorem get_child_cases (env : Env) (b : Board) (before : Machine) (node : UInt32)
    (windows : Machine) :
    hle_cm_get_child env b before node windows = windows ∨
      node = IOB_DEVNODE ∧
        hle_cm_get_child env b before node windows = before.ret CR_NO_SUCH_NODE := by
  unfold hle_cm_get_child
  split
  next ours => exact Or.inr ⟨ours.2, rfl⟩
  next => exact Or.inl rfl

/-- The window for the walk is open, and the node has not been given in it. -/
def canGive (b : Board) : Bool := b.armed && !b.given

theorem canGive_fresh {b : Board} (armed : b.armed = true) (fresh : b.given = false) :
    canGive b = true := by
  rw [canGive, armed, fresh]
  rfl

theorem canGive_given (b : Board) : canGive { b with given := true } = false := by
  rw [canGive, Bool.not_true, Bool.and_false]

/-- The request is for a driver key, and the whole key is copied. -/
def CopiesKey (env : Env) (b : Board) : Op → Prop
  | .deviceIoControl q _ windows => q.code = NODE_DRIVERKEY ∧
    8 + UInt32.ofNat k_iob_key.length ≤ q.outlen ∧
    (ioboard_driverkey env b windows.mem q.h q.inbuf q.outbuf q.outlen q.bytesret).isSome
  | _ => False

instance (env : Env) (b : Board) : DecidablePred (CopiesKey env b)
  | .deviceIoControl .. => inferInstanceAs (Decidable (_ ∧ _))
  | .classDevs .. | .getChild .. | .getSibling .. | .getParent .. | .getProperty ..
  | .locate .. => inferInstanceAs (Decidable False)

theorem control_canGive {env : Env} {b : Board} {q : Request} {before : Memory32}
    {windows : Machine} {next : Board × Machine} (control : Control env b q before windows next)
    (quiet : ¬CopiesKey env b (.deviceIoControl q before windows)) :
    canGive next.1 = canGive b := by
  cases control with
  | passed | claimed | described => rfl
  | keyed code taken port after found =>
    rcases (driverkey_found found).2.2 with ⟨same, -⟩ | ⟨-, whole⟩
    · rw [same]
    · exact absurd ⟨code, whole, Option.isSome_of_eq_some found⟩ quiet

theorem property_canGive (env : Env) (b : Board) (before : Machine)
    (node prop type buf plen : UInt32) (windows : Machine) :
    (canGive (hle_cm_get_devnode_prop env b before node prop type buf plen windows).1).toNat ≤
      (canGive b).toNat := by
  unfold hle_cm_get_devnode_prop
  split
  next => exact Nat.le_refl _
  split
  next =>
    dsimp only
    split
    next => exact Nat.zero_le _
    next => exact Nat.le_refl _
  next => split <;> exact Nat.le_refl _

theorem locate_canGive (env : Env) (b : Board) (before : Machine) (out : UInt32)
    (name : Option (List UInt16)) (windows : Machine) :
    canGive (hle_cm_locate_devnode env b before out name windows).1 = canGive b := by
  unfold hle_cm_locate_devnode
  dsimp only
  split
  next => rfl
  next => split <;> rfl

/-- Nothing but a whole driver key makes a node to be given. -/
theorem hook_canGive {env : Env} {b : Board} {op : Op} (quiet : ¬CopiesKey env b op) :
    (canGive (hook env b op).1).toNat ≤ (canGive b).toNat := by
  cases op with
  | classDevs | getChild | getParent => exact Nat.le_refl _
  | deviceIoControl q before windows =>
    exact Nat.le_of_eq (congrArg _ (control_canGive (control_cases ..) quiet))
  | getSibling out node before windows =>
    have sibling := sibling_cases env b before out node windows
    simp only [hook]
    generalize hle_cm_get_sibling env b before out node windows = next at sibling
    cases sibling with
    | passed | leaf => exact Nat.le_refl _
    | spliced =>
      rw [canGive_given]
      exact Nat.zero_le _
  | getProperty => exact property_canGive ..
  | locate => exact Nat.le_of_eq (congrArg _ (locate_canGive ..))

/-! ## A scan with one empty port -/

/-- All zeros but for a 1 at address 64: every port is empty, and a request at 64 is about
port 1. -/
def portOne : Memory32 := write (fun _ => 0) 64 (leBytes 1)

def request (hub code : UInt32) : Request := ⟨hub, code, 64, 4, 128, 80, 0⟩

/-- A scan in which port 1 of hub 1 is empty. -/
def oneEmptyPort : List Op :=
  [.classDevs ⟨portOne, 1, 0⟩,
    .deviceIoControl (request 1 NODE_INFORMATION) portOne ⟨portOne, 1, 0⟩]

end Es3Recomp.Model.IoBoard
