import Es3Recomp.Library.TreeWalk
import Es3Recomp.Model.IoBoard

/-!
# The device tree stays walkable

The board's node is handed out in the place of "no more siblings"
(src/src/runtime/hle_callback.c:1789-1998), by hooks that do not know the tree. The game and
DirectInput both walk it, so a walk is here a thread of its own among any other calls.
-/
namespace Es3Recomp.Guarantees.DeviceTree
open Library Source.IoBoard Model.IoBoard

/-- Windows' own device tree. -/
structure RealTree where
  root : UInt32
  kids : Forest UInt32
  nodup : (Forest.node root kids .nil).members.Nodup
  refused : IOB_DEVNODE ∉ (Forest.node root kids .nil).members

def RealTree.forest (tree : RealTree) : Forest UInt32 := .node tree.root tree.kids .nil

def RealTree.handles (tree : RealTree) : List UInt32 := tree.forest.members

/-- Windows answers with a handle through a pointer that is not null, or it fails. -/
def Gives (out : UInt32) (m : Machine) : Option UInt32 → Prop
  | none => m.eax ≠ CR_SUCCESS
  | some node => if out = 0 then m.eax ≠ CR_SUCCESS else m.eax = CR_SUCCESS ∧ dword m.mem out = node

/-- Windows answers as its tree is. -/
def Describes (tree : RealTree) : Op → Prop
  | .getChild out node _ windows => Gives out windows ((Question.child node).rest tree.forest).first
  | .getSibling out node _ windows => Gives out windows ((Question.sibling node).rest tree.forest).first
  | _ => True

/-- The node that a Config Manager call is about. -/
def nodeOf : Op → Option UInt32
  | .getChild _ node .. | .getSibling _ node .. | .getParent _ node .. | .getProperty node .. =>
    some node
  | _ => none

def isLink : Op → Bool
  | .getChild .. | .getSibling .. => true
  | _ => false

/-- `CM_Get_Sibling` succeeds with the board's node. -/
def handsOut (c : Call) : Bool :=
  match c.op with
  | .getSibling out .. => c.answer.eax = CR_SUCCESS ∧ dword c.answer.mem out = IOB_DEVNODE
  | _ => false

/-- A call in the course of which no driver key is completed. -/
def Quiet (env : Env) (tree : RealTree) (b : Board) (op : Op) : Prop :=
  Describes tree op ∧ ¬CopiesKey env b op

/-! ## A walker among other callers -/

/-- The walker asks one of its open questions, or anyone calls anything. -/
inductive Turn where
  | ask (i : Nat) (out : UInt32) (before windows : Machine)
  | other (op : Op)

def query (out : UInt32) (before windows : Machine) : Question UInt32 → Op
  | .child node => .getChild out node before windows
  | .sibling node => .getSibling out node before windows

/-- What a walker takes from an answer. -/
def heard (out : UInt32) (m : Machine) : Option UInt32 :=
  if m.eax = CR_SUCCESS then some (dword m.mem out) else none

def walking (env : Env) : Transducer (Board × Walk UInt32) Turn Call where
  step s turn :=
    match turn with
    | .other op => (((hook env s.1 op).1, s.2), [⟨op, (hook env s.1 op).2⟩])
    | .ask i out before windows =>
      match s.2.pending[i]? with
      | none => (s, [])
      | some task =>
        let op := query out before windows task
        let next := hook env s.1 op
        ((next.1, s.2.answered i (heard out next.2)), [⟨op, next.2⟩])

/-- A walker passes a pointer to be written to. -/
def QuietTurn (env : Env) (tree : RealTree) (s : Board × Walk UInt32) : Turn → Prop
  | .other op => Quiet env tree s.1 op
  | .ask i out before windows =>
    out ≠ 0 ∧ ∀ task, s.2.pending[i]? = some task → Describes tree (query out before windows task)

instance (out : UInt32) (m : Machine) : DecidablePred (Gives out m)
  | none => inferInstanceAs (Decidable (_ ≠ _))
  | some node => inferInstanceAs (Decidable
    (if out = 0 then m.eax ≠ CR_SUCCESS else m.eax = CR_SUCCESS ∧ dword m.mem out = node))

instance (tree : RealTree) : DecidablePred (Describes tree)
  | .getChild .. | .getSibling .. => inferInstanceAs (Decidable (Gives ..))
  | .classDevs .. | .deviceIoControl .. | .getParent .. | .getProperty .. | .locate .. =>
    inferInstanceAs (Decidable True)

instance (env : Env) (tree : RealTree) (s : Board × Walk UInt32) :
    DecidablePred (QuietTurn env tree s)
  | .other _ => inferInstanceAs (Decidable (_ ∧ _))
  | .ask i out before windows =>
    decidable_of_iff (out ≠ 0 ∧ ∀ question ∈ s.2.pending[i]?,
      Describes tree (query out before windows question)) Iff.rfl

/-! ## The links -/

theorem gives_heard {out : UInt32} {m : Machine} {node : Option UInt32} (there : out ≠ 0)
    (gives : Gives out m node) : heard out m = node := by
  cases node with
  | none => exact if_neg gives
  | some node =>
    rw [Gives, if_neg there] at gives
    rw [heard, if_pos gives.1, gives.2]

theorem gives_none {out : UInt32} {m : Machine} {node : Option UInt32} (there : out ≠ 0)
    (gives : Gives out m node) (ended : m.eax ≠ CR_SUCCESS) : node = none := by
  rw [← gives_heard there gives, heard, if_neg ended]

/-- Windows does not know the board's node. -/
theorem rest_ours (tree : RealTree) :
    (Question.child IOB_DEVNODE).rest tree.forest = .nil ∧
      (Question.sibling IOB_DEVNODE).rest tree.forest = .nil :=
  Question.rest_of_notMem tree.refused

theorem fails (before : Machine) : (before.ret CR_NO_SUCH_NODE).eax ≠ CR_SUCCESS := by
  change CR_NO_SUCH_NODE ≠ CR_SUCCESS
  decide

theorem link_of_ours (env : Env) (tree : RealTree) (b : Board) {op : Op}
    (describes : Describes tree op) (link : isLink op = true) (ours : nodeOf op = some IOB_DEVNODE) :
    (hook env b op).2.eax ≠ CR_SUCCESS := by
  cases op with
  | getChild out node before windows =>
    cases ours
    rw [Describes, (rest_ours tree).1] at describes
    rcases get_child_cases env b before IOB_DEVNODE windows with same | ⟨-, same⟩
    · rw [hook, same]
      exact describes
    · rw [hook, same]
      exact fails before
  | getSibling out node before windows =>
    cases ours
    rw [Describes, (rest_ours tree).2] at describes
    have sibling := sibling_cases env b before out IOB_DEVNODE windows
    simp only [hook]
    generalize hle_cm_get_sibling env b before out IOB_DEVNODE windows = next at sibling
    cases sibling with
    | passed => exact describes
    | leaf => exact fails before
    | spliced other => exact absurd rfl other
  | _ => cases link

theorem real_kept (env : Env) (b : Board) {op : Op} {node : UInt32} (about : nodeOf op = some node)
    (other : node ≠ IOB_DEVNODE) (succeeded : op.windows.eax = CR_SUCCESS) :
    (hook env b op).2 = op.windows := by
  cases op with
  | getChild out node before windows =>
    cases about
    rw [hook]
    exact (get_child_cases env b before node windows).resolve_right fun ours => other ours.1
  | getSibling out node before windows =>
    cases about
    have sibling := sibling_cases env b before out node windows
    simp only [hook]
    generalize hle_cm_get_sibling env b before out node windows = next at sibling
    cases sibling with
    | passed => rfl
    | leaf ours => exact absurd ours other
    | spliced _ _ _ ended => exact absurd succeeded ended
  | getParent out node before windows =>
    cases about
    exact if_neg fun ours => other ours.2
  | getProperty node prop type buf plen before windows =>
    cases about
    simp only [hook, hle_cm_get_devnode_prop]
    rw [if_pos (Or.inr other)]
    rfl
  | classDevs | deviceIoControl | locate => cases about

/-! ## How often the node is handed out -/

theorem handsOut_failed {op : Op} {answer : Machine} (failed : answer.eax ≠ CR_SUCCESS) :
    handsOut ⟨op, answer⟩ = false := by
  unfold handsOut
  split
  next =>
    apply decide_eq_false
    exact fun both => failed both.1
  next => rfl

/-- Windows never answers with the board's node. -/
theorem windows_handsOut (tree : RealTree) {out node : UInt32} {before windows : Machine}
    (describes : Describes tree (.getSibling out node before windows)) :
    handsOut ⟨.getSibling out node before windows, windows⟩ = false := by
  apply decide_eq_false
  rintro ⟨succeeded, ours⟩
  rw [Describes] at describes
  cases first : ((Question.sibling node).rest tree.forest).first with
  | none =>
    rw [first] at describes
    exact describes succeeded
  | some next =>
    rw [first, Gives] at describes
    by_cases null : out = 0
    · rw [if_pos null] at describes
      exact describes succeeded
    · rw [if_neg null, ours] at describes
      apply tree.refused
      rw [describes.2]
      exact Question.first_mem tree.nodup first

theorem handsOut_step {env : Env} {tree : RealTree} {b : Board} {op : Op}
    (quiet : Quiet env tree b op) :
    (handsOut ⟨op, (hook env b op).2⟩).toNat + (canGive (hook env b op).1).toNat ≤
      (canGive b).toNat := by
  have less := hook_canGive quiet.2
  cases op with
  | getSibling out node before windows =>
    have sibling := sibling_cases env b before out node windows
    have describes := quiet.1
    simp only [hook] at less ⊢
    generalize hle_cm_get_sibling env b before out node windows = next at sibling less
    cases sibling with
    | passed =>
      rw [windows_handsOut tree describes, Bool.toNat_false, Nat.zero_add]
    | leaf =>
      rw [handsOut_failed (fails before), Bool.toNat_false, Nat.zero_add]
    | spliced _ armed fresh =>
      rw [canGive_fresh armed fresh, canGive_given, Bool.toNat_false, Nat.add_zero]
      exact Bool.toNat_le _
  | _ => simpa [handsOut] using less

/-- What is handed out in a time without a whole driver key was there to be given before. -/
theorem handsOut_run {env : Env} {tree : RealTree} {b : Board} {ops : List Op}
    (quiet : (hooks env).Along (Quiet env tree) b ops) :
    ((hooks env).run b ops).2.countP handsOut + (canGive ((hooks env).run b ops).1).toNat ≤
      (canGive b).toNat := by
  refine (hooks env).along_induction (motive := fun b' calls =>
    calls.countP handsOut + (canGive b').toNat ≤ (canGive b).toNat) ?_ ?_ quiet
  · rw [List.countP_nil, Nat.zero_add]
  · intro b' calls op sofar quiet
    have step := handsOut_step quiet
    have one : List.countP handsOut [⟨op, (hook env b' op).2⟩] =
        (handsOut ⟨op, (hook env b' op).2⟩).toNat := by
      rw [List.countP_singleton]
      cases handsOut ⟨op, (hook env b' op).2⟩ <;> rfl
    simp only [hooks, List.countP_append]
    omega

/-! ## The walk -/

/-- The answer to a walker's question is what is there, or the board's node. -/
theorem walker_answer (env : Env) (b : Board) {tree : RealTree} {question : Question UInt32}
    {out : UInt32} {before windows : Machine} (there : out ≠ 0)
    (describes : Describes tree (query out before windows question)) :
    Walk.Answer tree.forest IOB_DEVNODE (canGive b) question
      (heard out (hook env b (query out before windows question)).2)
      (canGive (hook env b (query out before windows question)).1) := by
  have failed : heard out (before.ret CR_NO_SUCH_NODE) = none := if_neg (fails before)
  cases question with
  | child node =>
    simp only [query, hook] at describes ⊢
    have own : Walk.Answer tree.forest IOB_DEVNODE (canGive b) (.child node) _ (canGive b) :=
      .own _ (Nat.le_refl _)
    rcases get_child_cases env b before node windows with same | ⟨rfl, same⟩
    · rw [same, gives_heard there describes]
      exact own
    · rw [(rest_ours tree).1] at own
      rw [same, failed]
      exact own
  | sibling node =>
    have sibling := sibling_cases env b before out node windows
    simp only [query, hook] at describes ⊢
    generalize hle_cm_get_sibling env b before out node windows = next at sibling
    have own : Walk.Answer tree.forest IOB_DEVNODE (canGive b) (.sibling node) _ (canGive b) :=
      .own _ (Nat.le_refl _)
    cases sibling with
    | passed =>
      rw [gives_heard there describes]
      exact own
    | leaf ours =>
      rw [ours] at own ⊢
      rw [(rest_ours tree).2] at own
      rw [failed]
      exact own
    | spliced _ armed fresh ended =>
      have ours : heard out { windows with
          mem := wr32 windows.mem out IOB_DEVNODE, eax := CR_SUCCESS } = some IOB_DEVNODE := by
        rw [heard, if_pos rfl, wr32, dword_write]
      rw [ours, canGive_given]
      exact .stray (canGive_fresh armed fresh) (gives_none there describes ended)

theorem covers_step {env : Env} {tree : RealTree} {s : Board × Walk UInt32} {turn : Turn}
    (covers : Walk.Covers tree.forest IOB_DEVNODE (canGive s.1) s.2)
    (quiet : QuietTurn env tree s turn) :
    Walk.Covers tree.forest IOB_DEVNODE (canGive ((walking env).step s turn).1.1)
      ((walking env).step s turn).1.2 := by
  cases turn with
  | other op => exact covers.less (hook_canGive quiet.2)
  | ask i out before windows =>
    simp only [walking]
    cases picked : s.2.pending[i]? with
    | none => exact covers
    | some question =>
      have answer := walker_answer env s.1 quiet.1 (quiet.2 question picked)
      exact covers.answered tree.nodup tree.refused picked answer

theorem covers_run {env : Env} {tree : RealTree} {b : Board} {top : Bool} {turns : List Turn}
    (quiet : (walking env).Along (QuietTurn env tree) (b, .start tree.root top) turns) :
    Walk.Sound tree.handles IOB_DEVNODE
      ((walking env).run (b, .start tree.root top) turns).1.2 := by
  have start : Walk.Covers tree.forest IOB_DEVNODE (canGive b) (.start tree.root top) :=
    .start tree.refused _ top
  have covers := (walking env).along_induction (motive := fun s _ =>
    Walk.Covers tree.forest IOB_DEVNODE (canGive s.1) s.2) start
    (fun _ _ _ covers quiet => covers_step covers quiet) quiet
  exact covers.sound tree.nodup

/-- For every state that the board can be in, and every tree of Windows: between two whole
driver keys the board's node is handed out once at most, before the first one never; what
Windows finds of a real node is kept; the board's node has neither child nor sibling; and
walks are sound. -/
theorem tree_walkable (env : Env) (tree : RealTree) (earlier : List Op) :
    let b := ((hooks env).run Board.initial earlier).1
    (∀ ops, (hooks env).Along (Quiet env tree) b ops →
      ((hooks env).run b ops).2.countP handsOut ≤ 1) ∧
    ((hooks env).Along (Quiet env tree) Board.initial earlier →
      ((hooks env).run Board.initial earlier).2.countP handsOut = 0) ∧
    (∀ op, ∀ node ∈ tree.handles, nodeOf op = some node → op.windows.eax = CR_SUCCESS →
      (hook env b op).2 = op.windows) ∧
    (∀ op, Describes tree op → isLink op = true → nodeOf op = some IOB_DEVNODE →
      (hook env b op).2.eax ≠ CR_SUCCESS) ∧
    (∀ top turns, (walking env).Along (QuietTurn env tree) (b, .start tree.root top) turns →
      Walk.Sound tree.handles IOB_DEVNODE
        ((walking env).run (b, .start tree.root top) turns).1.2) := by
  intro b
  refine ⟨fun ops quiet => ?_, fun quiet => ?_, fun op node real about succeeded => ?_,
    fun op describes link ours => ?_, fun top turns quiet => ?_⟩
  · have given := handsOut_run quiet
    have one := Bool.toNat_le (canGive b)
    omega
  · have given := handsOut_run quiet
    have nothing : (canGive Board.initial).toNat = 0 := rfl
    omega
  · apply real_kept env b about _ succeeded
    rintro rfl
    exact tree.refused real
  · exact link_of_ours env tree b describes link ours
  · exact covers_run quiet

/-! ## A walk in which the node is found -/

/-- Node 1 with the children 2 and 3. -/
def threeNodes : RealTree where
  root := 1
  kids := .node 2 .nil (.node 3 .nil .nil)
  nodup := by decide
  refused := by decide

/-- The next question, with Windows' answer written to address 256. -/
def asks (answer : Option UInt32) : Turn :=
  .ask 0 256 ⟨portOne, 0, 0⟩
    (match answer with
      | some node => ⟨write portOne 256 (leBytes node), CR_SUCCESS, 0⟩
      | none => ⟨portOne, CR_NO_SUCH_NODE, 0⟩)

/-- After the scan the game asks for the driver key of the port. -/
def keyGiven : List Op :=
  oneEmptyPort ++ [.deviceIoControl (request 1 NODE_DRIVERKEY) portOne ⟨portOne, 0, 0⟩]

def depthFirst : List Turn := [some 2, none, some 3, none, none, none, none].map asks

/-- The walk that follows finds the board's node after the other three. -/
theorem node_is_found :
    let b := ((hooks ⟨true, none⟩).run Board.initial keyGiven).1
    let w := ((walking ⟨true, none⟩).run (b, .start threeNodes.root false) depthFirst).1.2
    w.visited = [1, 2, 3, IOB_DEVNODE] ∧ w.pending = [] ∧
      Walk.Sound threeNodes.handles IOB_DEVNODE w := by
  have sound := (tree_walkable ⟨true, none⟩ threeNodes keyGiven).2.2.2.2 false depthFirst
    (by decide +kernel)
  exact ⟨by decide +kernel, by decide +kernel, sound⟩

end Es3Recomp.Guarantees.DeviceTree
