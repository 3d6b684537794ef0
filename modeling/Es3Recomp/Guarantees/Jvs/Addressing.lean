import Es3Recomp.Model.Jvs.Handling

/-!
# Who is answered

`handle_packet` filters by destination, the sum error of `consume_input` does not,
and the port says "no address" with the value 0, which is also a destination a
packet can have (src/src/runtime/jvs.c:97, 200-220, 363-377). The log of executed
commands says which address the node was last given; `answers_entitled_iff` is
the condition on the packets of a run under which it answers nobody else.
-/
namespace Es3Recomp.Guarantees.Jvs
open Library Source.Jvs Model.Jvs

/-- The address last assigned and not cleared by a RESET since. -/
def lastAssigned (log : List Command) : Option UInt8 :=
  log.foldl (fun last c =>
    match c with
    | .setAddress a => some a
    | .reset _ => none
    | _ => last) none

/-- How the port stores it. -/
def addressOf (log : List Command) : UInt8 := (lastAssigned log).getD 0

/-- The node emits a reply: a body that `reply` does not refuse. -/
def Emits (h : Handled) : Prop := ∃ body, h.replied = some body ∧ body.length ≤ 254

/-- The packet is a broadcast, or for the non-zero address the log assigns. -/
def Entitled (log : List Command) (h : Handled) : Prop :=
  h.event.dest = JVS_BROADCAST ∨ ∃ a ≠ 0, lastAssigned log = some a ∧ h.event.dest = a

/-- The commands of a packet draw a reply from a node that accepts it: none of
them is RESET, and the reports fit into a packet. -/
def DrawsReply (data : Nat → UInt8) (n : Nat) : Prop :=
  match endingOf (executed data n) with
  | .reset => False
  | .unknown => True
  | .reported => 1 + ((executed data n).map Command.reportLength).sum ≤ 254

/-- The condition on one packet and the address it meets: a corrupt packet is for
this node or for all; any other packet does not have destination 0 while the node
has no address, unless it draws no reply. -/
def Disciplined (h : Handled) : Prop :=
  match h.event with
  | .sumError dest _ => dest = JVS_BROADCAST ∨ (dest ≠ 0 ∧ dest = h.before.address)
  | .packet dest data =>
    dest ≠ 0 ∨ h.before.address ≠ 0 ∨ ¬ DrawsReply h.data data.length

/-! ## The address follows the log -/

theorem addressOf_concat (log : List Command) (c : Command) (p : JvsPort)
    (same : p.address = addressOf log) : (c.effect p).address = addressOf (log ++ [c]) := by
  have step : lastAssigned (log ++ [c]) =
      match c with
      | .setAddress a => some a
      | .reset _ => none
      | _ => lastAssigned log := by
    simp only [lastAssigned, List.foldl_append, List.foldl_cons, List.foldl_nil]
  rw [addressOf, step]
  cases c with
  | coinDecrease slot hi lo =>
    simp only [Command.effect, Source.Jvs.coinDecrease]
    split <;> exact same
  | setAddress a => rfl
  | reset confirm => rfl
  | _ => exact same

theorem address_perform (m : Machine) (inputs : Inputs) (cs : List Command) (log : List Command)
    (p : JvsPort) (body : List UInt8) (same : p.address = addressOf log) :
    (perform m inputs cs p body).1.address = addressOf (log ++ cs) := by
  induction cs generalizing log p body with
  | nil => rw [List.append_nil]; exact same
  | cons c cs ih =>
    have rest := ih (log ++ [c]) (c.effect p) (body ++ c.report m inputs p)
      (addressOf_concat log c p same)
    rwa [List.append_assoc] at rest

/-- The packet met the address of the log, and was answered as its bytes say. -/
structure MetAddress (log : List Command) (h : Handled) : Prop where
  address : h.before.address = addressOf log
  answered : ∃ m inputs, h.replied = bodyFor m inputs h.before h.event h.data

/-- Each packet met the address of the log before it. -/
def Logged : List Command → List Handled → Prop
  | _, [] => True
  | log, h :: hs => MetAddress log h ∧ Logged (log ++ commandsOf h) hs

theorem logged_append {log : List Command} {hs hs' : List Handled} (front : Logged log hs)
    (back : Logged (log ++ hs.flatMap commandsOf) hs') : Logged log (hs ++ hs') := by
  induction hs generalizing log with
  | nil => simpa using back
  | cons h hs ih =>
    rw [List.flatMap_cons, ← List.append_assoc] at back
    exact ⟨front.1, ih front.2 back⟩

theorem logged_split {log : List Command} {pre : List Handled} {h : Handled}
    {post : List Handled} (logged : Logged log (pre ++ h :: post)) :
    MetAddress (log ++ pre.flatMap commandsOf) h := by
  induction pre generalizing log with
  | nil => simpa using logged.1
  | cons first pre ih =>
    have rest := ih logged.2
    rwa [List.append_assoc, ← List.flatMap_cons] at rest

theorem logged_consumed (m : Machine) (inputs : Inputs) (p : JvsPort) (log : List Command)
    (same : p.address = addressOf log) :
    (consumeInput m inputs p).1.address =
        addressOf (log ++ (consumeInput m inputs p).2.flatMap commandsOf) ∧
      Logged log (consumeInput m inputs p).2 := by
  refine consumeInput_induction m inputs
    (motive := fun p result => ∀ log, p.address = addressOf log →
      result.1.address = addressOf (log ++ result.2.flatMap commandsOf) ∧ Logged log result.2)
    ?_ ?_ p log same
  · intro p _ log same
    exact ⟨by simpa using same, trivial⟩
  · intro p h q rest as ih log same
    have before : h.before.address = addressOf log := by rw [as.before, setInp_address, same]
    have after : q.address = addressOf (log ++ commandsOf h) := by
      rw [as.after, setInp_address, replyIf_address]
      exact address_perform m inputs _ log _ _ before
    obtain ⟨final, logged⟩ := ih _ after
    refine ⟨?_, ⟨before, m, inputs, as.replied⟩, logged⟩
    rw [final, List.flatMap_cons, List.append_assoc]

/-- The address of a run is the one its log assigns, at every packet and at the end. -/
theorem logged_run (ops : List Op) :
    (board.run Node.initial ops).1.port.address =
        addressOf ((handledOf (board.run Node.initial ops).2).flatMap commandsOf) ∧
      Logged [] (handledOf (board.run Node.initial ops).2) := by
  refine board.run_induction
    (motive := fun s out => s.port.address = addressOf ((handledOf out).flatMap commandsOf) ∧
      Logged [] (handledOf out)) Node.initial ⟨rfl, trivial⟩ ?_ ops
  intro s out op ih
  obtain ⟨same, logged⟩ := ih
  have spec := step_spec s op
  rw [handledOf_append, List.flatMap_append, spec.address, spec.handled]
  cases op with
  | write m env bytes =>
    obtain ⟨after, rest⟩ := logged_consumed m s.inputs
      (s.port.setInp (s.port.inp ++ accepted s.port bytes)) _ same
    exact ⟨after, logged_append logged rest⟩
  | _ => simpa [consumed] using ⟨same, logged⟩

/-! ## One packet -/

theorem entitled_iff {log : List Command} {h : Handled} (met : MetAddress log h) :
    Entitled log h ↔
      h.event.dest = JVS_BROADCAST ∨ (h.event.dest ≠ 0 ∧ h.event.dest = h.before.address) := by
  rw [Entitled, met.address, addressOf]
  cases lastAssigned log <;> grind

theorem emits_packet_iff {log : List Command} {h : Handled} (met : MetAddress log h)
    {dest : UInt8} {data : List UInt8} (event : h.event = .packet dest data) :
    Emits h ↔ Accepts h.before dest ∧ DrawsReply h.data data.length := by
  obtain ⟨m, inputs, replied⟩ := met.answered
  rw [event] at replied
  rw [Emits, replied, bodyFor]
  by_cases ours : Accepts h.before dest
  · rw [if_pos ours]
    unfold replyBody DrawsReply
    cases endingOf (executed h.data data.length) with
    | reset => simp
    | unknown => simp [ours]
    | reported => simp [ours, performed, length_perform]
  · simp [ours]

/-- A packet is answered only if it may be, exactly when it is disciplined. -/
theorem disciplined_iff {log : List Command} {h : Handled} (met : MetAddress log h) :
    (Emits h → Entitled log h) ↔ Disciplined h := by
  rw [entitled_iff met]
  cases event : h.event with
  | sumError dest data =>
    have emits : Emits h := by
      obtain ⟨m, inputs, replied⟩ := met.answered
      exact ⟨[0x03], by rw [replied, event, bodyFor], by decide⟩
    simp only [Disciplined, event, emits, Event.dest, true_implies]
  | packet dest data =>
    rw [emits_packet_iff met event]
    simp only [Disciplined, event, Event.dest, Accepts]
    have broadcast : JVS_BROADCAST ≠ 0 := by decide
    by_cases draws : DrawsReply h.data data.length
    · simp only [draws, and_true, not_true_eq_false, or_false]
      grind
    · simp [draws]

/-- Every reply of a run goes to a packet that was entitled to it when it came. -/
def AnswersEntitled (ops : List Op) : Prop :=
  ∀ pre h post, handledOf (board.run Node.initial ops).2 = pre ++ h :: post →
    Emits h → Entitled (pre.flatMap commandsOf) h

/-- A run answers nobody who is not entitled, exactly when its packets are disciplined. -/
theorem answers_entitled_iff (ops : List Op) :
    AnswersEntitled ops ↔ ∀ h ∈ handledOf (board.run Node.initial ops).2, Disciplined h := by
  have logged := (logged_run ops).2
  constructor
  · intro answers h member
    obtain ⟨pre, post, split⟩ := List.append_of_mem member
    have met := logged_split (split ▸ logged)
    exact (disciplined_iff met).mp (answers pre h post split)
  · intro disciplined pre h post split
    have met := logged_split (split ▸ logged)
    exact (disciplined_iff met).mpr (disciplined h (by rw [split]; simp))

/-- A packet that is neither a broadcast nor for an assigned address, and no address
has been assigned. -/
theorem not_entitled_fresh {h : Handled} (single : h.event.dest ≠ JVS_BROADCAST) :
    ¬ Entitled [] h := by
  rintro (all | ⟨a, -, assigned, -⟩)
  · exact single all
  · cases assigned

/-- A node without an address answers a corrupt packet for node 5, and a good one
for node 0. -/
theorem answers_others :
    ¬ AnswersEntitled [.write .x86 ⟨0, true, true⟩ [0xE0, 0x05, 0x02, 0x00, 0x08]] ∧
      ¬ AnswersEntitled [.write .x86 ⟨0, true, true⟩ (wire 0x00 [0x11])] := by
  constructor
  · intro answers
    have entitled := answers [] _ [] rfl ⟨[0x03], rfl, by decide⟩
    exact not_entitled_fresh (by decide) entitled
  · intro answers
    have entitled := answers [] _ [] rfl ⟨[0x01, 0x01, 0x13], rfl, by decide⟩
    exact not_entitled_fresh (by decide) entitled

end Es3Recomp.Guarantees.Jvs
