import Es3Recomp.Model.Jvs.Command

/-!
# What a packet does, from the commands it visits

`visits` walks the bytes of a packet as the source's loop does, but needs neither
the port nor the switches: where a command begins, how long the reply is before
it, and which command it is. `packetLoop_spec` says that the loop of
`handle_packet` performs just these commands, and accesses just what they read
and write; `handlePacket_accepted` is the same for the whole function.
-/
namespace Es3Recomp.Model.Jvs
open Library Source.Jvs

/-- A command met by the loop, with the cursors `i` and `len` before it. -/
structure Visit where
  i : Nat
  len : Nat
  cmd : Command

/-- The walk from index `i` with `len` bytes of reply: it ends with the packet, at
a command that stops, or when the reply has grown past 176 bytes. -/
def visits (data : Nat → UInt8) (n : Nat) : Nat → Nat → Nat → List Visit
  | 0, _, _ => []
  | turns + 1, i, len =>
    if i < n then
      let c := Command.decode data i
      ⟨i, len, c⟩ ::
        if c.stops ∨ 176 < len + c.reportLength then []
        else visits data n turns (i + c.size) (len + c.reportLength)
    else []

/-- The commands `handle_packet` executes for a packet of `n` bytes it accepts. -/
def visited (data : Nat → UInt8) (n : Nat) : List Visit := visits data n n 0 1

def executed (data : Nat → UInt8) (n : Nat) : List Command := (visited data n).map Visit.cmd

/-- Perform commands in order, collecting the reports after `body`. -/
def perform (m : Machine) (inputs : Inputs) : List Command → JvsPort → List UInt8 →
    JvsPort × List UInt8
  | [], p, body => (p, body)
  | c :: cs, p, body => perform m inputs cs (c.effect p) (body ++ c.report m inputs p)

theorem length_perform (m : Machine) (inputs : Inputs) (cs : List Command) (p : JvsPort)
    (body : List UInt8) :
    (perform m inputs cs p body).2.length = body.length + (cs.map Command.reportLength).sum := by
  induction cs generalizing p body with
  | nil => rfl
  | cons c cs ih =>
    rw [perform, ih, List.length_append, Command.length_report, List.map_cons, List.sum_cons]
    omega

/-- The port after the effects of commands, in order. -/
def afterAll (cs : List Command) (p : JvsPort) : JvsPort := cs.foldl (fun p c => c.effect p) p

theorem perform_port (m : Machine) (inputs : Inputs) (cs : List Command) (p : JvsPort)
    (body : List UInt8) : (perform m inputs cs p body).1 = afterAll cs p := by
  induction cs generalizing p body with
  | nil => rfl
  | cons c cs ih => exact ih (c.effect p) _

/-- Reports are appended to what is there. -/
theorem perform_append (m : Machine) (inputs : Inputs) (cs : List Command) (p : JvsPort)
    (front body : List UInt8) :
    (perform m inputs cs p (front ++ body)).2 = front ++ (perform m inputs cs p body).2 := by
  induction cs generalizing p body with
  | nil => rfl
  | cons c cs ih =>
    rw [perform, List.append_assoc, ih]
    rfl

/-- How a packet ends: at RESET, at an unknown command, or with its reports. -/
inductive Ending where
  | reset
  | unknown
  | reported
  deriving DecidableEq

def endingOf : List Command → Ending
  | [] => .reported
  | [.reset _] => .reset
  | [.unknown _] => .unknown
  | _ :: cs => endingOf cs

def Switch.scan : Switch → Scan
  | .returned s => s
  | .broke s => s

/-- The highest number of bytes of `body` written when these are performed. -/
def highWater (top : Nat) (vs : List Visit) : Nat :=
  vs.foldl (fun t v => max t (v.len + v.cmd.reportLength)) top

/-- What the loop has done, told by the commands it visited. -/
structure LoopSpec (m : Machine) (inputs : Inputs) (s : Scan) (vs : List Visit)
    (result : Switch) : Prop where
  port : (Switch.scan result).port =
    (perform m inputs (vs.map Visit.cmd) s.port s.body).1
  reads : (Switch.scan result).reads = s.reads ++ vs.flatMap (fun v => readsAt v.i v.cmd)
  top : (Switch.scan result).top = highWater s.top vs
  returns : endingOf (vs.map Visit.cmd) = .reset → ∃ t, result = .returned t
  breaks : endingOf (vs.map Visit.cmd) ≠ .reset → ∃ t, result = .broke t
  unknown : endingOf (vs.map Visit.cmd) = .unknown → (Switch.scan result).body = [0x02]
  reports : endingOf (vs.map Visit.cmd) = .reported →
    (Switch.scan result).body = (perform m inputs (vs.map Visit.cmd) s.port s.body).2

theorem endingOf_cons {c : Command} (runs : c.stops = false) (cs : List Command) :
    endingOf (c :: cs) = endingOf cs := by
  cases c <;> simp [Command.stops] at runs <;> cases cs <;> rfl

theorem LoopSpec.nil (m : Machine) (inputs : Inputs) (s : Scan) :
    LoopSpec m inputs s [] (.broke s) where
  port := rfl
  reads := by simp [Switch.scan]
  top := rfl
  returns := nofun
  breaks := fun _ => ⟨s, rfl⟩
  unknown := nofun
  reports := fun _ => rfl

/-- A command that does not stop the packet, then the rest of the loop. -/
theorem LoopSpec.cons {m : Machine} {inputs : Inputs} {s : Scan} {v : Visit} {vs : List Visit}
    {result : Switch} (here : v.i = s.i) (length : v.len = s.body.length)
    (runs : v.cmd.stops = false)
    (rest : LoopSpec m inputs (Scan.after m inputs v.cmd s) vs result) :
    LoopSpec m inputs s (v :: vs) result := by
  have ending := endingOf_cons runs (vs.map Visit.cmd)
  refine ⟨rest.port, ?_, ?_, ?_, ?_, ?_, ?_⟩
  · rw [rest.reads]
    simp [Scan.after, here, List.append_assoc]
  · rw [rest.top]
    simp [Scan.after, highWater, length]
  · intro h
    exact rest.returns (ending.symm.trans h)
  · intro h
    exact rest.breaks (fun h' => h (ending.trans h'))
  · intro h
    exact rest.unknown (ending.symm.trans h)
  · intro h
    exact rest.reports (ending.symm.trans h)

/-- A turn that does not stop the packet leaves the loop at the next command. -/
theorem turnOf_runs (m : Machine) (inputs : Inputs) (n : Nat) {c : Command} (s : Scan)
    (runs : c.stops = false) : turnOf m inputs n c s = .broke (Scan.after m inputs c s) := by
  cases c <;> simp [Command.stops] at runs <;> rfl

theorem written_after (m : Machine) (inputs : Inputs) (c : Command) (s : Scan) :
    (Scan.after m inputs c s).body.length ≤ (Scan.after m inputs c s).top := by
  simp only [Scan.after, List.length_append, Command.length_report]
  exact Nat.le_max_right _ _

/-- Past the end of the packet the loop is over, however many turns are left. -/
theorem packetLoop_outside (m : Machine) (inputs : Inputs) (data : Nat → UInt8) (n turns : Nat)
    (s : Scan) (outside : ¬ s.i < n) : packetLoop m inputs data n turns s = .broke s := by
  cases turns <;> simp [packetLoop, outside]

/-- The loop performs the commands it visits. By induction over the turns; a turn
either stops the packet, or fills the reply, or leaves a shorter loop. -/
theorem packetLoop_spec (m : Machine) (inputs : Inputs) (data : Nat → UInt8) (n turns : Nat)
    (s : Scan) (written : s.body.length ≤ s.top) :
    LoopSpec m inputs s (visits data n turns s.i s.body.length)
      (packetLoop m inputs data n turns s) := by
  induction turns generalizing s with
  | zero => exact LoopSpec.nil m inputs s
  | succ turns ih =>
    unfold packetLoop visits
    by_cases inside : s.i < n
    · simp only [if_pos inside]
      have turn := command_eq m inputs data n s written
      generalize hc : Command.decode data s.i = c at turn
      rw [turn]
      cases stop : c.stops with
      | true =>
        simp only [true_or, if_true]
        cases c <;> simp only [Command.stops, Bool.false_eq_true] at stop
        case reset confirm =>
          refine ⟨rfl, ?_, rfl, fun _ => ⟨_, rfl⟩, fun h => absurd rfl h, by rintro ⟨⟩, by rintro ⟨⟩⟩
          simp [turnOf, Switch.scan, Scan.after]
        case unknown code =>
          have short : ¬ 176 < ([0x02] : List UInt8).length := by decide
          have ended := packetLoop_outside m inputs data n turns
            { Scan.after m inputs (.unknown code) s with body := [0x02], i := n } (by simp)
          simp only [turnOf, gt_iff_lt, if_neg short, ended]
          refine ⟨rfl, ?_, rfl, by rintro ⟨⟩, fun _ => ⟨_, rfl⟩, fun _ => rfl, by rintro ⟨⟩⟩
          simp [Switch.scan, Scan.after]
      | false =>
        rw [turnOf_runs m inputs n s stop]
        have grown : (Scan.after m inputs c s).body.length = s.body.length + c.reportLength := by
          simp [Scan.after]
        simp only [Bool.false_eq_true, false_or, gt_iff_lt, grown, Nat.reduceSub]
        by_cases full : 176 < s.body.length + c.reportLength
        · simp only [if_pos full]
          exact LoopSpec.cons rfl rfl stop (LoopSpec.nil m inputs _)
        · simp only [if_neg full]
          have rest := ih (Scan.after m inputs c s) (written_after m inputs c s)
          rw [grown] at rest
          exact LoopSpec.cons rfl rfl stop rest
    · simp only [if_neg inside]
      exact LoopSpec.nil m inputs s

/-- Every turn moves the cursor forward, so more turns than bytes change nothing. -/
theorem packetLoop_enough (m : Machine) (inputs : Inputs) (data : Nat → UInt8) (n k l : Nat)
    (s : Scan) (written : s.body.length ≤ s.top) (enoughK : n ≤ s.i + k) (enoughL : n ≤ s.i + l) :
    packetLoop m inputs data n k s = packetLoop m inputs data n l s := by
  induction k generalizing s l with
  | zero => exact (packetLoop_outside m inputs data n l s (by omega)).symm
  | succ k ih =>
    by_cases inside : s.i < n
    · obtain ⟨l, rfl⟩ := Nat.exists_eq_succ_of_ne_zero (n := l) (by omega)
      simp only [packetLoop, if_pos inside, command_eq m inputs data n s written]
      generalize Command.decode data s.i = c
      cases stop : c.stops with
      | true =>
        cases c <;> simp only [Command.stops, Bool.false_eq_true] at stop
        case reset confirm => rfl
        case unknown code =>
          have ended := packetLoop_outside m inputs data n
          simp only [turnOf]
          rw [ended k _ (by simp), ended l _ (by simp)]
      | false =>
        have moved := Command.size_pos c
        rw [turnOf_runs m inputs n s stop]
        simp only
        rw [ih l (Scan.after m inputs c s) (written_after m inputs c s)
          (by simp only [Scan.after]; omega) (by simp only [Scan.after]; omega)]
    · rw [packetLoop_outside m inputs data n _ s inside, packetLoop_outside m inputs data n l s inside]

/-! ## The whole of `handle_packet` -/

/-- Is the packet for this node, or for every node? -/
def Accepts (p : JvsPort) (dest : UInt8) : Prop := dest = JVS_BROADCAST ∨ dest = p.address

instance (p : JvsPort) (dest : UInt8) : Decidable (Accepts p dest) :=
  inferInstanceAs (Decidable (_ ∨ _))

theorem handlePacket_ignored (m : Machine) (inputs : Inputs) (p : JvsPort) (dest : UInt8)
    (data : Nat → UInt8) (n : Nat) (other : ¬ Accepts p dest) :
    handlePacket m inputs p dest data n = ⟨p, none, [], 0⟩ := by
  unfold Accepts at other
  rw [not_or] at other
  simp [handlePacket, other]

/-- The port, before any reply, and the reply body of an accepted packet. -/
def performed (m : Machine) (inputs : Inputs) (p : JvsPort) (data : Nat → UInt8) (n : Nat) :
    JvsPort × List UInt8 :=
  perform m inputs (executed data n) p [0x01]

/-- The body handed to `reply`, if it comes to that. -/
def replyBody (m : Machine) (inputs : Inputs) (p : JvsPort) (data : Nat → UInt8) (n : Nat) :
    Option (List UInt8) :=
  match endingOf (executed data n) with
  | .reset => none
  | .unknown => some [0x02]
  | .reported => some (performed m inputs p data n).2

/-- A reply, when there is one. -/
def replyIf (p : JvsPort) : Option (List UInt8) → JvsPort
  | none => p
  | some body => reply p body

/-- `handle_packet` on a packet it accepts: it performs the executed commands,
replies as their ending says, and accesses what they read and write. -/
theorem handlePacket_accepted (m : Machine) (inputs : Inputs) (p : JvsPort) (dest : UInt8)
    (data : Nat → UInt8) (n : Nat) (ours : Accepts p dest) :
    handlePacket m inputs p dest data n =
      ⟨replyIf (performed m inputs p data n).1 (replyBody m inputs p data n),
        replyBody m inputs p data n,
        (visited data n).flatMap (fun v => readsAt v.i v.cmd),
        highWater 1 (visited data n)⟩ := by
  have filter : ¬ (dest ≠ JVS_BROADCAST ∧ dest ≠ p.address) := by
    rintro ⟨notAll, notUs⟩
    exact ours.elim notAll notUs
  have spec := packetLoop_spec m inputs data n n ⟨p, 0, [0x01], [], 1⟩ (Nat.le_refl 1)
  have commands : (visits data n n 0 1).map Visit.cmd = executed data n := rfl
  simp only [List.length_cons, List.length_nil, Nat.zero_add] at spec
  unfold handlePacket replyBody performed
  rw [if_neg filter]
  obtain ⟨port, reads, top, returns, breaks, unknown, reports⟩ := spec
  rw [commands] at port returns breaks unknown reports
  cases ending : endingOf (executed data n) with
  | reset =>
    obtain ⟨t, result⟩ := returns ending
    simp only [result, Switch.scan, List.nil_append] at port reads top ⊢
    simp only [port, reads, top, replyIf, visited]
  | unknown =>
    obtain ⟨t, result⟩ := breaks (by simp [ending])
    have body := unknown ending
    simp only [result, Switch.scan, List.nil_append] at port reads top body ⊢
    simp only [port, reads, top, body, replyIf, visited]
  | reported =>
    obtain ⟨t, result⟩ := breaks (by simp [ending])
    have body := reports ending
    simp only [result, Switch.scan, List.nil_append] at port reads top body ⊢
    simp only [port, reads, top, body, replyIf, visited]

end Es3Recomp.Model.Jvs
