import Es3Recomp.Model.Jvs.Handling

/-!
# Which commands of a packet are answered

The reply holds the report of each command, in order, but the loop ends once the
body has more than `sizeof body - 80` bytes (src/src/runtime/jvs.c:204-332): commands
after the one that fills it so far are neither executed nor answered, even where
their reports would still fit into a packet.
-/
namespace Es3Recomp.Guarantees.Jvs
open Library Source.Jvs Model.Jvs

/-- The reports of commands, each in the state the commands before it leave. -/
def reportsOf (m : Machine) (inputs : Inputs) : List Command → JvsPort → List (List UInt8)
  | [], _ => []
  | c :: cs, p => c.report m inputs p :: reportsOf m inputs cs (c.effect p)

theorem perform_reports (m : Machine) (inputs : Inputs) (cs : List Command) (p : JvsPort)
    (body : List UInt8) :
    (perform m inputs cs p body).2 = body ++ (reportsOf m inputs cs p).flatten := by
  induction cs generalizing p body with
  | nil => simp [perform, reportsOf]
  | cons c cs ih =>
    rw [perform, ih, reportsOf, List.flatten_cons, List.append_assoc]

theorem length_reportsOf (m : Machine) (inputs : Inputs) (cs : List Command) (p : JvsPort) :
    (reportsOf m inputs cs p).length = cs.length := by
  induction cs generalizing p with
  | nil => rfl
  | cons c cs ih => simp [reportsOf, ih]

theorem reportsOf_split (m : Machine) (inputs : Inputs) (pre : List Command) (c : Command)
    (post : List Command) (p : JvsPort) :
    (reportsOf m inputs (pre ++ c :: post) p)[pre.length]? =
      some (c.report m inputs (afterAll pre p)) := by
  induction pre generalizing p with
  | nil => rfl
  | cons d pre ih => exact ih (d.effect p)

theorem endingOf_runs {cs : List Command} (runs : ∀ c ∈ cs, c.stops = false) :
    endingOf cs = .reported := by
  induction cs with
  | nil => rfl
  | cons c cs ih =>
    rw [endingOf_cons (runs c (by simp))]
    exact ih fun d h => runs d (by simp [h])

/-! ## What comes before the reply is full -/

theorem throughFull_front (len : Nat) (cs : List Command) : throughFull len cs <+: cs := by
  induction cs generalizing len with
  | nil => exact List.prefix_rfl
  | cons c cs ih =>
    rw [throughFull]
    split
    · exact ⟨cs, rfl⟩
    · exact List.cons_prefix_cons.mpr ⟨rfl, ih _⟩

/-- While the commands but the last leave the body at 176 bytes or less, none is lost. -/
theorem throughFull_all {len : Nat} {cs : List Command}
    (room : len + (cs.dropLast.map Command.reportLength).sum ≤ 176) : throughFull len cs = cs := by
  induction cs generalizing len with
  | nil => rfl
  | cons c cs ih =>
    rw [throughFull]
    cases cs with
    | nil => split <;> rfl
    | cons d cs =>
      simp only [List.dropLast_cons_cons, List.map_cons, List.sum_cons] at room
      rw [if_neg (by omega), ih (by omega)]

/-- A packet of complete commands, none of which stops it. -/
theorem handlePacket_commands (m : Machine) (inputs : Inputs) (p : JvsPort) (dest : UInt8)
    (cs : List Command) (past : Nat → UInt8) (ours : Accepts p dest)
    (runs : ∀ c ∈ cs, c.stops = false) :
    let data := cs.flatMap Command.encode
    let done := throughFull 1 cs
    let body := 0x01 :: (reportsOf m inputs done p).flatten
    (handlePacket m inputs p dest (pointer data past) data.length).replied = some body ∧
      (handlePacket m inputs p dest (pointer data past) data.length).port =
        reply (afterAll done p) body := by
  intro data done body
  have executed : executed (pointer data past) data.length = done := executed_encode cs runs past
  have ending : endingOf done = .reported :=
    endingOf_runs fun c member => runs c ((throughFull_front 1 cs).subset member)
  have produced : performed m inputs p (pointer data past) data.length =
      (afterAll done p, body) := by
    rw [performed, executed]
    exact Prod.ext (perform_port ..) (perform_reports ..)
  have replied : replyBody m inputs p (pointer data past) data.length = some body := by
    rw [replyBody, executed, ending, produced]
  rw [handlePacket_accepted m inputs p dest _ _ ours, replied, produced]
  exact ⟨rfl, rfl⟩

/-- One command alone is answered with its report. -/
theorem handlePacket_alone (m : Machine) (inputs : Inputs) (p : JvsPort) (dest : UInt8)
    (c : Command) (past : Nat → UInt8) (ours : Accepts p dest) (runs : c.stops = false) :
    (handlePacket m inputs p dest (pointer c.encode past) c.encode.length).replied =
      some (0x01 :: c.report m inputs p) := by
  have one := (handlePacket_commands m inputs p dest [c] past ours (by simpa using runs)).1
  have full : throughFull 1 [c] = [c] := throughFull_all (by simp)
  simpa [full, reportsOf] using one

/-- The commands up to the one that fills the reply past 176 bytes are executed and
answered, one report each, in order; the others are not. Each report is the one the
command gets alone in the state the commands before it leave. -/
theorem answers_through_full (m : Machine) (inputs : Inputs) (p : JvsPort) (dest : UInt8)
    (cs : List Command) (past : Nat → UInt8) (ours : Accepts p dest)
    (runs : ∀ c ∈ cs, c.stops = false)
    (fits : 1 + (cs.map Command.reportLength).sum ≤ 254) :
    ∃ reports : List (List UInt8),
      let data := cs.flatMap Command.encode
      let h := handlePacket m inputs p dest (pointer data past) data.length
      h.replied = some (0x01 :: reports.flatten) ∧
      (0x01 :: reports.flatten).length ≤ 254 ∧
      h.port = reply (afterAll (throughFull 1 cs) p) (0x01 :: reports.flatten) ∧
      throughFull 1 cs <+: cs ∧
      (1 + (cs.dropLast.map Command.reportLength).sum ≤ 176 → throughFull 1 cs = cs) ∧
      reports.length = (throughFull 1 cs).length ∧
      ∀ pre c post, throughFull 1 cs = pre ++ c :: post →
        ∃ report, reports[pre.length]? = some report ∧
          ∀ dest' past', Accepts (afterAll pre p) dest' →
            (handlePacket m inputs (afterAll pre p) dest' (pointer c.encode past')
              c.encode.length).replied = some (0x01 :: report) := by
  obtain ⟨replied, port⟩ := handlePacket_commands m inputs p dest cs past ours runs
  refine ⟨reportsOf m inputs (throughFull 1 cs) p, replied, ?_, port, throughFull_front 1 cs,
    throughFull_all, length_reportsOf m inputs _ p, ?_⟩
  · have whole := length_perform m inputs (throughFull 1 cs) p [0x01]
    rw [perform_reports, List.singleton_append] at whole
    obtain ⟨rest, split⟩ := throughFull_front 1 cs
    have total := congrArg (fun cs => (cs.map Command.reportLength).sum) split
    simp only [List.map_append, List.sum_append] at total
    rw [whole, List.length_singleton]
    omega
  · intro pre c post split
    refine ⟨c.report m inputs (afterAll pre p), ?_, fun dest' past' ours' => ?_⟩
    · rw [split, reportsOf_split]
    · have member : c ∈ throughFull 1 cs := by simp [split]
      exact handlePacket_alone m inputs _ dest' c past' ours'
        (runs c ((throughFull_front 1 cs).subset member))

/-- SET ADDRESS, the switches of both players and a coin counter, to every node. -/
theorem answers_through_full_poll :
    ∃ reports : List (List UInt8),
      let cs : List Command := [.setAddress 1, .swInp 2 2, .coinP 1]
      let data := cs.flatMap Command.encode
      let h := handlePacket .x86 Inputs.initial JvsPort.initial 0xFF (pointer data fun _ => 0)
        data.length
      h.replied = some (0x01 :: reports.flatten) ∧
      (0x01 :: reports.flatten).length ≤ 254 ∧
      h.port = reply (afterAll (throughFull 1 cs) JvsPort.initial) (0x01 :: reports.flatten) ∧
      throughFull 1 cs <+: cs ∧
      (1 + (cs.dropLast.map Command.reportLength).sum ≤ 176 → throughFull 1 cs = cs) ∧
      reports.length = (throughFull 1 cs).length ∧
      ∀ pre c post, throughFull 1 cs = pre ++ c :: post →
        ∃ report, reports[pre.length]? = some report ∧
          ∀ dest' past', Accepts (afterAll pre JvsPort.initial) dest' →
            (handlePacket .x86 Inputs.initial (afterAll pre JvsPort.initial) dest'
              (pointer c.encode past') c.encode.length).replied = some (0x01 :: report) :=
  answers_through_full .x86 Inputs.initial JvsPort.initial 0xFF
    [.setAddress 1, .swInp 2 2, .coinP 1] (fun _ => 0) (Or.inl rfl) (by decide) (by decide)

/-- Ninety analog channels and the revision of the commands: the reports and the
status are 184 bytes, but only the first command is answered. -/
theorem answers_dropped :
    let cs : List Command := [.adRead 0x5A, .cmdRev]
    let data := cs.flatMap Command.encode
    let h := handlePacket .x86 Inputs.initial JvsPort.initial 0xFF (pointer data fun _ => 0)
      data.length
    1 + (cs.map Command.reportLength).sum = 184 ∧
      h.replied = some (0x01 :: Command.report .x86 Inputs.initial JvsPort.initial (.adRead 0x5A)) ∧
      h.replied ≠
        some (0x01 :: (reportsOf .x86 Inputs.initial cs JvsPort.initial).flatten) := by
  intro cs data h
  have first : h.replied =
      some (0x01 :: Command.report .x86 Inputs.initial JvsPort.initial (.adRead 0x5A)) := by
    have through : throughFull 1 cs = [.adRead 0x5A] := by decide
    have replied := (handlePacket_commands .x86 Inputs.initial JvsPort.initial 0xFF cs
      (fun _ => 0) (Or.inl rfl) (by decide)).1
    rw [through, reportsOf, reportsOf, List.flatten_cons, List.flatten_nil,
      List.append_nil] at replied
    exact replied
  refine ⟨by decide, first, fun whole => ?_⟩
  rw [first] at whole
  have lengths := congrArg List.length (Option.some.inj whole)
  simp [cs, reportsOf, Command.reportLength] at lengths

end Es3Recomp.Guarantees.Jvs
