import Es3Recomp.Model.Jvs.Handling

/-!
# What a packet answered with an error has changed

Commands take effect one by one while they are parsed, so a packet that ends at
an unknown command keeps what the commands before it did; a packet whose sum is
wrong is answered before any of it is parsed (src/src/runtime/jvs.c:204-333, 365-377).
-/
namespace Es3Recomp.Guarantees.Jvs
open Library Source.Jvs Model.Jvs

/-- The commands that change the address or a coin counter. -/
def changesNode : Command → Bool
  | .reset _ | .setAddress _ | .coinDecrease _ _ _ => true
  | _ => false

/-- Two ports with the same address and the same counters. -/
structure SameState (p q : JvsPort) : Prop where
  address : q.address = p.address
  coin : q.coin = p.coin

theorem afterAll_setInp (cs : List Command) (p : JvsPort) (inp : List UInt8) :
    afterAll cs (p.setInp inp) = (afterAll cs p).setInp inp := by
  induction cs generalizing p with
  | nil => rfl
  | cons c cs ih =>
    have one : c.effect (p.setInp inp) = (c.effect p).setInp inp := by
      cases c with
      | coinDecrease slot hi lo =>
        simp only [Command.effect, Source.Jvs.coinDecrease]
        split <;> rfl
      | _ => rfl
    simp only [afterAll, List.foldl_cons, one] at ih ⊢
    exact ih (c.effect p)

theorem afterAll_quiet {cs : List Command} (quiet : ∀ c ∈ cs, changesNode c = false)
    (p : JvsPort) : afterAll cs p = p := by
  induction cs generalizing p with
  | nil => rfl
  | cons c cs ih =>
    have here : c.effect p = p := by
      have plain := quiet c (by simp)
      cases c <;> simp only [changesNode, Bool.true_eq_false] at plain <;> rfl
    have rest := ih (fun d h => quiet d (by simp [h])) p
    simp only [afterAll, List.foldl_cons, here] at rest ⊢
    exact rest

/-- The port a handled packet leaves is, but for its queues, the one its commands leave. -/
theorem HandledAs.state {m : Machine} {inputs : Inputs} {p q : JvsPort} {h : Handled}
    (as : HandledAs m inputs p h q) : SameState (afterAll (commandsOf h) p) q := by
  have port := perform_port m inputs (commandsOf h) h.before [0x01]
  rw [as.before, afterAll_setInp] at port
  constructor
  · rw [as.after, setInp_address, replyIf_address, as.before, port, setInp_address]
  · rw [as.after, setInp_coin, replyIf_coin, as.before, port, setInp_coin]

/-- Any reply to a packet that ends with its reports begins with status 1. -/
theorem status_of_reports {m : Machine} {inputs : Inputs} {p : JvsPort} {data : Nat → UInt8}
    {n : Nat} {body : List UInt8} (replied : replyBody m inputs p data n = some body)
    (error : body.head? ≠ some 0x01) : endingOf (executed data n) = .unknown := by
  unfold replyBody at replied
  cases ending : endingOf (executed data n) with
  | reset => simp [ending] at replied
  | unknown => rfl
  | reported =>
    simp only [ending, Option.some.injEq] at replied
    have status := perform_append m inputs (executed data n) p [0x01] []
    rw [List.append_nil, ← performed, replied] at status
    rw [status] at error
    exact absurd rfl error

/-- A sum error changes nothing; a packet that ends at an unknown command has changed
the address and the counters as the commands before that one say, and not otherwise. -/
theorem error_reply_keeps (m : Machine) (inputs : Inputs) (p q : JvsPort) (h : Handled)
    (body : List UInt8) (taken : consumePass m inputs p = (q, some h))
    (replied : h.replied = some body) (error : body.head? ≠ some 0x01) :
    (∃ dest data, h.event = .sumError dest data ∧ SameState p q) ∨
      ∃ dest cs code rest, h.event = .packet dest (cs.flatMap Command.encode ++ code :: rest) ∧
        (∀ c ∈ cs, c.stops = false) ∧ (∀ c : Command, c.known = true → c.opcode ≠ code) ∧
        SameState (afterAll cs p) q ∧
        ((∀ c ∈ cs, changesNode c = false) → SameState p q) := by
  rcases consumePass_cases m inputs p with ⟨-, waits⟩ | ⟨h', q', takes, as⟩
  · rw [waits] at taken
    cases taken
  · obtain ⟨rfl, rfl⟩ : q' = q ∧ h' = h := by simpa using takes.symm.trans taken
    have state := HandledAs.state as
    have answer := as.replied
    rw [replied] at answer
    cases event : h'.event with
    | sumError dest data =>
      have commands : commandsOf h' = [] := by simp only [commandsOf, event]
      rw [commands] at state
      exact Or.inl ⟨dest, data, rfl, state⟩
    | packet dest data =>
      obtain ⟨past, pointed⟩ := as.data
      rw [event, bodyFor] at answer
      rw [event, Event.data] at pointed
      by_cases ours : Accepts h'.before dest
      · rw [if_pos ours] at answer
        have ends := status_of_reports answer.symm error
        rw [pointed] at ends
        obtain ⟨cs, code, rest, bytes, runs, stranger, commands⟩ := executed_unknown data past ends
        have executed : commandsOf h' = cs ++ [.unknown code] := by
          simp only [commandsOf, event, if_pos ours, pointed, commands]
        have idle : afterAll (cs ++ [.unknown code]) p = afterAll cs p := by
          simp [afterAll, Command.effect]
        rw [executed, idle] at state
        refine Or.inr ⟨dest, cs, code, rest, by rw [bytes], runs, stranger, state, fun quiet => ?_⟩
        rwa [afterAll_quiet quiet] at state
      · rw [if_neg ours] at answer
        cases answer

/-- A port with three coins in each counter, and a packet for every node: SET ADDRESS
5, take two coins off slot 1, and a byte that is no command. -/
def halfUnderstood : JvsPort :=
  { JvsPort.initial with
    coin := fun _ => 3
    inp := wire 0xFF [0xF1, 0x05, 0x30, 0x01, 0x00, 0x02, 0x77] }

theorem error_reply_keeps_halfUnderstood :
    ∃ q h, consumePass .x86 Inputs.initial halfUnderstood = (q, some h) ∧
      ((∃ dest data, h.event = .sumError dest data ∧ SameState halfUnderstood q) ∨
        ∃ (dest : UInt8) (cs : List Command) (code : UInt8) (rest : List UInt8),
          h.event = .packet dest (cs.flatMap Command.encode ++ code :: rest) ∧
          (∀ c ∈ cs, c.stops = false) ∧ (∀ c : Command, c.known = true → c.opcode ≠ code) ∧
          SameState (afterAll cs halfUnderstood) q ∧
          ((∀ c ∈ cs, changesNode c = false) → SameState halfUnderstood q)) :=
  ⟨_, _, rfl, error_reply_keeps .x86 Inputs.initial halfUnderstood _ _ [0x02] rfl rfl (by decide)⟩

/-- It is answered with status 2, and still the address and a counter have changed. -/
theorem error_reply_changes :
    ∃ q h, consumePass .x86 Inputs.initial halfUnderstood = (q, some h) ∧
      h.replied = some [0x02] ∧ halfUnderstood.address = 0 ∧ q.address = 5 ∧
      halfUnderstood.coin ⟨0, by decide⟩ = 3 ∧ q.coin ⟨0, by decide⟩ = 1 :=
  ⟨_, _, rfl, rfl, rfl, rfl, rfl, rfl⟩

end Es3Recomp.Guarantees.Jvs
