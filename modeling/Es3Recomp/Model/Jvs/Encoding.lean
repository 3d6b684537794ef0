import Es3Recomp.Model.Jvs.Execution

/-!
# Commands and their bytes

A list of complete commands and its bytes in a packet determine each other:
`decode_encode` reads a command back where it was written, `encode_decode` gives
the bytes a decoded command came from. So `executed_encode` says which commands
of a list are executed, and `executed_unknown` what stands in a packet before a
command that is not understood.
-/
namespace Es3Recomp.Model.Jvs
open Library Source.Jvs

namespace Command

/-- Not one of the bytes the source's `switch` has no case for. -/
def known : Command → Bool
  | unknown _ => false
  | _ => true

theorem known_of_runs {c : Command} (runs : c.stops = false) : c.known = true := by
  cases c <;> simp [stops] at runs <;> rfl

theorem length_encode (c : Command) : c.encode.length = c.size := by
  simp [encode, size, Nat.add_comm]

/-- A known command is decoded from its own bytes. -/
theorem decode_encode {c : Command} (known : c.known = true) (data : Nat → UInt8) (i : Nat)
    (here : ∀ k (h : k < c.encode.length), data (i + k) = c.encode.get ⟨k, h⟩) :
    decode data i = c := by
  have opcode : data i = c.opcode := here 0 (by simp [encode])
  cases c with
  | unknown code => cases known
  | ioIdent | cmdRev | jvsRev | commVer | featChk =>
    simp only [decode, opcode, Command.opcode]
  | reset a | setAddress a | coinP a | adRead a | rotary a | rotaryAlt a | charOut a
  | commsMethod a =>
    have first : data (i + 1) = a := here 1 (by simp [encode, args])
    simp only [decode, opcode, Command.opcode, first]
  | swInp a b | analogOut a b | f3 a b =>
    have first : data (i + 1) = a := here 1 (by simp [encode, args])
    have second : data (i + 2) = b := here 2 (by simp [encode, args])
    simp only [decode, opcode, Command.opcode, first, second]
  | coinDecrease a b c | coinIncrease a b c =>
    have first : data (i + 1) = a := here 1 (by simp [encode, args])
    have second : data (i + 2) = b := here 2 (by simp [encode, args])
    have third : data (i + 3) = c := here 3 (by simp [encode, args])
    simp only [decode, opcode, Command.opcode, first, second, third]
  | output payload =>
    obtain ⟨bytes, short⟩ := payload
    have count : (data (i + 1)).toNat = bytes.length := by
      have first : data (i + 1) = UInt8.ofNat bytes.length := here 1 (by simp [encode, args])
      rw [first, UInt8.toNat_ofNat', Nat.mod_eq_of_lt short]
    simp only [decode, opcode, Command.opcode, output.injEq, Subtype.mk.injEq]
    apply List.ext_getElem
    · simp [count]
    · intro k h h'
      have at_k := here (2 + k) (by simp [encode, args]; omega)
      simp only [List.getElem_map, List.getElem_range]
      rw [Nat.add_assoc, at_k]
      simp only [encode, args, Nat.add_comm 2 k]
      rfl

/-- The bytes a command was decoded from are its own. -/
theorem encode_decode (data : Nat → UInt8) (i : Nat) :
    (decode data i).encode = (List.range (decode data i).size).map fun k => data (i + k) := by
  unfold decode
  split <;> simp_all [encode, opcode, args, size, List.range_succ]
  -- the output command, whose payload is itself a range of bytes
  rw [show ∀ n, 1 + (n + 1) = n + 1 + 1 from by omega]
  simp only [List.range_succ_eq_map, List.map_cons, List.map_map, Nat.add_zero]
  rename_i code
  rw [code]
  refine congrArg _ (congrArg _ (List.map_congr_left fun k _ => ?_))
  simp only [Function.comp, Nat.succ_eq_add_one]
  congr 1
  omega

/-- A command that lies inside the packet is the front of the bytes left there. -/
theorem drop_eq_encode (bytes : List UInt8) (past : Nat → UInt8) (i : Nat)
    (inside : i + (decode (pointer bytes past) i).size ≤ bytes.length) :
    bytes.drop i = (decode (pointer bytes past) i).encode ++
      bytes.drop (i + (decode (pointer bytes past) i).size) := by
  rw [encode_decode]
  generalize (decode (pointer bytes past) i).size = size at inside
  rw [← List.drop_drop]
  nth_rewrite 1 [← List.take_append_drop size (bytes.drop i)]
  congr 1
  apply List.ext_getElem
  · simp only [List.length_take, List.length_drop, List.length_map, List.length_range]
    omega
  · intro k h h'
    have present : i + k < bytes.length := by
      simp only [List.length_map, List.length_range] at h'
      omega
    simp [pointer, present]

/-- An unknown command stands for a byte that no known command begins with. -/
theorem unknown_opcode {data : Nat → UInt8} {i : Nat} {code : UInt8}
    (unknown : decode data i = .unknown code) :
    code = data i ∧ ∀ c : Command, c.known = true → c.opcode ≠ code := by
  have first : code = data i := by
    unfold decode at unknown
    split at unknown <;> cases unknown
    rfl
  refine ⟨first, fun c known same => ?_⟩
  rw [first] at same
  cases c <;> simp only [Command.known, Bool.false_eq_true, opcode] at known same <;>
    simp [decode, ← same] at unknown

end Command

/-! ## A whole list of commands -/

/-- The commands of a packet, one behind the other, from index `i` to its end. -/
def commandsFrom (data : Nat → UInt8) (n : Nat) : Nat → Nat → List Command
  | 0, _ => []
  | turns + 1, i =>
    if i < n then
      let c := Command.decode data i
      c :: commandsFrom data n turns (i + c.size)
    else []

def commandsIn (data : Nat → UInt8) (n : Nat) : List Command := commandsFrom data n n 0

/-- The commands up to the first that stops the packet or makes a reply of `len` bytes grow
past 176. -/
def untilStop : Nat → List Command → List Command
  | _, [] => []
  | len, c :: cs =>
    c :: if c.stops ∨ 176 < len + c.reportLength then [] else untilStop (len + c.reportLength) cs

theorem untilStop_front (len : Nat) (cs : List Command) : untilStop len cs <+: cs := by
  induction cs generalizing len with
  | nil => exact List.prefix_rfl
  | cons c cs ih =>
    rw [untilStop]
    split
    · exact ⟨cs, rfl⟩
    · exact List.cons_prefix_cons.mpr ⟨rfl, ih _⟩

theorem visits_untilStop (data : Nat → UInt8) (n turns i len : Nat) :
    (visits data n turns i len).map Visit.cmd = untilStop len (commandsFrom data n turns i) := by
  induction turns generalizing i len with
  | zero => rfl
  | succ turns ih =>
    unfold visits commandsFrom
    split
    · dsimp only
      rw [List.map_cons, untilStop]
      split
      · rfl
      · rw [ih]
    · rfl

/-- Of the commands of a packet these are executed. -/
theorem executed_untilStop (data : Nat → UInt8) (n : Nat) :
    executed data n = untilStop 1 (commandsIn data n) := visits_untilStop data n n 0 1

theorem commandsFrom_encode {cs : List Command} (known : ∀ c ∈ cs, c.known = true)
    (pre : List UInt8) (past : Nat → UInt8) (turns : Nat) (enough : cs.length ≤ turns) :
    commandsFrom (pointer (pre ++ cs.flatMap Command.encode) past)
      (pre ++ cs.flatMap Command.encode).length turns pre.length = cs := by
  induction cs generalizing pre turns with
  | nil => cases turns <;> simp [commandsFrom]
  | cons c cs ih =>
    obtain ⟨turns, rfl⟩ := Nat.exists_eq_succ_of_ne_zero (n := turns) (by
      rw [List.length_cons] at enough
      omega)
    obtain ⟨first, others⟩ := List.forall_mem_cons.mp known
    have here : Command.decode
        (pointer (pre ++ (c :: cs).flatMap Command.encode) past) pre.length = c := by
      refine Command.decode_encode first _ _ fun k h => ?_
      simp [pointer, List.getElem?_append_left h, List.getElem?_append_right, h]
    have inside : pre.length < (pre ++ (c :: cs).flatMap Command.encode).length := by
      have := Command.size_pos c
      rw [← Command.length_encode] at this
      simp only [List.flatMap_cons, List.length_append]
      omega
    have rest := ih others (pre ++ c.encode) turns (by simpa using enough)
    have moved : (pre ++ c.encode).length = pre.length + c.size := by
      rw [List.length_append, Command.length_encode]
    rw [List.append_assoc, ← List.flatMap_cons, moved] at rest
    simp only [commandsFrom, if_pos inside, here, rest]

/-- A packet written from known commands has these. -/
theorem commandsIn_encode {cs : List Command} (known : ∀ c ∈ cs, c.known = true)
    (past : Nat → UInt8) :
    commandsIn (pointer (cs.flatMap Command.encode) past) (cs.flatMap Command.encode).length =
      cs := by
  apply commandsFrom_encode known [] past
  rw [List.length_flatMap]
  induction cs with
  | nil => exact Nat.le_refl 0
  | cons c cs ih =>
    have rest := ih fun d h => known d (by simp [h])
    have := Command.size_pos c
    simp only [List.length_cons, List.map_cons, List.sum_cons, Command.length_encode] at rest ⊢
    omega

/-- The commands up to the first with which a reply of `len` bytes grows past 176. -/
def throughFull : Nat → List Command → List Command
  | _, [] => []
  | len, c :: cs =>
    c :: if 176 < len + c.reportLength then [] else throughFull (len + c.reportLength) cs

theorem untilStop_runs {cs : List Command} (runs : ∀ c ∈ cs, c.stops = false) (len : Nat) :
    untilStop len cs = throughFull len cs := by
  induction cs generalizing len with
  | nil => rfl
  | cons c cs ih =>
    obtain ⟨first, others⟩ := List.forall_mem_cons.mp runs
    simp only [untilStop, throughFull, first, Bool.false_eq_true, false_or, ih others]

/-- Of complete commands that do not stop the packet, those are executed that come
before the reply is full, and the one that fills it. -/
theorem executed_encode (cs : List Command) (runs : ∀ c ∈ cs, c.stops = false)
    (past : Nat → UInt8) :
    executed (pointer (cs.flatMap Command.encode) past) (cs.flatMap Command.encode).length =
      throughFull 1 cs := by
  rw [executed_untilStop, commandsIn_encode fun c member => Command.known_of_runs (runs c member),
    untilStop_runs runs]

/-- A packet that ends at an unknown command is made of complete known commands,
which are executed, and then the byte that is not understood. -/
theorem visits_unknown (bytes : List UInt8) (past : Nat → UInt8) (turns i len : Nat)
    (ends : endingOf ((visits (pointer bytes past) bytes.length turns i len).map Visit.cmd) =
      .unknown) :
    ∃ cs code rest, bytes.drop i = cs.flatMap Command.encode ++ code :: rest ∧
      (∀ c ∈ cs, c.stops = false) ∧ (∀ c : Command, c.known = true → c.opcode ≠ code) ∧
      (visits (pointer bytes past) bytes.length turns i len).map Visit.cmd =
        cs ++ [.unknown code] := by
  induction turns generalizing i len with
  | zero => cases ends
  | succ turns ih =>
    unfold visits at ends ⊢
    by_cases inside : i < bytes.length
    · simp only [if_pos inside] at ends ⊢
      have split := Command.drop_eq_encode bytes past i
      generalize hc : Command.decode (pointer bytes past) i = c at ends split
      cases stop : c.stops with
      | true =>
        simp only [stop, true_or, if_true, List.map_cons, List.map_nil] at ends ⊢
        cases c <;> simp only [Command.stops, Bool.false_eq_true] at stop
        case reset confirm => cases ends
        case unknown code =>
          obtain ⟨first, stranger⟩ := Command.unknown_opcode hc
          refine ⟨[], code, bytes.drop (i + 1), ?_, by simp, stranger, rfl⟩
          exact split (by simp [Command.size, Command.args]; omega)
      | false =>
        simp only [stop, Bool.false_eq_true, false_or] at ends ⊢
        by_cases full : 176 < len + c.reportLength
        · simp only [if_pos full, List.map_cons, List.map_nil] at ends
          rw [endingOf_cons stop] at ends
          cases ends
        · simp only [if_neg full, List.map_cons] at ends ⊢
          rw [endingOf_cons stop] at ends
          obtain ⟨cs, code, rest, left, runs, stranger, commands⟩ := ih _ _ ends
          have fits : i + c.size ≤ bytes.length := by
            have := congrArg List.length left
            simp only [List.length_drop, List.length_append, List.length_cons] at this
            omega
          refine ⟨c :: cs, code, rest, ?_, by simpa using ⟨stop, runs⟩, stranger, ?_⟩
          · rw [split fits, left, List.flatMap_cons, List.append_assoc]
          · rw [commands, List.cons_append]
    · simp only [if_neg inside] at ends
      cases ends

theorem executed_unknown (bytes : List UInt8) (past : Nat → UInt8)
    (ends : endingOf (executed (pointer bytes past) bytes.length) = .unknown) :
    ∃ cs code rest, bytes = cs.flatMap Command.encode ++ code :: rest ∧
      (∀ c ∈ cs, c.stops = false) ∧ (∀ c : Command, c.known = true → c.opcode ≠ code) ∧
      executed (pointer bytes past) bytes.length = cs ++ [.unknown code] := by
  exact visits_unknown bytes past bytes.length 0 1 ends

end Es3Recomp.Model.Jvs
