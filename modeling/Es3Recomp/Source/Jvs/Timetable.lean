import Es3Recomp.Library.Strtoul
import Es3Recomp.Library.Transducer
import Es3Recomp.Source.Jvs.Port

/-!
# The switch timetable

Source: src/src/runtime/jvs.c:471-518 (`g_seq`, `seq_init`), 520-539 (`seq_tick`). The text
is the value of ES3_JVS_SEQ up to its NUL. No other code writes the switches `g_sw_*`.
-/
namespace Es3Recomp.Source.Jvs.Switches
open Library Library.Strtoul

/-! ## The entries -/

/-- `!_strnicmp(s, name, n)` with the `n` characters of `name`, and the text behind them. -/
def skipNoCase (name : Text) (s : Text) : Option Text :=
  if (s.take name.length).map Char.toLower = name then some (s.drop name.length) else none

def JVS_SEQ_MAX : Nat := 32

inductive Field where
  | sys | p1 | p2
  /-- not a switch: a picture of the screen is taken -/
  | shot
  deriving DecidableEq

structure Entry where
  when : UInt32
  field : Field
  bits : UInt32
  deriving DecidableEq

def fieldAt (s : Text) : Option (Field × Text) :=
  match skipNoCase "sys".toList s with
  | some s => some (.sys, s)
  | none =>
  match skipNoCase "p1".toList s with
  | some s => some (.p1, s)
  | none =>
  match skipNoCase "p2".toList s with
  | some s => some (.p2, s)
  | none =>
  match skipNoCase "shot".toList s with
  | some s => some (.shot, s)
  | none => none

/-- The loop of `seq_init`, with room for so many more entries. -/
def seqEntries : Nat → Text → List Entry
  | 0, _ => []
  | room + 1, s =>
    if s = [] then []
    else
      let (when, text) := strtoul 10 s
      if text.length = s.length then []
      else
        match text with
        | ':' :: s =>
          match fieldAt s with
          | some (field, '=' :: s) =>
            let (bits, text) := strtoul 16 s
            let next := match text with
              | ',' :: s => s
              | s => s
            ⟨when, field, bits⟩ :: seqEntries room next
          | _ => []
        | _ => []

/-! ## The ticks -/

/-- The switches that a field stands for. -/
def switches (inputs : Inputs) : Field → UInt32
  | .sys => inputs.swSys
  | .p1 => inputs.swP1
  | .p2 => inputs.swP2
  | .shot => 0

/-- The `switch` of `seq_tick`. -/
def Entry.apply (inputs : Inputs) (k : Entry) : Inputs :=
  match k.field with
  | .sys => { inputs with swSys := k.bits }
  | .p1 => { inputs with swP1 := k.bits }
  | .shot => inputs
  | .p2 => { inputs with swP2 := k.bits }

structure Timetable where
  /-- `g_seq[0 .. g_nseq)` -/
  seq : List Entry
  /-- `g_seq_done` -/
  done : Nat
  t0 : UInt64
  inputs : Inputs

/-- `seq_init` at the clock reading `t0`, with the value of ES3_JVS_SEQ if it is set. -/
def seqInit (env : Option Text) (t0 : UInt64) : Timetable :=
  ⟨env.elim [] (seqEntries JVS_SEQ_MAX), 0, t0, Inputs.initial⟩

/-- The `while` of `seq_tick`, for at most `turns` turns, and the places in `g_seq` it came to. -/
def applyDue (elapsed : UInt32) : Nat → Timetable → Timetable × List Nat
  | 0, s => (s, [])
  | turns + 1, s =>
    match s.seq[s.done]? with
    | none => (s, [])
    | some k =>
      if k.when ≤ elapsed then
        let rest := applyDue elapsed turns
          { s with done := s.done + 1, inputs := k.apply s.inputs }
        (rest.1, s.done :: rest.2)
      else (s, [])

/-- `seq_tick` when the clock reads `now`. -/
def seqTick (s : Timetable) (now : UInt64) : Timetable × List Nat :=
  if s.seq.length ≤ s.done then (s, [])
  else applyDue (now - s.t0).toUInt32 (s.seq.length - s.done) s

def ticker : Transducer Timetable UInt64 Nat := ⟨seqTick⟩

end Es3Recomp.Source.Jvs.Switches
