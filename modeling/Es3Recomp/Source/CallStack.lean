import Mathlib.Algebra.Group.Int.Defs
import Mathlib.Algebra.Group.Nat.Defs
import Mathlib.Data.Int.Basic
import Mathlib.Logic.Function.Basic

/-!
# The shadow call stack of the 64-bit runtime

Source: src/src/runtime64/dispatch64.c:58-60 (`cs_stack`, `cs_depth`), 128-137
(`es3_dump_callstack`), 404-426 (`g_log_calls`, `g_callees_of`, `es3_log_callee`), 1641-1710
(`dispatch`, where `lookup` finds a lifted function). One thread, which has its own stack. A
call and its return are two steps, with whatever the lifted function does between them; what
`dispatch` does for any other target does not touch the stack, and is left out, as is what is
printed besides the entries. A guest throw leaves by `longjmp`, not by a return, and is not here.
-/
namespace Es3Recomp.Source.CallStack

def CS_MAX : ℤ := 256

/-- An `int` that goes up or down by one, past its end too. -/
def wrap (x : ℤ) : ℤ := x.bmod (2 ^ 32)

/-- A call of a lifted function that has not returned; `depth` is `cs_depth` before it. -/
structure Frame where
  pref : UInt64
  pushed : Bool
  depth : ℤ

/-- `csStack` also has whatever lies beside the array. The active calls are those on the
host's stack, innermost first. -/
structure Thread where
  csStack : ℤ → UInt64
  csDepth : ℤ
  active : List Frame

def Thread.initial (memory : ℤ → UInt64) : Thread where
  csStack i := if 0 ≤ i ∧ i < CS_MAX then 0 else memory i
  csDepth := 0
  active := []

/-- What the command line sets. -/
structure Options where
  /-- `g_log_calls[0 .. g_n_log_calls)` -/
  logCalls : List UInt64
  /-- `g_callees_of`, 0 when it is not set -/
  calleesOf : UInt64
  /-- `g_trace_enabled` -/
  trace : Bool

/-- An access to `cs_stack`. -/
inductive Access where
  | write (i : ℤ)
  | read (i : ℤ) (va : UInt64)

def Access.index : Access → ℤ
  | write i | read i _ => i

/-- The entries that are read, in order. -/
def entries (accesses : List Access) : List UInt64 :=
  accesses.filterMap fun
    | .write _ => none
    | .read _ va => some va

def readAt (t : Thread) (i : ℤ) : Access := .read i (t.csStack i)

/-- `es3_dump_callstack` -/
def es3DumpCallstack (t : Thread) : List Access :=
  let n := if t.csDepth < 40 then t.csDepth else 40
  (List.range n.toNat).map fun i : ℕ => readAt t (t.csDepth - 1 - i)

/-- `es3_log_callee`; what it reads decides whether it prints. -/
def es3LogCallee (o : Options) (t : Thread) : List Access :=
  if o.calleesOf = 0 ∨ t.csDepth < 2 then [] else [readAt t (t.csDepth - 2)]

/-- `dispatch` up to `fn(c)`. A logged call runs without being pushed. -/
def enter (o : Options) (t : Thread) (pref : UInt64) : Thread × List Access :=
  if pref ∈ o.logCalls then ({ t with active := ⟨pref, false, t.csDepth⟩ :: t.active }, [])
  else
    let stored := t.csDepth < CS_MAX
    let t' : Thread :=
      { csStack := if stored then Function.update t.csStack t.csDepth pref else t.csStack
        csDepth := wrap (t.csDepth + 1)
        active := ⟨pref, true, t.csDepth⟩ :: t.active }
    (t', (if stored then [.write t.csDepth] else []) ++ if o.trace then es3LogCallee o t' else [])

/-- `dispatch` behind `fn(c)`, of the innermost call. -/
def leave (t : Thread) : Thread :=
  match t.active with
  | [] => t
  | f :: rest =>
    { t with csDepth := if f.pushed then wrap (t.csDepth - 1) else t.csDepth, active := rest }

inductive Act where
  | call (pref : UInt64)
  | ret
  | dump

def step (o : Options) (t : Thread) : Act → Thread × List Access
  | .call pref => enter o t pref
  | .ret => (leave t, [])
  | .dump => (t, es3DumpCallstack t)

end Es3Recomp.Source.CallStack
