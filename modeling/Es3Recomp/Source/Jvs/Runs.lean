import Es3Recomp.Library.Transducer
import Es3Recomp.Source.Jvs.Receive

/-!
# The board in use: every call on the port, in any order

Source: src/src/runtime/jvs.c:768-780 (`jvs_ticker`), 757-765 (a coin in
`input_poll`), 866-950 (what the game's calls on the port reach). One operation
is one entry under the port's lock. What `seq_tick` and `input_poll` leave in the
switches is an argument of `poll`: any values.
-/
namespace Es3Recomp.Source.Jvs
open Library

structure Node where
  port : JvsPort
  inputs : Inputs

def Node.initial : Node := ⟨JvsPort.initial, Inputs.initial⟩

inductive Op where
  | write (m : Machine) (env : Env) (bytes : List UInt8)
  | read (buf : Word) (n : UInt32)
  | postRead (env : Env) (thread : Word) (posted : UInt64) (buf : Word) (n : UInt32)
      (ovl routine : Word)
  /-- the ticker's `finish_read()` -/
  | tick (env : Env)
  | poll (inputs : Inputs)
  /-- `g_port.coin[0]++` -/
  | insertCoin
  | setTimeouts (interval mult const : UInt32)
  | cancel

/-- What an operation lets an observer see: packets handled, effects on the game. -/
inductive Output where
  | handled (h : Handled)
  | effect (e : Effect)

def insertCoin (p : JvsPort) : JvsPort :=
  { p with coin := Function.update p.coin ⟨0, by decide⟩ (p.coin ⟨0, by decide⟩ + 1) }

theorem coin_insertCoin (p : JvsPort) (k : Fin JVS_COIN_SLOTS) :
    (insertCoin p).coin k = if k.val = 0 then p.coin k + 1 else p.coin k := by
  unfold insertCoin
  by_cases first : k = ⟨0, by decide⟩
  · rw [first]
    dsimp only
    rw [Function.update_self, if_pos rfl]
  · dsimp only
    rw [Function.update_of_ne first, if_neg fun zero => first (Fin.ext zero)]

def step (s : Node) : Op → Node × List Output
  | .write m env bytes =>
    let (port, handled, effects) := es3JvsWrite m s.inputs env s.port bytes
    ({ s with port }, handled.map .handled ++ effects.map .effect)
  | .read buf n =>
    let (port, effects) := es3JvsRead s.port buf n
    ({ s with port }, effects.map .effect)
  | .postRead env thread posted buf n ovl routine =>
    let (port, effects) := es3JvsPostRead env s.port thread posted buf n ovl routine
    ({ s with port }, effects.map .effect)
  | .tick env =>
    let (port, effects) := finishRead env s.port
    ({ s with port }, effects.map .effect)
  | .poll inputs => ({ s with inputs }, [])
  | .insertCoin => ({ s with port := insertCoin s.port }, [])
  | .setTimeouts interval mult const =>
    ({ s with port := es3JvsSetTimeouts s.port interval mult const }, [])
  | .cancel => ({ s with port := es3JvsCancel s.port }, [])

def board : Transducer Node Op Output := ⟨step⟩

/-- The packets handled in a run, in order. -/
def handledOf (out : List Output) : List Handled :=
  out.filterMap fun
    | .handled h => some h
    | .effect _ => none

/-- What the game saw in a run, in order. -/
def effectsOf (out : List Output) : List Effect :=
  out.filterMap fun
    | .handled _ => none
    | .effect e => some e

@[simp] theorem handledOf_append (xs ys : List Output) :
    handledOf (xs ++ ys) = handledOf xs ++ handledOf ys := List.filterMap_append

@[simp] theorem effectsOf_append (xs ys : List Output) :
    effectsOf (xs ++ ys) = effectsOf xs ++ effectsOf ys := List.filterMap_append

@[simp] theorem handledOf_effects (es : List Effect) : handledOf (es.map .effect) = [] := by
  simp [handledOf]

@[simp] theorem effectsOf_effects (es : List Effect) : effectsOf (es.map .effect) = es := by
  simp [effectsOf, List.filterMap_map]

@[simp] theorem handledOf_handled (hs : List Handled) : handledOf (hs.map .handled) = hs := by
  simp [handledOf, List.filterMap_map]

@[simp] theorem effectsOf_handled (hs : List Handled) : effectsOf (hs.map .handled) = [] := by
  simp [effectsOf]

end Es3Recomp.Source.Jvs
