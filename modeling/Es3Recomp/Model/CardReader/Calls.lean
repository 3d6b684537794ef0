import Es3Recomp.Model.CardReader.Consume

/-!
# Calls on the port, as the receiver sees them

Only a write reaches `consume`; whatever else is called leaves the buffer and the card
alone, and so does the read that a write may finish.
-/
namespace Es3Recomp.Model.CardReader
open Library Source.CardReader
open Source.Jvs (Env)

/-- The commands carried out in a run, in order. -/
def executedOf (out : List Output) : List Executed :=
  out.flatMap fun
    | .executed e => [e]
    | .effect _ => []

theorem executedOf_append (xs ys : List Output) :
    executedOf (xs ++ ys) = executedOf xs ++ executedOf ys := List.flatMap_append

theorem executedOf_effects (es : List Source.Jvs.Effect) : executedOf (es.map .effect) = [] := by
  simp [executedOf, List.flatMap_map]

theorem executedOf_executed (es : List Executed) : executedOf (es.map .executed) = es := by
  simp [executedOf, List.flatMap_map]

theorem finishRead_inp (env : Env) (p : CardPort) : (finishRead env p).1.inp = p.inp := by
  unfold finishRead
  split
  · rfl
  · split <;> rfl

/-- What `consume` makes of an operation: a write calls it on the buffer with what it
accepts, any other operation does not. -/
def consumed (world : World) (r : Reader) : Op → Reader × List Executed
  | .write _ bytes => consume world (received r bytes)
  | _ => (r, [])

/-- What any operation does: it carries out commands, and the buffer and the card stay
as these left them. -/
structure Stepped (world : World) (r : Reader) (op : Op) : Prop where
  executed : executedOf (step world r op).2 = (consumed world r op).2
  inp : (step world r op).1.port.inp = (consumed world r op).1.port.inp
  card : (step world r op).1.card = (consumed world r op).1.card
  commands : (step world r op).1.commands = (consumed world r op).1.commands

theorem step_spec (world : World) (r : Reader) (op : Op) : Stepped world r op := by
  cases op with
  | write env bytes =>
    refine ⟨?_, finishRead_inp env _, rfl, rfl⟩
    simp only [step, es3CardWrite, executedOf_append, executedOf_executed, executedOf_effects,
      List.append_nil, consumed]
  | read buf n => exact ⟨rfl, rfl, rfl, rfl⟩
  | postRead env thread posted buf n ovl routine =>
    have told := executedOf_effects
      (es3CardPostRead env r.port thread posted buf n ovl routine).2
    have inp : (es3CardPostRead env r.port thread posted buf n ovl routine).1.inp = r.port.inp :=
      finishRead_inp env _
    exact ⟨told, inp, rfl, rfl⟩
  | tick env =>
    exact ⟨executedOf_effects (finishRead env r.port).2, finishRead_inp env r.port, rfl, rfl⟩
  | cancel => exact ⟨rfl, rfl, rfl, rfl⟩
  | tap now => constructor <;> simp only [step, consumed, executedOf, List.flatMap_nil]

/-- The frames that an operation finds complete. -/
def framesAt (r : Reader) : Op → List Frame
  | .write _ bytes => (frames (received r bytes).port.inp).1
  | _ => []

theorem consumed_frames (world : World) (r : Reader) (op : Op) :
    (consumed world r op).2.map frameOf = framesAt r op := by
  cases op with
  | write env bytes => exact (consume_frames world (received r bytes)).1
  | _ => rfl

/-- The frames that the operations of a run find complete. -/
def framesOf (world : World) : Reader → List Op → List Frame
  | _, [] => []
  | r, op :: ops => framesAt r op ++ framesOf world (step world r op).1 ops

/-- Commands are carried out for these frames and no others. -/
theorem run_frames (world : World) (r : Reader) (ops : List Op) :
    (executedOf ((reader world).run r ops).2).map frameOf = framesOf world r ops := by
  induction ops generalizing r with
  | nil => rfl
  | cons op ops ih =>
    have here : (executedOf ((reader world).step r op).2).map frameOf = framesAt r op := by
      rw [← consumed_frames world, ← (step_spec world r op).executed]
      rfl
    rw [Transducer.run_cons, executedOf_append, List.map_append, here, ih]
    rfl

end Es3Recomp.Model.CardReader
