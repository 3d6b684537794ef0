import Es3Recomp.Source.Jvs.Port

/-!
# Reads: posted, completed, blocking, cancelled

Source: src/src/runtime/jvs.c:384-461 (`Completion`, `read_deadline_for`,
`finish_read`), 782-793 (`es3_jvs_set_timeouts`), 880-920 (`es3_jvs_read`,
`es3_jvs_post_read`), 943-950 (`es3_jvs_cancel`). What a call does to the game is
a list of effects; the clock and the outcomes of the Windows calls are arguments.
-/
namespace Es3Recomp.Source.Jvs
open Library

structure Completion where
  routine : Word
  err : UInt32
  bytes : UInt32
  ovl : Word
  deriving DecidableEq

/-- What the game's memory and its threads see of a call on the port. -/
inductive Effect where
  /-- bytes stored into a buffer of the game -/
  | store (buf : Word) (bytes : List UInt8)
  | wr32 (addr value : UInt32)
  /-- `QueueUserAPC(deliver, thread, c)` that succeeded -/
  | queueApc (thread : Word) (c : Completion)
  deriving DecidableEq

/-- One reading of the clock, and whether `malloc` and `QueueUserAPC` succeed. -/
structure Env where
  tick : UInt64
  mallocOk : Bool
  queueOk : Bool

/-- `read_deadline_for`; `total` is 32 bits wide in the source, so it wraps. -/
def readDeadlineFor (tick : UInt64) (p : JvsPort) (len : UInt32) : UInt64 :=
  if p.toInterval = 0xFFFFFFFF ∧ p.toRdMult = 0 ∧ p.toRdConst = 0 then 1
  else
    let total := p.toRdMult * len + p.toRdConst
    let total := if total = 0 then 250 else total
    tick + total.toUInt64

/-- The OVERLAPPED of the transfer: STATUS_SUCCESS and the byte count. -/
def overlappedResult (p : JvsPort) (got : UInt32) : List Effect :=
  if p.readOvl = 0 then [] else [.wr32 p.readOvl 0, .wr32 (p.readOvl + 4) got]

/-- The completion routine, queued to the thread that posted the read. -/
def queuedRoutine (env : Env) (p : JvsPort) (got : UInt32) : List Effect :=
  if p.readRoutine = 0 ∨ ¬ env.mallocOk ∨ ¬ env.queueOk then []
  else [.queueApc p.readThread ⟨p.readRoutine, 0, got, p.readOvl⟩]

/-- Hand the pending read whatever is waiting, if there is enough of it or its
deadline has passed. -/
def finishRead (env : Env) (p : JvsPort) : JvsPort × List Effect :=
  if ¬ p.readPending then (p, [])
  else
    let expired := p.readDeadline ≠ 0 ∧ p.readDeadline ≤ env.tick
    if outAvail p < p.readLen.toNat ∧ ¬ expired then (p, [])
    else
      let taken := outTake p p.readLen.toNat
      let got := UInt32.ofNat taken.1.length
      ({ taken.2 with readPending := false },
        .store p.readBuf taken.1 :: (overlappedResult p got ++ queuedRoutine env p got))

/-- `es3_jvs_set_timeouts` with the three fields it reads out of COMMTIMEOUTS. -/
def es3JvsSetTimeouts (p : JvsPort) (interval mult const : UInt32) : JvsPort :=
  { p with toInterval := interval, toRdMult := mult, toRdConst := const }

def es3JvsRead (p : JvsPort) (buf : Word) (n : UInt32) : JvsPort × List Effect :=
  let (bytes, p) := outTake p n.toNat
  (p, [.store buf bytes])

/-- `es3_jvs_post_read`: `thread` is what `DuplicateHandle` stored, null when it
failed; `posted` is the clock when the deadline is computed. -/
def es3JvsPostRead (env : Env) (p : JvsPort) (thread : Word) (posted : UInt64)
    (buf : Word) (n : UInt32) (ovl routine : Word) : JvsPort × List Effect :=
  finishRead env { p with
    readThread := thread
    readPending := true
    readDeadline := readDeadlineFor posted p n
    readBuf := buf
    readLen := n
    readOvl := ovl
    readRoutine := routine }

def es3JvsCancel (p : JvsPort) : JvsPort := { p with readPending := false }

/-- The bytes an effect stores into the game's buffers. -/
def Effect.bytes : Effect → List UInt8
  | .store _ bytes => bytes
  | _ => []

/-- The bytes a call has handed to the game, in order. -/
def bytesRead (effects : List Effect) : List UInt8 := effects.flatMap Effect.bytes

@[simp] theorem bytesRead_nil : bytesRead [] = [] := rfl

@[simp] theorem bytesRead_append (xs ys : List Effect) :
    bytesRead (xs ++ ys) = bytesRead xs ++ bytesRead ys := by
  simp [bytesRead]

@[simp] theorem bytesRead_store (buf : Word) (bytes : List UInt8) (rest : List Effect) :
    bytesRead (.store buf bytes :: rest) = bytes ++ bytesRead rest := rfl

@[simp] theorem bytesRead_overlappedResult (p : JvsPort) (got : UInt32) :
    bytesRead (overlappedResult p got) = [] := by
  unfold overlappedResult
  split <;> rfl

@[simp] theorem bytesRead_queuedRoutine (env : Env) (p : JvsPort) (got : UInt32) :
    bytesRead (queuedRoutine env p got) = [] := by
  unfold queuedRoutine
  split <;> rfl

/-- Everything a read leaves alone: the input, the address and the counters. -/
structure SameNode (p q : JvsPort) : Prop where
  inp : q.inp = p.inp
  address : q.address = p.address
  coin : q.coin = p.coin

theorem SameNode.refl (p : JvsPort) : SameNode p p := ⟨rfl, rfl, rfl⟩

/-- A completed read moves the front of the queue to the game; a read that has
to wait changes nothing. -/
theorem finishRead_spec (env : Env) (p : JvsPort) :
    bytesRead (finishRead env p).2 ++ (finishRead env p).1.out.contents = p.out.contents ∧
      SameNode p (finishRead env p).1 := by
  unfold finishRead
  split
  · exact ⟨rfl, SameNode.refl p⟩
  · dsimp only
    split
    · exact ⟨rfl, SameNode.refl p⟩
    · refine ⟨?_, rfl, rfl, rfl⟩
      simp [outTake, Ring.take_fst, Ring.contents_take]

theorem es3JvsRead_spec (p : JvsPort) (buf : Word) (n : UInt32) :
    bytesRead (es3JvsRead p buf n).2 ++ (es3JvsRead p buf n).1.out.contents = p.out.contents ∧
      SameNode p (es3JvsRead p buf n).1 := by
  refine ⟨?_, rfl, rfl, rfl⟩
  simp [es3JvsRead, outTake, Ring.take_fst, Ring.contents_take]

theorem es3JvsPostRead_spec (env : Env) (p : JvsPort) (thread : Word) (posted : UInt64)
    (buf : Word) (n : UInt32) (ovl routine : Word) :
    bytesRead (es3JvsPostRead env p thread posted buf n ovl routine).2 ++
        (es3JvsPostRead env p thread posted buf n ovl routine).1.out.contents = p.out.contents ∧
      SameNode p (es3JvsPostRead env p thread posted buf n ovl routine).1 := by
  obtain ⟨bytes, same⟩ := finishRead_spec env { p with
    readThread := thread
    readPending := true
    readDeadline := readDeadlineFor posted p n
    readBuf := buf
    readLen := n
    readOvl := ovl
    readRoutine := routine }
  exact ⟨bytes, same.inp, same.address, same.coin⟩

end Es3Recomp.Source.Jvs
