import Es3Recomp.Source.Jvs.Read

/-!
# When the timeout of a posted read is the one the game set

`read_deadline_for` (src/src/runtime/jvs.c:400-427) forms multiplier x bytes + constant in 32
bits, so a sum from 2^32 on comes out smaller than it is.
-/
namespace Es3Recomp.Guarantees.Jvs
open Source.Jvs

/-- The fields of COMMTIMEOUTS that a read goes by. -/
structure Timeouts where
  interval : UInt32
  mult : UInt32
  const : UInt32
  deriving DecidableEq

/-- "Return at once with whatever is there". -/
def Timeouts.Immediate (t : Timeouts) : Prop :=
  t.interval = 0xFFFFFFFF ∧ t.mult = 0 ∧ t.const = 0

/-- The sum as it is meant. -/
def Timeouts.total (t : Timeouts) (n : UInt32) : Nat := t.mult.toNat * n.toNat + t.const.toNat

/-- The wait in milliseconds: 250 where no timeout is configured. -/
def Timeouts.wait (t : Timeouts) (n : UInt32) : Nat := if t.total n = 0 then 250 else t.total n

/-- The port after a read of `n` bytes is posted with these timeouts set. -/
def readPosted (t : Timeouts) (env : Env) (p : JvsPort) (thread : Word) (posted : UInt64)
    (buf : Word) (n : UInt32) (ovl routine : Word) : JvsPort :=
  (es3JvsPostRead env (es3JvsSetTimeouts p t.interval t.mult t.const) thread posted buf n ovl
    routine).1

/-- The test of `finish_read`. -/
def Expired (deadline now : UInt64) : Prop := deadline ≠ 0 ∧ deadline ≤ now

def OnTime (t : Timeouts) (n : UInt32) (posted deadline : UInt64) : Prop :=
  (t.Immediate → Expired deadline posted) ∧
    (¬t.Immediate → deadline.toNat = posted.toNat + t.wait n)

/-- The sum fits 32 bits, and the clock has begun and does not start again in the time. -/
def Fits (t : Timeouts) (n : UInt32) (posted : UInt64) : Prop :=
  (t.Immediate → 0 < posted) ∧
    (¬t.Immediate → t.total n < 2 ^ 32 ∧ posted.toNat + t.wait n < 2 ^ 64)

instance (t : Timeouts) : Decidable t.Immediate := inferInstanceAs (Decidable (_ ∧ _))
instance (deadline now : UInt64) : Decidable (Expired deadline now) :=
  inferInstanceAs (Decidable (_ ∧ _))
instance (t : Timeouts) (n : UInt32) (posted deadline : UInt64) :
    Decidable (OnTime t n posted deadline) := inferInstanceAs (Decidable (_ ∧ _))
instance (t : Timeouts) (n : UInt32) (posted : UInt64) : Decidable (Fits t n posted) :=
  inferInstanceAs (Decidable (_ ∧ _))

/-- Whether the read completes at once or stays, its deadline is the computed one. -/
theorem readDeadline_finishRead (env : Env) (p : JvsPort) :
    (finishRead env p).1.readDeadline = p.readDeadline := by
  unfold finishRead
  split
  next => rfl
  dsimp only
  split
  next => rfl
  next => rfl

theorem readDeadline_posted (t : Timeouts) (env : Env) (p : JvsPort) (thread : Word)
    (posted : UInt64) (buf : Word) (n : UInt32) (ovl routine : Word) :
    (readPosted t env p thread posted buf n ovl routine).readDeadline =
      readDeadlineFor posted (es3JvsSetTimeouts p t.interval t.mult t.const) n := by
  rw [readPosted, es3JvsPostRead, readDeadline_finishRead]

/-- The sum as it is computed. -/
theorem total_wraps (t : Timeouts) (n : UInt32) :
    (t.mult * n + t.const).toNat = t.total n % 2 ^ 32 := by
  rw [UInt32.toNat_add, UInt32.toNat_mul, Timeouts.total, Nat.mod_add_mod]

theorem deadline_immediate {t : Timeouts} (immediate : t.Immediate) (p : JvsPort) (n : UInt32)
    (posted : UInt64) :
    readDeadlineFor posted (es3JvsSetTimeouts p t.interval t.mult t.const) n = 1 :=
  if_pos immediate

theorem deadline_timed {t : Timeouts} (timed : ¬t.Immediate) (p : JvsPort) (n : UInt32)
    (posted : UInt64) :
    (readDeadlineFor posted (es3JvsSetTimeouts p t.interval t.mult t.const) n).toNat =
      (posted.toNat + if t.total n % 2 ^ 32 = 0 then 250 else t.total n % 2 ^ 32) % 2 ^ 64 := by
  have sum := total_wraps t n
  have small := Nat.mod_lt (t.total n) (Nat.two_pow_pos 32)
  have zero : t.mult * n + t.const = 0 ↔ t.total n % 2 ^ 32 = 0 := by
    rw [← UInt32.toNat_inj, sum, UInt32.toNat_zero]
  have choose : readDeadlineFor posted (es3JvsSetTimeouts p t.interval t.mult t.const) n =
      posted + (if t.mult * n + t.const = 0 then 250 else t.mult * n + t.const).toUInt64 :=
    if_neg timed
  rw [choose, UInt64.toNat_add, UInt32.toNat_toUInt64]
  by_cases none : t.total n % 2 ^ 32 = 0
  · rw [if_pos (zero.mpr none), if_pos none]
    rfl
  · rw [if_neg (none ∘ zero.mp), if_neg none, sum]

theorem onTime_iff (t : Timeouts) (p : JvsPort) (n : UInt32) (posted : UInt64) :
    OnTime t n posted
        (readDeadlineFor posted (es3JvsSetTimeouts p t.interval t.mult t.const) n) ↔
      Fits t n posted := by
  apply and_congr
  · refine forall_congr' fun immediate => ?_
    rw [deadline_immediate immediate, Expired, UInt64.le_iff_toNat_le, UInt64.lt_iff_toNat_lt]
    exact and_iff_right (by decide)
  · refine forall_congr' fun timed => ?_
    have clock := posted.toNat_lt
    rw [deadline_timed timed, Timeouts.wait]
    split <;> split <;> omega

/-- Whatever the game sets and whatever it asks for, the deadline is exact just when the sum
fits. Among reads of which this holds, more to wait for is never due earlier. -/
theorem deadlines_exact_iff (env : Env) (p : JvsPort) (thread buf ovl routine : Word)
    (posted : UInt64) :
    (∀ t n, OnTime t n posted (readPosted t env p thread posted buf n ovl routine).readDeadline ↔
      Fits t n posted) ∧
    ∀ t n t' n', Fits t n posted → Fits t' n' posted → t.total n ≠ 0 →
      t.mult ≤ t'.mult → n ≤ n' → t.const ≤ t'.const →
      (readPosted t env p thread posted buf n ovl routine).readDeadline ≤
        (readPosted t' env p thread posted buf n' ovl routine).readDeadline := by
  have exactly : ∀ t n, OnTime t n posted
      (readPosted t env p thread posted buf n ovl routine).readDeadline ↔ Fits t n posted := by
    intro t n
    rw [readDeadline_posted]
    exact onTime_iff t p n posted
  refine ⟨exactly, fun t n t' n' fits fits' some mult length const => ?_⟩
  have more : t.total n ≤ t'.total n' := Nat.add_le_add (Nat.mul_le_mul mult length) const
  have timed : ∀ (t : Timeouts) (n : UInt32), t.total n ≠ 0 → ¬t.Immediate := by
    intro t n some immediate
    apply some
    rw [Timeouts.total, immediate.2.1, immediate.2.2, UInt32.toNat_zero, Nat.zero_mul]
  have some' : t'.total n' ≠ 0 := by omega
  have due := ((exactly t n).mpr fits).2 (timed t n some)
  have due' := ((exactly t' n').mpr fits').2 (timed t' n' some')
  rw [UInt64.le_iff_toNat_le, due, due', Timeouts.wait, Timeouts.wait, if_neg some, if_neg some']
  exact Nat.add_le_add_left more _

/-- Ten milliseconds a byte and five more, for two bytes and for three. -/
theorem longer_read_later :
    let posted := fun n => readPosted ⟨0, 10, 5⟩ ⟨1000, true, true⟩ JvsPort.initial 0 1000 0 n 0 0
    OnTime ⟨0, 10, 5⟩ 2 1000 (posted 2).readDeadline ∧
      (posted 2).readDeadline ≤ (posted 3).readDeadline := by
  have law := deadlines_exact_iff ⟨1000, true, true⟩ JvsPort.initial 0 0 0 0 1000
  have two : Fits ⟨0, 10, 5⟩ 2 1000 := by decide
  have three : Fits ⟨0, 10, 5⟩ 3 1000 := by decide
  exact ⟨(law.1 _ 2).mpr two,
    law.2 _ 2 _ 3 two three (by decide) (by decide) (by decide) (by decide)⟩

/-- A sum of 2^32 counts as none, and the read is given up after 250 ms. -/
theorem long_timeout_forgotten :
    let read := readPosted ⟨0, 0xFFFFFFFF, 1⟩ ⟨1000, true, true⟩ JvsPort.initial 0 1000 0 1 0 0
    read.readDeadline = 1250 ∧ ¬OnTime ⟨0, 0xFFFFFFFF, 1⟩ 1 1000 read.readDeadline := by
  decide +kernel

end Es3Recomp.Guarantees.Jvs
