import Es3Recomp.Model.Jvs.Command

/-!
# Coins as entries of a ledger

What a history of coins makes of the three slots, without a word about the port: an
insertion, and an amount that a command adds to a slot or takes off it.
-/
namespace Es3Recomp.Model.Jvs
open Library Source.Jvs

inductive Entry where
  /-- one coin into slot 1 -/
  | insert
  | increase (slot amount : Nat)
  | decrease (slot amount : Nat)
  deriving DecidableEq

namespace Entry

/-- The counts after one entry; commands number the slots from 1, and no count goes below 0. -/
def post (count : Fin JVS_COIN_SLOTS → Nat) : Entry → Fin JVS_COIN_SLOTS → Nat
  | insert, k => if k.val = 0 then count k + 1 else count k
  | increase slot amount, k => if slot = k + 1 then count k + amount else count k
  | decrease slot amount, k => if slot = k + 1 then count k - amount else count k

/-- An entry that changes no slot the node has, whatever is in it. -/
def Idle : Entry → Prop
  | insert => False
  | increase slot amount | decrease slot amount =>
    slot = 0 ∨ JVS_COIN_SLOTS < slot ∨ amount = 0

instance : DecidablePred Idle
  | insert => inferInstanceAs (Decidable False)
  | increase _ _ | decrease _ _ => inferInstanceAs (Decidable (_ ∨ _))

theorem post_idle (count : Fin JVS_COIN_SLOTS → Nat) {e : Entry} (idle : e.Idle) :
    e.post count = count := by
  funext k
  have inside := k.isLt
  cases e with
  | insert => exact idle.elim
  | increase slot amount | decrease slot amount =>
    rw [post]
    split
    next here =>
      rcases idle with zero | beyond | none
      · omega
      · omega
      · omega
    next => rfl

end Entry

def postAll (count : Fin JVS_COIN_SLOTS → Nat) (es : List Entry) : Fin JVS_COIN_SLOTS → Nat :=
  es.foldl Entry.post count

theorem postAll_append (count : Fin JVS_COIN_SLOTS → Nat) (es more : List Entry) :
    postAll count (es ++ more) = postAll (postAll count es) more := List.foldl_append

theorem postAll_idle (count : Fin JVS_COIN_SLOTS → Nat) {es : List Entry}
    (idle : ∀ e ∈ es, e.Idle) : postAll count es = count := by
  induction es with
  | nil => rfl
  | cons e es ih =>
    obtain ⟨here, rest⟩ := List.forall_mem_cons.mp idle
    rw [postAll, List.foldl_cons, Entry.post_idle count here]
    exact ih rest

/-- The counts that a history of entries leaves, from none. -/
def ledger (es : List Entry) : Fin JVS_COIN_SLOTS → Nat := postAll (fun _ => 0) es

/-! ## Entries of commands -/

/-- Two bytes, the high one first. -/
def amountOf (hi lo : UInt8) : Nat := 256 * hi.toNat + lo.toNat

def Command.entries : Command → List Entry
  | coinDecrease slot hi lo => [.decrease slot.toNat (amountOf hi lo)]
  | coinIncrease slot hi lo => [.increase slot.toNat (amountOf hi lo)]
  | _ => []

end Es3Recomp.Model.Jvs
