import Es3Recomp.Source.CardReader.Card

/-!
# What a command asks of the card

The reader has two wrappers for a MIFARE command, 0x40 and 0x44, which put it at
different places of the frame (src/src/runtime/card.c:552-561). `demandOf` reads both,
and `command_spec` says what `command` does in terms of what was asked: whether it
is granted, how the card changes, and what the answer carries.
-/
namespace Es3Recomp.Model.CardReader
open Library Source.CardReader

/-- A MIFARE command for the card. A write that is too short asks for nothing. -/
inductive Access where
  | authenticate (block : Nat)
  | read (block : Nat)
  | write (block : Nat) (data : List UInt8)
  | other
  deriving DecidableEq

def accessOf (p : List UInt8) : Access :=
  let cmd := p.getD 0 0
  let blk := (p.getD 1 0).toNat
  if cmd = 0x60 ∨ cmd = 0x61 then .authenticate blk
  else if cmd = 0x30 then .read blk
  else if cmd = 0xA0 ∧ 2 + BLOCK_BYTES ≤ p.length then .write blk ((p.drop 2).take BLOCK_BYTES)
  else .other

inductive Demand where
  | access (a : Access)
  /-- InListPassiveTarget -/
  | select
  /-- InRelease -/
  | release
  | other
  deriving DecidableEq

def demandOf (body : List UInt8) : Demand :=
  let cmd := body.getD 1 0
  if cmd = 0x4A then .select
  else if cmd = 0x40 then .access (accessOf (body.drop 3))
  else if cmd = 0x44 then .access (accessOf (body.drop 2))
  else if cmd = 0x52 then .release
  else .other

/-- Sector 0 has to be authenticated for blocks 0 to 3, and so on. -/
def Unlocked (authSector : Int) (block : Nat) : Prop :=
  block < BLOCKS ∧ authSector = (block / 4 : Nat)

instance (authSector : Int) (block : Nat) : Decidable (Unlocked authSector block) :=
  inferInstanceAs (Decidable (_ ∧ _))

/-- The card does what it is asked, and says so. -/
def Granted (inField : Bool) (authSector : Int) : Access → Prop
  | .authenticate b => inField = true ∧ b < BLOCKS
  | .read b => inField = true ∧ Unlocked authSector b
  | .write b _ => inField = true ∧ Unlocked authSector b
  | .other => False

instance (inField : Bool) (authSector : Int) (a : Access) :
    Decidable (Granted inField authSector a) := by
  cases a <;> unfold Granted <;> infer_instance

/-- The sixteen bytes go into the block, and the card to its file. -/
def writeBlock (o : SaveOutcome) (c : Card) (b : Nat) (data : List UInt8) : Card :=
  cardSave o { c with
    image := store c.image (b * BLOCK_BYTES) data
    dirty := true
    nWrites := c.nWrites + 1 }

/-- What an access that is granted does to the card. -/
def grant (o : SaveOutcome) (c : Card) : Access → Card
  | .authenticate b => { c with authSector := (b / 4 : Nat) }
  | .read _ => { c with nReads := c.nReads + 1 }
  | .write b data => if b = 0 then c else writeBlock o c b data
  | .other => c

def performAccess (inField : Bool) (o : SaveOutcome) (c : Card) (a : Access) : Card :=
  if Granted inField c.authSector a then grant o c a else c

def perform (inField : Bool) (o : SaveOutcome) (c : Card) : Demand → Card
  | .access a => performAccess inField o c a
  | .select => if inField = true then { c with authSector := -1 } else c
  | .release => { c with authSector := -1 }
  | .other => c

/-- The data an access leaves in block `b`. Block 0 is acknowledged and not written. -/
def writes (b : Nat) : Option Access → Option (List UInt8)
  | some (.write b' data) => if b' = b ∧ b ≠ 0 then some data else none
  | _ => none

def isRead : Option Access → Bool
  | some (.read _) => true
  | _ => false

/-- A write of any block but 0. -/
def isWrite : Option Access → Bool
  | some (.write b _) => b ≠ 0
  | _ => false

/-- The status byte of an answer says success. -/
def Succeeded (reply : List UInt8) : Prop := reply.getD 2 0xFF = 0x00

instance (reply : List UInt8) : Decidable (Succeeded reply) := inferInstanceAs (Decidable (_ = _))

theorem length_accessOf_data {p data : List UInt8} {b : Nat} (h : accessOf p = .write b data) :
    data.length = BLOCK_BYTES := by
  simp only [accessOf] at h
  split at h
  · cases h
  · split at h
    · cases h
    · split at h
      · rename_i long
        cases h
        simp only [List.length_take, List.length_drop]
        omega
      · cases h

/-- What `mifare` does with an access: the card changes as the access says if it is
granted, the status byte tells, and a block that is read comes with the answer. -/
structure Answers (inField : Bool) (o : SaveOutcome) (c : Card) (a : Access)
    (result : Card × List UInt8) : Prop where
  card : result.1 = performAccess inField o c a
  status : Succeeded result.2 ↔ Granted inField c.authSector a
  long : 3 ≤ result.2.length
  data : ∀ b, a = .read b → Granted inField c.authSector a → result.2.drop 3 = c.block b

theorem answers_refused {inField : Bool} {o : SaveOutcome} {c : Card} {a : Access}
    {r : List UInt8} (refused : ¬ Granted inField c.authSector a) (long : 3 ≤ r.length)
    (status : ¬ Succeeded r) : Answers inField o c a (c, r) where
  card := by simp [performAccess, refused]
  status := by simp [status, refused]
  long := long
  data := fun _ _ granted => absurd granted refused

theorem answers_granted {inField : Bool} {o : SaveOutcome} {c : Card} {a : Access}
    (rest : List UInt8) (granted : Granted inField c.authSector a)
    (data : ∀ b, a = .read b → rest = c.block b) :
    Answers inField o c a (grant o c a, MIFARE_SUCCESS ++ rest) where
  card := by simp [performAccess, granted]
  status := iff_of_true rfl granted
  long := by simp [MIFARE_SUCCESS]
  data := fun b read _ => data b read

/-! ### `mifare`, a command at a time -/

section Mifare
variable (o : SaveOutcome) (c : Card) {p : List UInt8}

theorem mifare_away (p : List UInt8) : Answers false o c (accessOf p) (mifare false o c p) := by
  apply answers_refused _ (by decide) (by decide)
  cases accessOf p <;> simp [Granted]

theorem mifare_authenticate (isAuth : p.getD 0 0 = 0x60 ∨ p.getD 0 0 = 0x61) :
    Answers true o c (accessOf p) (mifare true o c p) := by
  have asked : accessOf p = .authenticate (p.getD 1 0).toNat := by
    simp only [accessOf, if_pos isAuth]
  rw [asked]
  unfold mifare
  dsimp only
  rw [if_neg (not_not.mpr rfl), if_pos isAuth]
  split
  · rename_i beyond
    apply answers_refused _ (by decide) (by decide)
    intro granted
    have inside : (p.getD 1 0).toNat < 64 := granted.2
    omega
  · have inside : (p.getD 1 0).toNat < BLOCKS := by
      show (p.getD 1 0).toNat < 64
      omega
    exact answers_granted [] ⟨rfl, inside⟩ nofun

theorem mifare_read (isRead : p.getD 0 0 = 0x30) :
    Answers true o c (accessOf p) (mifare true o c p) := by
  have notAuth : ¬ (p.getD 0 0 = 0x60 ∨ p.getD 0 0 = 0x61) := by
    rw [isRead]
    decide
  have asked : accessOf p = .read (p.getD 1 0).toNat := by
    simp only [accessOf, if_neg notAuth, if_pos isRead]
  rw [asked]
  unfold mifare
  dsimp only
  rw [if_neg (not_not.mpr rfl), if_neg notAuth, if_pos isRead]
  split
  · rename_i beyond
    exact answers_refused (fun granted => Nat.not_lt.mpr beyond granted.2.1) (by decide) (by decide)
  · rename_i inside
    split
    · rename_i locked
      exact answers_refused (fun granted => locked granted.2.2) (by decide) (by decide)
    · rename_i unlocked
      exact answers_granted _ ⟨rfl, Nat.lt_of_not_le inside, not_not.mp unlocked⟩
        fun b same => by rw [← Access.read.inj same]

theorem mifare_write (isWrite : p.getD 0 0 = 0xA0) :
    Answers true o c (accessOf p) (mifare true o c p) := by
  have notAuth : ¬ (p.getD 0 0 = 0x60 ∨ p.getD 0 0 = 0x61) := by
    rw [isWrite]
    decide
  have notRead : ¬ p.getD 0 0 = 0x30 := by
    rw [isWrite]
    decide
  unfold mifare
  dsimp only
  rw [if_neg (not_not.mpr rfl), if_neg notAuth, if_neg notRead, if_pos isWrite]
  by_cases short : p.length < 2 + BLOCK_BYTES
  · have asked : accessOf p = .other := by
      simp only [accessOf, if_neg notAuth, if_neg notRead]
      exact if_neg fun long => Nat.not_le.mpr short long.2
    rw [if_pos (Or.inr short), asked]
    exact answers_refused id (by decide) (by decide)
  · have asked : accessOf p = .write (p.getD 1 0).toNat ((p.drop 2).take BLOCK_BYTES) := by
      simp only [accessOf, if_neg notAuth, if_neg notRead]
      exact if_pos ⟨isWrite, Nat.not_lt.mp short⟩
    rw [asked]
    split
    · rename_i beyond
      exact answers_refused (fun granted => Nat.not_lt.mpr (beyond.resolve_right short) granted.2.1)
        (by decide) (by decide)
    · rename_i inside
      split
      · rename_i locked
        exact answers_refused (fun granted => locked granted.2.2) (by decide) (by decide)
      · rename_i unlocked
        have done := answers_granted (o := o) (c := c) []
          (a := .write (p.getD 1 0).toNat ((p.drop 2).take BLOCK_BYTES))
          ⟨rfl, Nat.lt_of_not_le fun beyond => inside (Or.inl beyond), not_not.mp unlocked⟩ nofun
        rw [List.append_nil] at done
        split
        · rename_i first
          simpa only [grant, if_pos first] using done
        · rename_i other
          simpa only [grant, if_neg other, writeBlock] using done

theorem mifare_other (notAuth : ¬ (p.getD 0 0 = 0x60 ∨ p.getD 0 0 = 0x61))
    (notRead : ¬ p.getD 0 0 = 0x30) (notWrite : ¬ p.getD 0 0 = 0xA0) :
    Answers true o c (accessOf p) (mifare true o c p) := by
  have asked : accessOf p = .other := by
    simp only [accessOf, if_neg notAuth, if_neg notRead]
    exact if_neg fun write => notWrite write.1
  rw [asked]
  unfold mifare
  dsimp only
  rw [if_neg (not_not.mpr rfl), if_neg notAuth, if_neg notRead, if_neg notWrite]
  exact answers_refused id (by decide) (by decide)

end Mifare

theorem mifare_spec (inField : Bool) (o : SaveOutcome) (c : Card) (p : List UInt8) :
    Answers inField o c (accessOf p) (mifare inField o c p) := by
  cases inField with
  | false => exact mifare_away o c p
  | true =>
    by_cases isAuth : p.getD 0 0 = 0x60 ∨ p.getD 0 0 = 0x61
    · exact mifare_authenticate o c isAuth
    by_cases isRead : p.getD 0 0 = 0x30
    · exact mifare_read o c isRead
    by_cases isWrite : p.getD 0 0 = 0xA0
    · exact mifare_write o c isWrite
    exact mifare_other o c isAuth isRead isWrite

/-- What `command` does with a demand. Only an access has a status that says whether
it was granted; the answer to a select that finds the card announces it. -/
structure Obeys (inField : Bool) (o : SaveOutcome) (c : Card) (d : Demand)
    (result : Card × List UInt8) : Prop where
  card : result.1 = perform inField o c d
  answered : result.2 ≠ []
  status : ∀ a, d = .access a → (Succeeded result.2 ↔ Granted inField c.authSector a)
  data : ∀ b, d = .access (.read b) → Granted inField c.authSector (.read b) →
    result.2.drop 3 = c.block b
  announced : d = .select → inField = true →
    result.2 = [0xD5, 0x4B, 0x01, 0x01, 0x00, 0x04, 0x08, 0x04] ++ c.uid.val

theorem obeys_access {inField : Bool} {o : SaveOutcome} {c : Card} {a : Access}
    {result : Card × List UInt8} (h : Answers inField o c a result) :
    Obeys inField o c (.access a) result where
  card := h.card
  answered := by
    have := h.long
    intro empty
    simp [empty] at this
  status := fun a' same => by rw [← Demand.access.inj same]; exact h.status
  data := by
    intro b same
    cases same
    exact h.data b rfl
  announced := nofun

/-- The wrapper 0x44 differs in the code byte of the answer only. -/
theorem answers_recoded {inField : Bool} {o : SaveOutcome} {c : Card} {a : Access}
    {result : Card × List UInt8} (h : Answers inField o c a result) :
    Answers inField o c a (result.1, result.2.set 1 0x45) where
  card := h.card
  status := by
    rw [← h.status]
    simp [Succeeded]
  long := by simpa using h.long
  data := fun b read granted => by rw [List.drop_set_of_lt (by decide), h.data b read granted]

theorem obeys_other {inField : Bool} {o : SaveOutcome} {c : Card} {r : List UInt8}
    (answered : r ≠ []) : Obeys inField o c .other (c, r) :=
  ⟨rfl, answered, nofun, nofun, nofun⟩

theorem obeys_ite {inField : Bool} {o : SaveOutcome} {c : Card} {d : Demand} {test : Prop}
    [Decidable test] {yes no : Card × List UInt8} (left : test → Obeys inField o c d yes)
    (right : ¬ test → Obeys inField o c d no) :
    Obeys inField o c d (if test then yes else no) := by
  by_cases h : test
  · rw [if_pos h]
    exact left h
  · rw [if_neg h]
    exact right h

theorem command_spec (inField : Bool) (o : SaveOutcome) (c : Card) (body : List UInt8) :
    Obeys inField o c (demandOf body) (command inField o c body) := by
  unfold command demandOf
  dsimp only
  generalize body.getD 1 0 = cmd
  -- nine commands that the card never hears of
  iterate 9
    apply obeys_ite
    · intro code
      rw [code]
      exact obeys_other (List.cons_ne_nil _ _)
    intro _
  apply obeys_ite
  · intro code
    rw [if_pos code]
    by_cases out : ¬ inField = true
    · rw [if_pos out]
      exact ⟨by simp [perform, out], by simp, nofun, nofun, fun _ here => absurd here out⟩
    · rw [if_neg out]
      exact ⟨by simp [perform, not_not.mp out], by simp, nofun, nofun, fun _ _ => rfl⟩
  intro notSelect
  rw [if_neg notSelect]
  apply obeys_ite
  · intro exchange
    rw [if_pos exchange]
    exact obeys_access (mifare_spec inField o c (body.drop 3))
  intro notExchange
  rw [if_neg notExchange]
  apply obeys_ite
  · intro through
    rw [if_pos through]
    exact obeys_access (answers_recoded (mifare_spec inField o c (body.drop 2)))
  intro notThrough
  rw [if_neg notThrough]
  apply obeys_ite
  · intro release
    rw [if_pos release]
    exact ⟨rfl, by simp, nofun, nofun, nofun⟩
  · intro notRelease
    rw [if_neg notRelease]
    exact obeys_other (List.cons_ne_nil _ _)

/-! ## What stays, and the authenticated sector -/

section Saved
variable (o : SaveOutcome) (c : Card)

/-- A save touches the file and the mark only. -/
theorem cardSave_frame :
    cardSave o c = { c with file := (cardSave o c).file, dirty := (cardSave o c).dirty } := by
  unfold cardSave
  split
  · rfl
  · split <;> rfl

@[simp] theorem cardSave_image : (cardSave o c).image = c.image := by
  rw [cardSave_frame]

@[simp] theorem cardSave_uid : (cardSave o c).uid = c.uid := by
  rw [cardSave_frame]

@[simp] theorem cardSave_authSector : (cardSave o c).authSector = c.authSector := by
  rw [cardSave_frame]

@[simp] theorem cardSave_nReads : (cardSave o c).nReads = c.nReads := by
  rw [cardSave_frame]

@[simp] theorem cardSave_nWrites : (cardSave o c).nWrites = c.nWrites := by
  rw [cardSave_frame]

end Saved

/-- The access a demand gets granted. -/
def grantedBy (inField : Bool) (authSector : Int) : Demand → Option Access
  | .access a => if Granted inField authSector a then some a else none
  | _ => none

/-- A demand has an access granted, or it changes the authenticated sector at most. -/
theorem perform_cases (inField : Bool) (o : SaveOutcome) (c : Card) (d : Demand) :
    (∃ a, grantedBy inField c.authSector d = some a ∧ perform inField o c d = grant o c a) ∨
      (grantedBy inField c.authSector d = none ∧
        ∃ k, perform inField o c d = { c with authSector := k }) := by
  cases d with
  | access a =>
    by_cases granted : Granted inField c.authSector a
    · exact Or.inl ⟨a, if_pos granted, if_pos granted⟩
    · exact Or.inr ⟨if_neg granted, c.authSector, if_neg granted⟩
  | select =>
    refine Or.inr ⟨rfl, ?_⟩
    by_cases here : inField = true
    · exact ⟨-1, if_pos here⟩
    · exact ⟨c.authSector, if_neg here⟩
  | release => exact Or.inr ⟨rfl, -1, rfl⟩
  | other => exact Or.inr ⟨rfl, c.authSector, rfl⟩

/-- The access an answered command got granted, told by the status byte. -/
def doneBy (body reply : List UInt8) : Option Access :=
  match demandOf body with
  | .access a => if Succeeded reply then some a else none
  | _ => none

theorem doneBy_command (inField : Bool) (o : SaveOutcome) (c : Card) (body : List UInt8) :
    doneBy body (command inField o c body).2 = grantedBy inField c.authSector (demandOf body) := by
  have status := (command_spec inField o c body).status
  unfold doneBy grantedBy
  cases asked : demandOf body with
  | access a => simp only [status a asked]
  | _ => rfl

theorem length_data {body data : List UInt8} {b : Nat}
    (asked : demandOf body = .access (.write b data)) : data.length = BLOCK_BYTES := by
  simp only [demandOf] at asked
  split at asked
  · cases asked
  · split at asked
    · exact length_accessOf_data (Demand.access.inj asked)
    · split at asked
      · exact length_accessOf_data (Demand.access.inj asked)
      · split at asked <;> cases asked

theorem length_granted {inField : Bool} {authSector : Int} {body data : List UInt8} {b : Nat}
    (granted : grantedBy inField authSector (demandOf body) = some (.write b data)) :
    data.length = BLOCK_BYTES := by
  cases asked : demandOf body with
  | access a =>
    simp only [asked, grantedBy] at granted
    split at granted
    · cases granted
      exact length_data asked
    · cases granted
  | _ => simp [asked, grantedBy] at granted

/-- The sector the game has authenticated after a demand. -/
def sectorAfter (inField : Bool) (authSector : Int) : Demand → Int
  | .access (.authenticate b) =>
    if Granted inField authSector (.authenticate b) then (b / 4 : Nat) else authSector
  | .select => if inField = true then -1 else authSector
  | .release => -1
  | _ => authSector

theorem perform_authSector (inField : Bool) (o : SaveOutcome) (c : Card) (d : Demand) :
    (perform inField o c d).authSector = sectorAfter inField c.authSector d := by
  cases d with
  | access a =>
    simp only [perform, performAccess]
    cases a with
    | authenticate b =>
      simp only [sectorAfter]
      split <;> rfl
    | read b => split <;> rfl
    | write b data =>
      split
      · simp only [grant, writeBlock]
        split
        · rfl
        · simp [sectorAfter]
      · rfl
    | other => rfl
  | select =>
    simp only [perform, sectorAfter]
    split <;> rfl
  | release => rfl
  | other => rfl

end Es3Recomp.Model.CardReader
