import Es3Recomp.Model.CardReader.Sessions

/-!
# The card is a block store

What the reader answers in a run (src/src/runtime/card.c:388-441, 524-550) is what a map
from blocks to sixteen bytes would answer: a block holds the last write that was
answered with success, block 0 what the card was loaded with, and the UID is its
first four bytes. The two counters are C integers of 32 bits.
-/
namespace Es3Recomp.Guarantees.CardReader
open Library Source.CardReader Model.CardReader

/-- What the reader has answered with success, in order. -/
def done (history : List Exchange) : List (Option Access) :=
  history.map fun e => doneBy e.body e.reply

theorem done_append (xs ys : List Exchange) : done (xs ++ ys) = done xs ++ done ys :=
  List.map_append

/-- What the last write of block `b` that was answered with success has left there. -/
def latest (loaded : Card) (history : List Exchange) (b : Nat) : List UInt8 :=
  (((done history).filterMap (writes b)).getLast?).getD (loaded.block b)

/-- The card of a session is the block store its history says, and so is the next
answer. -/
structure BlockStore (always : Bool) (loaded : Card) (s : Session) (history : List Exchange) :
    Prop where
  uid : s.card.uid.val = (s.card.block 0).take 4
  announced : ∀ body o, demandOf body = .select → s.inField always = true →
    reply always s body o =
      [0xD5, 0x4B, 0x01, 0x01, 0x00, 0x04, 0x08, 0x04] ++ (s.card.block 0).take 4
  first : s.card.block 0 = loaded.block 0
  blocks : ∀ b < BLOCKS, s.card.block b = latest loaded history b
  served : ∀ body o b, demandOf body = .access (.read b) → Succeeded (reply always s body o) →
    b < BLOCKS ∧ (reply always s body o).drop 3 = latest loaded history b
  kept : ∀ ev, ∀ b < BLOCKS, (∀ a ∈ done (s.step always ev).2, writes b a = none) →
    (s.step always ev).1.card.block b = s.card.block b
  reads : s.card.nReads = Int32.ofNat ((done history).countP isRead)
  readsExact : (done history).countP isRead < 2 ^ 31 →
    s.card.nReads.toInt = (done history).countP isRead
  writes : s.card.nWrites = Int32.ofNat ((done history).countP isWrite)
  writesExact : (done history).countP isWrite < 2 ^ 31 →
    s.card.nWrites.toInt = (done history).countP isWrite

/-! ## One command -/

theorem block_apart {b b' : Nat} (other : b ≠ b') : (blockSpan b).Apart (blockSpan b') := by
  simp only [Span.Apart, blockSpan, BLOCK_BYTES]
  omega

theorem load_block_store (mem : Memory) (b b' : Nat) {data : List UInt8}
    (whole : data.length = BLOCK_BYTES) :
    load (store mem (b * BLOCK_BYTES) data) (blockSpan b') =
      if b = b' then data else load mem (blockSpan b') := by
  by_cases same : b = b'
  · subst same
    rw [if_pos rfl, blockSpan, ← whole, load_store_take _ _ _ _ (Nat.le_refl _), List.take_length]
  · rw [if_neg same]
    apply load_store_clear
    rw [whole]
    exact block_apart same

theorem grant_block (o : SaveOutcome) (c : Card) {a : Access} (b : Nat)
    (whole : ∀ b' data, a = .write b' data → data.length = BLOCK_BYTES) :
    (grant o c a).block b = (writes b (some a)).getD (c.block b) := by
  cases a with
  | write b' data =>
    simp only [grant, writes, writeBlock]
    by_cases first : b' = 0
    · have none : ¬ (b' = b ∧ b ≠ 0) := by
        intro h
        exact h.2 (h.1 ▸ first)
      rw [if_pos first, if_neg none]
      rfl
    · rw [if_neg first]
      simp only [Card.block, cardSave_image, load_block_store _ _ _ (whole b' data rfl)]
      by_cases same : b' = b
      · rw [if_pos same, if_pos ⟨same, same ▸ first⟩]
        rfl
      · rw [if_neg same, if_neg fun h => same h.1]
        rfl
  | _ => rfl

theorem grant_uid (o : SaveOutcome) (c : Card) (a : Access) : (grant o c a).uid = c.uid := by
  cases a with
  | write b data =>
    simp only [grant, writeBlock]
    split <;> simp
  | _ => rfl

theorem grant_nReads (o : SaveOutcome) (c : Card) (a : Access) :
    (grant o c a).nReads = if isRead (some a) then c.nReads + 1 else c.nReads := by
  cases a with
  | write b data =>
    simp only [grant, writeBlock]
    split <;> simp [isRead]
  | _ => rfl

theorem grant_nWrites (o : SaveOutcome) (c : Card) (a : Access) :
    (grant o c a).nWrites = if isWrite (some a) then c.nWrites + 1 else c.nWrites := by
  cases a with
  | write b data =>
    by_cases first : b = 0 <;> simp [grant, writeBlock, isWrite, first]
  | _ => rfl

/-! ## Runs -/

/-- What the history says of the card: all else follows from it in any state. -/
structure Mirrors (loaded : Card) (c : Card) (history : List Exchange) : Prop where
  uid : c.uid = loaded.uid
  blocks : ∀ b, c.block b = latest loaded history b
  reads : c.nReads = Int32.ofNat ((done history).countP isRead)
  writes : c.nWrites = Int32.ofNat ((done history).countP isWrite)

theorem latest_append (loaded : Card) (history : List Exchange) (e : Exchange) (b : Nat) :
    latest loaded (history ++ [e]) b =
      (writes b (doneBy e.body e.reply)).getD (latest loaded history b) := by
  unfold latest
  rw [done_append, List.filterMap_append]
  cases stored : writes b (doneBy e.body e.reply) with
  | none => simp [done, stored]
  | some data => simp [done, stored]

theorem count_append (p : Option Access → Bool) (history : List Exchange) (e : Exchange) :
    Int32.ofNat ((done (history ++ [e])).countP p) =
      if p (doneBy e.body e.reply) then Int32.ofNat ((done history).countP p) + 1
      else Int32.ofNat ((done history).countP p) := by
  rw [done_append, List.countP_append]
  by_cases h : p (doneBy e.body e.reply) = true
  · simp [done, h]
  · simp [done, h]

/-- A block after a command: what the command was granted to write, or what it was. -/
theorem command_block (inField : Bool) (o : SaveOutcome) (c : Card) (body : List UInt8) (b : Nat) :
    (command inField o c body).1.block b =
      (writes b (doneBy body (command inField o c body).2)).getD (c.block b) := by
  rw [(command_spec inField o c body).card, doneBy_command]
  obtain ⟨a, granted, after⟩ | ⟨granted, k, after⟩ := perform_cases inField o c (demandOf body)
  · rw [granted, after]
    apply grant_block
    rintro b' data rfl
    exact length_granted granted
  · rw [granted, after]
    rfl

/-- A command writes the history on, and the card follows. -/
theorem mirrors_command {loaded : Card} {inField : Bool} {c : Card} {history : List Exchange}
    (o : SaveOutcome) (body : List UInt8) (before : Mirrors loaded c history) :
    Mirrors loaded (command inField o c body).1
      (history ++ [⟨body, (command inField o c body).2⟩]) := by
  have told := doneBy_command inField o c body
  have blocks : ∀ b, (command inField o c body).1.block b =
      latest loaded (history ++ [⟨body, (command inField o c body).2⟩]) b := by
    intro b
    rw [command_block, latest_append, before.blocks b]
  have card := (command_spec inField o c body).card
  obtain ⟨a, granted, after⟩ | ⟨granted, k, after⟩ := perform_cases inField o c (demandOf body)
  · rw [granted] at told
    rw [after] at card
    refine ⟨?_, blocks, ?_, ?_⟩
    · rw [card, grant_uid, before.uid]
    · rw [card, grant_nReads, count_append, told, before.reads]
    · rw [card, grant_nWrites, count_append, told, before.writes]
  · rw [granted] at told
    rw [after] at card
    refine ⟨?_, blocks, ?_, ?_⟩
    · rw [card, before.uid]
    · rw [card, count_append, told]
      exact before.reads
    · rw [card, count_append, told]
      exact before.writes

theorem mirrors_run (always : Bool) (w : LoadWorld) (now : UInt64) (events : List Event) :
    Mirrors (cardLoad w) ((session always).run (Session.start w now) events).1.card
      ((session always).run (Session.start w now) events).2 := by
  have fresh := fresh_cardLoad w
  refine (session always).run_induction
    (motive := fun s history => Mirrors (cardLoad w) s.card history) (Session.start w now) ?_ ?_ events
  · exact ⟨rfl, fun _ => rfl, fresh.nReads, fresh.nWrites⟩
  · intro s history ev before
    cases ev with
    | clock | tap => simpa [session, Session.step, es3CardTap] using before
    | command body o => exact mirrors_command o body before

theorem latest_zero (loaded : Card) (history : List Exchange) :
    latest loaded history 0 = loaded.block 0 := by
  have none : (done history).filterMap (writes 0) = [] := by
    apply List.filterMap_eq_nil_iff.mpr
    intro a _
    unfold writes
    split
    · exact if_neg fun h => h.2 rfl
    · rfl
  rw [latest, none]
  rfl

/-- In every run the card is the block store that its history of successful answers
says, and answers as one. -/
theorem card_block_store (always : Bool) (w : LoadWorld) (now : UInt64) (events : List Event) :
    BlockStore always (cardLoad w) ((session always).run (Session.start w now) events).1
      ((session always).run (Session.start w now) events).2 := by
  have mirrors := mirrors_run always w now events
  generalize ((session always).run (Session.start w now) events).1 = s at *
  generalize ((session always).run (Session.start w now) events).2 = history at *
  have first : s.card.block 0 = (cardLoad w).block 0 := by rw [mirrors.blocks, latest_zero]
  have uid : s.card.uid.val = (s.card.block 0).take 4 := by
    rw [mirrors.uid, first, (fresh_cardLoad w).uid]
  refine ⟨uid, ?_, first, fun b _ => mirrors.blocks b, ?_, ?_, mirrors.reads, ?_, mirrors.writes, ?_⟩
  · intro body o asked here
    rw [← uid]
    exact (command_spec _ o s.card body).announced asked here
  · intro body o b asked success
    have spec := command_spec (s.inField always) o s.card body
    have granted := (spec.status _ asked).mp success
    exact ⟨granted.2.1, (spec.data b asked granted).trans (mirrors.blocks b)⟩
  · intro ev b _ quiet
    cases ev with
    | clock | tap => simp only [Session.step, es3CardTap]
    | command body o =>
      have nothing := quiet (doneBy body (reply always s body o)) (by simp [Session.step, done])
      have block := command_block (s.inField always) o s.card body b
      rw [reply] at nothing
      rw [nothing] at block
      exact block
  · intro small
    rw [mirrors.reads, Int32.toInt_ofNat_of_lt small]
  · intro small
    rw [mirrors.writes, Int32.toInt_ofNat_of_lt small]

/-! ## A counter that wraps -/

/-- Authenticate block 4, and read it. -/
def openFour : Event := .command [0xD4, 0x40, 0x01, 0x60, 0x04] SaveOutcome.good

def readFour : Event := .command [0xD4, 0x40, 0x01, 0x30, 0x04] SaveOutcome.good

/-- A card that never leaves the reader answers the same read any number of times. -/
theorem done_reads (s : Session) (sector : s.card.authSector = 1) (n : Nat) :
    done ((session true).run s (List.replicate n readFour)).2 =
      List.replicate n (some (.read 4)) := by
  induction n generalizing s with
  | zero => rfl
  | succ n ih =>
    have asked : demandOf [0xD4, 0x40, 0x01, 0x30, 0x04] = .access (.read 4) := rfl
    have told := doneBy_reply true s [0xD4, 0x40, 0x01, 0x30, 0x04] SaveOutcome.good
    have kept := step_authSector true s [0xD4, 0x40, 0x01, 0x30, 0x04] SaveOutcome.good
    rw [asked, sector] at told kept
    have rest := ih (Session.step true s readFour).1 kept
    rw [List.replicate_succ, Transducer.run_cons, done_append]
    exact congrArg₂ (· ++ ·) (congrArg (fun a => [a]) told) rest

/-- After 2^31 reads the counter has gone negative. -/
theorem read_counter_wraps :
    let run := (session true).run (Session.start blankWorld 0)
      (openFour :: List.replicate (2 ^ 31) readFour)
    run.1.card.nReads.toInt ≠ (done run.2).countP isRead := by
  intro run
  have mirrors := mirrors_run true blankWorld 0 (openFour :: List.replicate (2 ^ 31) readFour)
  have count : (done run.2).countP isRead = 2 ^ 31 := by
    have opened : done (Session.step true (Session.start blankWorld 0) openFour).2 =
      [some (.authenticate 4)] := rfl
    have sector : (Session.step true (Session.start blankWorld 0) openFour).1.card.authSector = 1 :=
      rfl
    have reads := done_reads _ sector (2 ^ 31)
    have split : done run.2 = some (.authenticate 4) :: List.replicate (2 ^ 31) (some (.read 4)) := by
      apply (done_append _ _).trans
      rw [← reads]
      exact congrArg (· ++ _) opened
    rw [split, List.countP_cons_of_neg (by decide), List.countP_replicate, if_pos (by decide)]
  rw [mirrors.reads, count, Int32.toInt_ofNat']
  decide

end Es3Recomp.Guarantees.CardReader
