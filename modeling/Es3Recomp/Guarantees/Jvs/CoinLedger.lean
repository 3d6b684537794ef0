import Es3Recomp.Guarantees.Jvs.Answers
import Es3Recomp.Guarantees.Jvs.Errors
import Es3Recomp.Guarantees.Jvs.WholeReplies
import Es3Recomp.Model.Jvs.Ledger

/-!
# The coin counters as a ledger, and a command that is missing from it

The counters follow the insertions and the coin-decrease commands
(src/src/runtime/jvs.c:260-304, 757-760). A coin increase is acknowledged and nothing is
done about it (312); commands behind RESET or behind a full reply are not come to; COINP has
room for fourteen bits of a count, and a reply that does not fit its length byte is not sent
(173). In every run that has none of these in a way that counts, the counters are the ledger
of the run, and the replies that the game gets report it.
-/
namespace Es3Recomp.Guarantees.Jvs
open Library Source.Jvs Model.Jvs

/-! ## One command -/

def counts (p : JvsPort) : Fin JVS_COIN_SLOTS → Nat := fun k => (p.coin k).toNat

/-- It is no coin increase, or one that would change nothing. -/
def Effective : Command → Prop
  | .coinIncrease slot hi lo => (Entry.increase slot.toNat (amountOf hi lo)).Idle
  | _ => True

instance : DecidablePred Effective := fun c => by
  cases c <;> unfold Effective <;> infer_instance

theorem toNat_amount (hi lo : UInt8) :
    ((hi.toUInt32 <<< 8) ||| lo.toUInt32).toNat = amountOf hi lo := by
  have high := hi.toNat_lt
  have low := lo.toNat_lt
  have fits : hi.toNat <<< 8 < 2 ^ 32 := by
    rw [Nat.shiftLeft_eq]
    omega
  have shifted : (hi.toUInt32 <<< 8).toNat = hi.toNat <<< 8 := by
    rw [UInt32.toNat_shiftLeft, UInt8.toNat_toUInt32]
    exact Nat.mod_eq_of_lt fits
  rw [UInt32.toNat_or, shifted, UInt8.toNat_toUInt32, ← Nat.shiftLeft_add_eq_or_of_lt low,
    Nat.shiftLeft_eq, amountOf]
  omega

theorem counts_coinDecrease (p : JvsPort) (slot : UInt8) (amount : UInt32) :
    counts (Source.Jvs.coinDecrease p slot amount) =
      Entry.post (counts p) (.decrease slot.toNat amount.toNat) := by
  funext k
  have inside : k.val < 3 := k.isLt
  unfold Source.Jvs.coinDecrease
  rw [Entry.post]
  split
  next named =>
    by_cases here : slot.toNat = k.val + 1
    · have same : (⟨slot.toNat - 1, by omega⟩ : Fin JVS_COIN_SLOTS) = k := Fin.ext (by
        change slot.toNat - 1 = k.val
        omega)
      rw [if_pos here, counts]
      dsimp only
      rw [same, Function.update_self]
      split
      next more => exact UInt32.toNat_sub_of_le _ _ (UInt32.le_of_lt more)
      next less =>
        have order := UInt32.le_iff_toNat_le.mp (UInt32.not_lt.mp less)
        exact (Nat.sub_eq_zero_of_le order).symm
    · have other : k ≠ ⟨slot.toNat - 1, by omega⟩ := by
        intro same
        have value : k.val = slot.toNat - 1 := congrArg Fin.val same
        omega
      rw [if_neg here, counts]
      dsimp only
      rw [Function.update_of_ne other]
      rfl
  next unnamed =>
    have other : slot.toNat ≠ k.val + 1 := by
      intro here
      exact unnamed ⟨by omega, by rw [here]; exact k.isLt⟩
    rw [if_neg other]

theorem counts_effect {c : Command} (effective : Effective c) (p : JvsPort) :
    counts (c.effect p) = postAll (counts p) c.entries := by
  cases c with
  | coinDecrease slot hi lo =>
    rw [Command.effect, counts_coinDecrease, toNat_amount]
    rfl
  | coinIncrease slot hi lo =>
    have idle : (Entry.increase slot.toNat (amountOf hi lo)).Idle := effective
    exact (Entry.post_idle _ idle).symm
  | _ => rfl

theorem counts_afterAll {cs : List Command} (effective : ∀ c ∈ cs, Effective c) (p : JvsPort) :
    counts (afterAll cs p) = postAll (counts p) (cs.flatMap Command.entries) := by
  induction cs generalizing p with
  | nil => rfl
  | cons c cs ih =>
    obtain ⟨here, rest⟩ := List.forall_mem_cons.mp effective
    rw [List.flatMap_cons, postAll_append, ← counts_effect here]
    exact ih rest (c.effect p)

/-- What COINP answers for these counts: fourteen bits a slot, and 0 for one the node lacks. -/
def coinReport (count : Fin JVS_COIN_SLOTS → Nat) (slots : Nat) : List UInt8 :=
  (List.range slots).flatMap fun s =>
    let c := if h : s < JVS_COIN_SLOTS then count ⟨s, h⟩ else 0
    [UInt8.ofNat (c / 256), UInt8.ofNat (c % 256)]

theorem coinPReport_counts {p : JvsPort} {slots : Nat}
    (small : ∀ k : Fin JVS_COIN_SLOTS, k.val < slots → counts p k < 2 ^ 14) :
    coinPReport p slots = coinReport (counts p) slots := by
  apply List.flatMap_congr
  intro s member
  have here : (coinOf p s).toNat = if h : s < JVS_COIN_SLOTS then counts p ⟨s, h⟩ else 0 := by
    unfold coinOf
    split <;> rfl
  have bound : (coinOf p s).toNat < 2 ^ 14 := by
    rw [here]
    split
    next inside => exact small ⟨s, inside⟩ (List.mem_range.mp member)
    next => decide
  have high : ((coinOf p s >>> 8) &&& 0x3F).toUInt8 = UInt8.ofNat ((coinOf p s).toNat / 256) := by
    have six : (0x3F : UInt32).toNat = 2 ^ 6 - 1 := rfl
    have eight : (8 : UInt32).toNat % 32 = 8 := rfl
    apply UInt8.toNat_inj.mp
    rw [UInt32.toNat_toUInt8, UInt32.toNat_and, UInt32.toNat_shiftRight, UInt8.toNat_ofNat', six,
      eight, Nat.and_two_pow_sub_one_eq_mod, Nat.shiftRight_eq_div_pow]
    omega
  have low : (coinOf p s &&& 0xFF).toUInt8 = UInt8.ofNat ((coinOf p s).toNat % 256) := by
    have eight : (0xFF : UInt32).toNat = 2 ^ 8 - 1 := rfl
    apply UInt8.toNat_inj.mp
    rw [UInt32.toNat_toUInt8, UInt32.toNat_and, UInt8.toNat_ofNat', eight,
      Nat.and_two_pow_sub_one_eq_mod]
  dsimp only
  rw [← here, high, low]

/-! ## One packet -/

/-- The commands of a packet for this node. -/
def sent (h : Handled) : List Command :=
  match h.event with
  | .sumError _ _ => []
  | .packet dest data => if Accepts h.before dest then commandsIn h.data data.length else []

/-- Those that a packet was written from. -/
theorem sent_encode {m : Machine} {inputs : Inputs} {p q : JvsPort} {h : Handled}
    (as : HandledAs m inputs p h q) {dest : UInt8} {cs : List Command}
    (event : h.event = .packet dest (cs.flatMap Command.encode))
    (known : ∀ c ∈ cs, c.known = true) (ours : Accepts h.before dest) : sent h = cs := by
  obtain ⟨past, data⟩ := as.data
  rw [event, Event.data] at data
  simp only [sent, event, if_pos ours, data]
  exact commandsIn_encode known past

theorem commandsOf_sent (h : Handled) : commandsOf h = untilStop 1 (sent h) := by
  cases event : h.event with
  | sumError dest data => simp only [commandsOf, sent, event, untilStop]
  | packet dest data =>
    simp only [commandsOf, sent, event]
    split
    · exact executed_untilStop _ _
    · rfl

def entriesOf (h : Handled) : List Entry := (sent h).flatMap Command.entries

/-- A COINP asks for counts of at most fourteen bits. -/
def Readable (p : JvsPort) : Command → Prop
  | .coinP slots => ∀ k : Fin JVS_COIN_SLOTS, k.val < slots.toNat → counts p k < 2 ^ 14
  | _ => True

instance (p : JvsPort) : DecidablePred (Readable p) := fun c => by
  cases c <;> unfold Readable <;> infer_instance

/-- Each of the commands, in the state that those before it leave. -/
def AllReadable : List Command → JvsPort → Prop
  | [], _ => True
  | c :: cs, p => Readable p c ∧ AllReadable cs (c.effect p)

instance decidableAllReadable : ∀ (cs : List Command) (p : JvsPort), Decidable (AllReadable cs p)
  | [], _ => inferInstanceAs (Decidable True)
  | c :: cs, p =>
    have := decidableAllReadable cs (c.effect p)
    inferInstanceAs (Decidable (_ ∧ _))

theorem AllReadable.at {pre post : List Command} {c : Command} {p : JvsPort}
    (all : AllReadable (pre ++ c :: post) p) : Readable (afterAll pre p) c := by
  induction pre generalizing p with
  | nil => exact all.1
  | cons d pre ih => exact ih all.2

def asksCoins : Command → Bool
  | .coinP _ => true
  | _ => false

/-- The packet is answered, by a reply that fits its length byte and the FIFO. -/
structure Heard (h : Handled) : Prop where
  runs : ∀ c ∈ commandsOf h, c.stops = false
  short : 1 + ((commandsOf h).map Command.reportLength).sum ≤ 254
  room : (wire 0 (h.replied.getD [])).length ≤ h.before.out.room

instance : DecidablePred Heard := fun _ =>
  decidable_of_iff (_ ∧ _ ∧ _) ⟨fun h => ⟨h.1, h.2.1, h.2.2⟩, fun h => ⟨h.1, h.2, h.3⟩⟩

/-- What a packet has to be like for the counters to follow it. -/
structure Booked (h : Handled) : Prop where
  /-- No coin increase that would change a count is executed. -/
  effective : ∀ c ∈ commandsOf h, Effective c
  /-- No coin command that would change a count is left out. -/
  reached : ∀ c ∈ (sent h).drop (commandsOf h).length, ∀ e ∈ c.entries, e.Idle
  readable : AllReadable (commandsOf h) h.before
  /-- Who asks for the counts is told. -/
  heard : (∃ c ∈ commandsOf h, asksCoins c = true) → Heard h

instance : DecidablePred Booked := fun _ =>
  decidable_of_iff (_ ∧ _ ∧ _ ∧ _)
    ⟨fun h => ⟨h.1, h.2.1, h.2.2.1, h.2.2.2⟩, fun h => ⟨h.1, h.2, h.3, h.4⟩⟩

theorem counts_packet {m : Machine} {inputs : Inputs} {p q : JvsPort} {h : Handled}
    (as : HandledAs m inputs p h q) (booked : Booked h) :
    counts q = postAll (counts p) (entriesOf h) := by
  have front : commandsOf h <+: sent h := commandsOf_sent h ▸ untilStop_front 1 (sent h)
  have split : sent h = commandsOf h ++ (sent h).drop (commandsOf h).length :=
    List.prefix_iff_eq_append.mp front |>.symm
  have idle : ∀ e ∈ ((sent h).drop (commandsOf h).length).flatMap Command.entries, e.Idle := by
    intro e member
    obtain ⟨c, there, inside⟩ := List.mem_flatMap.mp member
    exact booked.reached c there e inside
  have same : counts q = counts (afterAll (commandsOf h) p) :=
    funext fun k => congrArg (fun coin => (coin k).toNat) (HandledAs.state as).coin
  rw [same, counts_afterAll booked.effective, entriesOf, split, List.flatMap_append,
    postAll_append, postAll_idle _ idle]

/-- What there is to say of a packet, `es` being the entries before it: after each of its
commands the counters are the ledger, that command included; COINP reports it, in a reply that
goes into the FIFO whole; and a packet that nothing stops is answered with the report of each
of its commands. -/
structure Answered (m : Machine) (inputs : Inputs) (es : List Entry) (h : Handled) : Prop where
  effects : ∀ pre c post, commandsOf h = pre ++ c :: post →
    counts (afterAll (pre ++ [c]) h.before) = ledger (es ++ (pre ++ [c]).flatMap Command.entries)
  coinP : ∀ pre slots post, commandsOf h = pre ++ .coinP slots :: post →
    (reportsOf m inputs (commandsOf h) h.before)[pre.length]? =
        some (0x01 :: coinReport (ledger (es ++ pre.flatMap Command.entries)) slots.toNat) ∧
      sentBy h = wire 0 (0x01 :: (reportsOf m inputs (commandsOf h) h.before).flatten)
  replied : commandsOf h ≠ [] → (∀ c ∈ commandsOf h, c.stops = false) →
    h.replied = some (0x01 :: (reportsOf m inputs (commandsOf h) h.before).flatten)

theorem HandledAs.replied_reports {m : Machine} {inputs : Inputs} {p q : JvsPort} {h : Handled}
    (as : HandledAs m inputs p h q) (some' : commandsOf h ≠ [])
    (runs : ∀ c ∈ commandsOf h, c.stops = false) :
    h.replied = some (0x01 :: (reportsOf m inputs (commandsOf h) h.before).flatten) := by
  rw [as.replied]
  unfold commandsOf at some' runs ⊢
  cases event : h.event with
  | sumError dest data => simp only [event, ne_eq, not_true_eq_false] at some'
  | packet dest data =>
    simp only [event] at some' runs ⊢
    by_cases ours : Accepts h.before dest
    · rw [if_pos ours] at runs ⊢
      simp only [bodyFor, if_pos ours, replyBody, endingOf_runs runs, performed, perform_reports]
      rfl
    · rw [if_neg ours] at some'
      exact absurd rfl some'

theorem length_reports (m : Machine) (inputs : Inputs) (cs : List Command) (p : JvsPort) :
    (reportsOf m inputs cs p).flatten.length = (cs.map Command.reportLength).sum := by
  induction cs generalizing p with
  | nil => rfl
  | cons c cs ih =>
    rw [reportsOf, List.flatten_cons, List.length_append, ih, Command.length_report, List.map_cons,
      List.sum_cons]

/-- A reply that fits goes into the FIFO whole. -/
theorem sentBy_heard {m : Machine} {inputs : Inputs} {p q : JvsPort} {h : Handled}
    (as : HandledAs m inputs p h q) (some' : commandsOf h ≠ []) (heard : Heard h) :
    sentBy h = wire 0 (0x01 :: (reportsOf m inputs (commandsOf h) h.before).flatten) := by
  have replied := HandledAs.replied_reports as some' heard.runs
  have short := heard.short
  have room := heard.room
  rw [replied, Option.getD_some] at room
  rw [← length_reports m inputs (commandsOf h) h.before] at short
  rw [sentBy, replied]
  dsimp only
  rw [if_neg (by rw [List.length_cons]; omega), List.take_of_length_le room]

theorem answered_packet {m : Machine} {inputs : Inputs} {p q : JvsPort} {h : Handled}
    (as : HandledAs m inputs p h q) (booked : Booked h) {es : List Entry}
    (before : counts p = ledger es) : Answered m inputs es h := by
  have start : counts h.before = ledger es := by
    rw [as.before]
    exact before
  have after : ∀ done rest, commandsOf h = done ++ rest →
      counts (afterAll done h.before) = ledger (es ++ done.flatMap Command.entries) := by
    intro done rest split
    have effective : ∀ c ∈ done, Effective c := fun c member =>
      booked.effective c (split ▸ List.mem_append_left _ member)
    rw [counts_afterAll effective, start, ledger, ledger, postAll_append]
  refine ⟨?_, ?_, HandledAs.replied_reports as⟩
  · intro pre c post split
    exact after (pre ++ [c]) post (by rw [split, List.append_assoc, List.singleton_append])
  · intro pre slots post split
    have readable : Readable (afterAll pre h.before) (.coinP slots) :=
      (split ▸ booked.readable : AllReadable (pre ++ .coinP slots :: post) h.before).at
    have listed : Command.coinP slots ∈ commandsOf h := by rw [split]; simp
    have heard := booked.heard ⟨_, listed, rfl⟩
    refine ⟨?_, sentBy_heard as (List.ne_nil_of_mem listed) heard⟩
    rw [split, reportsOf_split, Command.report, coinPReport_counts readable, after pre _ split]

/-! ## Runs -/

/-- The packets that a step handles. -/
def packets (s : Node) (op : Op) : List Handled := handledOf (board.step s op).2

/-- The entries that a step makes. -/
def bookings (s : Node) (op : Op) : List Entry :=
  match op with
  | .insertCoin => [.insert]
  | op => (packets s op).flatMap entriesOf

def history : Node → List Op → List Entry
  | _, [] => []
  | s, op :: ops => bookings s op ++ history (board.step s op).1 ops

theorem slots_pos : 0 < JVS_COIN_SLOTS := by decide

/-- An insertion does not make the counter of slot 1 start again. -/
def Room (s : Node) : Op → Prop
  | .insertCoin => counts s.port ⟨0, slots_pos⟩ + 1 < 2 ^ 32
  | _ => True

instance (s : Node) : DecidablePred (Room s) := fun op => by
  cases op <;> unfold Room <;> infer_instance

def Meets (s : Node) (op : Op) : Prop := Room s op ∧ ∀ h ∈ packets s op, Booked h

instance (s : Node) (op : Op) : Decidable (Meets s op) := inferInstanceAs (Decidable (_ ∧ _))

def MeetsAll : Node → List Op → Prop
  | _, [] => True
  | s, op :: ops => Meets s op ∧ MeetsAll (board.step s op).1 ops

instance decidableMeetsAll : ∀ (s : Node) (ops : List Op), Decidable (MeetsAll s ops)
  | _, [] => inferInstanceAs (Decidable True)
  | s, op :: ops =>
    have := decidableMeetsAll (board.step s op).1 ops
    inferInstanceAs (Decidable (_ ∧ _))

theorem consumeInput_counts (m : Machine) (inputs : Inputs) (p : JvsPort) :
    (∀ h ∈ (consumeInput m inputs p).2, Booked h) → ∀ es, counts p = ledger es →
      counts (consumeInput m inputs p).1 =
          ledger (es ++ (consumeInput m inputs p).2.flatMap entriesOf) ∧
        ∀ before h after, (consumeInput m inputs p).2 = before ++ h :: after →
          Answered m inputs (es ++ before.flatMap entriesOf) h := by
  refine consumeInput_induction m inputs (motive := fun p result =>
    (∀ h ∈ result.2, Booked h) → ∀ es, counts p = ledger es →
      counts result.1 = ledger (es ++ result.2.flatMap entriesOf) ∧
        ∀ before h after, result.2 = before ++ h :: after →
          Answered m inputs (es ++ before.flatMap entriesOf) h) ?_ ?_ p
  · intro p _ _ es start
    refine ⟨by rw [List.flatMap_nil, List.append_nil]; exact start, ?_⟩
    intro before h after split
    exact absurd split.symm (List.append_ne_nil_of_right_ne_nil _ (List.cons_ne_nil _ _))
  · intro p h q rest as ih booked es start
    obtain ⟨here, later⟩ := List.forall_mem_cons.mp booked
    have next : counts q = ledger (es ++ entriesOf h) := by
      rw [counts_packet as here, start, ledger, ledger, postAll_append]
    obtain ⟨final, answered⟩ := ih later _ next
    refine ⟨by rw [final, List.flatMap_cons, List.append_assoc], ?_⟩
    intro before h' after split
    cases before with
    | nil =>
      obtain ⟨rfl, -⟩ := List.cons.inj split
      rw [List.flatMap_nil, List.append_nil]
      exact answered_packet as here start
    | cons first before =>
      obtain ⟨rfl, tail⟩ := List.cons.inj split
      rw [List.flatMap_cons, ← List.append_assoc]
      exact answered before h' after tail

theorem counts_insertCoin {p : JvsPort} (room : counts p ⟨0, by decide⟩ + 1 < 2 ^ 32) :
    counts (insertCoin p) = Entry.insert.post (counts p) := by
  funext k
  rw [Entry.post, counts, coin_insertCoin]
  by_cases here : k.val = 0
  · obtain rfl : k = ⟨0, by decide⟩ := Fin.ext here
    rw [if_pos rfl, if_pos rfl, UInt32.toNat_add]
    exact Nat.mod_eq_of_lt room
  · rw [if_neg here, if_neg here]
    rfl

/-- Other calls leave the counters alone, and there is no packet. -/
theorem counts_step (s : Node) (op : Op) (other : op ≠ .insertCoin) :
    counts (board.step s op).1.port = counts (consumed s op).1 := by
  have same : (board.step s op).1.port.coin = (consumed s op).1.coin := by
    cases op with
    | write m env bytes => exact (finishRead_spec env (consumed s (.write m env bytes)).1).2.coin
    | read buf n => exact (es3JvsRead_spec s.port buf n).2.coin
    | postRead env thread posted buf n ovl routine =>
      exact (es3JvsPostRead_spec env s.port thread posted buf n ovl routine).2.coin
    | tick env => exact (finishRead_spec env s.port).2.coin
    | insertCoin => exact absurd rfl other
    | poll | setTimeouts | cancel => rfl
  exact congrArg (fun coin k => UInt32.toNat (coin k)) same

theorem packets_eq (s : Node) (op : Op) : packets s op = (consumed s op).2 := (step_spec s op).handled

theorem booked_step {s : Node} {op : Op} (meets : Meets s op) {es : List Entry}
    (start : counts s.port = ledger es) :
    counts (board.step s op).1.port = ledger (es ++ bookings s op) ∧
      ∀ m env bytes, op = .write m env bytes → ∀ before h after,
        packets s op = before ++ h :: after →
          Answered m s.inputs (es ++ before.flatMap entriesOf) h := by
  obtain ⟨room, booked⟩ := meets
  rw [packets_eq] at booked ⊢
  by_cases inserted : op = .insertCoin
  · subst inserted
    refine ⟨?_, nofun⟩
    have one : bookings s .insertCoin = [.insert] := rfl
    rw [one, ledger, postAll_append, ← ledger, ← start]
    exact counts_insertCoin room
  · have made : bookings s op = (consumed s op).2.flatMap entriesOf := by
      rw [← packets_eq]
      cases op with
      | insertCoin => exact absurd rfl inserted
      | _ => rfl
    rw [counts_step s op inserted, made]
    cases op with
    | write m env bytes =>
      have run := consumeInput_counts m s.inputs
        (s.port.setInp (s.port.inp ++ accepted s.port bytes)) booked es start
      refine ⟨run.1, ?_⟩
      rintro _ _ _ ⟨rfl⟩
      exact run.2
    | insertCoin => exact absurd rfl inserted
    | _ => exact ⟨start.trans (congrArg ledger (List.append_nil es).symm), nofun⟩

theorem meetsAll_append {s : Node} {ops more : List Op} (meets : MeetsAll s (ops ++ more)) :
    MeetsAll s ops ∧ MeetsAll (board.run s ops).1 more := by
  induction ops generalizing s with
  | nil => exact ⟨trivial, meets⟩
  | cons op ops ih =>
    obtain ⟨rest, later⟩ := ih meets.2
    exact ⟨⟨meets.1, rest⟩, later⟩

theorem counts_run {ops : List Op} {s : Node} (meets : MeetsAll s ops) (es : List Entry)
    (start : counts s.port = ledger es) :
    counts (board.run s ops).1.port = ledger (es ++ history s ops) := by
  induction ops generalizing s es with
  | nil => rwa [history, List.append_nil]
  | cons op ops ih =>
    rw [history, ← List.append_assoc]
    exact ih meets.2 _ (booked_step meets.1 start).1

/-- In a run without the packets and insertions that the counters do not follow, the counters
are the ledger of the run after every step and after every command of every packet, COINP
reports it, and the game gets what is sent, in order. -/
theorem coins_ledger {ops : List Op} (meets : MeetsAll Node.initial ops) :
    (∀ done rest, ops = done ++ rest →
      counts (board.run Node.initial done).1.port = ledger (history Node.initial done)) ∧
    (∀ done m env bytes rest, ops = done ++ .write m env bytes :: rest →
      ∀ before h after,
        packets (board.run Node.initial done).1 (.write m env bytes) = before ++ h :: after →
        Answered m (board.run Node.initial done).1.inputs
          (history Node.initial done ++ before.flatMap entriesOf) h) ∧
    stream (board.run Node.initial ops) =
      (handledOf (board.run Node.initial ops).2).flatMap sentBy := by
  have reached : ∀ done, MeetsAll Node.initial done →
      counts (board.run Node.initial done).1.port = ledger (history Node.initial done) :=
    fun done meets => counts_run meets [] rfl
  refine ⟨?_, ?_, stream_run ops⟩
  · rintro done rest rfl
    exact reached done (meetsAll_append meets).1
  · rintro done m env bytes rest rfl before h after
    obtain ⟨soFar, here, -⟩ := meetsAll_append meets
    exact (booked_step here (reached done soFar)).2 m env bytes rfl before h after

/-! ## A coin taken off, and one that is not added -/

/-- Two coins, and a packet that takes one off slot 1 and asks for two counts. -/
def twoCoins : List Op :=
  [.insertCoin, .insertCoin,
    .write .x86 ⟨0, true, true⟩ (wire 0xFF [0x30, 0x01, 0x00, 0x01, 0x21, 0x02])]

theorem two_coins_ledger :
    counts (board.run Node.initial twoCoins).1.port ⟨0, by decide⟩ = 1 ∧
      ledger (history Node.initial twoCoins) ⟨0, by decide⟩ = 1 := by
  have meets : MeetsAll Node.initial twoCoins := by decide +kernel
  have law := (coins_ledger meets).1 twoCoins [] (List.append_nil _).symm
  have one : ledger (history Node.initial twoCoins) ⟨0, by decide⟩ = 1 := by decide +kernel
  exact ⟨(congrFun law _).trans one, one⟩

/-- A packet that adds five coins to slot 1. -/
def fiveAdded : List Op :=
  [.write .x86 ⟨0, true, true⟩ (wire 0xFF [0x31, 0x01, 0x00, 0x05])]

/-- It is acknowledged, and slot 1 stays empty. -/
theorem coin_increase_ignored :
    (packets Node.initial (.write .x86 ⟨0, true, true⟩ (wire 0xFF [0x31, 0x01, 0x00, 0x05]))).map
        Handled.replied = [some [0x01, 0x01]] ∧
      history Node.initial fiveAdded = [.increase 1 5] ∧
      ledger (history Node.initial fiveAdded) ⟨0, by decide⟩ = 5 ∧
      counts (board.run Node.initial fiveAdded).1.port ⟨0, by decide⟩ = 0 := by
  decide +kernel

end Es3Recomp.Guarantees.Jvs
