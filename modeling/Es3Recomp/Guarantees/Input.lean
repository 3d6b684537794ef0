import Es3Recomp.Source.Input
import Es3Recomp.Source.Jvs.Packet

/-!
# What a person does reaches the game

The sampler for every board and the one inside the port agree, and what the port's board answers
to a request for its switches and channels is what the timetable and the sampler say.
-/
namespace Es3Recomp.Guarantees.Input
open Library Source.Jvs Source.Jvs.Switches Source.Input

/-! ## The two samplers -/

/-- A bit that is set or not. -/
def bitIf (pressed : Bool) (bit : UInt32) : UInt32 := if pressed then bit else 0

theorem orIf_eq (pressed : Bool) (bit bits : UInt32) :
    orIf pressed bit bits = bits ||| bitIf pressed bit := by
  cases pressed
  · exact UInt32.or_zero.symm
  · rfl

theorem bitIf_or (a b : Bool) (bit : UInt32) :
    bitIf (a || b) bit = bitIf a bit ||| bitIf b bit := by
  cases a <;> cases b <;> simp [bitIf]

/-- The switches of player 1 that a sample stands for. -/
def playerBits (o : Es3Input) : UInt32 :=
  bitIf o.start JVS_START ||| bitIf o.service JVS_SERV ||| bitIf o.up JVS_UP |||
    bitIf o.down JVS_DOWN ||| bitIf o.left JVS_LEFT ||| bitIf o.right JVS_RIGHT |||
    bitIf o.fire JVS_ITEM ||| bitIf o.fire2 JVS_PUSH2

/-- The sample of these devices, up to the coin. -/
def sampled (d : Devices) : Es3Input := d.pad.elim (es3Keys d) (es3Pad (es3Keys d))

theorem inP1_eq (inputs : Inputs) (d : Devices) :
    (withDevices inputs d).inP1 = playerBits (sampled d) := by
  unfold withDevices sampled
  cases d.pad with
  | none =>
    simp only [Option.elim_none, jvsKeys, playerBits, es3Keys, orIf_eq, UInt32.zero_or]
    ac_rfl
  | some p =>
    simp only [Option.elim_some, jvsKeys, jvsPad, playerBits, es3Keys, es3Pad, orIf_eq, bitIf_or,
      UInt32.zero_or]
    ac_rfl

/-- TEST, which is also on the pad here. -/
theorem inSys_eq (inputs : Inputs) (d : Devices) :
    (withDevices inputs d).inSys = bitIf ((sampled d).test || d.button 0x0200) 0x80 := by
  have key : (sampled d).test = d.down .t := by
    unfold sampled
    cases d.pad <;> rfl
  unfold withDevices
  rw [orIf_eq, orIf_eq, UInt32.zero_or, bitIf_or, key]

theorem steer_eq (d : Devices) : jvsSteer d = (sampled d).x := by
  unfold jvsSteer sampled
  cases d.pad <;> rfl

theorem gas_eq (d : Devices) : jvsGas d = (sampled d).throttle := by
  unfold jvsGas sampled
  cases d.pad <;> rfl

theorem brake_eq (d : Devices) : jvsBrake d = (sampled d).brake := by
  unfold jvsBrake sampled
  cases d.pad <;> rfl

/-! ## How far an axis goes -/

theorem stick_range (thumb : Int16) {keys : Int} (range : -32768 ≤ keys ∧ keys ≤ 32767) :
    -32768 ≤ stick thumb keys ∧ stick thumb keys ≤ 32767 := by
  unfold stick
  split
  · exact ⟨thumb.le_toInt, Int.le_of_lt_add_one thumb.toInt_lt⟩
  · exact range

theorem trigger_range (pressed : UInt8) {keys : Int} (range : 0 ≤ keys ∧ keys ≤ 255) :
    0 ≤ trigger pressed keys ∧ trigger pressed keys ≤ 255 := by
  unfold trigger
  split
  · have := pressed.toNat_lt
    omega
  · exact range

structure InRange (o : Es3Input) : Prop where
  x : -32768 ≤ o.x ∧ o.x ≤ 32767
  throttle : 0 ≤ o.throttle ∧ o.throttle ≤ 255
  brake : 0 ≤ o.brake ∧ o.brake ≤ 255

theorem inRange_keys (d : Devices) : InRange (es3Keys d) := by
  constructor <;> simp only [es3Keys]
  · split
    · decide
    · split <;> decide
  · split <;> decide
  · split <;> decide

theorem inRange_sampled (d : Devices) : InRange (sampled d) := by
  have keys := inRange_keys d
  unfold sampled
  cases d.pad with
  | none => exact keys
  | some p =>
    exact ⟨stick_range p.thumbLX keys.x, trigger_range p.rightTrigger keys.throttle,
      trigger_range p.leftTrigger keys.brake⟩

/-- The wheel's channel says where it is, to a half. -/
theorem toNat_steering {x : Int} (range : -32768 ≤ x ∧ x ≤ 32767) :
    ((steering x).toNat : Int) = 0x8000 + x.tdiv 2 := by
  have half : -16384 ≤ x.tdiv 2 ∧ x.tdiv 2 ≤ 16383 := by
    rw [Int.tdiv_eq_ediv, show Int.sign 2 = 1 from rfl]
    split <;> omega
  rw [steering, UInt32.ofInt, UInt32.toNat_ofNat']
  omega

/-- A pedal that is up reads 0, and one that is not the upper half of the range. -/
theorem toNat_pedal {pressed : Int} (range : 0 ≤ pressed ∧ pressed ≤ 255) :
    ((pedal pressed).toNat : Int) = if pressed = 0 then 0 else 0x8000 + pressed * 257 / 2 := by
  have half : (pressed * 257).tdiv 2 = pressed * 257 / 2 := Int.tdiv_eq_ediv_of_nonneg (by omega)
  by_cases up : pressed = 0
  · subst up
    rfl
  · have value : ((UInt32.ofInt (pressed * 257 / 2 + 0x8000)).toNat : Int) =
        0x8000 + pressed * 257 / 2 := by
      rw [UInt32.ofInt, UInt32.toNat_ofNat']
      omega
    have whole : ¬ 0xFFFF < UInt32.ofInt (pressed * 257 / 2 + 0x8000) := by
      rw [UInt32.lt_iff_toNat_lt]
      change ¬ 65535 < _
      omega
    simp only [pedal, half, ne_eq, up, not_false_eq_true, if_true, if_false, whole]
    exact value

/-! ## What the timetable leaves alone -/

/-- These switches, and the rest of what a person does. -/
def layered (switches person : Inputs) : Inputs :=
  { person with swSys := switches.swSys, swP1 := switches.swP1, swP2 := switches.swP2 }

def withPerson (s : Timetable) (person : Inputs) : Timetable :=
  { s with inputs := layered s.inputs person }

theorem apply_layered (switches person : Inputs) (k : Entry) :
    k.apply (layered switches person) = layered (k.apply switches) person := by
  unfold Entry.apply
  cases k.field <;> rfl

/-- One turn of the loop. -/
def applied (k : Entry) (s : Timetable) : Timetable :=
  { s with done := s.done + 1, inputs := k.apply s.inputs }

theorem applyDue_withPerson (elapsed : UInt32) (turns : Nat) (s : Timetable) (person : Inputs) :
    applyDue elapsed turns (withPerson s person) =
      (withPerson (applyDue elapsed turns s).1 person, (applyDue elapsed turns s).2) := by
  induction turns generalizing s with
  | zero => rfl
  | succ turns ih =>
    have same : (withPerson s person).seq[(withPerson s person).done]? = s.seq[s.done]? := rfl
    rw [applyDue, applyDue, same]
    cases s.seq[s.done]? with
    | none => rfl
    | some k =>
      dsimp only
      split
      next =>
        have step : applied k (withPerson s person) = withPerson (applied k s) person := by
          simp only [applied, withPerson, apply_layered]
        change ((applyDue elapsed turns (applied k (withPerson s person))).1,
            s.done :: (applyDue elapsed turns (applied k (withPerson s person))).2) =
          (withPerson (applyDue elapsed turns (applied k s)).1 person,
            s.done :: (applyDue elapsed turns (applied k s)).2)
        rw [step, ih]
      next => rfl

theorem seqTick_withPerson (s : Timetable) (person : Inputs) (now : UInt64) :
    seqTick (withPerson s person) now =
      (withPerson (seqTick s now).1 person, (seqTick s now).2) := by
  unfold seqTick
  change (if s.seq.length ≤ s.done then _ else _) = _
  split
  next => rfl
  next => exact applyDue_withPerson _ _ s person

theorem withDevices_layered (switches person : Inputs) (d : Devices) :
    withDevices (layered switches person) d = layered switches (withDevices person d) := rfl

/-- Only the last sample counts. -/
theorem withDevices_again (inputs : Inputs) (d later : Devices) :
    withDevices (withDevices inputs d) later = withDevices inputs later := by
  unfold withDevices
  congr 1
  funext k
  by_cases wheel : k.val = 0
  · simp only [if_pos wheel]
  · by_cases gas : k.val = 1
    · simp only [if_neg wheel, if_pos gas]
    · by_cases brake : k.val = 2
      · simp only [if_neg wheel, if_neg gas, if_pos brake]
      · simp only [if_neg wheel, if_neg gas, if_neg brake]

/-! ## Over a run -/

/-- What the last turn leaves of the person. -/
def personOf (off : Bool) (turns : List Turn) : Inputs :=
  if off then Inputs.initial
  else turns.getLast?.elim Inputs.initial fun t => withDevices Inputs.initial t.devices

theorem personOf_concat (turns : List Turn) (t : Turn) :
    withDevices (personOf false turns) t.devices = personOf false (turns ++ [t]) := by
  simp only [personOf, List.getLast?_concat, Option.elim_some, Bool.false_eq_true, if_false]
  cases turns.getLast? with
  | none => rfl
  | some earlier => exact withDevices_again _ _ _

theorem run_timetable (off : Bool) (env : Option Text) (t0 : UInt64) (turns : List Turn) :
    ((jvsTicker off).run (Ticker.start env t0) turns).1.timetable =
      withPerson (ticker.run (seqInit env t0) (turns.map (·.now))).1 (personOf off turns) := by
  induction turns using List.reverseRecOn with
  | nil => cases off <;> rfl
  | append_singleton turns t ih =>
    have ticks : (turns ++ [t]).map (·.now) = turns.map (·.now) ++ [t.now] := List.map_append
    rw [ticks, Transducer.run_concat, Transducer.run_concat]
    generalize ((jvsTicker off).run (Ticker.start env t0) turns).1 = s at ih
    generalize (ticker.run (seqInit env t0) (turns.map (·.now))).1 = tt at ih
    change (inputPoll off { s with timetable := (seqTick s.timetable t.now).1 } t.devices).1.timetable =
      withPerson (seqTick tt t.now).1 _
    rw [ih, seqTick_withPerson]
    cases off with
    | true => rfl
    | false =>
      simp only [inputPoll, Bool.false_eq_true, if_false, withPerson, withDevices_layered,
        personOf_concat]

/-- What the other sampler says of the same devices. -/
def samples (off : Bool) (turns : List Turn) : List Es3Input :=
  ((es3Sampler off).run Latch.initial (turns.map (·.devices))).2

/-- Its last sample, or none. -/
def lastSample (off : Bool) (turns : List Turn) : Es3Input :=
  (samples off turns).getLast?.getD {}

/-- TEST on the pad, which the other sampler does not know. -/
def operator (off : Bool) (turns : List Turn) : Bool :=
  !off && turns.getLast?.any fun t => t.devices.button 0x0200

/-- A sample without the fields that a sampler derives. -/
structure SameButDerived (o p : Es3Input) : Prop where
  bits : playerBits o = playerBits p
  test : o.test = p.test
  x : o.x = p.x
  throttle : o.throttle = p.throttle
  brake : o.brake = p.brake

theorem poll_on (latch : Latch) (d : Devices) :
    SameButDerived (es3InputPoll false latch d).2 (sampled d) := by
  unfold es3InputPoll sampled
  cases d.pad <;> exact ⟨rfl, rfl, rfl, rfl, rfl⟩

/-- The coins of both, turn by turn. -/
theorem run_coins (env : Option Text) (t0 : UInt64) (turns : List Turn) :
    ((jvsTicker false).run (Ticker.start env t0) turns).2.map (·.coin) =
        (samples false turns).map (·.coin) ∧
      ((jvsTicker false).run (Ticker.start env t0) turns).1.hadCoin =
        ((es3Sampler false).run Latch.initial (turns.map (·.devices))).1.hadCoin ∧
      ((es3Sampler false).run Latch.initial (turns.map (·.devices))).1.coins = 0 := by
  induction turns using List.reverseRecOn with
  | nil => exact ⟨rfl, rfl, rfl⟩
  | append_singleton turns t ih =>
    have polls : (turns ++ [t]).map (·.devices) = turns.map (·.devices) ++ [t.devices] :=
      List.map_append
    obtain ⟨coins, level, latch⟩ := ih
    rw [samples] at coins ⊢
    rw [polls, Transducer.run_concat, Transducer.run_concat, List.map_append, List.map_append, coins]
    generalize ((jvsTicker false).run (Ticker.start env t0) turns).1 = s at level
    generalize ((es3Sampler false).run Latch.initial (turns.map (·.devices))).1 = l at level latch
    refine ⟨?_, rfl, rfl⟩
    have edge : (t.devices.coin && !s.hadCoin) =
        decide ((if t.devices.coin && !l.hadCoin then l.coins + 1 else l.coins) ≠ 0) := by
      rw [level, latch]
      cases t.devices.coin && !l.hadCoin <;> rfl
    exact congrArg (fun c => _ ++ [c]) edge

theorem lastSample_concat (off : Bool) (turns : List Turn) (t : Turn) :
    ∃ latch, lastSample off (turns ++ [t]) = (es3InputPoll off latch t.devices).2 := by
  have polls : (turns ++ [t]).map (·.devices) = turns.map (·.devices) ++ [t.devices] :=
    List.map_append
  refine ⟨((es3Sampler off).run Latch.initial (turns.map (·.devices))).1, ?_⟩
  rw [lastSample, samples, polls, Transducer.run_concat]
  exact congrArg (fun last => last.getD ({} : Es3Input)) List.getLast?_concat

/-- The globals say what a sample says. -/
structure Says (b : Inputs) (o : Es3Input) (operator : Bool) : Prop where
  range : InRange o
  player : b.inP1 = playerBits o
  test : b.inSys = bitIf (o.test || operator) 0x80
  wheel : b.analog 0 = steering o.x
  gas : b.analog 1 = pedal o.throttle
  brake : b.analog 2 = pedal o.brake

theorem says_nothing : Says Inputs.initial {} false where
  range := ⟨by decide, by decide, by decide⟩
  player := by decide
  test := rfl
  wheel := by decide
  gas := by decide
  brake := by decide

theorem says_sampled {o : Es3Input} {d : Devices} (same : SameButDerived o (sampled d)) :
    Says (withDevices Inputs.initial d) o (d.button 0x0200) := by
  have range := inRange_sampled d
  constructor
  · exact ⟨same.x ▸ range.x, same.throttle ▸ range.throttle, same.brake ▸ range.brake⟩
  · rw [inP1_eq, same.bits]
  · rw [inSys_eq, same.test]
  · rw [same.x, ← steer_eq]
    rfl
  · rw [same.throttle, ← gas_eq]
    rfl
  · rw [same.brake, ← brake_eq]
    rfl

/-- The port's sampler leaves what the other one says. -/
theorem personOf_says (off : Bool) (turns : List Turn) :
    Says (personOf off turns) (lastSample off turns) (operator off turns) := by
  rcases List.eq_nil_or_concat turns with rfl | ⟨turns, t, rfl⟩
  · cases off <;> exact says_nothing
  · obtain ⟨latch, last⟩ := lastSample_concat off turns t
    rw [List.concat_eq_append, last]
    cases off with
    | true => exact says_nothing
    | false =>
      have here : operator false (turns ++ [t]) = t.devices.button 0x0200 := by
        rw [operator, List.getLast?_concat]
        rfl
      have person : personOf false (turns ++ [t]) = withDevices Inputs.initial t.devices := by
        rw [personOf, List.getLast?_concat]
        rfl
      rw [here, person]
      exact says_sampled (poll_on latch t.devices)

/-! ## On the wire -/

/-- What a game makes of an answer about two players of two bytes and three channels. -/
structure Panel where
  test : UInt8
  player1 : UInt16
  player2 : UInt16
  wheel : UInt16
  gas : UInt16
  brake : UInt16

def word (hi lo : UInt8) : UInt16 := (hi.toUInt16 <<< 8) ||| lo.toUInt16

/-- The status, then each report behind a byte of its own. -/
def readPanel : List UInt8 → Option Panel
  | [0x01, 0x01, test, h1, l1, h2, l2, 0x01, hw, lw, hg, lg, hb, lb] =>
    some ⟨test, word h1 l1, word h2 l2, word hw lw, word hg lg, word hb lb⟩
  | _ => none

theorem word_split (w : UInt32) : word (w >>> 8).toUInt8 w.toUInt8 = w.toUInt16 := by
  apply UInt16.toBitVec_inj.mp
  apply BitVec.eq_of_getLsbD_eq
  intro i inside
  have bit : (word (w >>> 8).toUInt8 w.toUInt8).toBitVec.getLsbD i =
      (!decide (i < 8) && (decide (i - 8 < 8) && w.toBitVec.getLsbD (8 + (i - 8))) ||
        (decide (i < 8) && w.toBitVec.getLsbD i)) := by
    simp only [word, UInt16.toBitVec_or, UInt16.toBitVec_shiftLeft, UInt8.toBitVec_toUInt16,
      UInt32.toBitVec_toUInt8, UInt32.toBitVec_shiftRight]
    simp [inside]
  rw [bit, UInt32.toBitVec_toUInt16, BitVec.getLsbD_setWidth, decide_eq_true inside, Bool.true_and]
  by_cases low : i < 8
  · simp [low]
  · have high : 8 + (i - 8) = i := by omega
    have near : i - 8 < 8 := by omega
    simp [low, high, near]

/-- SWINP for two players of two bytes, ADREAD for three channels. -/
def panelRequest : List UInt8 := [0x20, 2, 2, 0x22, 3]

theorem panel_answered (m : Machine) (b : Inputs) (p : JvsPort) {dest : UInt8}
    (reaches : dest = JVS_BROADCAST ∨ dest = p.address) (past : Nat → UInt8) :
    ∃ body, (handlePacket m b p dest (pointer panelRequest past) panelRequest.length).replied =
        some body ∧
      readPanel body = some
        { test := (b.swSys ||| b.inSys).toUInt8
          player1 := (b.swP1 ||| b.inP1).toUInt16
          player2 := b.swP2.toUInt16
          wheel := (b.analog 0).toUInt16
          gas := (b.analog 1).toUInt16
          brake := (b.analog 2).toUInt16 } := by
  have addressed : ¬ (dest ≠ JVS_BROADCAST ∧ dest ≠ p.address) := by
    rintro ⟨notAll, notMe⟩
    exact reaches.elim notAll notMe
  rw [handlePacket, if_neg addressed]
  refine ⟨[0x01, 0x01, (b.swSys ||| b.inSys).toUInt8,
    ((b.swP1 ||| b.inP1) >>> 8).toUInt8, (b.swP1 ||| b.inP1).toUInt8,
    (b.swP2 >>> 8).toUInt8, b.swP2.toUInt8, 0x01,
    (b.analog 0 >>> 8).toUInt8, (b.analog 0).toUInt8, (b.analog 1 >>> 8).toUInt8,
    (b.analog 1).toUInt8, (b.analog 2 >>> 8).toUInt8, (b.analog 2).toUInt8], ?_, ?_⟩
  · rfl
  · simp only [readPanel, word_split]

/-- The panel shows the timetable's switches and the sample. -/
structure Shows (p : Panel) (sw : Inputs) (o : Es3Input) (operator : Bool) : Prop where
  test : p.test = (sw.swSys ||| bitIf (o.test || operator) 0x80).toUInt8
  player1 : p.player1 = (sw.swP1 ||| playerBits o).toUInt16
  player2 : p.player2 = sw.swP2.toUInt16
  wheel : (p.wheel.toNat : Int) = 0x8000 + o.x.tdiv 2
  gas : (p.gas.toNat : Int) = if o.throttle = 0 then 0 else 0x8000 + o.throttle * 257 / 2
  brake : (p.brake.toNat : Int) = if o.brake = 0 then 0 else 0x8000 + o.brake * 257 / 2

theorem toNat_channel {w : UInt32} {n : Int} (value : (w.toNat : Int) = n) (fits : n < 0x10000) :
    (w.toUInt16.toNat : Int) = n := by
  rw [UInt32.toNat_toUInt16]
  omega

theorem pedal_fits {pressed : Int} (range : 0 ≤ pressed ∧ pressed ≤ 255) :
    (if pressed = 0 then 0 else 0x8000 + pressed * 257 / 2) < 0x10000 := by
  split <;> omega

theorem steering_fits {x : Int} (range : -32768 ≤ x ∧ x ≤ 32767) : 0x8000 + x.tdiv 2 < 0x10000 := by
  rw [Int.tdiv_eq_ediv, show Int.sign 2 = 1 from rfl]
  split <;> omega

/-- START and the coin on the keyboard, A and the stick on the pad. -/
def driving : Devices :=
  ⟨true, fun k => k = .enter ∨ k = .five, some ⟨0x1000, 0, 200, 12000, 0⟩⟩

end Es3Recomp.Guarantees.Input
