import Es3Recomp.Model.CardReader.Consume

/-!
# A byte sequence that arrives in pieces

What `consume` takes off the front of its buffer does not depend on the bytes that have
not arrived, but for one thing: of an ACK or a NACK it drops six bytes, and five when
the sixth is not there yet (src/src/runtime/card.c:585-592). That sixth byte is its postamble.
Where a sender leaves it out, it is the first byte of the next frame.
-/
namespace Es3Recomp.Model.CardReader
open Library Source.CardReader

/-- A frame, an ACK or a NACK begins here. -/
def IsHeader : List UInt8 → Prop
  | a :: b :: c :: len :: lcs :: _ => IsStart a b c ∧ (IsAck len lcs ∨ len + lcs = 0)
  | _ => False

instance : DecidablePred IsHeader := fun inp => by
  unfold IsHeader
  split <;> infer_instance

/-- An ACK or a NACK without its postamble: the next header is right behind it. -/
def IsBare : List UInt8 → Prop
  | a :: b :: c :: len :: lcs :: rest => IsStart a b c ∧ IsAck len lcs ∧ IsHeader rest
  | _ => False

instance : DecidablePred IsBare := fun inp => by
  unfold IsBare
  split <;> infer_instance

/-- Nowhere that `consume` comes to, when it has all of `inp`, is there a bare one. -/
def Spaced (inp : List UInt8) : Prop := ∀ t, bufferScan.Visits inp t → ¬ IsBare t

theorem spaced_iff (inp : List UInt8) :
    Spaced inp ↔ ¬ IsBare inp ∧
      ∀ taken rest, bufferScan.next inp = some (taken, rest) → Spaced rest :=
  bufferScan.forall_visits_iff inp

theorem spaced_short {inp : List UInt8} (short : inp.length < 5) : Spaced inp := by
  refine (spaced_iff inp).mpr ⟨?_, ?_⟩
  · intro bare
    unfold IsBare at bare
    split at bare
    · simp only [List.length_cons] at short
      omega
    · exact bare
  · intro taken rest next
    simp [bufferScan, turn_short short] at next

/-! ## Turns and the bytes behind them -/

/-- When a turn takes a frame: all of it is there. -/
theorem turn_frame_iff (a b c len lcs : UInt8) (rest body : List UInt8) (dcs : UInt8) :
    turn (a :: b :: c :: len :: lcs :: rest) = .frame body dcs ↔
      (IsStart a b c ∧ ¬ IsAck len lcs ∧ len + lcs = 0) ∧ len.toNat + 2 ≤ rest.length ∧
        body = rest.take len.toNat ∧ dcs = rest.getD len.toNat 0 := by
  rw [turn_five]
  by_cases start : IsStart a b c
  · by_cases ack : IsAck len lcs
    · simp [start, ack]
    · by_cases sum : len + lcs = 0
      · by_cases short : rest.length < len.toNat + 2
        · simp [start, ack, sum, short]
        · have enough := Nat.not_lt.mp short
          simp [start, ack, sum, short, enough, eq_comm]
      · simp [start, ack, sum]
  · simp [start]

/-- When a turn moves on, and how far. -/
theorem turn_skip_iff (a b c len lcs : UInt8) (rest : List UInt8) (n : Nat) :
    turn (a :: b :: c :: len :: lcs :: rest) = .skip n ↔
      (IsStart a b c ∧ IsAck len lcs ∧ n = if rest = [] then 5 else 6) ∨
        ((IsStart a b c → ¬ IsAck len lcs ∧ len + lcs ≠ 0) ∧ n = 1) := by
  rw [turn_five]
  by_cases start : IsStart a b c
  · by_cases ack : IsAck len lcs
    · simp [start, ack, eq_comm]
    · by_cases sum : len + lcs = 0
      · by_cases short : rest.length < len.toNat + 2 <;> simp [start, ack, sum, short]
      · simp [start, ack, sum, eq_comm]
  · simp [start, eq_comm]

/-- A frame that is all there is taken whatever follows it. -/
theorem turn_frame_append (more : List UInt8) {inp body : List UInt8} {dcs : UInt8}
    (long : 5 + body.length + 2 ≤ inp.length) :
    turn (inp ++ more) = .frame body dcs ↔ turn inp = .frame body dcs := by
  rcases five_or_more inp with short | ⟨a, b, c, len, lcs, rest, rfl⟩
  · omega
  · simp only [List.length_cons] at long
    simp only [List.cons_append, turn_frame_iff]
    have same : len.toNat + 2 ≤ rest.length →
        (rest ++ more).take len.toNat = rest.take len.toNat ∧
          (rest ++ more).getD len.toNat 0 = rest.getD len.toNat 0 := by
      intro enough
      refine ⟨List.take_append_of_le_length (by omega), ?_⟩
      rw [List.getD_eq_getElem?_getD, List.getD_eq_getElem?_getD,
        List.getElem?_append_left (by omega)]
    constructor
    · rintro ⟨header, there, rfl, rfl⟩
      have enough : len.toNat + 2 ≤ rest.length := by
        rw [List.length_take] at long
        omega
      exact ⟨header, enough, same enough⟩
    · rintro ⟨header, enough, rfl, rfl⟩
      refine ⟨header, ?_, (same enough).1.symm, (same enough).2.symm⟩
      rw [List.length_append]
      omega

/-- Noise is skipped, and an ACK with its postamble, whatever follows. -/
theorem turn_skip_append (more : List UInt8) {inp : List UInt8} {n : Nat} (long : 5 ≤ inp.length)
    (inside : inp.length = 5 → n = 1) :
    turn (inp ++ more) = .skip n ↔ turn inp = .skip n := by
  rcases five_or_more inp with short | ⟨a, b, c, len, lcs, rest, rfl⟩
  · omega
  · simp only [List.cons_append, turn_skip_iff]
    by_cases five : rest = []
    · have one : n = 1 := inside (by rw [five]; rfl)
      have five' : ¬ n = if rest = [] then 5 else 6 := by rw [if_pos five]; omega
      have six' : ¬ n = if rest ++ more = [] then 5 else 6 := by split <;> omega
      simp only [five', six', and_false]
    · have more' : rest ++ more ≠ [] := by simp [five]
      rw [if_neg five, if_neg more']

theorem turn_noise {inp : List UInt8} (long : 5 ≤ inp.length) (noise : ¬ IsHeader inp) :
    turn inp = .skip 1 := by
  rcases five_or_more inp with short | ⟨a, b, c, len, lcs, rest, rfl⟩
  · omega
  · rw [turn_skip_iff]
    exact Or.inr ⟨fun start => not_or.mp fun known => noise ⟨start, known⟩, rfl⟩

theorem isHeader_of_isBare {inp : List UInt8} (bare : IsBare inp) : IsHeader inp := by
  rcases five_or_more inp with short | ⟨a, b, c, len, lcs, rest, rfl⟩
  · unfold IsBare at bare
    split at bare
    · simp only [List.length_cons] at short
      omega
    · exact bare.elim
  · exact ⟨bare.1, Or.inl bare.2.1⟩

/-! ## The frames of a sequence and of its pieces -/

theorem frames_wait {inp : List UInt8} (h : turn inp = .wait) : frames inp = ([], inp) :=
  bufferScan.all_stop (by simp only [bufferScan, h])

theorem frames_skip {inp : List UInt8} {n : Nat} (h : turn inp = .skip n) :
    frames inp = frames (inp.drop n) := by
  have next : bufferScan.next inp = some (none, inp.drop n) := by simp only [bufferScan, h]
  exact bufferScan.all_next next

theorem frames_frame {inp body : List UInt8} {dcs : UInt8} (h : turn inp = .frame body dcs) :
    frames inp = ((body, dcs) :: (frames (inp.drop (5 + body.length + 2))).1,
      (frames (inp.drop (5 + body.length + 2))).2) := by
  have next : bufferScan.next inp = some (some (body, dcs), inp.drop (5 + body.length + 2)) := by
    simp only [bufferScan, h]
  exact bufferScan.all_next next

/-- Induction over the turns that take the frames of a buffer. -/
theorem frames_induction {motive : List UInt8 → List Frame × List UInt8 → Prop}
    (wait : ∀ inp, turn inp = .wait → motive inp ([], inp))
    (skip : ∀ inp n result, turn inp = .skip n → motive (inp.drop n) result → motive inp result)
    (take : ∀ inp body dcs result, turn inp = .frame body dcs →
      motive (inp.drop (5 + body.length + 2)) result →
      motive inp ((body, dcs) :: result.1, result.2))
    (inp : List UInt8) : motive inp (frames inp) := by
  refine bufferScan.all_induction ?_ ?_ inp
  · intro inp stop
    simp only [bufferScan] at stop
    split at stop
    · rename_i found
      exact wait inp found
    · cases stop
    · cases stop
  · intro inp taken rest result next ih
    simp only [bufferScan] at next
    split at next
    · cases next
    · rename_i n found
      cases next
      exact skip inp n result found ih
    · rename_i body dcs found
      cases next
      exact take inp body dcs result found ih

theorem length_left (inp : List UInt8) : (frames inp).2.length ≤ inp.length := by
  refine frames_induction (motive := fun inp result => result.2.length ≤ inp.length) ?_ ?_ ?_ inp
  · intro inp _
    exact Nat.le_refl _
  · intro inp n result _ ih
    exact Nat.le_trans ih (List.drop_sublist _ _).length_le
  · intro inp body dcs result _ ih
    exact Nat.le_trans ih (List.drop_sublist _ _).length_le

theorem spaced_skip {inp : List UInt8} {n : Nat} (h : turn inp = .skip n) :
    Spaced inp ↔ ¬ IsBare inp ∧ Spaced (inp.drop n) := by
  rw [spaced_iff]
  simp [bufferScan, h]

theorem spaced_frame {inp body : List UInt8} {dcs : UInt8} (h : turn inp = .frame body dcs) :
    Spaced inp ↔ ¬ IsBare inp ∧ Spaced (inp.drop (5 + body.length + 2)) := by
  rw [spaced_iff]
  simp [bufferScan, h]

/-- Five bytes that are skipped, and not as noise. -/
theorem ack_alone {inp : List UInt8} {n : Nat} (five : inp.length = 5) (found : turn inp = .skip n)
    (far : n ≠ 1) : ∃ a b c len lcs, inp = [a, b, c, len, lcs] ∧ IsStart a b c ∧ IsAck len lcs ∧
      n = 5 := by
  rcases five_or_more inp with short | ⟨a, b, c, len, lcs, rest, rfl⟩
  · omega
  · have none : rest = [] := List.length_eq_zero_iff.mp (by simpa using five)
    rcases (turn_skip_iff ..).mp found with ⟨start, isAck, length⟩ | ⟨-, one⟩
    · exact ⟨a, b, c, len, lcs, by rw [none], start, isAck, by rw [length, if_pos none]⟩
    · exact absurd one far

/-- Behind an ACK that is all there was, its postamble is noise unless it belongs to a
header. -/
theorem frames_postamble {a b c len lcs : UInt8} {more : List UInt8} (start : IsStart a b c)
    (isAck : IsAck len lcs) (spaced : Spaced ([a, b, c, len, lcs] ++ more)) :
    (frames ([a, b, c, len, lcs] ++ more)).1 = (frames more).1 ∧ Spaced more := by
  have gone : turn ([a, b, c, len, lcs] ++ more) = .skip (if more = [] then 5 else 6) :=
    (turn_skip_iff ..).mpr (Or.inl ⟨start, isAck, rfl⟩)
  obtain ⟨apart, later⟩ := (spaced_skip gone).mp spaced
  rw [frames_skip gone]
  cases more with
  | nil => exact ⟨rfl, later⟩
  | cons x more =>
    have behind : ([a, b, c, len, lcs] ++ x :: more).drop 6 = more := rfl
    rw [if_neg (List.cons_ne_nil x more), behind] at later ⊢
    have noise : ¬ IsHeader (x :: more) := fun header => apart ⟨start, isAck, header⟩
    by_cases long : 5 ≤ (x :: more).length
    · have skip := turn_noise long noise
      refine ⟨by rw [frames_skip skip, List.drop_one, List.tail_cons], (spaced_skip skip).mpr ⟨?_, later⟩⟩
      exact fun bare => noise (isHeader_of_isBare bare)
    · have short : (x :: more).length < 5 := Nat.not_le.mp long
      have shorter : more.length < 5 := Nat.lt_of_succ_lt short
      refine ⟨?_, spaced_short short⟩
      rw [frames_wait (turn_short short), frames_wait (turn_short shorter)]

/-- The frames of `inp`, and then those that `more` completes, are all there are. -/
theorem frames_append (inp more : List UInt8) :
    Spaced (inp ++ more) →
      (frames (inp ++ more)).1 = (frames inp).1 ++ (frames ((frames inp).2 ++ more)).1 ∧
        Spaced ((frames inp).2 ++ more) := by
  refine frames_induction (motive := fun inp result => Spaced (inp ++ more) →
    (frames (inp ++ more)).1 = result.1 ++ (frames (result.2 ++ more)).1 ∧
      Spaced (result.2 ++ more)) ?_ ?_ ?_ inp
  · intro inp _ spaced
    exact ⟨rfl, spaced⟩
  · intro inp n result found ih spaced
    have bounds := turn_skip found
    have long : 5 ≤ inp.length := by
      by_contra less
      rw [turn_short (Nat.not_le.mp less)] at found
      cases found
    by_cases inside : inp.length = 5 → n = 1
    · have found' := (turn_skip_append more long inside).mpr found
      have rest : (inp ++ more).drop n = inp.drop n ++ more :=
        List.drop_append_of_le_length bounds.2
      have later := ((spaced_skip found').mp spaced).2
      rw [rest] at later
      rw [frames_skip found', rest]
      exact ih later
    · obtain ⟨five, far⟩ := Classical.not_imp.mp inside
      obtain ⟨a, b, c, len, lcs, rfl, start, isAck, rfl⟩ := ack_alone five found far
      obtain ⟨same, later⟩ := frames_postamble start isAck spaced
      rw [same]
      exact ih later
  · intro inp body dcs result found ih spaced
    have bounds := turn_frame found
    have found' := (turn_frame_append more bounds).mpr found
    have rest : (inp ++ more).drop (5 + body.length + 2) =
        inp.drop (5 + body.length + 2) ++ more := List.drop_append_of_le_length bounds
    have later := ((spaced_frame found').mp spaced).2
    rw [rest] at later
    rw [frames_frame found', rest, (ih later).1]
    exact ⟨rfl, (ih later).2⟩

/-- Pieces that arrive one after another: the frames taken, and what is left. -/
def framesOfPieces : List UInt8 → List (List UInt8) → List Frame × List UInt8
  | held, [] => ([], held)
  | held, piece :: pieces =>
    let here := frames (held ++ piece)
    let rest := framesOfPieces here.2 pieces
    (here.1 ++ rest.1, rest.2)

theorem turn_frames (inp : List UInt8) : turn (frames inp).2 = .wait := by
  have stop := bufferScan.next_all inp
  simp only [bufferScan] at stop
  split at stop
  · assumption
  · cases stop
  · cases stop

theorem frames_of_pieces {held : List UInt8} {pieces : List (List UInt8)}
    (settled : turn held = .wait) (spaced : Spaced (held ++ pieces.flatten)) :
    (framesOfPieces held pieces).1 = (frames (held ++ pieces.flatten)).1 := by
  induction pieces generalizing held with
  | nil =>
    rw [List.flatten_nil, List.append_nil, frames_wait settled]
    rfl
  | cons piece pieces ih =>
    rw [List.flatten_cons, ← List.append_assoc] at spaced ⊢
    obtain ⟨both, later⟩ := frames_append (held ++ piece) pieces.flatten spaced
    rw [both, ← ih (turn_frames _) later]
    rfl

/-! ## Where a bare ACK is cut off from what follows it -/

theorem length_frames (inp : List UInt8) : ∀ f ∈ (frames inp).1, f.1.length + 7 ≤ inp.length := by
  refine frames_induction
    (motive := fun inp result => ∀ f ∈ result.1, f.1.length + 7 ≤ inp.length) ?_ ?_ ?_ inp
  · nofun
  · intro inp n result _ ih f member
    have := ih f member
    rw [List.length_drop] at this
    omega
  · intro inp body dcs result found ih f member
    have whole := turn_frame found
    rcases List.mem_cons.mp member with rfl | later
    · dsimp only
      omega
    · have := ih f later
      rw [List.length_drop] at this
      omega

/-- A buffer that ends five bytes into what is arrived at is taken the same way so far. -/
theorem frames_arrive {inp t : List UInt8} (visits : bufferScan.Visits inp t)
    {head more : List UInt8} (split : t = head ++ more) (five : head.length = 5) :
    ∃ front taken, inp = front ++ t ∧ (frames inp).1 = taken ++ (frames t).1 ∧
      frames (front ++ head) = (taken ++ (frames head).1, (frames head).2) := by
  induction visits with
  | here t => exact ⟨[], [], rfl, rfl, rfl⟩
  | @next inp rest t dropped found _ ih =>
    obtain ⟨front, taken, whole, all, cut⟩ := ih split
    have step : ∀ n, n ≤ inp.length → rest = inp.drop n →
        inp = (inp.take n ++ (front ++ head)) ++ more ∧
          (inp.take n ++ (front ++ head)).length = n + front.length + 5 ∧
          (inp.take n ++ (front ++ head)).drop n = front ++ head ∧
          inp = (inp.take n ++ front) ++ t := by
      intro n inside behind
      have length : (inp.take n).length = n := List.length_take_of_le inside
      refine ⟨?_, ?_, List.drop_left' length, ?_⟩
      · rw [List.append_assoc, List.append_assoc, ← split, ← whole, behind, List.take_append_drop]
      · rw [List.length_append, List.length_append, length, five]
        omega
      · rw [List.append_assoc, ← whole, behind, List.take_append_drop]
    simp only [bufferScan] at found
    split at found
    · cases found
    · rename_i n turned
      cases found
      obtain ⟨parts, length, behind, front'⟩ := step n (turn_skip turned).2 rfl
      have moved := (turn_skip turned).1
      have turned' : turn (inp.take n ++ (front ++ head)) = .skip n :=
        (turn_skip_append more (by omega) (by omega)).mp (by rwa [← parts])
      refine ⟨inp.take n ++ front, taken, front', by rw [frames_skip turned, all], ?_⟩
      rw [List.append_assoc, frames_skip turned', behind, cut]
    · rename_i body dcs turned
      cases found
      obtain ⟨parts, length, behind, front'⟩ := step _ (turn_frame turned) rfl
      have turned' : turn (inp.take (5 + body.length + 2) ++ (front ++ head)) = .frame body dcs :=
        (turn_frame_append more (by omega)).mp (by rwa [← parts])
      refine ⟨inp.take (5 + body.length + 2) ++ front, (body, dcs) :: taken, front', ?_, ?_⟩
      · rw [frames_frame turned, all]
        rfl
      · rw [List.append_assoc, frames_frame turned', behind, cut]
        rfl

/-- An ACK or a NACK, without its postamble. -/
def bareAck (len lcs : UInt8) : List UInt8 := [0x00, 0x00, 0xFF, len, lcs]

/-- The one frame of a frame that was sent. -/
theorem frames_sent (body : List UInt8) (short : body.length ≤ 255) :
    frames (frame body) = ([(body, 0 - body.sum)], []) := by
  have turned := (frame_turn body [] short).1
  rw [List.append_nil] at turned
  have all : (frame body).length ≤ 5 + body.length + 2 := by
    simp only [frame, List.length_append, List.length_cons, List.length_nil]
    omega
  rw [frames_frame turned, List.drop_of_length_le all]
  rfl

/-- Cut off from the frame behind it, a bare ACK leaves that frame to be taken; with it
in one piece, it takes the frame's first byte away, and no such body is taken any more. -/
theorem frames_bare {inp body : List UInt8} {len lcs : UInt8} (isAck : IsAck len lcs)
    (short : body.length ≤ 255)
    (visits : bufferScan.Visits inp (bareAck len lcs ++ frame body)) :
    ∃ front, inp = front ++ bareAck len lcs ++ frame body ∧
      (framesOfPieces [] [front ++ bareAck len lcs, frame body]).1.map Prod.fst ≠
        (frames inp).1.map Prod.fst := by
  obtain ⟨front, taken, whole, all, cut⟩ := frames_arrive visits rfl rfl
  refine ⟨front, by rw [whole, List.append_assoc], ?_⟩
  have start : IsStart 0x00 0x00 0xFF := ⟨rfl, rfl, rfl⟩
  have alone : frames (bareAck len lcs) = ([], []) := by
    have turned : turn (bareAck len lcs) = .skip 5 :=
      (turn_skip_iff ..).mpr (Or.inl ⟨start, isAck, rfl⟩)
    rw [frames_skip turned]
    rfl
  have inPieces : (framesOfPieces [] [front ++ bareAck len lcs, frame body]).1 =
      taken ++ [(body, 0 - body.sum)] := by
    simp only [framesOfPieces, List.nil_append, cut, alone, frames_sent body short,
      List.append_nil]
  have turned : turn (bareAck len lcs ++ frame body) = .skip 6 :=
    (turn_skip_iff ..).mpr (Or.inl ⟨start, isAck, by rw [if_neg (by simp [frame])]⟩)
  have behind : (bareAck len lcs ++ frame body).drop 6 = (frame body).tail := rfl
  rw [inPieces, all, frames_skip turned, behind, List.map_append, List.map_append]
  intro same
  have bodies := List.append_cancel_left same
  have member : body ∈ (frames (frame body).tail).1.map Prod.fst := by
    rw [← bodies]
    exact List.mem_singleton.mpr rfl
  obtain ⟨f, there, rfl⟩ := List.mem_map.mp member
  have tail : (frame f.1).tail.length = f.1.length + 6 := by simp [frame]
  have length := length_frames _ f there
  rw [tail] at length
  omega

end Es3Recomp.Model.CardReader
