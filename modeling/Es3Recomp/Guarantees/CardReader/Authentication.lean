import Es3Recomp.Model.CardReader.Sessions

/-!
# A sector is read and written after it was authenticated

`g_auth_sector` is set by an authenticate and cleared by a select or a release
(src/src/runtime/card.c:407, 549, 567). Presence is a matter of the clock and of taps, and
nothing clears the variable when the card leaves the field; a refused authenticate
leaves it alone too. `Lapsed` is the history the variable does not keep.
-/
namespace Es3Recomp.Guarantees.CardReader
open Library Source.CardReader Model.CardReader

/-- The block an access touches. -/
def touched : Demand → Option Nat
  | .access (.read b) => some b
  | .access (.write b _) => some b
  | _ => none

/-- The event is a read or a write of block `b` that is answered with success. -/
def Touches (always : Bool) (s : Session) (ev : Event) (b : Nat) : Prop :=
  ∃ body o, ev = .command body o ∧ touched (demandOf body) = some b ∧
    Succeeded (reply always s body o)

/-- The event is an authenticate for sector `k` that is answered with success. -/
def Authenticates (always : Bool) (s : Session) (ev : Event) (k : Nat) : Prop :=
  ∃ body o b, ev = .command body o ∧ demandOf body = .access (.authenticate b) ∧ b / 4 = k ∧
    Succeeded (reply always s body o)

/-- The event takes nothing away from the authentication of sector `k`. -/
structure Keeps (always : Bool) (k : Nat) (s : Session) (ev : Event) : Prop where
  noOther : ∀ body o b, ev = .command body o → demandOf body = .access (.authenticate b) → b / 4 = k
  noSelect : ∀ body o, ev = .command body o → demandOf body = .select → s.inField always = false
  noRelease : ∀ body o, ev = .command body o → demandOf body ≠ .release

/-- All along the events the card is in the field and nothing is taken away. The
clock never goes back, so a card that is in the field after a step of the clock was
there all through it. -/
def Kept (always : Bool) (k : Nat) : Session → List Event → Prop
  | s, [] => s.inField always = true
  | s, ev :: rest =>
    s.inField always = true ∧ Keeps always k s ev ∧ Kept always k (s.step always ev).1 rest

/-- Every read and write answered with success comes after an authenticate for its
sector, and nothing was taken away in between. -/
def Disciplined (always : Bool) (s : Session) (events : List Event) : Prop :=
  ∀ pre ev post b, events = pre ++ ev :: post →
    Touches always ((session always).run s pre).1 ev b →
    ∃ front auth mid, pre = front ++ auth :: mid ∧
      Authenticates always ((session always).run s front).1 auth (b / 4) ∧
      Kept always (b / 4) ((session always).run s (front ++ [auth])).1 mid

/-! ## What the variable does not remember -/

/-- Since an authenticate was last accepted, the card has been out of the field or
an authenticate has been refused. -/
def lapsedStep (always : Bool) (s : Session) (lapsed : Bool) : Event → Bool
  | .command body _ =>
    match demandOf body with
    | .access (.authenticate b) =>
      ¬ Granted (s.inField always) s.card.authSector (.authenticate b)
    | _ => lapsed
  | ev => lapsed || !(s.step always ev).1.inField always

def lapsedFrom (always : Bool) : Session → Bool → List Event → Bool
  | _, lapsed, [] => lapsed
  | s, lapsed, ev :: rest =>
    lapsedFrom always (s.step always ev).1 (lapsedStep always s lapsed ev) rest

/-- From the start, when nothing is authenticated. -/
def Lapsed (always : Bool) (s : Session) (events : List Event) : Prop :=
  lapsedFrom always s true events = true

/-- The condition: no read or write finds its block unlocked by an authentication
that has lapsed. -/
def NoStaleAccess (always : Bool) (s : Session) (events : List Event) : Prop :=
  ∀ pre body o post b, events = pre ++ .command body o :: post →
    touched (demandOf body) = some b →
    ((session always).run s pre).1.inField always = true →
    Unlocked ((session always).run s pre).1.card.authSector b →
    ¬ Lapsed always s pre

/-! ## Runs from the right -/

section Runs
variable (always : Bool)

theorem lapsedFrom_append (s : Session) (lapsed : Bool) (xs ys : List Event) :
    lapsedFrom always s lapsed (xs ++ ys) =
      lapsedFrom always ((session always).run s xs).1 (lapsedFrom always s lapsed xs) ys := by
  induction xs generalizing s lapsed with
  | nil => rfl
  | cons x xs ih =>
    rw [List.cons_append, lapsedFrom, ih]
    rfl

theorem kept_snoc {k : Nat} {s : Session} {mid : List Event} {ev : Event}
    (kept : Kept always k s mid) (keeps : Keeps always k ((session always).run s mid).1 ev)
    (after : (Session.step always ((session always).run s mid).1 ev).1.inField always = true) :
    Kept always k s (mid ++ [ev]) := by
  induction mid generalizing s with
  | nil => exact ⟨kept, keeps, after⟩
  | cons e mid ih => exact ⟨kept.1, kept.2.1, ih kept.2.2 keeps after⟩

theorem inField_of_kept {k : Nat} {s : Session} {mid : List Event} (kept : Kept always k s mid) :
    ((session always).run s mid).1.inField always = true := by
  induction mid generalizing s with
  | nil => exact kept
  | cons e mid ih => exact ih kept.2.2

theorem succeeded_iff {s : Session} {body : List UInt8} {a : Access} (o : SaveOutcome)
    (asked : demandOf body = .access a) :
    Succeeded (reply always s body o) ↔ Granted (s.inField always) s.card.authSector a :=
  (command_spec (s.inField always) o s.card body).status a asked

/-! ## The variable and the history -/

/-- The authentication of sector `k` goes back to an authenticate in these events,
and nothing was taken away since. -/
def Justified (s : Session) (pre : List Event) (k : Nat) : Prop :=
  ∃ front auth mid, pre = front ++ auth :: mid ∧
    Authenticates always ((session always).run s front).1 auth k ∧
    Kept always k ((session always).run s (front ++ [auth])).1 mid

theorem run_justified {s : Session} {front mid : List Event} {auth : Event} :
    ((session always).run ((session always).run s (front ++ [auth])).1 mid).1 =
      ((session always).run s (front ++ auth :: mid)).1 := by
  rw [List.append_cons front auth mid, Transducer.run_append _ s (front ++ [auth]) mid]

theorem justified_snoc {s : Session} {pre : List Event} {k : Nat} {ev : Event}
    (justified : Justified always s pre k)
    (keeps : Keeps always k ((session always).run s pre).1 ev)
    (after : (Session.step always ((session always).run s pre).1 ev).1.inField always = true) :
    Justified always s (pre ++ [ev]) k := by
  obtain ⟨front, auth, mid, rfl, granted, kept⟩ := justified
  refine ⟨front, auth, mid ++ [ev], by simp, granted, ?_⟩
  apply kept_snoc always kept
  · rwa [run_justified]
  · rwa [run_justified]

theorem inField_of_justified {s : Session} {pre : List Event} {k : Nat}
    (justified : Justified always s pre k) :
    ((session always).run s pre).1.inField always = true := by
  obtain ⟨front, auth, mid, rfl, -, kept⟩ := justified
  rw [← run_justified]
  exact inField_of_kept always kept

theorem lapsedStep_command (s : Session) (lapsed : Bool) {body : List UInt8} (o : SaveOutcome)
    (notAuth : ∀ b, demandOf body ≠ .access (.authenticate b)) :
    lapsedStep always s lapsed (.command body o) = lapsed := by
  unfold lapsedStep
  dsimp only
  split
  · rename_i b asked
    exact absurd asked (notAuth b)
  · rfl

/-- A sector that is still authenticated after a command was so before it. -/
theorem sectorAfter_kept {inField : Bool} {authSector : Int} {d : Demand} {k : Nat}
    (notAuth : ∀ b, d ≠ .access (.authenticate b)) (sector : sectorAfter inField authSector d = k) :
    authSector = k ∧ (d = .select → inField = false) ∧ d ≠ .release := by
  cases d with
  | access a =>
    refine ⟨?_, by simp, by simp⟩
    cases a with
    | authenticate b => exact absurd rfl (notAuth b)
    | _ => exact sector
  | select =>
    cases inField with
    | true => simp [sectorAfter] at sector
    | false => exact ⟨sector, fun _ => rfl, by simp⟩
  | release => simp [sectorAfter] at sector
  | other => exact ⟨sector, by simp, by simp⟩

/-- One event keeps the variable justified as long as nothing has lapsed. -/
theorem justified_step {s : Session} {pre : List Event} (ev : Event)
    (before : lapsedFrom always s true pre = false → ∀ k : Nat,
      ((session always).run s pre).1.card.authSector = k → Justified always s pre k)
    (fresh : lapsedFrom always s true (pre ++ [ev]) = false) (k : Nat)
    (sector : ((session always).run s (pre ++ [ev])).1.card.authSector = k) :
    Justified always s (pre ++ [ev]) k := by
  rw [lapsedFrom_append] at fresh
  rw [run_snoc] at sector
  simp only [lapsedFrom] at fresh
  cases ev with
  | clock t =>
    simp only [lapsedStep, Bool.or_eq_false_iff, Bool.not_eq_false'] at fresh
    exact justified_snoc always (before fresh.1 k sector) ⟨nofun, nofun, nofun⟩ fresh.2
  | tap =>
    simp only [lapsedStep, Bool.or_eq_false_iff, Bool.not_eq_false'] at fresh
    exact justified_snoc always (before fresh.1 k sector) ⟨nofun, nofun, nofun⟩ fresh.2
  | command body o =>
    rw [step_authSector] at sector
    generalize hs : ((session always).run s pre).1 = here at *
    by_cases isAuth : ∃ b, demandOf body = .access (.authenticate b)
    · obtain ⟨b, asked⟩ := isAuth
      simp only [lapsedStep, asked, decide_eq_false_iff_not, not_not] at fresh
      simp only [asked, sectorAfter, if_pos fresh] at sector
      refine ⟨pre, _, [], rfl, ⟨body, o, b, rfl, asked, Int.ofNat_inj.mp sector, ?_⟩, ?_⟩
      · rw [hs]
        exact (succeeded_iff always o asked).mpr fresh
      · rw [run_snoc, hs]
        exact fresh.1
    · have notAuth : ∀ b, demandOf body ≠ .access (.authenticate b) := not_exists.mp isAuth
      rw [lapsedStep_command always here _ o notAuth] at fresh
      obtain ⟨same, notSelect, notRelease⟩ := sectorAfter_kept notAuth sector
      have justified := before fresh k same
      have present := inField_of_justified always justified
      rw [hs] at present
      refine justified_snoc always justified ⟨?_, ?_, ?_⟩ ?_
      · intro body' o' b same' asked
        cases same'
        exact absurd asked (notAuth b)
      · intro body' o' same' asked
        cases same'
        rw [hs]
        exact notSelect asked
      · intro body' o' same' asked
        cases same'
        exact notRelease asked
      · rw [hs, step_inField]
        exact present

/-- A sector that is authenticated and has not lapsed goes back to an authenticate. -/
theorem justified_run (w : LoadWorld) (now : UInt64) (pre : List Event)
    (fresh : lapsedFrom always (Session.start w now) true pre = false) (k : Nat)
    (sector : ((session always).run (Session.start w now) pre).1.card.authSector = k) :
    Justified always (Session.start w now) pre k := by
  induction pre using List.reverseRecOn generalizing k with
  | nil => cases fresh
  | append_singleton pre ev ih => exact justified_step always ev ih fresh k sector

/-- As long as nothing is taken away, nothing lapses. -/
theorem lapsed_of_kept {k : Nat} {s : Session} {mid : List Event} (inside : k < 16)
    (kept : Kept always k s mid) : lapsedFrom always s false mid = false := by
  induction mid generalizing s with
  | nil => rfl
  | cons ev mid ih =>
    obtain ⟨here, keeps, rest⟩ := kept
    have after : (Session.step always s ev).1.inField always = true := by
      cases mid with
      | nil => exact rest
      | cons => exact rest.1
    suffices same : lapsedStep always s false ev = false by
      rw [lapsedFrom, same]
      exact ih rest
    cases ev with
    | clock t => simp only [lapsedStep, after, Bool.not_true, Bool.or_false]
    | tap => simp only [lapsedStep, after, Bool.not_true, Bool.or_false]
    | command body o =>
      by_cases isAuth : ∃ b, demandOf body = .access (.authenticate b)
      · obtain ⟨b, asked⟩ := isAuth
        have sector := keeps.noOther body o b rfl asked
        have granted : Granted (s.inField always) s.card.authSector (.authenticate b) := by
          refine ⟨here, ?_⟩
          show b < 64
          omega
        simp only [lapsedStep, asked, granted, not_true_eq_false, decide_false]
      · exact lapsedStep_command always s false o (not_exists.mp isAuth)

theorem granted_touched {inField : Bool} {authSector : Int} {a : Access} {b : Nat}
    (at_ : touched (.access a) = some b) :
    Granted inField authSector a ↔ inField = true ∧ Unlocked authSector b := by
  cases a with
  | read b' =>
    cases at_
    exact Iff.rfl
  | write b' data =>
    cases at_
    exact Iff.rfl
  | authenticate b' => cases at_
  | other => cases at_

theorem access_of_touched {d : Demand} {b : Nat} (at_ : touched d = some b) :
    ∃ a, d = .access a := by
  cases d with
  | access a => exact ⟨a, rfl⟩
  | _ => cases at_

theorem touches_iff (s : Session) {body : List UInt8} (o : SaveOutcome) {b : Nat}
    (at_ : touched (demandOf body) = some b) :
    Touches always s (.command body o) b ↔
      s.inField always = true ∧ Unlocked s.card.authSector b := by
  obtain ⟨a, asked⟩ := access_of_touched at_
  rw [← granted_touched (asked ▸ at_), ← succeeded_iff always o asked]
  constructor
  · rintro ⟨body', o', same, -, success⟩
    cases same
    exact success
  · intro success
    exact ⟨body, o, rfl, at_, success⟩

theorem disciplined_of_noStale (w : LoadWorld) (now : UInt64) (events : List Event)
    (fresh : NoStaleAccess always (Session.start w now) events) :
    Disciplined always (Session.start w now) events := by
  intro pre ev post b split touches
  obtain ⟨body, o, rfl, at_, success⟩ := touches
  obtain ⟨here, unlocked⟩ := (touches_iff always _ o at_).mp ⟨body, o, rfl, at_, success⟩
  have notLapsed := fresh pre body o post b split at_ here unlocked
  exact justified_run always w now pre (Bool.not_eq_true _ ▸ notLapsed) _ unlocked.2

theorem noStale_of_disciplined (s : Session) (events : List Event)
    (disciplined : Disciplined always s events) : NoStaleAccess always s events := by
  intro pre body o post b split at_ here unlocked lapsed
  obtain ⟨front, auth, mid, rfl, granted, kept⟩ :=
    disciplined pre _ post b split ((touches_iff always _ o at_).mpr ⟨here, unlocked⟩)
  obtain ⟨body', o', b', rfl, asked, -, success⟩ := granted
  have fresh : lapsedStep always ((session always).run s front).1
      (lapsedFrom always s true front) (.command body' o') = false := by
    simp only [lapsedStep, asked, (succeeded_iff always o' asked).mp success, not_true_eq_false,
      decide_false]
  have inside : b / 4 < 16 := by
    have : b < 64 := unlocked.1
    omega
  rw [Lapsed, List.append_cons, lapsedFrom_append, lapsedFrom_append] at lapsed
  simp only [lapsedFrom] at lapsed
  rw [fresh, lapsed_of_kept always inside kept] at lapsed
  cases lapsed

end Runs

/-- In every run, reads and writes keep the discipline exactly when none of them finds
its block unlocked by an authentication that has lapsed. -/
theorem authentication_discipline_iff (always : Bool) (w : LoadWorld) (now : UInt64)
    (events : List Event) :
    Disciplined always (Session.start w now) events ↔
      NoStaleAccess always (Session.start w now) events :=
  ⟨noStale_of_disciplined always _ events, disciplined_of_noStale always w now events⟩

/-! ## A card that is taken away and tapped again -/

/-- Tap, authenticate block 0, three seconds pass, tap again. -/
def retapped : List Event :=
  [.tap, .command [0xD4, 0x40, 0x01, 0x60, 0x00] SaveOutcome.good, .clock 3000, .tap]

/-- Read block 0. -/
def readFirst : Event := .command [0xD4, 0x40, 0x01, 0x30, 0x00] SaveOutcome.good

/-- The read is answered, though the card left the field after it was authenticated. -/
theorem retapped_not_disciplined :
    ¬ Disciplined false (Session.start blankWorld 0) (retapped ++ [readFirst]) := by
  intro disciplined
  apply noStale_of_disciplined false _ _ disciplined retapped _ _ [] 0 rfl rfl
  · decide
  · decide
  · rfl

end Es3Recomp.Guarantees.CardReader
