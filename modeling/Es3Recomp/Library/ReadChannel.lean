import Es3Recomp.Library.Transducer

/-!
# A byte channel with one read outstanding

One side puts elements into a queue, the other asks for a number of them: at once
(`take`), or later, when enough are waiting or a deadline has passed (`Request`). One
request is outstanding at a time; each `settle` looks at it. `run_inOrder` says that
everything delivered, and then the queue, is what arrived; `completions_run` that a
request ends as `fate` says, once at most.
-/
namespace Es3Recomp.Library

/-- `ticket` is whatever the completion is told by. -/
structure Request (κ τ : Type) where
  len : Nat
  /-- `none`: wait for the elements, however long -/
  deadline : Option τ
  ticket : κ

/-- The request can be completed with what is waiting at the time `now`. -/
def Request.Due {κ τ : Type} [LE τ] (r : Request κ τ) (waiting : Nat) (now : τ) : Prop :=
  r.len ≤ waiting ∨ ∃ d ∈ r.deadline, d ≤ now

instance {κ τ : Type} [LE τ] [DecidableLE τ] (r : Request κ τ) (waiting : Nat) (now : τ) :
    Decidable (r.Due waiting now) := inferInstanceAs (Decidable (_ ∨ _))

structure Channel (α κ τ : Type) where
  queue : List α
  pending : Option (Request κ τ)

namespace Channel

inductive Move (α κ τ δ : Type) where
  /-- elements arrive, a request may be posted, then the outstanding one is looked at -/
  | settle (arrived : List α) (posted : Option (Request κ τ)) (now : τ)
  /-- up to `n` elements now, to the destination `dest` -/
  | take (n : Nat) (dest : δ)
  | cancel
  | idle

inductive Delivery (α κ τ δ : Type) where
  | taken (dest : δ) (elements : List α)
  | completed (r : Request κ τ) (elements : List α)

variable {α κ τ δ : Type}

def Move.arrived : Move α κ τ δ → List α
  | .settle arrived _ _ => arrived
  | _ => []

def Move.posted : Move α κ τ δ → Option (Request κ τ)
  | .settle _ posted _ => posted
  | _ => none

def Delivery.elements : Delivery α κ τ δ → List α
  | .taken _ elements => elements
  | .completed _ elements => elements

def Delivery.isCompletion : Delivery α κ τ δ → Bool
  | .completed _ _ => true
  | .taken _ _ => false

def completions (ds : List (Delivery α κ τ δ)) : List (Delivery α κ τ δ) :=
  ds.filter Delivery.isCompletion

theorem completions_append (xs ys : List (Delivery α κ τ δ)) :
    completions (xs ++ ys) = completions xs ++ completions ys := List.filter_append _ _

/-- No move posts a request. -/
def NonePosted (moves : List (Move α κ τ δ)) : Prop := ∀ m ∈ moves, m.posted = none

theorem NonePosted.tail {m : Move α κ τ δ} {moves : List (Move α κ τ δ)}
    (h : NonePosted (m :: moves)) : NonePosted moves :=
  fun m' member => h m' (List.mem_cons_of_mem m member)

section Steps
variable [LE τ] [DecidableLE τ]

/-- Complete the outstanding request if it is due. -/
def settle (now : τ) (c : Channel α κ τ) : Channel α κ τ × List (Delivery α κ τ δ) :=
  match c.pending with
  | none => (c, [])
  | some r =>
    if r.Due c.queue.length now then
      (⟨c.queue.drop r.len, none⟩, [.completed r (c.queue.take r.len)])
    else (c, [])

def step (c : Channel α κ τ) : Move α κ τ δ → Channel α κ τ × List (Delivery α κ τ δ)
  | .settle arrived posted now => settle now ⟨c.queue ++ arrived, posted.or c.pending⟩
  | .take n dest => (⟨c.queue.drop n, c.pending⟩, [.taken dest (c.queue.take n)])
  | .cancel => (⟨c.queue, none⟩, [])
  | .idle => (c, [])

def machine : Transducer (Channel α κ τ) (Move α κ τ δ) (Delivery α κ τ δ) := ⟨step⟩

/-- Nothing waits and nothing was asked for. -/
def empty : Channel α κ τ := ⟨[], none⟩

/-- What becomes of a request when these moves follow and none of them posts another:
it is completed by the first `settle` that finds it due, unless it is cancelled before. -/
def fate (r : Request κ τ) : List α → List (Move α κ τ δ) → List (Delivery α κ τ δ)
  | _, [] => []
  | queue, .settle arrived _ now :: moves =>
    if r.Due (queue ++ arrived).length now then [.completed r ((queue ++ arrived).take r.len)]
    else fate r (queue ++ arrived) moves
  | queue, .take n _ :: moves => fate r (queue.drop n) moves
  | _, .cancel :: _ => []
  | queue, .idle :: moves => fate r queue moves

/-! ## Everything, once, in order -/

theorem settle_inOrder (now : τ) (c : Channel α κ τ) :
    (settle now c).2.flatMap (Delivery.elements (δ := δ)) ++ (settle (δ := δ) now c).1.queue =
      c.queue := by
  unfold settle
  split
  · rfl
  · split
    · simp [Delivery.elements]
    · rfl

theorem step_inOrder (c : Channel α κ τ) (m : Move α κ τ δ) :
    (step c m).2.flatMap Delivery.elements ++ (step c m).1.queue = c.queue ++ m.arrived := by
  cases m with
  | settle arrived posted now => exact settle_inOrder now _
  | take n dest => simp [step, Delivery.elements, Move.arrived]
  | cancel | idle => simp [step, Move.arrived]

/-- What a run delivers, and then what still waits, is what waited and what arrived. -/
theorem run_inOrder (c : Channel α κ τ) (moves : List (Move α κ τ δ)) :
    (machine.run c moves).2.flatMap Delivery.elements ++ (machine.run c moves).1.queue =
      c.queue ++ moves.flatMap Move.arrived := by
  induction moves generalizing c with
  | nil => simp
  | cons m moves ih =>
    have here := step_inOrder c m
    rw [Transducer.run_cons, List.flatMap_append, List.append_assoc, ih, ← List.append_assoc]
    rw [show machine.step c m = step c m from rfl, here, List.append_assoc, List.flatMap_cons]

/-! ## Each request once at most -/

theorem completions_quiet {c : Channel α κ τ} {moves : List (Move α κ τ δ)}
    (quiet : c.pending = none) (none : NonePosted moves) :
    completions (machine.run c moves).2 = [] := by
  induction moves generalizing c with
  | nil => rfl
  | cons m moves ih =>
    rw [Transducer.run_cons, completions_append]
    cases m with
    | settle arrived posted now =>
      have unposted : posted = .none := none _ List.mem_cons_self
      have step : machine.step c (.settle arrived posted now) =
          (⟨c.queue ++ arrived, .none⟩, ([] : List (Delivery α κ τ δ))) := by
        simp [machine, step, settle, unposted, quiet]
      rw [step]
      exact ih rfl none.tail
    | take n dest => exact ih quiet none.tail
    | cancel => exact ih rfl none.tail
    | idle => exact ih quiet none.tail

theorem completions_pending {c : Channel α κ τ} {r : Request κ τ} {moves : List (Move α κ τ δ)}
    (pending : c.pending = some r) (none : NonePosted moves) :
    completions (machine.run c moves).2 = fate r c.queue moves := by
  induction moves generalizing c with
  | nil => rfl
  | cons m moves ih =>
    rw [Transducer.run_cons, completions_append]
    cases m with
    | settle arrived posted now =>
      have unposted : posted = .none := none _ List.mem_cons_self
      simp only [machine, step, settle, unposted, pending, Option.none_or, fate]
      split
      · rw [← machine, completions_quiet rfl none.tail]
        rfl
      · exact ih (c := ⟨c.queue ++ arrived, some r⟩) rfl none.tail
    | take n dest => exact ih (c := ⟨c.queue.drop n, c.pending⟩) pending none.tail
    | cancel => exact completions_quiet rfl none.tail
    | idle => exact ih pending none.tail

/-- From the move that posts it on, a request is completed as its fate says. -/
theorem completions_posted (c : Channel α κ τ) (arrived : List α) (r : Request κ τ) (now : τ)
    {moves : List (Move α κ τ δ)} (none : NonePosted moves) :
    completions (machine.run c (.settle arrived (some r) now :: moves)).2 =
      fate r c.queue (.settle arrived (some r) now :: moves) := by
  have same : machine.run c (.settle arrived (some r) now :: moves) =
      machine.run ⟨c.queue, some r⟩ (.settle arrived .none now :: moves) := rfl
  have unposted : NonePosted (Move.settle arrived .none now :: moves) := by
    intro m member
    rcases List.mem_cons.mp member with here | later
    · rw [here]
      rfl
    · exact none m later
  rw [same, completions_pending rfl unposted]
  rfl

theorem fate_cases (r : Request κ τ) (queue : List α) (moves : List (Move α κ τ δ)) :
    fate r queue moves = [] ∨
      ∃ elements, fate r queue moves = [.completed r elements] ∧ elements.length ≤ r.len := by
  fun_induction fate r queue moves with
  | case1 | case5 => exact Or.inl rfl
  | case2 queue arrived posted now moves due =>
    exact Or.inr ⟨_, rfl, List.length_take_le _ _⟩
  | case3 queue arrived posted now moves later ih => exact ih
  | case4 queue n dest moves ih => exact ih
  | case6 queue moves ih => exact ih

theorem step_length (c : Channel α κ τ) (m : Move α κ τ δ) {r : Request κ τ} {elements : List α}
    (member : .completed r elements ∈ (step c m).2) : elements.length ≤ r.len := by
  cases m with
  | settle arrived posted now =>
    simp only [step, settle] at member
    split at member
    · cases member
    · split at member
      · cases List.mem_singleton.mp member
        exact List.length_take_le _ _
      · cases member
  | take n dest => cases List.mem_singleton.mp member
  | cancel | idle => cases member

/-- No completion brings more than was asked for. -/
theorem run_length (c : Channel α κ τ) (moves : List (Move α κ τ δ)) {r : Request κ τ}
    {elements : List α} (member : .completed r elements ∈ (machine.run c moves).2) :
    elements.length ≤ r.len := by
  induction moves generalizing c with
  | nil => cases member
  | cons m moves ih =>
    rcases List.mem_append.mp member with here | later
    · exact step_length c m here
    · exact ih _ later

theorem step_requests {P : Request κ τ → Prop} {c : Channel α κ τ} {m : Move α κ τ δ}
    (pending : ∀ r ∈ c.pending, P r) (posted : ∀ r ∈ m.posted, P r) :
    (∀ r ∈ (step c m).1.pending, P r) ∧
      ∀ r elements, .completed r elements ∈ (step c m).2 → P r := by
  cases m with
  | settle arrived new now =>
    have asked : ∀ r ∈ new.or c.pending, P r := by
      intro r member
      cases new with
      | none => exact pending r member
      | some r' => exact posted r member
    simp only [step, settle]
    split
    · exact ⟨asked, nofun⟩
    · rename_i r found
      split
      · refine ⟨nofun, fun r' elements member => ?_⟩
        cases List.mem_singleton.mp member
        exact asked r found
      · exact ⟨asked, nofun⟩
  | take n dest =>
    refine ⟨pending, fun r elements member => ?_⟩
    cases List.mem_singleton.mp member
  | cancel => exact ⟨nofun, nofun⟩
  | idle => exact ⟨pending, nofun⟩

/-- Only what was asked for is completed. -/
theorem run_requests {P : Request κ τ → Prop} {c : Channel α κ τ} {moves : List (Move α κ τ δ)}
    (pending : ∀ r ∈ c.pending, P r) (posted : ∀ m ∈ moves, ∀ r ∈ m.posted, P r)
    {r : Request κ τ} {elements : List α}
    (member : .completed r elements ∈ (machine.run c moves).2) : P r := by
  induction moves generalizing c with
  | nil => cases member
  | cons m moves ih =>
    have here := step_requests pending (posted m List.mem_cons_self)
    rcases List.mem_append.mp member with now | later
    · exact here.2 r elements now
    · exact ih here.1 (fun m' inside => posted m' (List.mem_cons_of_mem m inside)) later

end Steps
end Channel
end Es3Recomp.Library
