import Es3Recomp.Library.Handout
import Es3Recomp.Source.Jvs.Coins

/-!
# Coin edges are neither lost nor spent twice

A press of the coin button becomes one coin in slot 1 and one in `g_coins_pending`, and
`es3_coin_take` empties the latter (src/src/runtime/jvs.c:638-643, 757-766). The account
names an edge by the number of the pass that polled it.
-/
namespace Es3Recomp.Guarantees.Jvs
open Library Source.Jvs

/-! ## Edges, and the account of a run -/

/-- The button went down at pass `k`; before the first one it is up. -/
def RisesAt (levels : List Bool) (k : Nat) : Prop :=
  levels[k]? = some true ∧ (k = 0 ∨ levels[k - 1]? = some false)

instance (levels : List Bool) (k : Nat) : Decidable (RisesAt levels k) :=
  inferInstanceAs (Decidable (_ ∧ _))

/-- The rising edges, in order. -/
def rises (levels : List Bool) : List Nat :=
  (List.range levels.length).filter fun k => RisesAt levels k

structure Account (κ : Type) where
  /-- the level that each pass read -/
  levels : List Bool
  /-- how often slot 1 went up -/
  inserted : Nat
  /-- the edges behind `g_coins_pending`, and those each caller got -/
  edges : Handout Nat κ
  /-- what each caller was told -/
  taken : List (κ × UInt32)

def Account.observe {κ : Type} (a : Account κ) : CoinEvent κ → Account κ
  | .polled coin => { a with levels := a.levels ++ [coin] }
  | .inserted => { a with inserted := a.inserted + 1 }
  | .offered => { a with edges := a.edges.put (a.levels.length - 1) }
  | .taken caller coins =>
    { a with edges := a.edges.takeAll caller, taken := a.taken ++ [(caller, coins)] }

def account {κ : Type} (events : List (CoinEvent κ)) : Account κ :=
  events.foldl Account.observe ⟨[], 0, .empty, []⟩

theorem account_append {κ : Type} (events more : List (CoinEvent κ)) :
    account (events ++ more) = more.foldl Account.observe (account events) := by
  rw [account, List.foldl_append]
  rfl

theorem nodup_rises (levels : List Bool) : (rises levels).Nodup :=
  List.nodup_range.filter _

theorem risesAt_append {levels : List Bool} {k : Nat} (before : k < levels.length) (coin : Bool) :
    RisesAt (levels ++ [coin]) k ↔ RisesAt levels k := by
  have previous : k - 1 < levels.length := by omega
  rw [RisesAt, RisesAt, List.getElem?_append_left before, List.getElem?_append_left previous]

theorem risesAt_last (levels : List Bool) (coin : Bool) :
    RisesAt (levels ++ [coin]) levels.length ↔ coin = true ∧ levels.getLastD false = false := by
  rcases List.eq_nil_or_concat levels with rfl | ⟨start, last, rfl⟩
  · simp [RisesAt]
  · simp [RisesAt]

/-- What one more pass adds. -/
theorem rises_append (levels : List Bool) (coin : Bool) :
    rises (levels ++ [coin]) =
      rises levels ++ if coin && !levels.getLastD false then [levels.length] else [] := by
  have before : (List.range levels.length).filter (fun k => RisesAt (levels ++ [coin]) k) =
      rises levels := by
    apply List.filter_congr
    intro k inside
    simp only [risesAt_append (List.mem_range.mp inside)]
  rw [rises, List.length_append, List.length_singleton, List.range_succ, List.filter_append, before]
  congr 1
  have last := risesAt_last levels coin
  by_cases edge : coin = true ∧ levels.getLastD false = false
  · rw [edge.1, edge.2] at last ⊢
    simp [last]
  · have none : (coin && !levels.getLastD false) = false := by
      rw [← Bool.not_eq_true, Bool.and_eq_true, Bool.not_eq_true']
      exact edge
    rw [none, List.filter_singleton, decide_eq_false (mt last.mp edge)]
    rfl

/-! ## What holds between the operations -/

/-- The level that `had_coin` has or is about to get. -/
def level (s : Coins) : Bool :=
  match s.place with
  | .outside => s.hadCoin
  | _ => s.coin

/-- The edge that the pass has seen and not counted in slot 1 yet. -/
def uncounted : Place → List Unit
  | .enter | .insert => [()]
  | _ => []

/-- The edge that is not in `g_coins_pending` yet; `k` passes have polled. -/
def unoffered (k : Nat) : Place → List Nat
  | .enter | .insert | .offer => [k - 1]
  | _ => []

structure Kept {κ : Type} (s : Coins) (a : Account κ) : Prop where
  level : level s = a.levels.getLastD false
  counted : a.inserted + (uncounted s.place).length = (rises a.levels).length
  offered : a.edges.all ++ unoffered a.levels.length s.place = rises a.levels
  pending : s.pending = UInt32.ofNat a.edges.waiting.length
  taken : a.taken = a.edges.handed.map fun h => (h.1, UInt32.ofNat h.2.length)

variable {κ : Type} {s : Coins} {a : Account κ}

theorem kept_initial : Kept Coins.initial (account [] : Account κ) :=
  ⟨rfl, rfl, rfl, rfl, rfl⟩

/-- What is not seen from outside. -/
theorem Kept.move (kept : Kept s a) {s' : Coins} (level' : Jvs.level s' = Jvs.level s)
    (counted : uncounted s'.place = uncounted s.place)
    (offered : unoffered a.levels.length s'.place = unoffered a.levels.length s.place)
    (pending : s'.pending = s.pending) : Kept s' a where
  level := level'.trans kept.level
  counted := by rw [counted]; exact kept.counted
  offered := by rw [offered]; exact kept.offered
  pending := pending.trans kept.pending
  taken := kept.taken

theorem kept_turn (kept : Kept s a) :
    Kept (turn s : _ × List (CoinEvent κ)).1 ((turn s).2.foldl Account.observe a) := by
  rcases s with ⟨port, pending, hadCoin, place, coin⟩
  cases place with
  | outside => exact kept
  | enter => exact kept.move rfl rfl rfl rfl
  | insert =>
    have counted := kept.counted
    exact ⟨kept.level, counted, kept.offered, kept.pending, kept.taken⟩
  | offer =>
    have offered : (a.edges.put (a.levels.length - 1)).all ++ [] = rises a.levels := by
      rw [Handout.all_put, List.append_nil]
      exact kept.offered
    have pending : pending + 1 = UInt32.ofNat (a.edges.waiting ++ [a.levels.length - 1]).length := by
      rw [List.length_append, UInt32.ofNat_add, ← kept.pending]
      rfl
    exact ⟨kept.level, kept.counted, offered, pending, kept.taken⟩
  | leave => exact kept.move rfl rfl rfl rfl
  | remember => exact kept.move rfl rfl rfl rfl

theorem kept_take (kept : Kept s a) (caller : κ) :
    Kept (es3CoinTake s).2 (a.observe (.taken caller (es3CoinTake s).1)) := by
  have offered : (a.edges.takeAll caller).all ++ unoffered a.levels.length s.place =
      rises a.levels := by
    rw [Handout.all_takeAll]
    exact kept.offered
  have taken : a.taken ++ [(caller, s.pending)] =
      (a.edges.handed ++ [(caller, a.edges.waiting)]).map
        fun h => (h.1, UInt32.ofNat h.2.length) := by
    rw [List.map_append, ← kept.taken, kept.pending]
    rfl
  exact ⟨kept.level, kept.counted, offered, rfl, taken⟩

/-- Between two passes nothing is owed. -/
theorem Kept.outside (kept : Kept s a) (outside : s.place = .outside) :
    s.hadCoin = a.levels.getLastD false ∧ a.inserted = (rises a.levels).length ∧
      a.edges.all = rises a.levels := by
  rcases s with ⟨port, pending, hadCoin, place, coin⟩
  cases outside
  exact ⟨kept.level, kept.counted, (List.append_nil _).symm.trans kept.offered⟩

/-- A pass that begins owes the edge that it has seen, if it has. -/
theorem kept_poll (kept : Kept s a) (outside : s.place = .outside) (coin : Bool) :
    Kept { s with coin, place := if coin && !s.hadCoin then .enter else .remember }
      (a.observe (.polled coin)) := by
  obtain ⟨had, counted, offered⟩ := kept.outside outside
  have more := rises_append a.levels coin
  have last : coin = (a.levels ++ [coin]).getLastD false := List.getLastD_concat.symm
  rw [← had] at more
  cases edge : coin && !s.hadCoin with
  | false =>
    rw [edge, if_neg Bool.false_ne_true, List.append_nil] at more
    exact ⟨last, counted.trans (congrArg List.length more.symm),
      (List.append_nil _).trans (offered.trans more.symm), kept.pending, kept.taken⟩
  | true =>
    rw [edge, if_pos rfl] at more
    have counted' : a.inserted + 1 = (rises (a.levels ++ [coin])).length := by
      rw [more, List.length_append, counted]
      rfl
    have offered' : a.edges.all ++ [(a.levels ++ [coin]).length - 1] = rises (a.levels ++ [coin]) := by
      rw [more, offered, List.length_append]
      rfl
    exact ⟨last, counted', offered', kept.pending, kept.taken⟩

theorem kept_step (kept : Kept s a) (act : CoinAct κ) :
    Kept (coinStep s act).1 ((coinStep s act).2.foldl Account.observe a) := by
  cases act with
  | poll coin =>
    rw [coinStep]
    split
    · exact kept_poll kept ‹_› coin
    · exact kept
  | turn => exact kept_turn kept
  | take caller => exact kept_take kept caller
  | hold change =>
    rw [coinStep]
    split
    · exact kept
    · exact kept.move rfl rfl rfl rfl

/-- The state after a run, and the account of it. -/
def coinRun (acts : List (CoinAct κ)) : Coins × Account κ :=
  ((coinMachine.run Coins.initial acts).1, account (coinMachine.run Coins.initial acts).2)

theorem kept_run (acts : List (CoinAct κ)) : Kept (coinRun acts).1 (coinRun acts).2 := by
  refine coinMachine.run_induction (motive := fun s events => Kept s (account events)) _
    kept_initial ?_ acts
  intro s events act kept
  rw [account_append]
  exact kept_step kept act

/-! ## What the callers are told -/

theorem Kept.prefix (kept : Kept s a) : a.edges.all <+: rises a.levels :=
  ⟨_, kept.offered⟩

theorem toNat_ofNat_small {n : Nat} (few : n < 2 ^ 31) : (UInt32.ofNat n).toNat = n :=
  UInt32.toNat_ofNat_of_lt' (Nat.lt_trans few (by decide))

/-- A caller is told how many edges it got. -/
theorem Kept.told (kept : Kept s a) (few : (rises a.levels).length < 2 ^ 31) :
    (a.taken.map fun t => (t.1, t.2.toNat)) = a.edges.handed.map fun h => (h.1, h.2.length) := by
  rw [kept.taken, List.map_map]
  apply List.map_congr_left
  intro h member
  have inside := Nat.le_trans (Handout.handed_sublist member).length_le kept.prefix.length_le
  exact congrArg (Prod.mk h.1) (toNat_ofNat_small (Nat.lt_of_le_of_lt inside few))

/-! ## Slot 1 -/

/-- What one more operation makes of the counters: the first one goes up when an insertion is
counted, and otherwise only another thread with the lock changes any. -/
structure Counted (before after : Coins × Account κ) (act : CoinAct κ) : Prop where
  once : after.2.inserted ≤ before.2.inserted + 1
  raised : before.2.inserted < after.2.inserted →
    ∀ k, after.1.port.coin k = if k.val = 0 then before.1.port.coin k + 1 else before.1.port.coin k
  still : after.2.inserted = before.2.inserted → (∀ change, act ≠ .hold change) →
    after.1.port.coin = before.1.port.coin

theorem counted_step (s : Coins) (a : Account κ) (act : CoinAct κ) :
    Counted (s, a) ((coinStep s act).1, (coinStep s act).2.foldl Account.observe a) act := by
  cases act with
  | poll coin =>
    rw [coinStep]
    split
    · exact ⟨Nat.le_succ _, fun less => absurd less (Nat.lt_irrefl _), fun _ _ => rfl⟩
    · exact ⟨Nat.le_succ _, fun less => absurd less (Nat.lt_irrefl _), fun _ _ => rfl⟩
  | turn =>
    rcases s with ⟨port, pending, hadCoin, place, coin⟩
    cases place with
    | insert =>
      exact ⟨Nat.le_refl _, fun _ => coin_insertCoin port,
        fun same => absurd same (Nat.succ_ne_self _)⟩
    | _ => exact ⟨Nat.le_succ _, fun less => absurd less (Nat.lt_irrefl _), fun _ _ => rfl⟩
  | take caller =>
    exact ⟨Nat.le_succ _, fun less => absurd less (Nat.lt_irrefl _), fun _ _ => rfl⟩
  | hold change =>
    rw [coinStep]
    split
    · exact ⟨Nat.le_succ _, fun less => absurd less (Nat.lt_irrefl _), fun _ _ => rfl⟩
    · exact ⟨Nat.le_succ _, fun less => absurd less (Nat.lt_irrefl _),
        fun _ other => absurd rfl (other change)⟩

theorem counted_run (acts : List (CoinAct κ)) (act : CoinAct κ) :
    Counted (coinRun acts) (coinRun (acts ++ [act])) act := by
  have one := coinMachine.run_concat Coins.initial acts act
  rw [coinRun, coinRun, one, account_append]
  exact counted_step _ _ act

/-! ## The law -/

/-- However the passes and the callers interleave: when no pass is under way, what was taken
and what is pending make up the edges, and there was one insertion for each. What a caller is
told is how many edges it got, they are edges that were polled, and no two calls got the
same one. An insertion raises slot 1 by one, and no other operation of these raises it. -/
theorem coin_edges_conserved (acts : List (CoinAct κ))
    (few : (rises (coinRun acts).2.levels).length < 2 ^ 31) :
    ((coinRun acts).1.place = .outside →
      ((coinRun acts).2.taken.map fun t => t.2.toNat).sum + (coinRun acts).1.pending.toNat =
          (rises (coinRun acts).2.levels).length ∧
        (coinRun acts).2.inserted = (rises (coinRun acts).2.levels).length) ∧
      ((coinRun acts).2.taken.map fun t => (t.1, t.2.toNat)) =
        ((coinRun acts).2.edges.handed.map fun h => (h.1, h.2.length)) ∧
      (∀ h ∈ (coinRun acts).2.edges.handed,
        h.2.Nodup ∧ h.2 ⊆ rises (coinRun acts).2.levels) ∧
      (coinRun acts).2.edges.handed.Pairwise (fun h h' => h.2.Disjoint h'.2) ∧
      ∀ done act rest, acts = done ++ act :: rest →
        Counted (coinRun done) (coinRun (done ++ [act])) act := by
  have kept := kept_run acts
  have once : (coinRun acts).2.edges.all.Nodup := kept.prefix.sublist.nodup (nodup_rises _)
  have told := kept.told few
  refine ⟨?_, told, ?_, Handout.handed_disjoint once, fun done act _ _ => counted_run done act⟩
  · intro outside
    obtain ⟨-, counted, offered⟩ := kept.outside outside
    refine ⟨?_, counted⟩
    have sums := congrArg (fun ts => (ts.map Prod.snd).sum) told
    simp only [List.map_map] at sums
    have waiting : (coinRun acts).2.edges.waiting.length < 2 ^ 31 := by
      refine Nat.lt_of_le_of_lt ?_ few
      rw [← offered, Handout.length_all]
      exact Nat.le_add_left _ _
    rw [kept.pending, toNat_ofNat_small waiting, ← offered, Handout.length_all]
    exact congrArg (· + _) sums
  · intro h member
    exact ⟨Handout.handed_nodup once member,
      fun k inside => kept.prefix.subset ((Handout.handed_sublist member).subset inside)⟩

/-- A press that is taken while it is being counted, and one that nobody takes. -/
def twoPresses : List (CoinAct Bool) :=
  [.poll true, .turn, .take false, .turn, .turn, .take true, .turn, .take false, .turn, .poll false,
    .turn, .poll true, .turn, .turn, .turn, .turn, .turn]

theorem two_presses_conserved :
    ((coinRun twoPresses).2.taken.map fun t => t.2.toNat).sum +
        (coinRun twoPresses).1.pending.toNat = 2 ∧
      (coinRun twoPresses).2.inserted = 2 ∧
      (coinRun twoPresses).2.edges.handed.Pairwise fun h h' => h.2.Disjoint h'.2 := by
  have few : (rises (coinRun twoPresses).2.levels).length < 2 ^ 31 := by decide
  have law := coin_edges_conserved twoPresses few
  have quiet := law.1 (by decide)
  exact ⟨quiet.1, quiet.2, law.2.2.2.1⟩

end Es3Recomp.Guarantees.Jvs
