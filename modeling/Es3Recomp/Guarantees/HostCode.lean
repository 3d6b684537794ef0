import Es3Recomp.Source.HostCode

/-!
# The cache of code regions answers as Windows does

Each answer is the one that VirtualQuery would give at the time: outside the guest's image, not in
the first 64 KB, and on a committed page that can be executed. Between two calls of a run
libraries may be loaded; that none of the code goes away is what the cache relies on.
-/
namespace Es3Recomp.Guarantees.HostCode
open Library Library.IntervalCache Source.ArgString Source.HostCode

/-- The answer without the cache. -/
def isCode (image : Image) (virtualQuery : VirtualQuery) (va : UInt32) : Bool :=
  !image.inside va && decide (0x10000 ≤ va) && (virtualQuery va).any executable

/-- What the documentation of VirtualQuery says of a region: it begins at the page of the
address, ends inside the address space, and its pages are alike. -/
structure Documented (virtualQuery : VirtualQuery) : Prop where
  around : ∀ va mbi, virtualQuery va = some mbi → mbi.baseAddress ≤ va ∧
    va.toNat < mbi.baseAddress.toNat + mbi.regionSize.toNat
  ends : ∀ va mbi, virtualQuery va = some mbi →
    mbi.baseAddress.toNat + mbi.regionSize.toNat < 2 ^ 32
  alike : ∀ va mbi, virtualQuery va = some mbi → ∀ b, mbi.baseAddress ≤ b →
    b.toNat < mbi.baseAddress.toNat + mbi.regionSize.toNat →
    ∃ other, virtualQuery b = some other ∧ other.state = mbi.state ∧ other.protect = mbi.protect

/-- No code goes away. -/
def Stays (before after : VirtualQuery) : Prop :=
  ∀ va, (before va).any executable → (after va).any executable

/-! ## The code as a cache of intervals -/

def ignored (image : Image) (va : UInt32) : Bool := image.inside va || decide (va < 0x10000)

def ask (virtualQuery : VirtualQuery) : Oracle UInt32 :=
  fun va => ((virtualQuery va).filter executable).map region

def query (call : Call) : Query UInt32 := ⟨ask call.virtualQuery, call.va⟩

variable {image : Image} {virtualQuery : VirtualQuery} {call : Call}

theorem ask_yes (va : UInt32) :
    (ask virtualQuery).yes va = (virtualQuery va).any executable := by
  rw [Oracle.yes, ask, Option.isSome_map]
  cases virtualQuery va with
  | none => rfl
  | some mbi => cases code : executable mbi <;> simp [code]

theorem plain_query : plain (ignored image) (query call) =
    isCode image call.virtualQuery call.va := by
  have low : decide (0x10000 ≤ call.va) = !decide (call.va < 0x10000) := by
    rw [← decide_not]
    exact decide_eq_decide.mpr UInt32.not_lt.symm
  rw [plain, query, ask_yes, isCode, ignored, low, Bool.not_or]

theorem ask_mbi {va : UInt32} {r : Extent UInt32} (found : ask virtualQuery va = some r) :
    ∃ mbi, virtualQuery va = some mbi ∧ executable mbi = true ∧ r = region mbi := by
  obtain ⟨mbi, kept, rfl⟩ := Option.map_eq_some_iff.mp found
  obtain ⟨there, code⟩ := Option.filter_eq_some_iff.mp kept
  exact ⟨mbi, there, code, rfl⟩

theorem region_hi (documented : Documented virtualQuery) {va : UInt32} {mbi : RegionInfo}
    (there : virtualQuery va = some mbi) :
    (region mbi).hi.toNat = mbi.baseAddress.toNat + mbi.regionSize.toNat := by
  rw [region, UInt32.toNat_add, Nat.mod_eq_of_lt (documented.ends va mbi there)]

theorem ask_around (documented : Documented virtualQuery) : (ask virtualQuery).Around := by
  intro va r found
  obtain ⟨mbi, there, -, rfl⟩ := ask_mbi found
  obtain ⟨above, below⟩ := documented.around va mbi there
  rw [← region_hi documented there] at below
  exact ⟨above, UInt32.lt_iff_toNat_lt.mpr below⟩

theorem ask_uniform (documented : Documented virtualQuery) : (ask virtualQuery).Uniform := by
  intro va r found b inside
  obtain ⟨mbi, there, code, rfl⟩ := ask_mbi found
  have below := UInt32.lt_iff_toNat_lt.mp inside.2
  rw [region_hi documented there] at below
  obtain ⟨other, here, state, protect⟩ := documented.alike va mbi there b inside.1 below
  rw [ask_yes, here, Option.any_some, executable, state, protect]
  exact code

theorem ask_keeps {after : VirtualQuery} (stays : Stays virtualQuery after) :
    (ask virtualQuery).Keeps (ask after) := by
  intro va yes
  rw [ask_yes] at yes ⊢
  exact stays va yes

theorem ask_of {va : UInt32} {mbi : RegionInfo} (there : virtualQuery va = some mbi) :
    ask virtualQuery va = if executable mbi then some (region mbi) else none := by
  rw [ask, there, Option.filter_some]
  cases executable mbi <;> rfl

theorem ask_none {va : UInt32} (none : virtualQuery va = none) : ask virtualQuery va = .none := by
  rw [ask, none]
  rfl

theorem executable_iff {mbi : RegionInfo} : executable mbi = true ↔
    mbi.state = MEM_COMMIT ∧ ¬ mbi.protect &&& PAGE_EXECUTE_ANY = 0 := by
  rw [executable, Bool.and_eq_true, decide_eq_true_eq, decide_eq_true_eq]

theorem looked (g : List (Extent UInt32)) (va : UInt32) :
    (g.any fun r => r.lo ≤ va && va < r.hi) = known g va :=
  congrArg g.any (funext fun r => (Bool.decide_and (r.lo ≤ va) (va < r.hi)).symm)

/-- A call is a query of the cache. -/
theorem step_eq (g : List (Extent UInt32)) (call : Call) :
    (calls image).step g call = (cache (ignored image) HOST_REGIONS).step g (query call) := by
  simp only [calls, es3IsHostCode, looked]
  by_cases inside : image.inside call.va = true
  · have skip : ignored image call.va = true := by rw [ignored, inside, Bool.true_or]
    rw [step_ignored (q := query call) skip, if_pos inside]
  by_cases low : call.va < 0x10000
  · have skip : ignored image call.va = true := by
      rw [ignored, decide_eq_true low, Bool.or_true]
    rw [step_ignored (q := query call) skip, if_neg inside, if_pos low]
  have look : ignored image call.va = false := by
    rw [ignored, Bool.eq_false_iff.mpr inside, decide_eq_false low, Bool.or_false]
  rw [if_neg inside, if_neg low]
  cases hit : known g call.va with
  | true => rw [step_known (q := query call) look hit, if_pos rfl]
  | false =>
    rw [if_neg Bool.false_ne_true]
    cases found : call.virtualQuery call.va with
    | none => rw [step_no (q := query call) look hit (ask_none found)]
    | some mbi =>
      by_cases code : executable mbi = true
      · obtain ⟨state, protect⟩ := executable_iff.mp code
        have yes : ask call.virtualQuery call.va = some (region mbi) := by
          rw [ask_of found, if_pos code]
        rw [step_yes (q := query call) look hit yes]
        simp only [state, protect, ne_eq, not_true_eq_false, ↓reduceIte]
      · have no : ask call.virtualQuery call.va = none := by rw [ask_of found, if_neg code]
        rw [step_no (q := query call) look hit no]
        have other := executable_iff.not.mp code
        by_cases state : mbi.state = MEM_COMMIT
        · have protect : mbi.protect &&& PAGE_EXECUTE_ANY = 0 := by
            by_contra some_
            exact other ⟨state, some_⟩
          simp only [state, protect, ne_eq, not_true_eq_false, ↓reduceIte]
        · simp only [state, ne_eq, not_false_eq_true, ↓reduceIte]

theorem run_eq (g : List (Extent UInt32)) (cs : List Call) :
    (calls image).run g cs = (cache (ignored image) HOST_REGIONS).run g (cs.map query) := by
  induction cs generalizing g with
  | nil => rfl
  | cons call cs ih => rw [List.map_cons, Transducer.run_cons, Transducer.run_cons, step_eq, ih]

/-! ## Runs -/

/-- The answers of a run are those of Windows, each at its time; and an address that was found
to be code while there was room for its region is not asked about again. -/
theorem host_code_cached (image : Image) (cs : List Call)
    (documented : ∀ call ∈ cs, Documented call.virtualQuery)
    (stays : cs.Pairwise fun p q => Stays p.virtualQuery q.virtualQuery) :
    (((calls image).run [] cs).2.map Answer.yes =
        cs.map fun call => isCode image call.virtualQuery call.va) ∧
      ∀ before call between again, (before ++ call :: between ++ [again]) <+: cs →
        ((calls image).run [] before).1.length < HOST_REGIONS →
        isCode image call.virtualQuery call.va = true → again.va = call.va →
        ((calls image).step ((calls image).run [] (before ++ call :: between)).1 again).2 =
          [⟨true, false⟩] := by
  constructor
  · have uniform : ∀ q ∈ cs.map query, q.ask.Uniform := by
      intro q member
      obtain ⟨call, inside, rfl⟩ := List.mem_map.mp member
      exact ask_uniform (documented call inside)
    have keeps : (cs.map query).Pairwise fun p q => p.ask.Keeps q.ask :=
      List.pairwise_map.mpr (stays.imp ask_keeps)
    rw [run_eq, answers_plain uniform keeps, List.map_map]
    exact List.map_congr_left fun call _ => plain_query
  · intro before call between again part space code same
    have member : call ∈ cs := part.subset (by simp)
    rw [step_eq, run_eq, List.map_append, List.map_cons]
    rw [run_eq] at space
    exact asked_once (ask_around (documented call member)) space (plain_query.trans code) same

/-- One library, in one page. -/
def oneLibrary : VirtualQuery := fun va =>
  if 0x10000000 ≤ va ∧ va < 0x10001000 then some ⟨0x10000000, 0x1000, MEM_COMMIT, 0x20⟩ else none

theorem oneLibrary_some {va : UInt32} {mbi : RegionInfo} (there : oneLibrary va = some mbi) :
    (0x10000000 ≤ va ∧ va < 0x10001000) ∧ mbi = ⟨0x10000000, 0x1000, MEM_COMMIT, 0x20⟩ := by
  rw [oneLibrary] at there
  split at there
  next inside => exact ⟨inside, (Option.some.inj there).symm⟩
  next => cases there

theorem oneLibrary_documented : Documented oneLibrary where
  around va mbi there := by
    obtain ⟨inside, rfl⟩ := oneLibrary_some there
    exact ⟨inside.1, UInt32.lt_iff_toNat_lt.mp inside.2⟩
  ends va mbi there := by
    obtain ⟨-, rfl⟩ := oneLibrary_some there
    decide
  alike va mbi there b above below := by
    obtain ⟨-, rfl⟩ := oneLibrary_some there
    exact ⟨_, if_pos ⟨above, UInt32.lt_iff_toNat_lt.mpr below⟩, rfl, rfl⟩

theorem host_code_cached_twice :
    (((calls ⟨0x400000, 0x2000000⟩).run []
        [⟨oneLibrary, 0x10000010⟩, ⟨oneLibrary, 0x10000020⟩]).2.map Answer.yes = [true, true]) ∧
      ((calls ⟨0x400000, 0x2000000⟩).step ((calls ⟨0x400000, 0x2000000⟩).run []
        [⟨oneLibrary, 0x10000010⟩]).1 ⟨oneLibrary, 0x10000010⟩).2 = [⟨true, false⟩] := by
  constructor
  · exact (host_code_cached ⟨0x400000, 0x2000000⟩
      [⟨oneLibrary, 0x10000010⟩, ⟨oneLibrary, 0x10000020⟩]
      (by simp [oneLibrary_documented]) (by simp [Stays])).1
  · exact (host_code_cached ⟨0x400000, 0x2000000⟩
      [⟨oneLibrary, 0x10000010⟩, ⟨oneLibrary, 0x10000010⟩]
      (by simp [oneLibrary_documented]) (by simp [Stays])).2 [] ⟨oneLibrary, 0x10000010⟩ []
      ⟨oneLibrary, 0x10000010⟩ (by simp) (by decide) (by decide) rfl

end Es3Recomp.Guarantees.HostCode
