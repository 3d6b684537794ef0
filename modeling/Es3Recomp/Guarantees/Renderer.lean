import Es3Recomp.Source.Renderer

/-!
# The screen is not taken

In every run the calls that could make a device or a swap chain full-screen reach real code with
parameters that say windowed, the calls that could not reach it as they were made, and the pictures
are of the swap chain that was made last.
-/
namespace Es3Recomp.Guarantees.Renderer
open Library Source.ArgString Source.Renderer

/-! ## What a run has shown -/

/-- CreateDevice and CreateDeviceEx of a factory that came back. -/
def factoryOf : Event → Option (UInt32 × UInt32)
  | .call _ => none
  | .create9Ex pp reply =>
    let iface := dword reply.mem pp
    let vt := dword reply.mem iface
    if pp ≠ 0 ∧ reply.eax = 0 ∧ iface ≠ 0 ∧ vt ≠ 0 ∧ dword reply.mem (vt + 4 * 20) ≠ 0 then
      some (dword reply.mem (vt + 4 * 16), dword reply.mem (vt + 4 * 20))
    else none

/-- Those of the first one. -/
def recorded (events : List Event) : Option (UInt32 × UInt32) := (events.filterMap factoryOf).head?

/-- Where dxgi.dll is, if the target is in it. -/
def dxgiBase (c : Call) : Option UInt32 :=
  (c.moduleOf c.target).bind fun m => if isDxgi m.2 then some m.1 else none

/-- No call finds dxgi.dll anywhere else. -/
def OneDxgi (base : UInt32) (events : List Event) : Prop :=
  ∀ c, .call c ∈ events → ∀ b, dxgiBase c = some b → b = base

/-- A swap chain that was made, with its Present. -/
def chainOf (w : World) (x : Crossing) : Option (UInt32 × UInt32) :=
  let reply := x.call.machine x.handed
  let pp := A32 reply.mem x.call.esp 3
  let sc := dword reply.mem pp
  if x.call.target ≠ 0 ∧ x.call.target = w.createSwapChain ∧ reply.eax = 0 ∧ pp ≠ 0 ∧ sc ≠ 0 then
    some (sc, dword reply.mem (dword reply.mem sc + 4 * 8))
  else none

def chains (w : World) (out : List Crossing) : List (UInt32 × UInt32) := out.filterMap (chainOf w)

/-! ## The words that are written -/

/-- D3DPRESENT_PARAMETERS lie apart from the arguments of the call. -/
def Separate (esp pp : UInt32) : Prop := 32 ≤ (pp - (esp + 4)).toNat ∧ 0x38 ≤ (esp + 4 - pp).toNat

theorem Separate.apart {esp pp : UInt32} (separate : Separate esp pp) {i j : UInt32}
    (argument : i.toNat ≤ 28) (field : j.toNat ≤ 0x34) :
    4 ≤ (pp + j - (esp + 4 + i)).toNat ∧ 4 ≤ (esp + 4 + i - (pp + j)).toNat := by
  obtain ⟨before, behind⟩ := separate
  have here := (esp + 4).toNat_lt
  have there := pp.toNat_lt
  simp only [UInt32.toNat_sub, UInt32.toNat_add pp, UInt32.toNat_add (esp + 4)] at before behind ⊢
  generalize (esp + 4).toNat = a at *
  constructor <;> omega

theorem dword_wr32 (mem : Memory32) (a v : UInt32) : dword (wr32 mem a v) a = v :=
  dword_write mem a v

theorem dword_wr32_apart (mem : Memory32) (v : UInt32) {a b : UInt32} (before : 4 ≤ (a - b).toNat)
    (behind : 4 ≤ (b - a).toNat) : dword (wr32 mem a v) b = dword mem b :=
  dword_write_apart mem v before behind

/-! ## Direct3D 9 -/

/-- What is handed over asks for a window, and for nothing that a window must not ask for. -/
structure Windowed (mem handed : Memory32) (esp : UInt32) (extended : Prop) : Prop where
  arguments : ∀ n : UInt32, n.toNat ≤ 5 → A32 handed esp n = A32 mem esp n
  windowed : dword handed (A32 mem esp 5 + 0x20) ≠ 0
  refresh : dword mem (A32 mem esp 5 + 0x20) = 0 → dword handed (A32 mem esp 5 + 0x30) = 0
  mode : dword mem (A32 mem esp 5 + 0x20) = 0 → extended → A32 handed esp 6 = 0

theorem toNat_argument {n : UInt32} (few : n.toNat ≤ 6) : (4 * n).toNat = 4 * n.toNat := by
  rw [UInt32.toNat_mul]
  change 4 * n.toNat % 4294967296 = _
  omega

/-- An argument, with a field of the parameters written. -/
theorem A32_field (mem : Memory32) (v : UInt32) {esp pp n j : UInt32} (separate : Separate esp pp)
    (few : n.toNat ≤ 6) (field : j.toNat ≤ 0x34) : A32 (wr32 mem (pp + j) v) esp n = A32 mem esp n := by
  have argument : (4 * n).toNat ≤ 28 := by
    rw [toNat_argument few]
    omega
  obtain ⟨before, behind⟩ := separate.apart argument field
  exact dword_wr32_apart mem v before behind

/-- An argument, with the seventh written. -/
theorem A32_mode (mem : Memory32) (v esp : UInt32) {n : UInt32} (few : n.toNat ≤ 5) :
    A32 (wr32 mem (esp + 4 + 4 * 6) v) esp n = A32 mem esp n := by
  have seventh : (4 * 6 : UInt32).toNat = 24 := rfl
  have argument := toNat_argument (n := n) (by omega)
  exact dword_write_offset mem (esp + 4) v (by omega) (by omega) (by omega)

/-- A field of the parameters, with the seventh argument written. -/
theorem field_mode (mem : Memory32) (v : UInt32) {esp pp j : UInt32} (separate : Separate esp pp)
    (field : j.toNat ≤ 0x34) :
    dword (wr32 mem (esp + 4 + 4 * 6) v) (pp + j) = dword mem (pp + j) := by
  obtain ⟨before, behind⟩ := separate.apart (i := 4 * 6) (by decide) field
  exact dword_wr32_apart mem v behind before

theorem forceWindowed_windowed {w : World} {g : Globals} {c : Call} (on : w.fullscreen = false)
    (known : g.createDeviceEx ≠ 0) (target : c.target = g.createDevice ∨ c.target = g.createDeviceEx)
    (some_ : A32 c.mem c.esp 5 ≠ 0) (separate : Separate c.esp (A32 c.mem c.esp 5)) :
    Windowed c.mem (forceWindowed w g c) c.esp (c.target = g.createDeviceEx) := by
  have reached : ¬ (c.target ≠ g.createDevice ∧ c.target ≠ g.createDeviceEx) := by
    rintro ⟨notPlain, notEx⟩
    exact target.elim notPlain notEx
  have awake : ¬ (w.fullscreen = true ∨ g.createDeviceEx = 0) := by
    rintro (off | unknown)
    · rw [on] at off
      cases off
    · exact known unknown
  generalize at_ : A32 c.mem c.esp 5 = pp at some_ separate
  by_cases same : dword c.mem (pp + 0x20) = 0
  · have written : forceWindowed w g c =
        if c.target = g.createDeviceEx then
          wr32 (wr32 (wr32 c.mem (pp + 0x20) 1) (pp + 0x30) 0) (c.esp + 4 + 4 * 6) 0
        else wr32 (wr32 c.mem (pp + 0x20) 1) (pp + 0x30) 0 := by
      rw [forceWindowed, if_neg awake, if_neg reached]
      dsimp only
      rw [at_, if_neg some_, if_pos same]
    have flag : dword (wr32 (wr32 c.mem (pp + 0x20) 1) (pp + 0x30) 0) (pp + 0x20) ≠ 0 := by
      have apart := dword_write_offset (wr32 c.mem (pp + 0x20) 1) pp 0 (i := 0x30) (j := 0x20)
        (by decide) (by decide) (by decide)
      rw [wr32, apart, dword_wr32]
      decide
    have rate := dword_wr32 (wr32 c.mem (pp + 0x20) 1) (pp + 0x30) 0
    have arguments : ∀ n : UInt32, n.toNat ≤ 5 →
        A32 (wr32 (wr32 c.mem (pp + 0x20) 1) (pp + 0x30) 0) c.esp n = A32 c.mem c.esp n := by
      intro n few
      rw [A32_field _ _ separate (by omega) (by decide), A32_field _ _ separate (by omega) (by decide)]
    rw [written]
    split
    next ex =>
      exact
        { arguments := fun n few => (A32_mode _ _ _ few).trans (arguments n few)
          windowed := by
            rw [at_, field_mode _ _ separate (by decide)]
            exact flag
          refresh := fun _ => by
            rw [at_, field_mode _ _ separate (by decide)]
            exact rate
          mode := fun _ _ => dword_wr32 _ _ _ }
    next plain =>
      exact
        { arguments := arguments
          windowed := by
            rw [at_]
            exact flag
          refresh := fun _ => by
            rw [at_]
            exact rate
          mode := fun _ ex => absurd ex plain }
  · have untouched : forceWindowed w g c = c.mem := by
      rw [forceWindowed, if_neg awake, if_neg reached]
      dsimp only
      rw [at_, if_neg some_, if_neg same]
    rw [untouched]
    exact
      { arguments := fun _ _ => rfl
        windowed := by
          rw [at_]
          exact same
        refresh := fun zero => absurd (at_ ▸ zero) same
        mode := fun zero _ => absurd (at_ ▸ zero) same }

theorem forceWindowed_other {w : World} {g : Globals} {c : Call}
    (other : g.createDeviceEx = 0 ∨ c.target ≠ g.createDevice ∧ c.target ≠ g.createDeviceEx) :
    forceWindowed w g c = c.mem := by
  unfold forceWindowed
  split
  next => rfl
  next awake =>
    rcases other with unknown | apart
    · exact absurd (Or.inr unknown) awake
    · rw [if_pos apart]

/-! ## DXGI -/

/-- What is known of dxgi.dll: nothing, or where it is. -/
def Located (base : UInt32) (g : Globals) : Prop :=
  g.dxgiLo = 0 ∧ g.dxgiHi = 0 ∨ g.dxgiLo = base ∧ g.dxgiHi = base + 0x00200000

/-- What the range that is kept of dxgi.dll has. -/
def InRange (base target : UInt32) : Prop := base ≤ target ∧ target < base + 0x00200000

variable {base : UInt32} {g : Globals} {c : Call}

theorem not_below_zero (target : UInt32) : ¬ target < 0 := by
  rw [UInt32.lt_iff_toNat_lt]
  exact Nat.not_lt_zero _

theorem inDxgi_located (located : Located base g) (one : ∀ b, dxgiBase c = some b → b = base) :
    Located base (inDxgi g c).1 := by
  unfold inDxgi
  split
  next => exact located
  next =>
    split
    next => exact located
    next =>
      split
      next => exact located
      next b path there =>
        split
        next named =>
          have here : dxgiBase c = some b := by
            rw [dxgiBase, there, Option.bind_some, if_pos named]
          obtain rfl := one b here
          exact .inr ⟨rfl, rfl⟩
        next => exact located

theorem inDxgi_inside (located : Located base g) (there : dxgiBase c = some base)
    (range : InRange base c.target) : (inDxgi g c).2 = true := by
  rcases located with ⟨lo, hi⟩ | ⟨lo, hi⟩
  · obtain ⟨⟨b, path⟩, module, named⟩ := Option.bind_eq_some_iff.mp there
    have dxgi : isDxgi path = true := by
      by_contra other
      rw [if_neg other] at named
      cases named
    have below : ¬ (g.dxgiLo ≤ c.target ∧ c.target < g.dxgiHi) := by
      rw [hi]
      exact fun inside => not_below_zero _ inside.2
    rw [inDxgi, if_neg below, if_neg (not_not_intro lo), module]
    dsimp only
    rw [if_pos dxgi]
  · have inside : g.dxgiLo ≤ c.target ∧ c.target < g.dxgiHi := by
      rw [lo, hi]
      exact range
    rw [inDxgi, if_pos inside]

theorem inDxgi_outside (located : Located base g) (elsewhere : dxgiBase c = none)
    (range : ¬ InRange base c.target) : (inDxgi g c).2 = false := by
  unfold inDxgi
  split
  next inside =>
    rcases located with ⟨-, hi⟩ | ⟨lo, hi⟩
    · rw [hi] at inside
      exact absurd inside.2 (not_below_zero _)
    · rw [lo, hi] at inside
      exact absurd inside range
  next =>
    split
    next => rfl
    next =>
      split
      next => rfl
      next b path there =>
        split
        next named =>
          rw [dxgiBase, there, Option.bind_some, if_pos named] at elsewhere
          cases elsewhere
        next => rfl

/-- What `CreateSwapChain` is called with, as far as it can be told: a description that is there,
with a window and a flag in it. -/
structure Describes (c : Call) (desc : UInt32) : Prop where
  argument : A32 c.mem c.esp 2 = desc
  high : 0x10000 ≤ desc
  readable : descReadable c.virtualQuery desc = true
  window : c.isWindow (dword c.mem (desc + 44)) = true
  flag : dword c.mem (desc + 48) = 0 ∨ dword c.mem (desc + 48) = 1

theorem forceWindowedDxgi_describes {w : World} (on : w.fullscreen = false)
    (inside : (inDxgi g c).2 = true) {desc : UInt32} (describes : Describes c desc) :
    dword (forceWindowedDxgi w g c c.mem).2 (desc + 48) = 1 := by
  have awake : ¬ w.fullscreen = true := by
    rw [on]
    decide
  have passes : ¬ ((inDxgi g c).2 = false ∨ desc < 0x10000) := by
    rw [inside]
    rintro (no | low)
    · cases no
    · exact absurd (UInt32.lt_of_lt_of_le low describes.high) (UInt32.lt_irrefl _)
  have there : ¬ descReadable c.virtualQuery desc = false := by
    rw [describes.readable]
    decide
  have window : ¬ c.isWindow (dword c.mem (desc + 44)) = false := by
    rw [describes.window]
    decide
  unfold forceWindowedDxgi
  rw [if_neg awake]
  dsimp only
  rw [describes.argument, if_neg passes, if_neg there, if_neg window]
  split
  next => exact dword_wr32 _ _ _
  next set => exact describes.flag.resolve_left set

theorem forceWindowedDxgi_low {w : World} {mem : Memory32} (low : A32 mem c.esp 2 < 0x10000) :
    (forceWindowedDxgi w g c mem).2 = mem := by
  unfold forceWindowedDxgi
  split
  next => rfl
  next =>
    dsimp only
    rw [if_pos (Or.inr low)]

theorem forceWindowedDxgi_outside {w : World} {mem : Memory32} (outside : (inDxgi g c).2 = false) :
    (forceWindowedDxgi w g c mem).2 = mem := by
  unfold forceWindowedDxgi
  split
  next => rfl
  next =>
    dsimp only
    rw [if_pos (Or.inl outside)]

theorem forceWindowedDxgi_off {w : World} {mem : Memory32} (off : w.fullscreen = true) :
    forceWindowedDxgi w g c mem = (g, mem) := by
  rw [forceWindowedDxgi, if_pos off]

/-- Only what is known of dxgi.dll changes. -/
theorem forceWindowedDxgi_globals (w : World) (g : Globals) (c : Call) (mem : Memory32) :
    (forceWindowedDxgi w g c mem).1 = g ∨ (forceWindowedDxgi w g c mem).1 = (inDxgi g c).1 := by
  unfold forceWindowedDxgi
  split
  next => exact .inl rfl
  next =>
    refine .inr ?_
    dsimp only
    split
    next => rfl
    next =>
      split
      next => rfl
      next =>
        split
        next => rfl
        next => split <;> rfl

/-- The rest of the globals. -/
structure SameRest (g g' : Globals) : Prop where
  createDevice : g'.createDevice = g.createDevice
  createDeviceEx : g'.createDeviceEx = g.createDeviceEx
  swapChain : g'.swapChain = g.swapChain
  present : g'.present = g.present

theorem inDxgi_rest (g : Globals) (c : Call) : SameRest g (inDxgi g c).1 := by
  have same : SameRest g g := ⟨rfl, rfl, rfl, rfl⟩
  unfold inDxgi
  split
  next => exact same
  next =>
    split
    next => exact same
    next =>
      split
      next => exact same
      next => split <;> exact ⟨rfl, rfl, rfl, rfl⟩

theorem forceWindowedDxgi_rest (w : World) (g : Globals) (c : Call) (mem : Memory32) :
    SameRest g (forceWindowedDxgi w g c mem).1 := by
  rcases forceWindowedDxgi_globals w g c mem with same | asked
  · rw [same]
    exact ⟨rfl, rfl, rfl, rfl⟩
  · rw [asked]
    exact inDxgi_rest g c

/-! ## Swap chains -/

theorem noteSwapChain_eq (w : World) (g : Globals) (x : Crossing) :
    noteSwapChain w g x.call (x.call.machine x.handed) =
      match chainOf w x with
      | none => g
      | some (sc, present) =>
        if sc = g.swapChain then g else { g with swapChain := sc, present := present } := by
  unfold noteSwapChain chainOf
  dsimp only
  generalize x.call.machine x.handed = reply
  by_cases came : x.call.target ≠ 0 ∧ x.call.target = w.createSwapChain ∧ reply.eax = 0
  · rw [if_pos came]
    by_cases nowhere : A32 reply.mem x.call.esp 3 = 0
    · rw [if_pos nowhere, if_neg fun all => all.2.2.2.1 nowhere]
    · rw [if_neg nowhere]
      by_cases null : dword reply.mem (A32 reply.mem x.call.esp 3) = 0
      · rw [if_neg fun both => both.1 null, if_neg fun all => all.2.2.2.2 null]
      · have all : x.call.target ≠ 0 ∧ x.call.target = w.createSwapChain ∧ reply.eax = 0 ∧
            A32 reply.mem x.call.esp 3 ≠ 0 ∧ dword reply.mem (A32 reply.mem x.call.esp 3) ≠ 0 :=
          ⟨came.1, came.2.1, came.2.2, nowhere, null⟩
        rw [if_pos all]
        dsimp only
        by_cases old : dword reply.mem (A32 reply.mem x.call.esp 3) = g.swapChain
        · rw [if_neg fun both => both.2 old, if_pos old]
        · rw [if_pos ⟨null, old⟩, if_neg old]
  · rw [if_neg came, if_neg fun all => came ⟨all.1, all.2.1, all.2.2.1⟩]

/-- The chain that is kept is the last one; its Present is one that it had when it was made, and
the one it had then if it was made but once. -/
structure Latest (made : List (UInt32 × UInt32)) (g : Globals) : Prop where
  none_ : made = [] → g.swapChain = 0 ∧ g.present = 0
  last : ∀ front sc present, made = front ++ [(sc, present)] →
    g.swapChain = sc ∧ (sc, g.present) ∈ made ∧ (sc ∉ front.map Prod.fst → g.present = present)
  real : ∀ m ∈ made, m.1 ≠ 0

theorem latest_initial : Latest [] Globals.initial where
  none_ _ := ⟨rfl, rfl⟩
  last front sc present split := by cases front <;> cases split
  real := nofun

theorem Latest.keep {made : List (UInt32 × UInt32)} {g g' : Globals} (latest : Latest made g)
    (same : SameRest g g') : Latest made g' where
  none_ empty := by
    rw [same.swapChain, same.present]
    exact latest.none_ empty
  last front sc present split := by
    rw [same.swapChain, same.present]
    exact latest.last front sc present split
  real := latest.real

theorem chainOf_real {w : World} {x : Crossing} {m : UInt32 × UInt32} (made : chainOf w x = some m) :
    m.1 ≠ 0 := by
  unfold chainOf at made
  dsimp only at made
  split at made
  next all =>
    obtain rfl := Option.some.inj made
    exact all.2.2.2.2
  next => cases made

theorem Latest.note {w : World} {out : List Crossing} {g : Globals} (latest : Latest (chains w out) g)
    (x : Crossing) :
    Latest (chains w (out ++ [x])) (noteSwapChain w g x.call (x.call.machine x.handed)) := by
  rw [noteSwapChain_eq, chains, List.filterMap_append]
  change Latest (chains w out ++ List.filterMap (chainOf w) [x]) _
  cases made : chainOf w x with
  | none =>
    rw [List.filterMap_cons_none made, List.filterMap_nil, List.append_nil]
    exact latest
  | some m =>
    obtain ⟨sc, present⟩ := m
    rw [List.filterMap_cons_some made, List.filterMap_nil]
    have real : ∀ m ∈ chains w out ++ [(sc, present)], m.1 ≠ 0 :=
      List.forall_mem_append.mpr ⟨latest.real, List.forall_mem_singleton.mpr (chainOf_real made)⟩
    have concat : ∀ front sc' present', chains w out ++ [(sc, present)] = front ++ [(sc', present')] →
        chains w out = front ∧ sc = sc' ∧ present = present' := by
      intro front sc' present' split
      obtain ⟨same, last⟩ := List.append_inj' split rfl
      cases last
      exact ⟨same, rfl, rfl⟩
    dsimp only
    by_cases old : sc = g.swapChain
    · rw [if_pos old]
      exact
        { none_ := fun empty => absurd empty (by simp)
          last := by
            intro front sc' present' split
            obtain ⟨same, rfl, rfl⟩ := concat front sc' present' split
            have before : chains w out ≠ [] := fun empty =>
              chainOf_real made (old.trans (latest.none_ empty).1)
            obtain ⟨front', ⟨sc', present'⟩, there⟩ := List.eq_nil_or_concat' (chains w out)
              |>.resolve_left before
            obtain ⟨current, member, -⟩ := latest.last front' sc' present' there
            rw [current] at old
            subst old
            refine ⟨current, List.mem_append_left _ member, fun new => absurd ?_ new⟩
            rw [← same, there]
            simp
          real := real }
    · rw [if_neg old]
      exact
        { none_ := fun empty => absurd empty (by simp)
          last := by
            intro front sc' present' split
            obtain ⟨-, rfl, rfl⟩ := concat front sc' present' split
            exact ⟨rfl, List.mem_append_right _ (List.mem_singleton.mpr rfl), fun _ => rfl⟩
          real := real }

/-! ## Factories -/

/-- CreateDevice and CreateDeviceEx are those of the first factory. -/
structure Noted (events : List Event) (g : Globals) : Prop where
  none_ : recorded events = none → g.createDeviceEx = 0
  first : ∀ device extended, recorded events = some (device, extended) →
    g.createDevice = device ∧ g.createDeviceEx = extended ∧ extended ≠ 0

theorem recorded_concat (events : List Event) (e : Event) :
    recorded (events ++ [e]) = (recorded events).or (factoryOf e) := by
  rw [recorded, List.filterMap_append, List.head?_append, recorded]
  congr 1
  cases made : factoryOf e with
  | none => rw [List.filterMap_cons_none made, List.filterMap_nil, List.head?_nil]
  | some m => rw [List.filterMap_cons_some made, List.filterMap_nil, List.head?_cons]

theorem Noted.keep {events : List Event} {g g' : Globals} (noted : Noted events g) {e : Event}
    (nothing : factoryOf e = none) (same : SameRest g g') : Noted (events ++ [e]) g' := by
  have as_before : recorded (events ++ [e]) = recorded events := by
    rw [recorded_concat, nothing, Option.or_none]
  constructor
  · rw [as_before, same.createDeviceEx]
    exact noted.none_
  · rw [as_before, same.createDeviceEx, same.createDevice]
    exact noted.first

theorem Noted.create9Ex {events : List Event} {g : Globals} (noted : Noted events g) (pp : UInt32)
    (reply : Reply) :
    Noted (events ++ [.create9Ex pp reply])
      (if pp ≠ 0 ∧ reply.eax = 0 then noteFactory g reply.mem (dword reply.mem pp) else g) := by
  have same : SameRest g g := ⟨rfl, rfl, rfl, rfl⟩
  by_cases came : pp ≠ 0 ∧ reply.eax = 0
  · rw [if_pos came]
    cases already : recorded events with
    | some m =>
      obtain ⟨device, extended⟩ := m
      obtain ⟨-, known, some_⟩ := noted.first device extended already
      have kept : noteFactory g reply.mem (dword reply.mem pp) = g := by
        rw [noteFactory, if_pos (.inr (known ▸ some_))]
      have as_before : recorded (events ++ [.create9Ex pp reply]) = recorded events := by
        rw [recorded_concat, already, Option.some_or]
      rw [kept]
      exact ⟨as_before ▸ noted.none_, as_before ▸ noted.first⟩
    | none =>
      have unknown := noted.none_ already
      have now : recorded (events ++ [.create9Ex pp reply]) = factoryOf (.create9Ex pp reply) := by
        rw [recorded_concat, already, Option.none_or]
      by_cases whole : dword reply.mem pp ≠ 0 ∧ dword reply.mem (dword reply.mem pp) ≠ 0 ∧
          dword reply.mem (dword reply.mem (dword reply.mem pp) + 4 * 20) ≠ 0
      · have factory := now.trans (if_pos ⟨came.1, came.2, whole⟩)
        rw [noteFactory, if_neg (not_or.mpr ⟨whole.1, not_not_intro unknown⟩)]
        dsimp only
        rw [if_neg whole.2.1]
        constructor
        · intro none_
          rw [factory] at none_
          cases none_
        · intro device extended found
          rw [factory] at found
          cases found
          exact ⟨rfl, rfl, whole.2.2⟩
      · have nothing := now.trans (if_neg fun all => whole all.2.2)
        refine ⟨fun _ => ?_, fun device extended found => ?_⟩
        · unfold noteFactory
          dsimp only
          split
          next => exact unknown
          next some_ =>
            split
            next => exact unknown
            next table =>
              by_contra slot
              exact whole ⟨fun null => some_ (.inl null), table, slot⟩
        · rw [nothing] at found
          cases found
  · rw [if_neg came]
    exact noted.keep (if_neg fun all => came ⟨all.1, all.2.1⟩) same

/-! ## Over a run -/

structure Kept (w : World) (base : UInt32) (events : List Event) (out : List Crossing)
    (g : Globals) : Prop where
  noted : Noted events g
  located : Located base g
  latest : Latest (chains w out) g

theorem kept_call {w : World} {base : UInt32} {events : List Event} {out : List Crossing}
    {g : Globals} (kept : Kept w base events out g) {c : Call}
    (one : ∀ b, dxgiBase c = some b → b = base) :
    Kept w base (events ++ [.call c]) (out ++ [(hleCallAddress w g c).2])
      (hleCallAddress w g c).1 := by
  have rest := forceWindowedDxgi_rest w g c (forceWindowed w g c)
  have located : Located base (forceWindowedDxgi w g c (forceWindowed w g c)).1 := by
    rcases forceWindowedDxgi_globals w g c (forceWindowed w g c) with same | asked
    · rw [same]
      exact kept.located
    · rw [asked]
      exact inDxgi_located kept.located one
  have latest := (kept.latest.keep rest).note (hleCallAddress w g c).2
  have chain : ∀ (g : Globals) (x : Crossing), Located base g → Noted (events ++ [.call c]) g →
      Located base (noteSwapChain w g x.call (x.call.machine x.handed)) ∧
        Noted (events ++ [.call c]) (noteSwapChain w g x.call (x.call.machine x.handed)) := by
    intro g x located noted
    rw [noteSwapChain_eq]
    split
    next => exact ⟨located, noted⟩
    next =>
      split
      next => exact ⟨located, noted⟩
      next => exact ⟨located, ⟨noted.none_, noted.first⟩⟩
  obtain ⟨located, noted⟩ := chain _ (hleCallAddress w g c).2 located (kept.noted.keep rfl rest)
  exact ⟨noted, located, latest⟩

theorem run_kept (w : World) {base : UInt32} {events : List Event} (one : OneDxgi base events) :
    Kept w base events ((renderer w).run .initial events).2 ((renderer w).run .initial events).1 := by
  induction events using List.reverseRecOn with
  | nil =>
    exact
      { noted := ⟨fun _ => rfl, fun _ _ found => by cases found⟩
        located := .inl ⟨rfl, rfl⟩
        latest := latest_initial }
  | append_singleton events e ih =>
    have earlier : OneDxgi base events := fun c member => one c (List.mem_append_left _ member)
    have kept := ih earlier
    rw [Transducer.run_concat]
    cases e with
    | create9Ex pp reply =>
      have located : ∀ g iface, Located base g → Located base (noteFactory g reply.mem iface) := by
        intro g iface located
        unfold noteFactory
        split
        next => exact located
        next =>
          dsimp only
          split
          next => exact located
          next => exact located
      have latest : ∀ g iface, Latest (chains w ((renderer w).run .initial events).2) g →
          Latest (chains w ((renderer w).run .initial events).2) (noteFactory g reply.mem iface) := by
        intro g iface latest
        unfold noteFactory
        split
        next => exact latest
        next =>
          dsimp only
          split
          next => exact latest
          next => exact ⟨latest.none_, latest.last, latest.real⟩
      change Kept w base _ (_ ++ []) (if pp ≠ 0 ∧ reply.eax = 0 then _ else _)
      rw [List.append_nil]
      refine ⟨kept.noted.create9Ex pp reply, ?_, ?_⟩
      · split
        next => exact located _ _ kept.located
        next => exact kept.located
      · split
        next => exact latest _ _ kept.latest
        next => exact kept.latest
    | call c =>
      exact kept_call kept (one c (List.mem_append_right _ (List.mem_singleton.mpr rfl)))

/-- The target is neither of the recorded two. -/
def NotRecorded (events : List Event) (target : UInt32) : Prop :=
  ∀ device extended, recorded events = some (device, extended) →
    target ≠ device ∧ target ≠ extended

/-- What one call of a run hands to real code. -/
structure Guarded (w : World) (base : UInt32) (events : List Event) (out : List Crossing) (c : Call)
    (x : Crossing) : Prop where
  /-- a call of CreateDevice or CreateDeviceEx, with a device type that is no address -/
  direct3D : w.fullscreen = false → ∀ device extended, recorded events = some (device, extended) →
    c.target = device ∨ c.target = extended → A32 c.mem c.esp 5 ≠ 0 →
    Separate c.esp (A32 c.mem c.esp 5) → A32 c.mem c.esp 2 < 0x10000 →
    Windowed c.mem x.handed c.esp (c.target = extended)
  /-- a call into dxgi.dll that describes a swap chain -/
  dxgi : w.fullscreen = false → dxgiBase c = some base → InRange base c.target →
    NotRecorded events c.target → ∀ desc, Describes c desc → dword x.handed (desc + 48) = 1
  /-- any other call, and every call where the game may have the screen -/
  untouched : w.fullscreen = true ∨
      NotRecorded events c.target ∧ dxgiBase c = none ∧ ¬ InRange base c.target →
    x.handed = c.mem
  /-- a picture is of the last swap chain, when a Present of it is called -/
  shot : ∀ sc, x.shot = some sc →
    ((chains w out).getLast?.map Prod.fst) = some sc ∧ (sc, c.target) ∈ chains w out
  /-- and there is one for each call of its Present, if it was made but once -/
  shots : ∀ front sc, chains w out = front ++ [(sc, c.target)] → sc ∉ front.map Prod.fst →
    c.target ≠ 0 → x.shot = some sc

/-- A factory at 0x2000 with its table at 0x3000; a stack at 0x10000 with parameters at 0x20000. -/
def desktop : Memory32 :=
  wr32 (wr32 (wr32 (wr32 (wr32 (fun _ => 0) 0x1000 0x2000) 0x2000 0x3000) (0x3000 + 64) 0x70001000)
    (0x3000 + 80) 0x70002000) 0x10018 0x20000

def createDeviceEx : Call where
  target := 0x70002000
  esp := 0x10000
  mem := desktop
  virtualQuery := fun _ => none
  moduleOf := fun _ => none
  isWindow := fun _ => false
  machine := fun mem => ⟨0, mem⟩

def session : World := ⟨false, 0x71000000, 0x71000100, 0x500⟩

end Es3Recomp.Guarantees.Renderer
