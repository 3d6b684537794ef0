import Es3Recomp.Model.Bridge64

/-!
# When a callback leaves the suspended frames alone

`es3_bridge_callback` enters every callback of a thread at the same place, however
deep lifted code is already on that stack (src/src/runtime64/dispatch64.c:1112-1191);
`es3_call_guest`, its sibling, goes below the RSP of its caller. So the frames of
suspended lifted functions survive exactly as long as no callback is bridged while
one that the bridge entered is suspended.
-/
namespace Es3Recomp.Guarantees.Bridge64
open Library Source.Bridge64 Model.Bridge64
variable {L : Layout}

/-- What was written belongs to no frame that was suspended then. -/
def Harmless : Output L → Prop
  | .wrote span suspended => ∀ s ∈ suspended, span.Clear s.frame
  | .resumed _ => True

/-- Every suspended function would find its part of the stack as it left it. -/
def Intact (t : Thread L) : Prop :=
  ∀ s ∈ t.suspended, ∀ a, s.frame.Holds a → t.mem a = s.saved a

/-- The condition on one event: a callback that is bridged meets no suspended
activation of the bridge. -/
def Unnested (t : Thread L) : Event → Prop
  | .callback ctx => t.running = none → HostWindow L ctx.rsp →
      ∀ s ∈ t.suspended, s.act.isBridged = false
  | _ => True

/-- The condition on a run: each of its events meets the condition in its state. -/
def NeverNested (t : Thread L) (events : List Event) : Prop :=
  ∀ pre e post, events = pre ++ e :: post → Unnested ((thread L).run t pre).1 e

theorem neverNested_concat {t : Thread L} {events : List Event} {e : Event}
    (never : NeverNested t (events ++ [e])) :
    NeverNested t events ∧ Unnested ((thread L).run t events).1 e := by
  refine ⟨fun pre e' post split => never pre e' (post ++ [e]) ?_, never events e [] rfl⟩
  rw [split, List.append_assoc, List.cons_append]

/-! ## The invariant -/

/-- The activations of a thread, innermost first; `true` for those of the bridge. -/
def kinds (t : Thread L) : List Bool :=
  (t.running.toList ++ t.suspended.map (·.act)).map Activation.isBridged

/-- At most one activation of the bridge, on top of at most one on the thread's own
stack. -/
def Layered (t : Thread L) : Prop := List.Sublist (kinds t) [true, false]

theorem kinds_native {t : Thread L} (native : t.running = none) :
    kinds t = t.suspended.map (·.act.isBridged) := by
  simp [kinds, native]

theorem kinds_lifted {t : Thread L} {act : Activation L} (lifted : t.running = some act) :
    kinds t = act.isBridged :: t.suspended.map (·.act.isBridged) := by
  simp [kinds, lifted]

/-- Below the running function nothing works on the same stack. -/
theorem differ_of_layered {t : Thread L} {act : Activation L} (layered : Layered t)
    (lifted : t.running = some act) :
    ∀ s ∈ t.suspended, act.isBridged ≠ s.act.isBridged := by
  rw [Layered, kinds_lifted lifted] at layered
  have once : (act.isBridged :: t.suspended.map (·.act.isBridged)).Nodup :=
    layered.nodup (by decide)
  intro s member same
  apply (List.nodup_cons.mp once).1
  rw [same]
  exact List.mem_map_of_mem member

/-- Without the running function the thread is still layered. -/
theorem layered_pop {t : Thread L} {act : Activation L} (layered : Layered t)
    (lifted : t.running = some act) (mem : Memory) :
    Layered { t with mem, running := none } := by
  rw [Layered, kinds_lifted lifted] at layered
  rw [Layered, kinds_native rfl]
  exact (List.sublist_cons_self _ _).trans layered

/-- A callback of the bridge on top of functions that all work on the thread's own
stack. -/
theorem layered_push {t : Thread L} {act : Activation L} (layered : Layered t)
    (native : t.running = none) (bridged : act.isBridged = true)
    (own : ∀ s ∈ t.suspended, s.act.isBridged = false) (mem : Memory) :
    Layered { t with mem, running := some act } := by
  rw [Layered, kinds_native native] at layered
  rw [Layered, kinds_lifted rfl, bridged]
  apply List.Sublist.cons_cons true
  rcases List.sublist_cons_iff.mp layered with below | ⟨rest, starts, -⟩
  · exact below
  · have first : true ∈ t.suspended.map (·.act.isBridged) := by simp [starts]
    obtain ⟨s, member, kind⟩ := List.mem_map.mp first
    rw [own s member] at kind
    cases kind

theorem layered_moved {t : Thread L} {e : Event} {r : Thread L × List (Output L)}
    (moved : Moved t e r) (unnested : Unnested t e) (layered : Layered t) : Layered r.1 := by
  cases moved with
  | nothing => exact layered
  | entered ctx mem act native host bridged same =>
    exact layered_push layered native bridged (unnested native host) mem
  | stored e mem act span lifted within same => exact layered
  | calledOut s lifted saved =>
    rw [Layered, kinds_lifted lifted] at layered
    rw [Layered, kinds_native rfl]
    exact layered
  | resumed s rest native top =>
    rw [Layered, kinds_native native, top] at layered
    rw [Layered, kinds_lifted rfl]
    exact layered
  | returned c act lifted => exact layered_pop layered lifted t.mem
  | left c ctx ctx' mem act lifted host same => exact layered_pop layered lifted mem

/-! ## One event -/

theorem harmless_moved {t : Thread L} {e : Event} {r : Thread L × List (Output L)}
    (moved : Moved t e r) (unnested : Unnested t e) (layered : Layered t) :
    ∀ o ∈ r.2, Harmless o := by
  cases moved with
  | nothing | calledOut | resumed | returned => simp
  | entered ctx mem act native host bridged same =>
    refine List.forall_mem_singleton.mpr fun s member => ?_
    have own := unnested native host s member
    have frame := frame_within s
    rw [stackOf, if_neg (by simp [own])] at frame
    exact L.apart.symm.clear (window_within ctx.rsp) frame
  | stored e mem act span lifted within same =>
    refine List.forall_mem_singleton.mpr fun s member => ?_
    have apart := stacks_apart (differ_of_layered layered lifted s member)
    exact apart.clear (within.trans (reach_within act)) (frame_within s)
  | left c ctx ctx' mem act lifted host same =>
    refine List.forall_mem_cons.mpr ⟨fun s _ => shadow_clear host s, ?_⟩
    exact List.forall_mem_singleton.mpr trivial

theorem intact_write {t : Thread L} {span : Span} {mem : Memory} (running : Option (Activation L))
    (same : SameOutside span t.mem mem) (harmless : Harmless (.wrote span t.suspended))
    (intact : Intact t) : Intact { t with mem, running } := by
  intro s member a here
  rw [← intact s member a here]
  exact same.kept (harmless s member) here

theorem intact_moved {t : Thread L} {e : Event} {r : Thread L × List (Output L)}
    (moved : Moved t e r) (harmless : ∀ o ∈ r.2, Harmless o) (intact : Intact t) :
    Intact r.1 := by
  cases moved with
  | nothing => exact intact
  | entered ctx mem act native host bridged same =>
    exact intact_write _ same (harmless _ (by simp)) intact
  | stored e mem act span lifted within same =>
    exact intact_write _ same (harmless _ (by simp)) intact
  | calledOut s lifted saved =>
    intro s' member a here
    rcases List.mem_cons.mp member with rfl | older
    · rw [saved]
    · exact intact s' older a here
  | resumed s rest native top =>
    intro s' member
    exact intact s' (by rw [top]; exact List.mem_cons_of_mem s member)
  | returned c act lifted => exact intact
  | left c ctx ctx' mem act lifted host same =>
    exact intact_write _ same (harmless _ (by simp)) intact

/-- Where the condition is broken the window goes over a suspended frame. -/
theorem harmful_step {t : Thread L} {e : Event} (nested : ¬ Unnested t e) :
    ∃ o ∈ (step L t e).2, ¬ Harmless o := by
  cases e with
  | callback ctx =>
    simp only [Unnested, Classical.not_imp, not_forall, Bool.not_eq_false] at nested
    obtain ⟨native, host, s, member, bridged⟩ := nested
    rw [step_callback t ctx native host]
    refine ⟨_, List.mem_singleton_self _, fun harmless => ?_⟩
    exact window_meets_frame ctx.rsp bridged (harmless s member)
  | store | callGuest | callOut | nativeReturn | guestReturn => exact absurd trivial nested

/-! ## Runs -/

variable (mem : Memory) (main : Option { cpu : Cpu // (Span.mk cpu.rsp.toNat 0).Within L.own })

theorem layered_start : Layered (Thread.start mem main) := by
  cases main with
  | none => exact List.nil_sublist _
  | some m => exact (List.Sublist.refl [false]).cons true

/-- Harmless writes keep every frame. -/
theorem intact_run (events : List Event)
    (harmless : ∀ o ∈ ((thread L).run (Thread.start mem main) events).2, Harmless o) :
    Intact ((thread L).run (Thread.start mem main) events).1 := by
  induction events using List.reverseRecOn with
  | nil => simp [Intact, Thread.start]
  | append_singleton events e ih =>
    rw [Transducer.run_concat] at harmless ⊢
    have before := ih fun o member => harmless o (List.mem_append_left _ member)
    have moved := step_moved ((thread L).run (Thread.start mem main) events).1 e
    have after := intact_moved moved (fun o member => harmless o (List.mem_append_right _ member))
      before
    exact after

/-- Without nesting every write is harmless. -/
theorem harmless_run (events : List Event) (never : NeverNested (Thread.start mem main) events) :
    Layered ((thread L).run (Thread.start mem main) events).1 ∧
      ∀ o ∈ ((thread L).run (Thread.start mem main) events).2, Harmless o := by
  induction events using List.reverseRecOn with
  | nil => exact ⟨layered_start mem main, by simp⟩
  | append_singleton events e ih =>
    obtain ⟨before, unnested⟩ := neverNested_concat never
    obtain ⟨layered, harmless⟩ := ih before
    have moved := step_moved ((thread L).run (Thread.start mem main) events).1 e
    have after := layered_moved moved unnested layered
    rw [Transducer.run_concat]
    refine ⟨after, fun o member => ?_⟩
    rcases List.mem_append.mp member with old | new
    · exact harmless o old
    · exact harmless_moved moved unnested layered o new

/-- In a run nothing is written into a suspended frame, and every frame stays as it
was left, exactly when no callback is bridged above a suspended activation of the
bridge. -/
theorem frames_kept_iff (events : List Event) :
    ((∀ o ∈ ((thread L).run (Thread.start mem main) events).2, Harmless o) ∧
        ∀ pre, pre <+: events → Intact ((thread L).run (Thread.start mem main) pre).1) ↔
      NeverNested (Thread.start mem main) events := by
  constructor
  · intro kept pre e post split
    have harmless := kept.1
    subst split
    by_contra nested
    obtain ⟨o, member, harmful⟩ := harmful_step nested
    apply harmful
    apply harmless o
    rw [Transducer.run_append, Transducer.run_cons]
    exact List.mem_append_right _ (List.mem_append_left _ member)
  · intro never
    have harmless := (harmless_run mem main events never).2
    refine ⟨harmless, ?_⟩
    intro pre front
    obtain ⟨post, rfl⟩ := front
    rw [Transducer.run_append] at harmless
    exact intact_run mem main pre fun o member => harmless o (List.mem_append_left _ member)

/-! ## A nested callback -/

def someLayout : Layout where
  bridge := 0x20000000
  own := ⟨0x30000000, 0x100000⟩
  fits := by decide
  apart := by decide

/-- A native caller with its RSP there. -/
def callerAt (rsp : UInt64) : Context := ⟨0x401000, rsp, fun _ => 0, fun _ => (0, 0)⟩

/-- A callback calls a native import, which makes a callback, and that one returns. -/
def nested : List Event :=
  [.callback (callerAt 0x7FFF0008), .callOut 0x200FFD00, .callback (callerAt 0x7FFE0008),
    .guestReturn ⟨0x200FFE00, fun _ => 0, fun _ => (0, 0)⟩]

/-- A host stack whose two windows differ. -/
def hostMemory : Memory := fun a => UInt8.ofNat (a / 0x10000)

/-- The inner callback writes into the outer frame, and when it has returned the outer
function no longer has its own return address. -/
theorem frames_corrupted :
    let run := (thread someLayout).run (Thread.start hostMemory none) nested
    (¬ ∀ o ∈ run.2, Harmless o) ∧ ¬ Intact run.1 := by
  have overwritten : (((thread someLayout).run (Thread.start hostMemory none) nested).1.suspended.any
      fun s => decide (s.frame.Holds 0x200FFDF8) &&
        ((thread someLayout).run (Thread.start hostMemory none) nested).1.mem 0x200FFDF8 !=
          s.saved 0x200FFDF8) = true := by decide +kernel
  have corrupted : ¬ Intact ((thread someLayout).run (Thread.start hostMemory none) nested).1 := by
    intro intact
    obtain ⟨s, member, differs⟩ := List.any_eq_true.mp overwritten
    simp only [Bool.and_eq_true, decide_eq_true_eq, bne_iff_ne] at differs
    exact differs.2 (intact s member _ differs.1)
  exact ⟨fun harmless => corrupted (intact_run _ _ _ harmless), corrupted⟩

end Es3Recomp.Guarantees.Bridge64
