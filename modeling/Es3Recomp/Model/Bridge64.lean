import Es3Recomp.Source.Bridge64

/-!
# Stacks, frames and what an event writes

Every activation works on one of the thread's two stacks, and its frame stays on
that stack. `step_moved` says once what an event can do to a thread; what follows
about frames is derived from it.
-/
namespace Es3Recomp.Model.Bridge64
open Library Source.Bridge64
variable {L : Layout}

/-- The bridge stack of the thread. -/
def bridgeSpan (L : Layout) : Span := ⟨L.bridge.toNat, BRIDGE_STACK⟩

/-- The stack an activation works on. -/
def stackOf (act : Activation L) : Span := if act.isBridged then bridgeSpan L else L.own

theorem reach_within (act : Activation L) : act.reach.Within (stackOf act) := by
  cases act with
  | own cpu inside => exact ⟨Nat.le_refl _, Nat.le_refl _⟩
  | bridged ctx retaddr cpu host top =>
    have bounds := topOf_bounds L ctx.rsp
    rw [← top] at bounds
    simp only [Span.Within, Activation.reach, stackOf, Activation.isBridged, if_true, bridgeSpan,
      BRIDGE_STACK, BRIDGE_ARGCOPY]
    omega

theorem entry_reached (act : Activation L) :
    act.reach.start ≤ act.entry ∧ act.entry ≤ act.reach.start + act.reach.len := by
  cases act with
  | own cpu inside => exact inside
  | bridged ctx retaddr cpu host top =>
    have bounds := topOf_bounds L ctx.rsp
    rw [← top] at bounds
    simp only [Activation.reach, Activation.entry, BRIDGE_ARGCOPY]
    omega

theorem frame_within (s : Suspended L) : s.frame.Within (stackOf s.act) := by
  apply Span.Within.trans _ (reach_within s.act)
  have inside := s.inside
  have reached := entry_reached s.act
  simp only [Span.Within, Suspended.frame]
  omega

/-- The two stacks lie apart. -/
theorem stacks_apart {a b : Activation L} (differ : a.isBridged ≠ b.isBridged) :
    (stackOf a).Apart (stackOf b) := by
  cases ha : a.isBridged with
  | false =>
    rw [ha] at differ
    rw [stackOf, stackOf, if_neg (by simp [ha]), if_pos (by simpa using differ.symm)]
    exact L.apart
  | true =>
    rw [ha] at differ
    rw [stackOf, stackOf, if_pos ha, if_neg (by simpa using differ.symm)]
    exact L.apart.symm

/-- The window the bridge writes into on its own stack. -/
def window (L : Layout) (rsp : UInt64) : Span := ⟨(topOf L.bridge rsp).toNat, BRIDGE_ARGCOPY⟩

theorem window_within (rsp : UInt64) : (window L rsp).Within (bridgeSpan L) := by
  have bounds := topOf_bounds L rsp
  simp only [Span.Within, window, bridgeSpan, BRIDGE_STACK, BRIDGE_ARGCOPY]
  omega

/-- The shadow space lies in the host's window, on neither of the two stacks. -/
theorem shadow_clear {rsp : UInt64} (host : HostWindow L rsp) (s : Suspended L) :
    (Span.mk (rsp.toNat + 8) 32).Clear s.frame := by
  have shadow : (Span.mk (rsp.toNat + 8) 32).Within ⟨rsp.toNat, BRIDGE_ARGCOPY⟩ := by
    simp only [Span.Within, BRIDGE_ARGCOPY]
    omega
  have frame := frame_within s
  unfold stackOf at frame
  split at frame
  · exact host.2.1.clear shadow frame
  · exact host.2.2.clear shadow frame

/-- The frame of a bridged activation shares a byte with every window the bridge
writes: two tops are at most 15 bytes apart. -/
theorem window_meets_frame (rsp : UInt64) {s : Suspended L} (bridged : s.act.isBridged = true) :
    ¬ (window L rsp).Clear s.frame := by
  intro clear
  have inside := s.inside
  cases act : s.act with
  | own cpu within =>
    rw [act] at bridged
    cases bridged
  | bridged ctx retaddr cpu host top =>
    have outer := topOf_bounds L ctx.rsp
    have inner := topOf_bounds L rsp
    rw [← top] at outer
    rw [act] at inside
    apply clear (max cpu.rsp.toNat (topOf L.bridge rsp).toNat)
    · simp only [Span.Holds, window, BRIDGE_ARGCOPY]
      omega
    · simp only [Span.Holds, Suspended.frame, act, Activation.reach, Activation.entry,
        BRIDGE_ARGCOPY] at inside ⊢
      omega

/-! ## What an event does -/

inductive Moved (t : Thread L) : Event → Thread L × List (Output L) → Prop
  | nothing (e : Event) : Moved t e (t, [])
  | entered (ctx : Context) (mem : Memory) (act : Activation L) (native : t.running = none)
      (host : HostWindow L ctx.rsp) (bridged : act.isBridged = true)
      (same : SameOutside (window L ctx.rsp) t.mem mem) :
      Moved t (.callback ctx)
        ({ t with mem, running := some act }, [.wrote (window L ctx.rsp) t.suspended])
  | stored (e : Event) (mem : Memory) (act : Activation L) (span : Span)
      (lifted : t.running = some act) (within : span.Within act.reach)
      (same : SameOutside span t.mem mem) :
      Moved t e ({ t with mem }, [.wrote span t.suspended])
  | calledOut (s : Suspended L) (lifted : t.running = some s.act) (saved : s.saved = t.mem) :
      Moved t (.callOut s.rsp) ({ t with suspended := s :: t.suspended, running := none }, [])
  | resumed (s : Suspended L) (rest : List (Suspended L)) (native : t.running = none)
      (top : t.suspended = s :: rest) :
      Moved t .nativeReturn ({ t with suspended := rest, running := some s.act }, [])
  | returned (c : Cpu) (act : Activation L) (lifted : t.running = some act) :
      Moved t (.guestReturn c) ({ t with running := none }, [])
  | left (c : Cpu) (ctx ctx' : Context) (mem : Memory) (act : Activation L)
      (lifted : t.running = some act) (host : HostWindow L ctx.rsp)
      (same : SameOutside ⟨ctx.rsp.toNat + 8, 32⟩ t.mem mem) :
      Moved t (.guestReturn c) ({ t with mem, running := none },
        [.wrote ⟨ctx.rsp.toNat + 8, 32⟩ t.suspended, .resumed ctx'])

theorem wr64_sameOutside (mem : Memory) (a v : UInt64) :
    SameOutside ⟨a.toNat, 8⟩ mem (wr64 mem a v) :=
  store_sameOutside mem a.toNat (dump [v.toUInt32, (v >>> 32).toUInt32])

theorem step_callback (t : Thread L) (ctx : Context) (native : t.running = none)
    (host : HostWindow L ctx.rsp) :
    step L t (.callback ctx) =
      ({ t with
          mem := copy t.mem (topOf L.bridge ctx.rsp).toNat ctx.rsp.toNat BRIDGE_ARGCOPY
          running := some (.bridged ctx (rd64 t.mem ctx.rsp)
            ⟨topOf L.bridge ctx.rsp, ctx.gpr, ctx.xmm⟩ host rfl) },
        [.wrote (window L ctx.rsp) t.suspended]) := by
  simp only [step, native, dif_pos host, bridgeEnter, Activation.entry, window]

theorem step_moved (t : Thread L) (e : Event) : Moved t e (step L t e) := by
  obtain ⟨mem, suspended, running⟩ := t
  cases e with
  | callback ctx =>
    cases running with
    | some act => exact .nothing _
    | none =>
      by_cases host : HostWindow L ctx.rsp
      · rw [step_callback _ ctx rfl host]
        exact .entered ctx _ _ rfl host rfl (copy_sameOutside _ _ _ _)
      · simp only [step, host, dif_neg, not_false_eq_true]
        exact .nothing _
  | store addr b =>
    cases running with
    | none => exact .nothing _
    | some act =>
      by_cases within : (Span.mk addr 1).Within act.reach
      · simp only [step, within, if_true]
        exact .stored _ _ act _ rfl within (store_sameOutside mem addr [b])
      · simp only [step, within, if_false]
        exact .nothing _
  | callGuest c =>
    cases running with
    | none => exact .nothing _
    | some act =>
      by_cases within : (Span.mk (c.rsp - 8).toNat 8).Within act.reach
      · simp only [step, es3CallGuest, within, if_true]
        exact .stored _ _ act _ rfl within (wr64_sameOutside mem _ _)
      · simp only [step, es3CallGuest, within, if_false]
        exact .nothing _
  | callOut rsp =>
    cases running with
    | none => exact .nothing _
    | some act =>
      by_cases inside : act.reach.start ≤ rsp.toNat ∧ rsp.toNat ≤ act.entry
      · simp only [step, dif_pos inside]
        exact .calledOut ⟨act, rsp, mem, inside⟩ rfl rfl
      · simp only [step, dif_neg inside]
        exact .nothing _
  | nativeReturn =>
    cases running with
    | some act => exact .nothing _
    | none =>
      cases suspended with
      | nil => exact .nothing _
      | cons s rest => exact .resumed s rest rfl rfl
  | guestReturn c =>
    cases running with
    | none => exact .nothing _
    | some act =>
      cases act with
      | own cpu inside => exact .returned c _ rfl
      | bridged ctx retaddr cpu host top =>
        exact .left c ctx _ _ _ rfl host (copy_sameOutside _ _ _ _)

end Es3Recomp.Model.Bridge64
