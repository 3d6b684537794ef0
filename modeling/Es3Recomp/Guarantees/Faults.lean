import Es3Recomp.Guarantees.ThunkCache
import Es3Recomp.Source.Faults

/-!
# What becomes of an exception

However many exceptions have come before, each one is answered in one of four ways. One that is
raised for a debugger is resumed, and so is a hit of the watchpoint. When real code has called a
lifted guest function, it is resumed in that function's own thunk, the same each time, with
nothing else of the thread changed. Everything else is declined. Of the codes that are declined
without being faults the first eight are named, once each, and of the threads whose TEB does
not have their stack the first sixteen.
-/
namespace Es3Recomp.Guarantees.Faults
open Library Library.FirstSeen Library.Memo Source.Faults
open Source.ThunkCache (thunkFor THUNK_CACHE)

variable {φ : Type} (w : World φ)

/-- Raised to tell a debugger something: a thread's name, or a text. -/
def forADebugger (code : UInt32) : Bool :=
  code = 0x406D1388 || code = 0x40010006 || code = 0x4001000A

/-- What is done about an exception, where `thunk` is the thunk of each guest function and 0 is
none. -/
def fate (thunk : UInt32 → UInt32) (e : Exception) : Disposition × Context :=
  if es3WatchMemHit e then (.continueExecution, { e.context with dr6 := 0 })
  else if forADebugger e.record.code then (.continueExecution, e.context)
  else
    match calledByRealCode w e.record with
    | some va =>
      if thunk va = 0 then (.continueSearch, e.context)
      else (.continueExecution, { e.context with eip := thunk va })
    | none => (.continueSearch, e.context)

/-- The guest functions that real code has called. -/
def realCalls (es : List Exception) : List UInt32 :=
  es.filterMap fun e => calledByRealCode w e.record

/-- Declined, and not a fault. -/
def foreign (e : Exception) : Bool :=
  !es3WatchMemHit e && !isFault e.record.code && !forADebugger e.record.code

def foreignCodes (es : List Exception) : List UInt32 :=
  (es.filter fun e => foreign e && e.record.code ≠ 0).map fun e => e.record.code

/-- A text for a debugger, from a thread whose TEB does not have its stack. -/
def uncovered (e : Exception) : Bool :=
  e.record.code = 0x40010006 &&
    (e.context.esp < e.stackLimit || e.stackBase ≤ e.context.esp)

def uncoveredThreads (es : List Exception) : List UInt32 :=
  (es.filter fun e => uncovered e && e.thread ≠ 0).map Exception.thread

def raisedCodes (lines : List Line) : List UInt32 :=
  lines.filterMap fun
    | .raised code _ => some code
    | _ => none

def warnedThreads (lines : List Line) : List UInt32 :=
  lines.filterMap fun
    | .uncovered thread _ _ _ => some thread
    | _ => none

variable {w} {h : Handler} {e : Exception}

/-! ## One exception -/

theorem calledByRealCode_code {va : UInt32} (called : calledByRealCode w e.record = some va) :
    e.record.code = EXCEPTION_ACCESS_VIOLATION := by
  by_contra other
  rw [calledByRealCode, executeFault, if_neg other] at called
  cases called

theorem hit_code (hit : es3WatchMemHit e = true) : e.record.code = EXCEPTION_SINGLE_STEP := by
  simp only [es3WatchMemHit, Bool.and_eq_true, decide_eq_true_eq] at hit
  exact hit.1.2

theorem isFault_of_called {va : UInt32} (called : calledByRealCode w e.record = some va) :
    isFault e.record.code = true := by
  rw [calledByRealCode_code called]
  rfl

theorem not_fault_of_debugger (debugger : forADebugger e.record.code = true) :
    isFault e.record.code = false := by
  simp only [forADebugger, Bool.or_eq_true, decide_eq_true_eq] at debugger
  rcases debugger with (code | code) | code <;> rw [code] <;> rfl

theorem not_hit_of_fault (fault : isFault e.record.code = true) : es3WatchMemHit e = false := by
  cases hit : es3WatchMemHit e with
  | false => rfl
  | true =>
    rw [hit_code hit] at fault
    cases fault

theorem not_debugger_of_fault (fault : isFault e.record.code = true) :
    forADebugger e.record.code = false := by
  cases debugger : forADebugger e.record.code with
  | false => rfl
  | true =>
    rw [not_fault_of_debugger debugger] at fault
    cases fault

theorem veh_hit (hit : es3WatchMemHit e = true) :
    es3Veh w h e =
      ⟨h, .continueExecution, { e.context with dr6 := 0 }, [.written e.context.eip]⟩ := if_pos hit

/-- The line that a fault starts with. -/
def rawLine (e : Exception) : List Line :=
  if e.record.code = EXCEPTION_ACCESS_VIOLATION ∧ (executeFault e.record).isNone then
    [.raw e.record.code e.record.address]
  else []

theorem veh_fault (fault : isFault e.record.code = true) :
    es3Veh w h e = { aFault w h e with lines := rawLine e ++ (aFault w h e).lines } := by
  rw [es3Veh, not_hit_of_fault fault, if_neg Bool.false_ne_true, fault, if_pos rfl]
  rfl

theorem rawLine_other (other : isFault e.record.code = false) : rawLine e = [] := by
  refine if_neg fun both => ?_
  rw [both.1] at other
  cases other

theorem veh_other (miss : es3WatchMemHit e = false) (other : isFault e.record.code = false) :
    es3Veh w h e = notAFault h e := by
  have lines : (notAFault h e).lines = rawLine e ++ (notAFault h e).lines := by
    rw [rawLine_other other, List.nil_append]
  rw [es3Veh, miss, if_neg Bool.false_ne_true, other, if_neg Bool.false_ne_true]
  exact congrArg (fun l => { notAFault h e with lines := l }) lines.symm

/-! ### The thunk -/

/-- What the cache gives for the call, if it is one. -/
theorem veh_called {va : UInt32} (called : calledByRealCode w e.record = some va) :
    (es3Veh w h e).handler.cache = (thunkFor w.es3Callback h.cache va).1 ∧
      ((es3Veh w h e).disposition, (es3Veh w h e).context) =
        fate w (fun _ => (thunkFor w.es3Callback h.cache va).2) e ∧
      (es3Veh w h e).handler.said = h.said ∧ (es3Veh w h e).handler.told = h.told := by
  have fault := isFault_of_called called
  rw [veh_fault fault, fate, not_hit_of_fault fault, not_debugger_of_fault fault, aFault, called]
  by_cases none_ : (thunkFor w.es3Callback h.cache va).2 = 0
  · simp only [none_, if_true, Bool.false_eq_true, if_false, and_self]
  · simp only [none_, Bool.false_eq_true, if_false, and_self]

/-- Any other exception leaves the cache alone, and no thunk says what becomes of it. -/
theorem veh_uncalled (none_ : calledByRealCode w e.record = none) (thunk : UInt32 → UInt32) :
    (es3Veh w h e).handler.cache = h.cache ∧
      ((es3Veh w h e).disposition, (es3Veh w h e).context) = fate w thunk e := by
  cases hit : es3WatchMemHit e with
  | true =>
    rw [veh_hit hit, fate, if_pos hit]
    exact ⟨rfl, rfl⟩
  | false =>
    rw [fate, hit, if_neg Bool.false_ne_true, none_]
    cases fault : isFault e.record.code with
    | true =>
      rw [veh_fault fault, not_debugger_of_fault fault, if_neg Bool.false_ne_true, aFault, none_]
      exact ⟨rfl, rfl⟩
    | false =>
      rw [veh_other hit fault, notAFault]
      by_cases name : e.record.code = 0x406D1388
      · rw [if_pos name, forADebugger, decide_eq_true name, Bool.true_or, Bool.true_or, if_pos rfl]
        exact ⟨rfl, rfl⟩
      have told : ∀ h, (noteUncovered h e).1.cache = h.cache := by
        intro h
        rw [noteUncovered]
        split
        · split <;> rfl
        · rfl
      have said : ∀ h, (say h e.record).1.cache = h.cache := by
        intro h
        rw [say]
        split <;> rfl
      rw [if_neg name, forADebugger, decide_eq_false name, Bool.false_or]
      by_cases narrow : e.record.code = 0x40010006
      · rw [decide_eq_true narrow, Bool.true_or, if_pos rfl]
        simp only [narrow, if_true, true_or]
        exact ⟨told h, trivial⟩
      · by_cases wide : e.record.code = 0x4001000A
        · rw [decide_eq_true wide, Bool.or_true, if_pos rfl]
          have either : e.record.code = 0x40010006 ∨ e.record.code = 0x4001000A := .inr wide
          simp only [if_neg narrow, if_pos either, and_self]
        · rw [decide_eq_false narrow, decide_eq_false wide, Bool.or_false, if_neg Bool.false_ne_true]
          simp only [narrow, wide, if_false, or_self]
          exact ⟨said h, trivial⟩

/-! ### What is said -/

theorem veh_foreign (declined : foreign e = true) :
    es3Veh w h e =
      ⟨(say h e.record).1, .continueSearch, e.context, (say h e.record).2⟩ := by
  simp only [foreign, Bool.and_eq_true, Bool.not_eq_true'] at declined
  obtain ⟨⟨miss, other⟩, debugger⟩ := declined
  simp only [forADebugger, Bool.or_eq_false_iff, decide_eq_false_iff_not] at debugger
  obtain ⟨⟨name, narrow⟩, wide⟩ := debugger
  rw [veh_other miss other, notAFault, if_neg name]
  simp only [narrow, wide, if_false, or_self, List.nil_append]

theorem veh_text (narrow : e.record.code = 0x40010006) :
    es3Veh w h e = ⟨(noteUncovered h e).1, .continueExecution, e.context, (noteUncovered h e).2⟩ := by
  have miss : es3WatchMemHit e = false := by
    cases hit : es3WatchMemHit e with
    | false => rfl
    | true => exact absurd (narrow.symm.trans (hit_code hit)) (by decide)
  have other : isFault e.record.code = false := by
    rw [narrow]
    rfl
  have name : e.record.code ≠ 0x406D1388 := by
    rw [narrow]
    decide
  rw [veh_other miss other, notAFault, if_neg name]
  simp only [narrow, if_true, true_or]

/-- Neither of the two kinds of line, and neither list changed. -/
structure Quiet (h : Handler) (r : Handled) : Prop where
  said : r.handler.said = h.said
  told : r.handler.told = h.told
  raised : raisedCodes r.lines = []
  warned : warnedThreads r.lines = []

theorem report_quiet (r : ExceptionRecord) :
    raisedCodes (report w r) = [] ∧ warnedThreads (report w r) = [] := by
  rw [report]
  split
  · split
    · split <;> exact ⟨rfl, rfl⟩
    · exact ⟨rfl, rfl⟩
  · exact ⟨rfl, rfl⟩

theorem aFault_quiet : Quiet h (aFault w h e) := by
  rw [aFault]
  split
  · exact ⟨rfl, rfl, (report_quiet e.record).1, (report_quiet e.record).2⟩
  · dsimp only
    split
    · exact ⟨rfl, rfl, (report_quiet e.record).1, (report_quiet e.record).2⟩
    · refine ⟨rfl, rfl, ?_, ?_⟩ <;> (dsimp only; split <;> rfl)

theorem veh_quiet (declined : foreign e = false) (text : e.record.code ≠ 0x40010006) :
    Quiet h (es3Veh w h e) := by
  cases hit : es3WatchMemHit e with
  | true =>
    rw [veh_hit hit]
    exact ⟨rfl, rfl, rfl, rfl⟩
  | false =>
    cases fault : isFault e.record.code with
    | true =>
      have quiet : Quiet h (aFault w h e) := aFault_quiet
      have raw : raisedCodes (rawLine e) = [] ∧ warnedThreads (rawLine e) = [] := by
        rw [rawLine]
        split <;> exact ⟨rfl, rfl⟩
      rw [veh_fault fault]
      refine ⟨quiet.said, quiet.told, ?_, ?_⟩
      · exact (List.filterMap_append ..).trans (congrArg₂ (· ++ ·) raw.1 quiet.raised)
      · exact (List.filterMap_append ..).trans (congrArg₂ (· ++ ·) raw.2 quiet.warned)
    | false =>
      simp only [foreign, hit, fault, Bool.not_false, Bool.true_and, Bool.not_eq_false',
        forADebugger, Bool.or_eq_true, decide_eq_true_eq] at declined
      rw [veh_other hit fault, notAFault]
      rcases declined with (name | narrow) | wide
      · rw [if_pos name]
        exact ⟨rfl, rfl, rfl, rfl⟩
      · exact absurd narrow text
      · have name : e.record.code ≠ 0x406D1388 := by
          rw [wide]
          decide
        have either : e.record.code = 0x40010006 ∨ e.record.code = 0x4001000A := .inr wide
        rw [if_neg name]
        simp only [if_neg text, if_pos either]
        exact ⟨rfl, rfl, rfl, rfl⟩

/-! ## Exceptions in a row -/

/-- An outcome, less what was printed. -/
def seen (o : Outcome) : Exception × Disposition × Context :=
  (o.exception, o.disposition, o.context)

/-- What the handler has done so far, and what it has kept of it. -/
structure Handling (w : World φ) (es : List Exception) (h : Handler) (outs : List Outcome) :
    Prop where
  holds : ThunkCache.Holds h.cache
  log : Log THUNK_CACHE h.cache.asked (realCalls w es)
  fates : outs.map seen = es.map fun e => (e, fate w (kept 0 h.cache.asked) e)
  said : FirstSeen.Holds 0 8 h.said ((firsts (foreignCodes es)).take 8)
  told : FirstSeen.Holds 0 16 h.told ((firsts (uncoveredThreads es)).take 16)
  raised : outs.flatMap (fun o => raisedCodes o.lines) = (firsts (foreignCodes es)).take 8
  warned : outs.flatMap (fun o => warnedThreads o.lines) =
    (firsts (uncoveredThreads es)).take 16

theorem handling_initial (w : World φ) : Handling w [] Handler.initial [] where
  holds := ThunkCache.ready_holds
  log := Log.nil
  fates := rfl
  said := holds_empty 0 8
  told := holds_empty 0 16
  raised := rfl
  warned := rfl

/-- What becomes of an exception depends on the thunk of the function it called, if any. -/
theorem fate_congr {thunk thunk' : UInt32 → UInt32}
    (same : ∀ va, calledByRealCode w e.record = some va → thunk va = thunk' va) :
    fate w thunk e = fate w thunk' e := by
  rw [fate, fate]
  cases called : calledByRealCode w e.record with
  | none => rfl
  | some va => simp only [same va called]

variable {es : List Exception} {outs : List Outcome}

theorem realCalls_concat (es : List Exception) (e : Exception) :
    realCalls w (es ++ [e]) = realCalls w es ++ (calledByRealCode w e.record).toList := by
  rw [realCalls, List.filterMap_append, realCalls]
  cases called : calledByRealCode w e.record with
  | none => simp [called]
  | some va => simp [called]

/-- The cache, its log, and what becomes of the exceptions. -/
theorem Handling.thunks (so_far : Handling w es h outs) (nonzero : w.image.inside 0 = false)
    (e : Exception) :
    let r := es3Veh w h e
    ThunkCache.Holds r.handler.cache ∧
      Log THUNK_CACHE r.handler.cache.asked (realCalls w (es ++ [e])) ∧
      (outs ++ [(⟨e, r.disposition, r.context, r.lines⟩ : Outcome)]).map seen =
        (es ++ [e]).map fun e => (e, fate w (kept 0 r.handler.cache.asked) e) := by
  intro r
  have last : seen ⟨e, r.disposition, r.context, r.lines⟩ =
      (e, r.disposition, r.context) := rfl
  rw [List.map_append, List.map_append, List.map_singleton, List.map_singleton, so_far.fates, last,
    realCalls_concat]
  cases called : calledByRealCode w e.record with
  | none =>
    obtain ⟨cache, here⟩ :=
      veh_uncalled (h := h) called (kept 0 r.handler.cache.asked)
    rw [Option.toList_none, List.append_nil, here, cache]
    exact ⟨so_far.holds, so_far.log, rfl⟩
  | some va =>
    obtain ⟨cache, here, -, -⟩ := veh_called (h := h) called
    have some_ : va ≠ 0 := by
      rintro rfl
      have inside := (Option.filter_eq_some_iff.mp called).2
      rw [nonzero, Bool.false_and] at inside
      cases inside
    obtain ⟨holds, step⟩ := so_far.holds.step w.es3Callback some_
    obtain ⟨log, before, answer⟩ := so_far.log.step w.es3Callback 0 va
    rw [step] at log before answer
    have thunk := List.cons.inj answer
    have now : fate w (fun _ => (thunkFor w.es3Callback h.cache va).2) e =
        fate w (kept 0 (thunkFor w.es3Callback h.cache va).1.asked) e := by
      refine fate_congr fun va' called' => ?_
      rw [called] at called'
      rw [← Option.some.inj called']
      exact thunk.1
    have earlier : (es.map fun e => (e, fate w (kept 0 h.cache.asked) e)) =
        es.map fun e => (e, fate w (kept 0 (thunkFor w.es3Callback h.cache va).1.asked) e) := by
      refine List.map_congr_left fun e' member => congrArg (Prod.mk e') ?_
      refine fate_congr fun va' called' => ?_
      exact (before va' (List.mem_filterMap.mpr ⟨e', member, called'⟩)).symm
    rw [Option.toList_some, here, cache, now, earlier]
    exact ⟨holds, log, rfl⟩

/-! The lines about codes and about threads. -/

theorem named_concat {α β : Type} (p : α → Bool) (f : α → β) (xs : List α) (x : α) :
    ((xs ++ [x]).filter p).map f = (xs.filter p).map f ++ if p x then [f x] else [] := by
  rw [List.filter_append, List.map_append, List.filter_singleton]
  cases p x <;> rfl

theorem foreignCodes_concat (es : List Exception) (e : Exception) :
    foreignCodes (es ++ [e]) =
      foreignCodes es ++ if foreign e ∧ e.record.code ≠ 0 then [e.record.code] else [] := by
  rw [foreignCodes, named_concat]
  simp only [Bool.and_eq_true, decide_eq_true_eq]
  rfl

theorem uncoveredThreads_concat (es : List Exception) (e : Exception) :
    uncoveredThreads (es ++ [e]) =
      uncoveredThreads es ++ if uncovered e ∧ e.thread ≠ 0 then [e.thread] else [] := by
  rw [uncoveredThreads, named_concat]
  simp only [Bool.and_eq_true, decide_eq_true_eq]
  rfl

theorem Handling.codes (so_far : Handling w es h outs) (e : Exception) :
    let r := es3Veh w h e
    FirstSeen.Holds 0 8 r.handler.said ((firsts (foreignCodes (es ++ [e]))).take 8) ∧
      outs.flatMap (fun o => raisedCodes o.lines) ++ raisedCodes r.lines =
        (firsts (foreignCodes (es ++ [e]))).take 8 := by
  intro r
  rw [foreignCodes_concat, so_far.raised]
  by_cases named : foreign e ∧ e.record.code ≠ 0
  · have here : r = _ := veh_foreign named.1
    rw [if_pos named, here, say]
    cases found : claim 0 h.said e.record.code 8 0 with
    | some k =>
      obtain ⟨holds, grown⟩ := so_far.said.claimed named.2 found
      exact ⟨holds, grown.symm⟩
    | none =>
      have same := so_far.said.unclaimed named.2 found
      rw [same]
      exact ⟨so_far.said, List.append_nil _⟩
  · rw [if_neg named, List.append_nil]
    suffices unchanged : r.handler.said = h.said ∧ raisedCodes r.lines = [] by
      rw [unchanged.1, unchanged.2]
      exact ⟨so_far.said, List.append_nil _⟩
    by_cases declined : foreign e = true
    · have zero : e.record.code = 0 := by
        by_contra other
        exact named ⟨declined, other⟩
      have here : r = _ := veh_foreign declined
      rw [here, say, zero, claim_free]
      exact ⟨rfl, rfl⟩
    · by_cases text : e.record.code = 0x40010006
      · have here : r = _ := veh_text text
        rw [here, noteUncovered]
        split
        · split <;> exact ⟨rfl, rfl⟩
        · exact ⟨rfl, rfl⟩
      · have quiet : Quiet h r := veh_quiet (Bool.eq_false_iff.mpr declined) text
        exact ⟨quiet.said, quiet.raised⟩

theorem uncovered_iff : uncovered e = true ↔ e.record.code = 0x40010006 ∧
    (e.context.esp < e.stackLimit ∨ e.stackBase ≤ e.context.esp) := by
  simp only [uncovered, Bool.and_eq_true, Bool.or_eq_true, decide_eq_true_eq]

theorem Handling.threads (so_far : Handling w es h outs) (e : Exception) :
    let r := es3Veh w h e
    FirstSeen.Holds 0 16 r.handler.told ((firsts (uncoveredThreads (es ++ [e]))).take 16) ∧
      outs.flatMap (fun o => warnedThreads o.lines) ++ warnedThreads r.lines =
        (firsts (uncoveredThreads (es ++ [e]))).take 16 := by
  intro r
  rw [uncoveredThreads_concat, so_far.warned]
  by_cases named : uncovered e ∧ e.thread ≠ 0
  · obtain ⟨text, outside⟩ := uncovered_iff.mp named.1
    have here : r = _ := veh_text text
    rw [if_pos named, here, noteUncovered, if_pos outside]
    cases found : claim 0 h.told e.thread 16 0 with
    | some k =>
      obtain ⟨holds, grown⟩ := so_far.told.claimed named.2 found
      exact ⟨holds, grown.symm⟩
    | none =>
      have same := so_far.told.unclaimed named.2 found
      rw [same]
      exact ⟨so_far.told, List.append_nil _⟩
  · rw [if_neg named, List.append_nil]
    suffices unchanged : r.handler.told = h.told ∧ warnedThreads r.lines = [] by
      rw [unchanged.1, unchanged.2]
      exact ⟨so_far.told, List.append_nil _⟩
    by_cases text : e.record.code = 0x40010006
    · have here : r = _ := veh_text text
      rw [here, noteUncovered]
      by_cases outside : e.context.esp < e.stackLimit ∨ e.stackBase ≤ e.context.esp
      · have zero : e.thread = 0 := by
          by_contra other
          exact named ⟨uncovered_iff.mpr ⟨text, outside⟩, other⟩
        rw [if_pos outside, zero, claim_free]
        exact ⟨rfl, rfl⟩
      · rw [if_neg outside]
        exact ⟨rfl, rfl⟩
    · cases declined : foreign e with
      | true =>
        have here : r = _ := veh_foreign declined
        rw [here, say]
        split <;> exact ⟨rfl, rfl⟩
      | false =>
        have quiet : Quiet h r := veh_quiet declined text
        exact ⟨quiet.told, quiet.warned⟩

theorem Handling.step (so_far : Handling w es h outs) (nonzero : w.image.inside 0 = false)
    (e : Exception) :
    Handling w (es ++ [e]) ((exceptions w).step h e).1 (outs ++ ((exceptions w).step h e).2) := by
  obtain ⟨holds, log, fates⟩ := so_far.thunks nonzero e
  obtain ⟨said, raised⟩ := so_far.codes e
  obtain ⟨told, warned⟩ := so_far.threads e
  refine ⟨holds, log, fates, said, told, ?_, ?_⟩
  · rw [List.flatMap_append, exceptions, List.flatMap_singleton, raised]
  · rw [List.flatMap_append, exceptions, List.flatMap_singleton, warned]

theorem run_handling (nonzero : w.image.inside 0 = false) (es : List Exception) :
    Handling w es ((exceptions w).run Handler.initial es).1
      ((exceptions w).run Handler.initial es).2 := by
  induction es using List.reverseRecOn with
  | nil => exact handling_initial w
  | append_singleton es e ih =>
    rw [Transducer.run_concat]
    exact ih.step nonzero e

/-- A function that has no thunk although real code has called it was called when 512 others
had theirs. -/
theorem Handling.served (so_far : Handling w es h outs) (fresh : Fresh 0 h.cache.asked)
    (few : (realCalls w es).toFinset.card ≤ THUNK_CACHE) {va : UInt32}
    (called : va ∈ realCalls w es) : kept 0 h.cache.asked va ≠ 0 := by
  cases found : h.cache.asked.lookup va with
  | some t =>
    rw [kept, found]
    rintro rfl
    exact fresh.2 (List.mem_map.mpr ⟨_, mem_of_lookup found, rfl⟩)
  | none =>
    have absent : va ∉ (h.cache.asked.map Prod.fst).toFinset := by
      rw [List.mem_toFinset]
      exact lookup_none_iff.mp found
    have both : insert va (h.cache.asked.map Prod.fst).toFinset ⊆ (realCalls w es).toFinset := by
      intro a member
      rw [Finset.mem_insert, List.mem_toFinset] at member
      rw [List.mem_toFinset]
      rcases member with rfl | asked
      · exact called
      · exact so_far.log.came a asked
    have many := Finset.card_le_card both
    rw [Finset.card_insert_of_notMem absent, List.toFinset_card_of_nodup so_far.log.once,
      List.length_map] at many
    have full := so_far.log.keeps va called found
    omega

/-- How a run of exceptions went. -/
structure Answered (w : World φ) (es : List Exception) (outs : List Outcome)
    (thunk : UInt32 → UInt32) : Prop where
  /-- what becomes of an exception does not depend on those before it -/
  fates : outs.map seen = es.map fun e => (e, fate w thunk e)
  apart : ∀ va va', thunk va ≠ 0 → thunk va = thunk va' → va = va'
  /-- as long as real code has called no more than 512 guest functions, each has its thunk -/
  served : (realCalls w es).toFinset.card ≤ THUNK_CACHE → ∀ va ∈ realCalls w es, thunk va ≠ 0
  lifted : ∀ va ∈ realCalls w es, (Source.Dispatch.find w.table w.index va).isSome
  codes : outs.flatMap (fun o => raisedCodes o.lines) = (firsts (foreignCodes es)).take 8
  threads : outs.flatMap (fun o => warnedThreads o.lines) = (firsts (uncoveredThreads es)).take 16

/-- There is one thunk for each guest function that says what becomes of every exception of a
run, as long as every answer of `es3_callback` was a new one and not zero. -/
theorem exceptions_answered (w : World φ) (es : List Exception)
    (nonzero : w.image.inside 0 = false)
    (fresh : Fresh 0 ((exceptions w).run Handler.initial es).1.cache.asked) :
    ∃ thunk, Answered w es ((exceptions w).run Handler.initial es).2 thunk := by
  have handling := run_handling nonzero es
  refine ⟨kept 0 ((exceptions w).run Handler.initial es).1.cache.asked, handling.fates,
    fun _ _ => kept_injective fresh, fun few _ => handling.served fresh few, ?_,
    handling.raised, handling.warned⟩
  intro va called
  obtain ⟨e, -, here⟩ := List.mem_filterMap.mp called
  exact (Bool.and_eq_true_iff.mp (Option.filter_eq_some_iff.mp here).2).2

/-- One lifted function, which real code calls twice, with a throw in between. -/
def oneFunction : World Unit where
  image := ⟨0x400000, 0x2000000⟩
  symbols := ⟨0, fun _ => "", fun _ => "", 0x400000⟩
  table := [⟨0x401000, ()⟩]
  index := none
  es3Callback asked _ := 0x70000000 + 16 * UInt32.ofNat asked.length
  owner _ := 0

def exceptionOf (code : UInt32) (information : List UInt32) : Exception :=
  ⟨⟨code, 0x401000, information⟩, ⟨0x401000, 0x200000, 0⟩, 4, 0x100000, 0x300000, 0⟩

theorem exceptions_answered_twice :
    ∃ thunk, Answered oneFunction
      [exceptionOf 0xC0000005 [8, 0x401000], exceptionOf 0xE06D7363 [],
        exceptionOf 0xC0000005 [8, 0x401000]]
      ((exceptions oneFunction).run Handler.initial
        [exceptionOf 0xC0000005 [8, 0x401000], exceptionOf 0xE06D7363 [],
          exceptionOf 0xC0000005 [8, 0x401000]]).2 thunk :=
  exceptions_answered oneFunction
    [exceptionOf 0xC0000005 [8, 0x401000], exceptionOf 0xE06D7363 [],
      exceptionOf 0xC0000005 [8, 0x401000]]
    (by decide) ⟨by decide +kernel, by decide +kernel⟩

end Es3Recomp.Guarantees.Faults
