import Es3Recomp.Library.RingLog
import Es3Recomp.Source.Trail
import Mathlib.Data.List.Induction

/-!
# The trail as a log of entries

`logOf` reads the words of the ring as a `RingLog` of thread ids and addresses
with 2^20 slots and a counter modulo 2^32; `logOf_note` says that the writer
records in it. Each reader then prints or searches `recent` entries of the log,
whatever has been recorded.
-/
namespace Es3Recomp.Model.Trail
open Library Source.Trail

abbrev Entry := UInt32 × UInt32

def cap : Nat := 1048576
def modulus : Nat := 4294967296

instance : NeZero cap := ⟨by decide⟩
instance : NeZero modulus := ⟨by decide⟩

theorem cap_dvd_modulus : cap ∣ modulus := ⟨4096, rfl⟩

/-- The words of a slot. -/
def tidAt (k : Fin cap) : Fin RING_WORDS :=
  ⟨2 + 2 * k.val, by have := k.isLt; unfold cap at this; unfold RING_WORDS; omega⟩

def vaAt (k : Fin cap) : Fin RING_WORDS :=
  ⟨3 + 2 * k.val, by have := k.isLt; unfold cap at this; unfold RING_WORDS; omega⟩

def logOf (t : Trace) : RingLog Entry cap modulus where
  slot := fun k => (t.ring (tidAt k), t.ring (vaAt k))
  count := ⟨(ringCount t).toNat, (ringCount t).toNat_lt⟩

theorem tidIndex_eq (i : UInt32) : tidIndex i = tidAt (Fin.ofNat cap i.toNat) :=
  Fin.ext (congrArg (fun k => 2 + 2 * k) (masked_eq i))

theorem vaIndex_eq (i : UInt32) : vaIndex i = vaAt (Fin.ofNat cap i.toNat) :=
  Fin.ext (congrArg (fun k => 3 + 2 * k) (masked_eq i))

theorem tidAt_inj {k l : Fin cap} : tidAt k = tidAt l ↔ k = l := by
  simp only [tidAt, Fin.ext_iff]
  omega

theorem vaAt_inj {k l : Fin cap} : vaAt k = vaAt l ↔ k = l := by
  simp only [vaAt, Fin.ext_iff]
  omega

theorem tidAt_ne_vaAt (k l : Fin cap) : tidAt k ≠ vaAt l := by
  simp only [tidAt, vaAt, ne_eq, Fin.mk.injEq]
  omega

theorem header_ne (k : Fin cap) :
    (tidAt k ≠ countIndex ∧ vaAt k ≠ countIndex) ∧ tidAt k ≠ strideIndex ∧ vaAt k ≠ strideIndex := by
  simp only [tidAt, vaAt, countIndex, strideIndex, ne_eq, Fin.mk.injEq]
  omega

/-- `RING_TID(i)` and `RING_VA(i)` are the entry of the log for the counter value `i`. -/
theorem ring_entry (t : Trace) (i : UInt32) :
    (ringTid t i, ringVa t i) = (logOf t).entry i.toNat := by
  rw [ringTid, ringVa, tidIndex_eq, vaIndex_eq]
  rfl

/-- The writer records in the log. -/
theorem logOf_note (t : Trace) (on : t.trailOff = false) (e : Entry) :
    logOf (es3NoteDispatch t e.1 e.2) = (logOf t).note e := by
  have stored : es3NoteDispatch t e.1 e.2 = { t with
      ring := Function.update (Function.update (Function.update t.ring
        (tidAt (Fin.ofNat cap (ringCount t).toNat)) e.1)
        (vaAt (Fin.ofNat cap (ringCount t).toNat)) e.2) countIndex (ringCount t + 1) } := by
    simp only [es3NoteDispatch, on, Bool.false_eq_true, if_false, tidIndex_eq, vaIndex_eq]
  have slots : (logOf (es3NoteDispatch t e.1 e.2)).slot = ((logOf t).note e).slot := by
    funext k
    obtain ⟨⟨tidCount, vaCount⟩, -⟩ := header_ne k
    simp only [stored, logOf, RingLog.note, Function.update_of_ne tidCount,
      Function.update_of_ne vaCount, Function.update_of_ne (tidAt_ne_vaAt _ _)]
    by_cases here : k = Fin.ofNat cap (ringCount t).toNat
    · rw [here, Function.update_self, Function.update_self, Function.update_self]
    · have other : vaAt k ≠ tidAt (Fin.ofNat cap (ringCount t).toNat) := (tidAt_ne_vaAt _ _).symm
      rw [Function.update_of_ne here, Function.update_of_ne (fun h => here (tidAt_inj.mp h)),
        Function.update_of_ne (fun h => here (vaAt_inj.mp h)), Function.update_of_ne other]
  have counts : (logOf (es3NoteDispatch t e.1 e.2)).count = ((logOf t).note e).count := by
    apply Fin.ext
    simp only [stored, logOf, ringCount, Function.update_self, RingLog.note, Fin.val_ofNat]
    exact UInt32.toNat_add _ _
  exact congr (congrArg RingLog.mk slots) counts

theorem stride_note (t : Trace) (e : Entry) :
    (es3NoteDispatch t e.1 e.2).ring strideIndex = t.ring strideIndex := by
  unfold es3NoteDispatch
  split
  · rfl
  · obtain ⟨-, tidStride, vaStride⟩ := header_ne (Fin.ofNat cap (ringCount t).toNat)
    have apart : strideIndex ≠ countIndex := by decide
    simp only [tidIndex_eq, vaIndex_eq]
    rw [Function.update_of_ne apart, Function.update_of_ne vaStride.symm,
      Function.update_of_ne tidStride.symm]

/-- The ring after it was opened and these dispatches were noted. -/
def noted (t : Trace) (calls : List Entry) : Trace :=
  calls.foldl (fun t e => es3NoteDispatch t e.1 e.2) (openTrail t)

/-- What of the calls is recorded: nothing with `ES3_NO_TRAIL`. -/
def recorded (t : Trace) (calls : List Entry) : List Entry := if t.trailOff then [] else calls

theorem trailOff_note (t : Trace) (e : Entry) :
    (es3NoteDispatch t e.1 e.2).trailOff = t.trailOff := by
  unfold es3NoteDispatch
  split <;> rfl

/-- The writer, run on the calls, is the log's `record`. -/
theorem logOf_noted (t : Trace) (calls : List Entry) :
    logOf (noted t calls) = (logOf (openTrail t)).record (recorded t calls) ∧
      (noted t calls).ring strideIndex = 2 ∧ (noted t calls).trailOff = t.trailOff := by
  induction calls using List.reverseRecOn with
  | nil => exact ⟨by simp [noted, recorded, RingLog.record], by simp [noted, openTrail], rfl⟩
  | append_singleton calls e ih =>
    obtain ⟨log, stride, off⟩ := ih
    have last : noted t (calls ++ [e]) = es3NoteDispatch (noted t calls) e.1 e.2 := by
      simp [noted]
    rw [last]
    refine ⟨?_, (stride_note _ e).trans stride, (trailOff_note _ e).trans off⟩
    cases switch : t.trailOff with
    | true =>
      have idle : es3NoteDispatch (noted t calls) e.1 e.2 = noted t calls := by
        simp only [es3NoteDispatch, off, switch, if_true]
      rw [idle, log]
      simp [recorded, switch]
    | false =>
      rw [logOf_note _ (off.trans switch) e, log]
      simp [recorded, switch, RingLog.record]

/-- After any number of calls, the log has recorded them and the stride is 2. -/
theorem noted_logs (t : Trace) (calls : List Entry) :
    RingLog.Logs (logOf (noted t calls)) (recorded t calls) ∧
      (noted t calls).ring strideIndex = 2 ∧ (noted t calls).trailOff = t.trailOff := by
  obtain ⟨log, kept⟩ := logOf_noted t calls
  have fresh : (logOf (openTrail t)).count.val = 0 := rfl
  have start := RingLog.logs_nil (logOf (openTrail t)) fresh
  rw [log]
  exact ⟨start.record cap_dvd_modulus (recorded t calls), kept⟩

/-! ## What the readers find -/

theorem count_toNat (t : Trace) : (ringCount t).toNat = (logOf t).count.val := rfl

/-- The loop of `es3_report_state` prints the last entries. -/
theorem reportState_entries (sym : Symbols) (t : Trace) (why : String) :
    (es3ReportState sym t why).lines.map (fun l => (l.tid, l.va)) =
      (logOf t).recent (min (logOf t).count.val 24) := by
  have shown : (es3ReportState sym t why).shown.toNat = min (ringCount t).toNat 24 := by
    simp only [es3ReportState, UInt32.lt_iff_toNat_lt]
    have limit : (24 : UInt32).toNat = 24 := rfl
    split <;> omega
  have bound := (ringCount t).toNat_lt
  rw [← count_toNat, ← shown, RingLog.recent, ← count_toNat]
  simp only [es3ReportState] at shown ⊢
  generalize (if ringCount t < 24 then ringCount t else 24) = k at shown
  rw [List.map_map]
  refine List.map_congr_left fun j member => ?_
  have inside : j < k.toNat := List.mem_range.mp member
  have below : k ≤ ringCount t := by
    rw [UInt32.le_iff_toNat_le]
    omega
  have index : (ringCount t - k + UInt32.ofNat j).toNat = (ringCount t).toNat - k.toNat + j := by
    rw [UInt32.toNat_add, UInt32.toNat_sub_of_le _ _ below, UInt32.toNat_ofNat']
    omega
  simp only [Function.comp, reportLine]
  rw [ring_entry, index]

/-- What `last_va_on` should say about a thread, from the entries that are kept:
its last address that is no import, and its last address when that is an import. -/
def lastCall (sym : Symbols) (tid : UInt32) (kept : List Entry) : UInt32 × UInt32 :=
  let mine := (kept.filter fun e => e.1 = tid).map Prod.snd
  ((mine.filter fun va => ¬ hleIsAddr sym va).getLast?.getD 0,
    (mine.getLast?.filter (hleIsAddr sym)).getD 0)

theorem import_ne_zero {sym : Symbols} {va : UInt32} (isImport : hleIsAddr sym va = true) :
    va ≠ 0 := by
  intro null
  subst null
  simp only [hleIsAddr, decide_eq_true_eq] at isImport
  exact absurd isImport.1 (by decide)

/-- The loop of `last_va_on` on the entries it meets, newest first. By induction on
them: another thread's entry is passed over, an import is remembered when it is the
first, anything else ends the loop. -/
theorem walkBack_eq (sym : Symbols) (t : Trace) (tid : UInt32) (ks : List UInt32) (imp : UInt32) :
    let mine := ((ks.map fun k => (ringTid t k, ringVa t k)).filter fun e => e.1 = tid).map Prod.snd
    walkBack sym t tid ks imp =
      ((mine.filter fun va => ¬ hleIsAddr sym va).head?.getD 0,
        if imp = 0 then (mine.head?.filter (hleIsAddr sym)).getD 0 else imp) := by
  induction ks generalizing imp with
  | nil => by_cases none : imp = 0 <;> simp [walkBack, none]
  | cons k ks ih =>
    by_cases other : ringTid t k ≠ tid
    · simp only [walkBack, if_pos other, ih]
      simp [other]
    · rw [not_not] at other
      cases isImport : hleIsAddr sym (ringVa t k) with
      | true =>
        have nonzero := import_ne_zero isImport
        by_cases none : imp = 0
        · simp [walkBack, other, isImport, ih, none, nonzero, Option.filter]
        · simp [walkBack, other, isImport, ih, none]
      | false =>
        by_cases none : imp = 0 <;> simp [walkBack, other, isImport, none, Option.filter]

/-- Counting down from the counter, the loop meets the last entries from the newest on. -/
theorem met_entries (t : Trace) {n : Nat} (within : n ≤ (logOf t).count.val) :
    (((List.range n).map fun i => ringCount t - 1 - UInt32.ofNat i).map
        fun k => (ringTid t k, ringVa t k)) = ((logOf t).recent n).reverse := by
  have bound := (ringCount t).toNat_lt
  rw [← count_toNat] at within
  apply List.ext_getElem
  · simp [RingLog.recent]
  · intro i inside _
    have near : i < n := by simpa using inside
    have one : (1 : UInt32) ≤ ringCount t := by
      rw [UInt32.le_iff_toNat_le, UInt32.toNat_one]
      omega
    have small : (UInt32.ofNat i).toNat = i := by
      rw [UInt32.toNat_ofNat']
      omega
    have below : UInt32.ofNat i ≤ ringCount t - 1 := by
      rw [UInt32.le_iff_toNat_le, small, UInt32.toNat_sub_of_le _ _ one, UInt32.toNat_one]
      omega
    have index : (ringCount t - 1 - UInt32.ofNat i).toNat = (logOf t).count.val - 1 - i := by
      rw [UInt32.toNat_sub_of_le _ _ below, UInt32.toNat_sub_of_le _ _ one, small,
        UInt32.toNat_one, count_toNat]
    rw [count_toNat] at within
    simp only [RingLog.recent, List.getElem_map, List.getElem_range, List.getElem_reverse,
      List.length_map, List.length_range]
    rw [ring_entry, index]
    congr 1
    omega

theorem lastVaOn_entries (sym : Symbols) (t : Trace) (tid : UInt32) :
    lastVaOn sym t tid =
      lastCall sym tid ((logOf t).recent (min (logOf t).count.val cap)) := by
  have steps : (if ringCount t < TRAIL then ringCount t else TRAIL).toNat =
      min (logOf t).count.val cap := by
    have limit : TRAIL.toNat = cap := rfl
    simp only [UInt32.lt_iff_toNat_lt, ← count_toNat]
    split <;> omega
  rw [lastVaOn]
  simp only [steps]
  rw [walkBack_eq]
  simp only [met_entries t (Nat.min_le_left _ _), lastCall, if_true, List.filter_reverse,
    List.map_reverse, List.head?_reverse]

/-! ## The file -/

theorem getD_words (t : Trace) (k : Fin RING_WORDS) :
    ((List.ofFn t.ring).map UInt32.toNat).getD k.val 0 = (t.ring k).toNat := by
  simp [List.getD_eq_getElem?_getD]

/-- Entry `i` of the file is the entry of the log for the counter value `i`. -/
theorem entryAt_words (t : Trace) (i : Nat) :
    entryAt (((List.ofFn t.ring).map UInt32.toNat).drop 2) 2 cap i =
      (((logOf t).entry i).1.toNat, ((logOf t).entry i).2.toNat) := by
  have tid := getD_words t (tidAt (Fin.ofNat cap i))
  have va := getD_words t (vaAt (Fin.ofNat cap i))
  simp only [tidAt, vaAt, Fin.val_ofNat] at tid va
  simp only [entryAt, if_true, List.getD_eq_getElem?_getD, List.getElem?_drop] at tid va ⊢
  rw [show 2 + (2 * (i % cap) + (2 - 1)) = 3 + 2 * (i % cap) by omega, tid, va]
  rfl

/-- `cmd_trail` on the bytes of the ring lists the last entries of the threads that
were asked for. -/
theorem cmdTrail_entries (t : Trace) (stride : t.ring strideIndex = 2) (file : String)
    (thread : Nat) (imports : List (String × String)) :
    ∃ listing, cmdTrail file (dump (List.ofFn t.ring)) thread imports = .ok listing ∧
      listing.lines.map (fun l => (l.tid, l.va)) =
        (((logOf t).recent (min (logOf t).count.val cap)).map
          fun e => (e.1.toNat, e.2.toNat)).filter fun e => thread = 0 ∨ e.1 = thread := by
  have long : ¬ (dump (List.ofFn t.ring)).length < 8 := by
    rw [length_dump, List.length_ofFn]
    decide
  have total : ((List.ofFn t.ring).map UInt32.toNat).getD 0 0 = (logOf t).count.val :=
    getD_words t countIndex
  have width : ((List.ofFn t.ring).map UInt32.toNat).getD 1 0 = 2 := by
    have := getD_words t strideIndex
    rwa [stride] at this
  have places : (((List.ofFn t.ring).map UInt32.toNat).drop 2).length / 2 = cap := by
    rw [List.length_drop, List.length_map, List.length_ofFn]
    rfl
  have window : (List.range' ((logOf t).count.val - cap)
        ((logOf t).count.val - ((logOf t).count.val - cap))).map
          (fun i => entryAt (((List.ofFn t.ring).map UInt32.toNat).drop 2) 2 cap i) =
      ((logOf t).recent (min (logOf t).count.val cap)).map
        fun e => (e.1.toNat, e.2.toNat) := by
    rw [List.range'_eq_map_range, RingLog.recent, List.map_map, List.map_map,
      show (logOf t).count.val - ((logOf t).count.val - cap) = min (logOf t).count.val cap by omega]
    refine List.map_congr_left fun j _ => ?_
    simp only [Function.comp, entryAt_words]
    rw [show (logOf t).count.val - cap = (logOf t).count.val - min (logOf t).count.val cap by omega]
  unfold cmdTrail
  simp only [if_neg long, unpack_dump, total, width, OfNat.ofNat_ne_zero, if_false, places]
  refine ⟨_, rfl, ?_⟩
  rw [← window, List.map_map, List.filter_map, List.filter_map, List.map_map]
  simp only [Function.comp_def]

end Es3Recomp.Model.Trail
