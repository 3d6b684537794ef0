import Mathlib.Algebra.Group.Nat.Defs
import Es3Recomp.Guarantees.Allnet.Searches
import Es3Recomp.Guarantees.Resolver
import Es3Recomp.Library.JsonObject
import Es3Recomp.Source.Allnet

/-!
# What the game is answered

Every answer fits where it is printed, so the server never ends the process.
-/
namespace Es3Recomp.Guarantees.Allnet
open Library Library.Atoi Source.Allnet
open Library.Json (Member Value Plain following commas object)
open Library.CutStream (gather gather_found Stream)
open Source.Resolver (Env Statics HookCall afterAll allnetAddrStr inetNtoa chosenAddr)
open Source.TraceCalls (strstr)
open Guarantees.Resolver (Warm afterAll_warm allnetAddrStr_warm length_inetNtoa)
open Guarantees.TraceCalls (strstr_none_iff)

/-! ## Numbers -/

theorem length_padded (width : Nat) {n : Nat} (fits : n < 10 ^ width) (some_ : 0 < width) :
    (padded width n).length = width := by
  have short := (Nat.length_toDigits_le_iff (b := 10) (n := n) (by decide) some_).mpr fits
  rw [padded, List.length_leftpad]
  omega

theorem mem_padded {width n : Nat} {c : Char} (member : c ∈ padded width n) : c.isDigit = true := by
  rw [padded, List.leftpad, List.mem_append] at member
  rcases member with zero | digit
  · rw [(List.mem_replicate.mp zero).2]
    rfl
  · exact Nat.isDigit_of_mem_toDigits (by decide) (by decide) digit

theorem length_started (t : LocalTime) : (started t).length = 20 := by
  simp only [started, List.length_append, List.length_cons, List.length_nil,
    length_padded 4 t.year_lt (by decide), length_padded 2 t.month_lt (by decide),
    length_padded 2 t.day_lt (by decide), length_padded 2 t.hour_lt (by decide),
    length_padded 2 t.minute_lt (by decide), length_padded 2 t.second_lt (by decide)]

theorem plain_digit {c : Char} (digit : c.isDigit = true) : Plain c := by
  simp only [Char.isDigit, ge_iff_le, Bool.and_eq_true, decide_eq_true_eq] at digit
  obtain ⟨low, high⟩ := digit
  refine ⟨fun same => ?_, fun same => ?_, ?_⟩
  · rw [same] at low
    exact absurd low (by decide)
  · rw [same] at high
    exact absurd high (by decide)
  · exact Nat.le_trans (by decide) (UInt32.le_iff_toNat_le.mp low)

theorem plain_started (t : LocalTime) : ∀ c ∈ started t, Plain c := by
  intro c member
  simp only [started, List.mem_append, List.mem_cons, List.not_mem_nil, or_false] at member
  rcases member with d | rfl | d | rfl | d | rfl | d | rfl | d | rfl | d | rfl
  all_goals first | exact plain_digit (mem_padded d) | decide

/-! ## The fields -/

/-- A member whose value is a text, or a number of one digit. -/
inductive Field where
  | text (name : String) (value : Text)
  | digit (name : String) (value : Nat)

def Field.member : Field → Member
  | .text name value => ⟨name.toList, Json.quoted value [], .string (Json.utf16 value)⟩
  | .digit name value => ⟨name.toList, [Nat.digitChar value], .number value 0⟩

/-- The answer to getControlData. -/
def fields (t : LocalTime) : List Field :=
  [.digit "status" 0, .text "net_id" "AZZZ0123".toList, .text "place_id" "0123".toList,
    .text "current_place_id" "0123".toList, .text "game_id" "SBZB".toList,
    .text "serial_no" "271000020001".toList, .text "store_id" "0123".toList,
    .text "store_name" "RECOMP".toList, .text "store_nickname" "RECOMP".toList,
    .text "allnet_game_id" "SBZB".toList, .text "allnet_game_ver" "0.01".toList,
    .digit "line_type" 1, .text "area_cd_0" "1".toList, .text "area_name_0" "W".toList,
    .text "area_name_1" "X".toList, .text "area_name_2" "Y".toList,
    .text "area_name_3" "Z".toList, .text "country_code" "JPN".toList,
    .text "time_zone" "+09:00".toList, .text "started_at" (started t),
    .text "yuai_option_limit_at" "2099-12-31T23:59:59Z".toList]

def noon : LocalTime :=
  ⟨2000, 1, 1, 12, 0, 0, by decide, by decide, by decide, by decide, by decide, by decide⟩

/-- The time is in one of them. -/
theorem fields_split (t : LocalTime) :
    fields t = (fields noon).take 19 ++ .text "started_at" (started t) :: (fields noon).drop 20 := rfl

theorem startedPair_eq (when : Text) :
    startedPair when = (Field.text "started_at" when).member.print := by
  have front : "\"started_at\":\"".toList =
      '\x22' :: ("started_at".toList ++ ['\x22', ':', '\x22']) := by decide +kernel
  have regroup : ∀ name : Text, ('\x22' :: (name ++ ['\x22', ':', '\x22'])) ++ when ++ ['\x22'] =
      Json.member name (Json.quoted when []) := by
    intro name
    simp only [Json.member, Json.quoted, List.cons_append, List.append_assoc, List.nil_append]
  exact (congrArg (· ++ when ++ ['\x22']) front).trans (regroup "started_at".toList)

/-- The table of the code is the members, printed. -/
theorem kv_eq (t : LocalTime) : kv t = (fields t).map fun f => f.member.print := by
  have front : (kv noon).take 19 = ((fields noon).take 19).map fun f => f.member.print := by
    decide +kernel
  have last : (kv noon).drop 20 = ((fields noon).drop 20).map fun f => f.member.print := by
    decide +kernel
  have split : kv t = (kv noon).take 19 ++ startedPair (started t) :: (kv noon).drop 20 := rfl
  rw [split, front, last, startedPair_eq, fields_split t, List.map_append, List.map_cons]

/-- Nothing in it needs an escape. -/
def Field.Clean : Field → Prop
  | .text name value => (∀ c ∈ name.toList, Plain c) ∧ ∀ c ∈ value, Plain c
  | .digit name value => (∀ c ∈ name.toList, Plain c) ∧ value < 2

def Field.isClean : Field → Bool
  | .text name value => name.toList.all (fun c => Plain c) && value.all fun c => Plain c
  | .digit name value => name.toList.all (fun c => Plain c) && decide (value < 2)

theorem Field.clean {f : Field} (clean : f.isClean = true) : f.Clean := by
  cases f with
  | text name value =>
    obtain ⟨names, values⟩ := Bool.and_eq_true_iff.mp clean
    exact ⟨Json.plain_of_all names, Json.plain_of_all values⟩
  | digit name value =>
    obtain ⟨names, values⟩ := Bool.and_eq_true_iff.mp clean
    exact ⟨Json.plain_of_all names, of_decide_eq_true values⟩

theorem Field.Clean.reads {f : Field} (clean : f.Clean) : f.member.Reads := by
  refine ⟨by cases f <;> exact clean.1, fun fuel c rest ends => ?_⟩
  cases f with
  | text name value =>
    have whole : (Field.text name value).member.text ++ c :: rest = Json.quoted value (c :: rest) := by
      simp only [Field.member, Json.quoted, List.cons_append, List.append_assoc, List.nil_append]
    rw [whole]
    exact Json.value_quoted clean.2 fuel _
  | digit name value =>
    have small : value < 2 := clean.2
    obtain rfl | rfl : value = 0 ∨ value = 1 := by omega
    · rcases ends with rfl | rfl <;> rfl
    · rcases ends with rfl | rfl <;> rfl

theorem fields_clean (t : LocalTime) : ∀ f ∈ fields t, f.Clean := by
  have front : ((fields noon).take 19).all Field.isClean = true := by decide +kernel
  have last : ((fields noon).drop 20).all Field.isClean = true := by decide +kernel
  have name : "started_at".toList.all (fun c => Plain c) = true := by decide +kernel
  rw [fields_split]
  refine List.forall_mem_append.mpr ⟨fun f member => ?_, List.forall_mem_cons.mpr ⟨?_, ?_⟩⟩
  · exact Field.clean (List.all_eq_true.mp front f member)
  · exact ⟨Json.plain_of_all name, plain_started t⟩
  · exact fun f member => Field.clean (List.all_eq_true.mp last f member)

/-! ## The object -/

def controlBody (want : Option Text) (t : LocalTime) : Text :=
  object (((fields t).take (fieldCount want 21)).map Field.member)

theorem sprintfS_fits {n : Nat} {out text : Text} (fits : out.length + text.length < n) :
    sprintfS n out text = some (out ++ text) := if_pos fits

theorem printFields_later {n : Nat} {texts : List Text} {i : Nat} (later : 0 < i) {out : Text}
    (fits : out.length + (following texts).length < n) :
    printFields n texts i out = some (out ++ following texts) := by
  induction texts generalizing i out with
  | nil => exact congrArg some (List.append_nil out).symm
  | cons text texts ih =>
    rw [Json.following_cons, List.length_cons, List.length_append] at fits
    have comma : (if i = 0 then [] else [',']) ++ text = ',' :: text := by
      rw [if_neg (Nat.pos_iff_ne_zero.mp later)]
      rfl
    rw [printFields, comma, sprintfS_fits (by rw [List.length_cons]; omega)]
    refine (ih (Nat.succ_pos i) ?_).trans ?_
    · rw [List.length_append, List.length_cons]
      omega
    · rw [Json.following_cons, List.append_assoc, List.cons_append]

theorem printFields_all {n : Nat} {texts : List Text} {out : Text}
    (fits : out.length + (commas texts).length < n) :
    printFields n texts 0 out = some (out ++ commas texts) := by
  cases texts with
  | nil => exact congrArg some (List.append_nil out).symm
  | cons text texts =>
    rw [commas, List.length_append] at fits
    rw [printFields, if_pos rfl, List.nil_append, sprintfS_fits (by omega)]
    refine (printFields_later Nat.one_pos ?_).trans ?_
    · rw [List.length_append]
      omega
    · rw [commas, List.append_assoc]

theorem length_commas_take_le (texts : List Text) (k : Nat) :
    (commas (texts.take k)).length ≤ (following texts).length := by
  have bare : ∀ texts, (commas texts).length ≤ (following texts).length := by
    intro texts
    cases texts with
    | nil => exact Nat.le_refl 0
    | cons text texts =>
      rw [commas, Json.following_cons, List.length_cons]
      exact Nat.le_succ _
  refine (bare _).trans ?_
  have split := congrArg (fun l => (following l).length) (List.take_append_drop k texts)
  simp only [following, List.flatMap_append, List.length_append] at split ⊢
  omega

theorem length_startedPair {a b : Text} (same : a.length = b.length) :
    (startedPair a).length = (startedPair b).length := by
  unfold startedPair
  generalize "\"started_at\":\"".toList = front
  simp only [List.length_append, same]

theorem length_following_kv (t : LocalTime) : (following (kv t)).length < 1000 := by
  obtain ⟨front, last, split⟩ : ∃ front last, ∀ t, kv t = front ++ startedPair (started t) :: last :=
    ⟨(kv noon).take 19, (kv noon).drop 20, fun _ => rfl⟩
  have pair := length_startedPair ((length_started t).trans (length_started noon).symm)
  have same : (following (kv t)).length = (following (kv noon)).length := by
    simp only [split, following, List.flatMap_append, List.flatMap_cons, List.length_append,
      List.length_cons, pair]
  have known : (following (kv noon)).length < 1000 := by decide +kernel
  rw [same]
  exact known

theorem controlData_eq (want : Option Text) (t : LocalTime) :
    controlData 1024 want t = some (controlBody want t) ∧ (controlBody want t).length < 1024 := by
  have all : (kv t).length = 21 := rfl
  have texts : ((fields t).take (fieldCount want 21)).map (fun f => f.member.print) =
      (kv t).take (fieldCount want 21) := by
    rw [kv_eq, List.map_take]
  have body : controlBody want t = ['\x7b'] ++ commas ((kv t).take (fieldCount want 21)) ++ ['\x7d'] := by
    rw [controlBody, object, List.map_map, ← texts]
    rfl
  have fits := length_commas_take_le (kv t) (fieldCount want 21)
  have most := length_following_kv t
  have short : (['\x7b'] ++ commas ((kv t).take (fieldCount want 21))).length < 1002 := by
    rw [List.length_append, List.length_singleton]
    omega
  constructor
  · have opened : sprintfS 1024 [] ['\x7b'] = some ['\x7b'] := rfl
    have printed := printFields_all (n := 1024) (lt_trans (by
      rw [← List.length_append]
      exact short) (show 1002 < 1024 by decide))
    have closed : sprintfS 1024 (['\x7b'] ++ commas ((kv t).take (fieldCount want 21))) ['\x7d'] =
        some (controlBody want t) := by
      rw [body]
      refine sprintfS_fits ?_
      rw [List.length_singleton]
      omega
    rw [controlData, all, opened, Option.bind_eq_bind, Option.bind_some, printed, Option.bind_some,
      closed]
  · rw [body, List.length_append, List.length_singleton]
    omega

/-! ## The pairs -/

def pairText (p : Text × Text) : Text := p.1 ++ '=' :: p.2

/-- What the client makes of an answer of the other kind: names and values. -/
def readPairs (text : Text) : List (Text × Text) :=
  (text.splitOn '&').map fun f => (f.takeWhile (· ≠ '='), (f.dropWhile (· ≠ '=')).drop 1)

def places : List (Text × Text) :=
  [("place_id".toList, "0123".toList), ("name".toList, "RECOMP".toList),
    ("nickname".toList, "RECOMP".toList), ("region0".toList, "1".toList),
    ("region_name0".toList, "W".toList), ("region_name1".toList, "X".toList),
    ("region_name2".toList, "Y".toList), ("region_name3".toList, "Z".toList),
    ("country".toList, "JPN".toList), ("timezone".toList, "+09:00".toList)]

def powerOnPairs (host : Text) (t : LocalTime) : List (Text × Text) :=
  [("stat".toList, "1".toList), ("uri".toList, "http://".toList ++ host ++ "/".toList),
    ("host".toList, host)] ++ places ++
  [("year".toList, padded 4 t.year), ("month".toList, decimal t.month),
    ("day".toList, decimal t.day), ("hour".toList, decimal t.hour),
    ("minute".toList, decimal t.minute), ("second".toList, decimal t.second)]

/-- Each behind an ampersand. -/
def ampersands (ps : List (Text × Text)) : Text := ps.flatMap fun p => '&' :: pairText p

theorem intercalate_pairs (p : Text × Text) (ps : List (Text × Text)) :
    ['&'].intercalate ((p :: ps).map pairText) = pairText p ++ ampersands ps := by
  induction ps generalizing p with
  | nil => simp [List.intercalate, ampersands]
  | cons q ps ih =>
    rw [List.map_cons, List.map_cons, List.intercalate_cons_cons, ← List.map_cons, ih]
    simp only [ampersands, List.flatMap_cons, List.append_assoc, List.cons_append, List.nil_append]

/-- Neither sign in a name, no ampersand in a value. -/
def CleanPair (p : Text × Text) : Prop := ('&' ∉ p.1 ∧ '=' ∉ p.1) ∧ '&' ∉ p.2

theorem readPairs_intercalate {ps : List (Text × Text)} (some_ : ps ≠ [])
    (clean : ∀ p ∈ ps, CleanPair p) : readPairs (['&'].intercalate (ps.map pairText)) = ps := by
  have parts : (['&'].intercalate (ps.map pairText)).splitOn '&' = ps.map pairText := by
    refine List.splitOn_intercalate '&' (fun l member => ?_) (by simpa using some_)
    obtain ⟨p, there, rfl⟩ := List.mem_map.mp member
    obtain ⟨⟨name, -⟩, value⟩ := clean p there
    rw [pairText, List.mem_append, List.mem_cons]
    rintro (inName | equals | inValue)
    · exact name inName
    · cases equals
    · exact value inValue
  rw [readPairs, parts, List.map_map]
  refine (List.map_congr_left fun p there => ?_).trans (List.map_id ps)
  have name : ∀ c ∈ p.1, decide (c ≠ '=') = true := by
    intro c member
    exact decide_eq_true fun same => (clean p there).1.2 (same ▸ member)
  simp only [Function.comp_apply, pairText, id]
  rw [List.takeWhile_append_of_pos name, List.dropWhile_append_of_pos name]
  simp

theorem places_eq (text : Text) : "&place_id=0123&name=RECOMP&nickname=RECOMP".toList ++
    ("&region0=1&region_name0=W&region_name1=X".toList ++
      ("&region_name2=Y&region_name3=Z".toList ++
        ("&country=JPN&timezone=+09:00".toList ++ text))) = ampersands places ++ text := by
  have closed : "&place_id=0123&name=RECOMP&nickname=RECOMP".toList ++
      "&region0=1&region_name0=W&region_name1=X".toList ++
      "&region_name2=Y&region_name3=Z".toList ++ "&country=JPN&timezone=+09:00".toList =
        ampersands places := by decide +kernel
  rw [← closed, List.append_assoc, List.append_assoc, List.append_assoc]

/-- The text of the code is the pairs, printed. -/
theorem powerOn_eq (host : Text) (t : LocalTime) :
    powerOn host t = ['&'].intercalate ((powerOnPairs host t).map pairText) := by
  have stat : "stat=1&uri=http://".toList = pairText ("stat".toList, "1".toList) ++
      '&' :: ("uri".toList ++ '=' :: "http://".toList) := by decide +kernel
  have host_ : "/&host=".toList = "/".toList ++ '&' :: ("host".toList ++ ['=']) := by decide +kernel
  have year : "&year=".toList = '&' :: ("year".toList ++ ['=']) := by decide +kernel
  have month : "&month=".toList = '&' :: ("month".toList ++ ['=']) := by decide +kernel
  have day : "&day=".toList = '&' :: ("day".toList ++ ['=']) := by decide +kernel
  have hour : "&hour=".toList = '&' :: ("hour".toList ++ ['=']) := by decide +kernel
  have minute : "&minute=".toList = '&' :: ("minute".toList ++ ['=']) := by decide +kernel
  have second : "&second=".toList = '&' :: ("second".toList ++ ['=']) := by decide +kernel
  have listed : powerOnPairs host t = ("stat".toList, "1".toList) ::
      ([("uri".toList, "http://".toList ++ host ++ "/".toList), ("host".toList, host)] ++
        (places ++ [("year".toList, padded 4 t.year), ("month".toList, decimal t.month),
          ("day".toList, decimal t.day), ("hour".toList, decimal t.hour),
          ("minute".toList, decimal t.minute), ("second".toList, decimal t.second)])) := rfl
  have joined : ∀ ps qs, ampersands (ps ++ qs) = ampersands ps ++ ampersands qs :=
    fun _ _ => List.flatMap_append
  have one : ∀ p ps, ampersands (p :: ps) = '&' :: (pairText p ++ ampersands ps) := fun _ _ => rfl
  have none_ : ampersands [] = [] := rfl
  have rest := places_eq
  rw [listed, intercalate_pairs, joined, joined]
  unfold powerOn
  -- the literals are not to be looked into from here on
  generalize String.toList = text at *
  simp only [List.append_assoc, rest, stat, host_, year, month, day, hour, minute, second, one,
    none_, pairText, List.cons_append, List.nil_append, List.append_nil]

/-- Digits and dots. -/
theorem mem_inetNtoa {a : UInt32} {c : Char} (member : c ∈ inetNtoa a) :
    c.isDigit = true ∨ c = '.' := by
  have digits : ∀ n, c ∈ Nat.toDigits 10 n → c.isDigit = true := fun n there =>
    Nat.isDigit_of_mem_toDigits (by decide) (by decide) there
  simp only [inetNtoa, List.mem_append, List.mem_cons] at member
  rcases member with d | rfl | d | rfl | d | rfl | d
  all_goals first | exact .inl (digits _ d) | exact .inr rfl

theorem not_mem_of_digits {text : Text} (digits : ∀ c ∈ text, c.isDigit = true) : '&' ∉ text :=
  fun member => absurd (digits '&' member) (by decide)

theorem powerOnPairs_clean (a : UInt32) (t : LocalTime) :
    ∀ p ∈ powerOnPairs (inetNtoa a) t, CleanPair p := by
  have host : '&' ∉ inetNtoa a := fun member => by
    rcases mem_inetNtoa member with digit | dot
    · exact absurd digit (by decide)
    · exact absurd dot (by decide)
  have printed : ∀ n, '&' ∉ decimal n := fun n => not_mem_of_digits fun c member =>
    Nat.isDigit_of_mem_toDigits (by decide) (by decide) member
  have year : '&' ∉ padded 4 t.year := not_mem_of_digits fun c member => mem_padded member
  have names : ((powerOnPairs [] noon).map Prod.fst).all
      (fun name => '&' ∉ name ∧ '=' ∉ name) = true := by decide +kernel
  have same : (powerOnPairs (inetNtoa a) t).map Prod.fst = (powerOnPairs [] noon).map Prod.fst := rfl
  have fixed : (places.map Prod.snd).all (fun value => '&' ∉ value) = true := by decide +kernel
  have uri : '&' ∉ "http://".toList ++ inetNtoa a ++ "/".toList := by
    have front : '&' ∉ "http://".toList := by decide +kernel
    have last : '&' ∉ "/".toList := by decide +kernel
    simp only [List.mem_append, front, host, last, or_self, not_false_eq_true]
  have one : '&' ∉ "1".toList := by decide +kernel
  have server : ∀ p ∈ (powerOnPairs (inetNtoa a) t).take 3, '&' ∉ p.2 :=
    List.forall_mem_cons.mpr ⟨one, List.forall_mem_cons.mpr ⟨uri, List.forall_mem_singleton.mpr host⟩⟩
  have time : ∀ p ∈ (powerOnPairs (inetNtoa a) t).drop 13, '&' ∉ p.2 :=
    List.forall_mem_cons.mpr ⟨year, List.forall_mem_cons.mpr ⟨printed _,
      List.forall_mem_cons.mpr ⟨printed _, List.forall_mem_cons.mpr ⟨printed _,
        List.forall_mem_cons.mpr ⟨printed _, List.forall_mem_singleton.mpr (printed _)⟩⟩⟩⟩⟩
  intro p member
  refine ⟨?_, ?_⟩
  · have listed := List.mem_map_of_mem (f := Prod.fst) member
    rw [same] at listed
    exact of_decide_eq_true (List.all_eq_true.mp names p.1 listed)
  · rcases List.mem_append.mp member with front | last
    · rcases List.mem_append.mp front with first | place
      · exact server p first
      · exact of_decide_eq_true (List.all_eq_true.mp fixed p.2 (List.mem_map_of_mem place))
    · exact time p last

theorem length_decimal_le {n : Nat} (small : n < 100) : (decimal n).length ≤ 2 :=
  (Nat.length_toDigits_le_iff (by decide) (by decide)).mpr small

theorem length_powerOn_lt (a : UInt32) (t : LocalTime) :
    (powerOn (inetNtoa a) t).length < 1024 := by
  have host := length_inetNtoa a
  have year := length_padded 4 t.year_lt (by decide)
  have month := length_decimal_le t.month_lt
  have day := length_decimal_le t.day_lt
  have hour := length_decimal_le t.hour_lt
  have minute := length_decimal_le t.minute_lt
  have second := length_decimal_le t.second_lt
  have literals : (["stat=1&uri=http://", "/&host=", "&place_id=0123&name=RECOMP&nickname=RECOMP",
      "&region0=1&region_name0=W&region_name1=X", "&region_name2=Y&region_name3=Z",
      "&country=JPN&timezone=+09:00", "&year=", "&month=", "&day=", "&hour=", "&minute=",
      "&second="].map fun s => s.toList.length).sum < 300 := by decide +kernel
  unfold powerOn
  generalize String.toList = text at *
  simp only [List.map_cons, List.map_nil, List.sum_cons, List.sum_nil] at literals
  simp only [List.length_append]
  omega

/-! ## The body -/

/-- What the path is answered. -/
def bodyText (env : Env) (want : Option Text) (t : LocalTime) (path : Text) : Text :=
  if has path "/board/getControlData".toList then controlBody want t
  else if has path "/amid/".toList ∨ has path "/board/".toList ∨ has path "/incoming/".toList then
    "\x7b\"status\":0\x7d".toList
  else if has path "DownloadOrder".toList then "stat=1&uri=&host=".toList
  else powerOn (inetNtoa (chosenAddr env)) t

structure Prints (env : Env) (body : Text) (r : Option Text × Statics) : Prop where
  text : r.1 = some body
  warm : Warm env r.2
  fits : body.length < 1024

theorem prints_sprintf {env : Env} {st : Statics} (warm : Warm env st) {body : Text}
    (fits : body.length < 1024) : Prints env body (sprintfS 1024 [] body, st) := by
  refine ⟨sprintfS_fits ?_, warm, fits⟩
  rw [List.length_nil, Nat.zero_add]
  exact fits

theorem replyBody_prints {env : Env} {st : Statics} (warm : Warm env st) (want : Option Text)
    (t : LocalTime) (path : Text) :
    Prints env (bodyText env want t path) (replyBody env want 1024 st t path) := by
  have status : "\x7b\"status\":0\x7d".toList.length < 1024 := by decide +kernel
  have download : "stat=1&uri=&host=".toList.length < 1024 := by decide +kernel
  unfold bodyText replyBody
  split
  next =>
    obtain ⟨text, fits⟩ := controlData_eq want t
    exact ⟨text, warm, fits⟩
  next =>
    split
    next => exact prints_sprintf warm status
    next =>
      split
      next => exact prints_sprintf warm download
      next =>
        obtain ⟨host, warm⟩ := allnetAddrStr_warm warm
        dsimp only
        rw [host]
        exact prints_sprintf warm (length_powerOn_lt _ t)

/-! ## The header -/

def headFront : Text := "HTTP/1.1 200 OK\r\nContent-Type: text/plain\r\n".toList

/-- The header of an answer of so many bytes. -/
def headText (n : Nat) : Text :=
  headFront ++ ("Content-Length:".toList ++ ' ' :: (decimal n ++ "\r\nConnection: close".toList))

theorem reply_text (body : Text) :
    "HTTP/1.1 200 OK\r\n".toList ++ "Content-Type: text/plain\r\n".toList ++
        "Content-Length: ".toList ++ decimal body.length ++ "\r\n".toList ++
        "Connection: close\r\n\r\n".toList ++ body =
      headText body.length ++ (blankLine ++ body) := by
  have front : "HTTP/1.1 200 OK\r\n".toList ++ "Content-Type: text/plain\r\n".toList = headFront := by
    decide +kernel
  have length : "Content-Length: ".toList = "Content-Length:".toList ++ [' '] := by decide +kernel
  have close : ∀ text : Text, "\r\n".toList ++ ("Connection: close\r\n\r\n".toList ++ text) =
      "\r\nConnection: close".toList ++ (blankLine ++ text) := by
    intro text
    have closed : "\r\n".toList ++ "Connection: close\r\n\r\n".toList =
      "\r\nConnection: close".toList ++ blankLine := by decide +kernel
    rw [← List.append_assoc, closed, List.append_assoc]
  unfold headText
  rw [front]
  generalize String.toList = text at *
  simp only [length, List.append_assoc, close, List.cons_append, List.nil_append]

theorem length_headText_le {n : Nat} (short : n < 1024) : (headText n).length ≤ 200 := by
  have digits : (decimal n).length ≤ 4 :=
    (Nat.length_toDigits_le_iff (by decide) (by decide)).mpr (lt_trans short (by decide))
  have front : headFront.length < 100 := by decide +kernel
  have name : "Content-Length:".toList.length = 15 := by decide +kernel
  have last : "\r\nConnection: close".toList.length < 50 := by decide +kernel
  unfold headText
  generalize String.toList = text at *
  simp only [List.length_append, List.length_cons]
  omega

theorem reply_eq {body : Text} (short : body.length < 1024) :
    reply body = some (headText body.length ++ (blankLine ++ body)) := by
  have head := length_headText_le short
  have fits : (headText body.length ++ (blankLine ++ body)).length < 2048 := by
    simp only [List.length_append, blankLine, List.length_cons, List.length_nil]
    omega
  unfold reply
  rw [reply_text]
  refine sprintfS_fits ?_
  rw [List.length_nil, Nat.zero_add]
  exact fits

/-! ## The answer read by the rules by which requests are read -/

theorem decimal_digits (n : Nat) : ∀ c ∈ decimal n, c.isDigit = true := fun _ member =>
  Nat.isDigit_of_mem_toDigits (by decide) (by decide) member

theorem headText_plain (n : Nat) : '\x00' ∉ headText n := by
  have front : '\x00' ∉ headFront := by decide +kernel
  have name : '\x00' ∉ "Content-Length:".toList := by decide +kernel
  have last : '\x00' ∉ "\r\nConnection: close".toList := by decide +kernel
  have digits : '\x00' ∉ decimal n := fun member =>
    absurd (decimal_digits n '\x00' member) (by decide)
  unfold headText
  generalize String.toList = text at *
  simp only [List.mem_append, List.mem_cons, front, name, last, digits, or_false, false_or]
  decide

/-- The header ends where it is to end. -/
theorem headEnd_answer (n : Nat) (body : Text) :
    headEnd (headText n ++ (blankLine ++ body)) = some (headText n) := by
  have before : strstr (headText n ++ blankLine.dropLast) blankLine = none := by
    have left : ¬ blankLine <:+: headFront ++ ("Content-Length:".toList ++ [' ']) := by
      decide +kernel
    have right : ¬ blankLine <:+: "\r\nConnection: close".toList ++ blankLine.dropLast := by
      decide +kernel
    have plain : ∀ c ∈ decimal n, c ∉ blankLine := by
      intro c member there
      have digit := decimal_digits n c member
      simp only [blankLine, List.mem_cons, List.not_mem_nil, or_false] at there
      rcases there with rfl | rfl | rfl | rfl <;> exact absurd digit (by decide)
    have parted := infix_between (Nat.toDigits_ne_nil (n := n)) plain left right (by decide)
    refine (strstr_none_iff _).mpr ?_
    have grouped : headText n ++ blankLine.dropLast =
        (headFront ++ ("Content-Length:".toList ++ [' '])) ++
          (decimal n ++ ("\r\nConnection: close".toList ++ blankLine.dropLast)) := by
      unfold headText
      generalize String.toList = text
      simp only [List.append_assoc, List.cons_append, List.nil_append]
    rw [grouped]
    exact parted
  have blank : '\x00' ∉ headText n ++ blankLine := by
    rw [List.mem_append]
    rintro (inHead | inBlank)
    · exact headText_plain n inHead
    · exact absurd inBlank (by decide)
  rw [headEnd, ← List.append_assoc, cstr_append blank, List.append_assoc, strstr_first before]
  rfl

/-- And says how many bytes are behind it. -/
theorem contentLength_answer {n : Nat} (small : n ≤ 2147483647) (body : Text) :
    contentLength (headText n ++ (blankLine ++ body)) = n := by
  have before : strstr (headFront ++ "Content-Length:".toList.dropLast) "Content-Length:".toList =
      none := by decide +kernel
  have name : "Content-Length:".toList.length = 15 := by decide +kernel
  have close : ∃ last, "\r\nConnection: close".toList = '\r' :: last := ⟨_, rfl⟩
  obtain ⟨last, close⟩ := close
  have digit : ∃ c ∈ ' ' :: decimal n, isSpace c = false := by
    obtain ⟨c, rest, front⟩ := List.exists_cons_of_ne_nil (Nat.toDigits_ne_nil (n := n) (b := 10))
    have member : c ∈ decimal n := by
      rw [decimal, front]
      exact List.mem_cons_self
    exact ⟨c, List.mem_cons_of_mem _ member, isSpace_digit (decimal_digits n c member)⟩
  have value := (atoi_append digit (c := '\r') rfl (last ++ cstr (blankLine ++ body))).trans
    (atoi_toDigits small)
  have found := strstr_first before (' ' :: decimal n ++ '\r' :: (last ++ cstr (blankLine ++ body)))
  have whole : cstr (headText n ++ (blankLine ++ body)) = headFront ++ ("Content-Length:".toList ++
      (' ' :: decimal n ++ '\r' :: (last ++ cstr (blankLine ++ body)))) := by
    rw [cstr_append (headText_plain n)]
    unfold headText
    rw [close]
    generalize String.toList = text
    simp only [List.append_assoc, List.cons_append]
  unfold contentLength
  rw [whole]
  generalize String.toList = text at *
  rw [found]
  dsimp only
  rw [List.drop_left' name]
  exact value

/-! ## What an answer says -/

/-- The body says what its path asks for. -/
def Meant (env : Env) (want : Option Text) (t : LocalTime) (path body : Text) : Prop :=
  if has path "/board/getControlData".toList then
    Json.Says body
      (.object (((fields t).take (fieldCount want 21)).map fun f => f.member.pair))
  else if has path "/amid/".toList ∨ has path "/board/".toList ∨ has path "/incoming/".toList then
    Json.Says body (.object [(Field.digit "status" 0).member.pair])
  else if has path "DownloadOrder".toList then
    readPairs body = [("stat".toList, "1".toList), ("uri".toList, []), ("host".toList, [])]
  else readPairs body = powerOnPairs (inetNtoa (chosenAddr env)) t

theorem fields_say {fs : List Field} (clean : ∀ f ∈ fs, f.Clean) :
    Json.Says (object (fs.map Field.member)) (.object (fs.map fun f => f.member.pair)) := by
  have reads : ∀ m ∈ fs.map Field.member, m.Reads := by
    intro m there
    obtain ⟨f, member, rfl⟩ := List.mem_map.mp there
    exact (clean f member).reads
  have said := Json.object_says reads
  rw [List.map_map] at said
  exact said

theorem status_says :
    Json.Says "\x7b\"status\":0\x7d".toList (.object [(Field.digit "status" 0).member.pair]) := by
  have clean : (Field.digit "status" 0).isClean = true := by decide +kernel
  have text : "\x7b\"status\":0\x7d".toList = object [(Field.digit "status" 0).member] := by
    decide +kernel
  rw [text]
  exact fields_say (List.forall_mem_singleton.mpr (Field.clean clean))

theorem bodyText_meant (env : Env) (want : Option Text) (t : LocalTime) (path : Text) :
    Meant env want t path (bodyText env want t path) := by
  have download : readPairs "stat=1&uri=&host=".toList =
      [("stat".toList, "1".toList), ("uri".toList, []), ("host".toList, [])] := by decide +kernel
  unfold Meant bodyText
  split
  next =>
    have first : ∀ f ∈ (fields t).take (fieldCount want 21), f.Clean :=
      fun f member => fields_clean t f (List.mem_of_mem_take member)
    exact fields_say first
  next =>
    split
    next => exact status_says
    next =>
      split
      next => exact download
      next =>
        rw [powerOn_eq]
        exact readPairs_intercalate (List.cons_ne_nil _ _) (powerOnPairs_clean _ t)

/-- The header ends where it is found to end and says how long the body is, and the body says what
the path asks for. -/
def ReadsBack (env : Env) (want : Option Text) (t : LocalTime) (path reply : Text) : Prop :=
  ∃ head body, headEnd reply = some head ∧ reply = head ++ (blankLine ++ body) ∧
    contentLength reply = body.length ∧ Meant env want t path body

theorem reply_readsBack (env : Env) (want : Option Text) (t : LocalTime) (path : Text) {body : Text}
    (fits : body.length < 1024) (meant : Meant env want t path body) :
    ∃ text, reply body = some text ∧ ReadsBack env want t path text := by
  refine ⟨_, reply_eq fits, headText body.length, body, headEnd_answer _ _, rfl, ?_, meant⟩
  exact contentLength_answer (Nat.le_trans (Nat.le_of_lt fits) (by decide)) body

/-! ## Over a run -/

/-- The header, if it ends within the buffer. -/
def headOf (c : Connection) : Option Text := headEnd (c.socket.all.take 8191)

/-- The header that is read, when one is. -/
theorem gather_head (s : Stream Char) :
    (gather headEnd 8191 8191 [] s).2.1 = headEnd (s.all.take 8191) :=
  gather_found headEnd_stable (Nat.le_refl _) (Nat.zero_le _) rfl

/-- A connection is answered just when its header ends within the buffer; the answer reads back,
and none stops the process. -/
def Answered (env : Env) (want : Option Text) (c : Connection) (out : Served × Option Text) : Prop :=
  match out.1 with
  | .closed => headOf c = none
  | .stopped => False
  | .answered e => headOf c ≠ none ∧ ReadsBack env want c.time e.path e.reply

theorem serve_answered {env : Env} {server : Server} (warm : Warm env server.statics)
    (want : Option Text) (c : Connection) :
    Warm env (serve env want server c).1.statics ∧
      Answered env want c (serve env want server c).2 := by
  have header := gather_head c.socket
  rw [← headOf] at header
  unfold serve Answered
  dsimp only
  split
  next none_ => exact ⟨warm, header.symm.trans none_⟩
  next head found =>
    have some_ : headOf c ≠ none := by
      rw [← header, found]
      exact Option.some_ne_none head
    generalize pathOf (gather headEnd 8191 8191 [] c.socket).1 = path
    obtain ⟨text, warm, fits⟩ := replyBody_prints warm want c.time path
    obtain ⟨answer, printed, reads⟩ :=
      reply_readsBack env want c.time path fits (bodyText_meant env want c.time path)
    refine ⟨warm, ?_⟩
    rw [text, Option.bind_some, printed]
    exact ⟨some_, reads⟩

theorem run_answered {env : Env} (want : Option Text) (cs : List Connection) {server : Server}
    (warm : Warm env server.statics) :
    List.Forall₂ (Answered env want) cs ((listener env want).run server cs).2 := by
  induction cs generalizing server with
  | nil => exact .nil
  | cons c cs ih =>
    obtain ⟨kept, answered⟩ := serve_answered warm want c
    exact .cons answered (ih kept)

end Es3Recomp.Guarantees.Allnet
