import Es3Recomp.Guarantees.Allnet.Replies
import Es3Recomp.Library.FirstSeen

/-!
# What a request is

What is read of a connection when its header is complete depends on how the bytes came in. What the
server makes of it does not, for a request with a path in its header and a length, or no length
anywhere.
-/
namespace Es3Recomp.Guarantees.Allnet
open Library Library.Atoi Library.CutStream Source.Allnet
open Library.FirstSeen (firsts remember run_remember)
open Source.Resolver (Env HookCall afterAll)
open Source.TraceCalls (strstr)
open Guarantees.Resolver (Warm afterAll_warm cabinet)
open Guarantees.TraceCalls (strstr_spec strstr_none_iff)

/-! ## The header -/

/-- A text in front of a blank line, without a zero. -/
structure Headed (req head : Text) : Prop where
  split : ∃ rest, req = head ++ (blankLine ++ rest)
  plain : '\x00' ∉ head

theorem headed {req head : Text} (found : headEnd req = some head) : Headed req head := by
  obtain ⟨⟨a, p⟩, there, rfl⟩ := Option.map_eq_some_iff.mp found
  obtain ⟨split, ⟨rest, blank⟩⟩ := strstr_spec there
  obtain ⟨behind, whole⟩ := List.takeWhile_prefix (l := req) (· ≠ '\x00')
  have text : req = cstr req ++ behind := whole.symm
  refine ⟨⟨rest ++ behind, ?_⟩, fun member => not_mem_cstr req ?_⟩
  · rw [split, ← blank, List.append_assoc, List.append_assoc] at text
    exact text
  · rw [split]
    exact List.mem_append_left _ member

variable {req head : Text}

theorem Headed.cstr_eq (h : Headed req head) : ∃ rest, cstr req = head ++ '\r' :: rest := by
  obtain ⟨rest, rfl⟩ := h.split
  rw [cstr_append h.plain]
  exact ⟨_, rfl⟩

theorem Headed.cstr_head (h : Headed req head) : cstr head = head := by
  have alone := cstr_append h.plain []
  rw [List.append_nil] at alone
  exact alone.trans (List.append_nil head)

/-! ## The path -/

/-- The first line: the path is between the first two blanks. -/
structure Line (head path : Text) : Prop where
  split : ∃ method rest, head = method ++ ' ' :: (path ++ ' ' :: rest) ∧ ' ' ∉ method
  plain : ' ' ∉ path

/-- What the server takes for the path. -/
def served (path : Text) : Text := if path ≠ [] ∧ path.length < 256 then path else ['/']

theorem pathOf_line {path more : Text} (line : Line head path)
    (whole : cstr req = head ++ more) : pathOf req = served path := by
  obtain ⟨method, rest, split, plain⟩ := line.split
  have skipped : (cstr req).dropWhile (· ≠ ' ') = ' ' :: (path ++ ' ' :: (rest ++ more)) := by
    have others : ∀ c ∈ method, decide (c ≠ ' ') = true := fun c member =>
      decide_eq_true fun same => plain (same ▸ member)
    rw [whole, split, List.append_assoc, List.dropWhile_append_of_pos others, List.cons_append,
      List.append_assoc, List.cons_append, List.dropWhile_cons_of_neg (by decide)]
  have taken : (path ++ ' ' :: (rest ++ more)).takeWhile (· ≠ ' ') = path := by
    have others : ∀ c ∈ path, decide (c ≠ ' ') = true := fun c member =>
      decide_eq_true fun same => line.plain (same ▸ member)
    rw [List.takeWhile_append_of_pos others, List.takeWhile_cons_of_neg (by decide),
      List.append_nil]
  have longer : path.length < (path ++ ' ' :: (rest ++ more)).length := by
    rw [List.length_append, List.length_cons]
    omega
  rw [pathOf, skipped]
  dsimp only
  rw [taken]
  simp only [longer, true_and, served]

/-! ## The length -/

def lengthName : Text := "Content-Length:".toList

/-- The header has a length with something in it, or there is none in what the buffer can hold. -/
def Sized (bytes head : Text) : Prop :=
  (∃ before value, strstr head lengthName = some (before, lengthName ++ value) ∧
    ∃ c ∈ value, isSpace c = false) ∨
  strstr (cstr (bytes.take 8191)) lengthName = none

theorem contentLength_found {before value : Text}
    (found : strstr (cstr req) lengthName = some (before, lengthName ++ value)) :
    contentLength req = atoi value := by
  have name : lengthName.length = 15 := by decide +kernel
  unfold contentLength
  unfold lengthName at *
  generalize "Content-Length:".toList = text at *
  rw [found]
  dsimp only
  rw [List.drop_left' name]

theorem contentLength_none (absent : strstr (cstr req) lengthName = none) :
    contentLength req = 0 := by
  unfold contentLength
  unfold lengthName at *
  generalize "Content-Length:".toList = text at *
  rw [absent]

theorem contentLength_head {bytes : Text} (h : Headed req head) (sized : Sized bytes head)
    (part : req <+: bytes.take 8191) : contentLength req = contentLength head := by
  obtain ⟨rest, whole⟩ := h.cstr_eq
  rcases sized with ⟨before, value, found, solid⟩ | absent
  · have longer := strstr_append found ('\r' :: rest)
    rw [← whole, List.append_assoc] at longer
    rw [← h.cstr_head] at found
    rw [contentLength_found found, contentLength_found longer]
    exact atoi_append solid rfl rest
  · have off := (strstr_none_iff _).mp absent
    obtain ⟨more, longer⟩ := part
    obtain ⟨tail, string⟩ := cstr_prefix req more
    rw [longer] at string
    have unread : strstr (cstr req) lengthName = none := by
      refine (strstr_none_iff _).mpr fun inside => off ?_
      rw [string]
      exact inside.trans (List.prefix_append _ _).isInfix
    have unheard : strstr (cstr head) lengthName = none := by
      refine (strstr_none_iff _).mpr fun inside => off ?_
      rw [string, whole, ← h.cstr_head, List.append_assoc]
      exact inside.trans (List.prefix_append _ _).isInfix
    rw [contentLength_none unread, contentLength_none unheard]

/-! ## One connection -/

/-- A request that its bytes decide: it has a path and a length, and no more comes than was said. -/
structure Formed (bytes head path : Text) : Prop where
  line : Line head path
  sized : Sized bytes head
  whole : (bytes.drop (head.length + 4)).length ≤ (contentLength head).toNat
  short : path.length ≤ 127

/-- What is behind the header. -/
def bodyOf (c : Connection) (head : Text) : Text := c.socket.all.drop (head.length + 4)

/-- What the bytes of a connection come to. -/
def outcome (env : Env) (want : Option Text) (c : Connection) : Served :=
  match headOf c with
  | none => .closed
  | some head =>
    let body := bodyText env want c.time (pathOf head)
    let size := contentLength head
    .answered
      { path := pathOf head
        kept := if c.traced ∧ 0 < size ∧ size < 2 ^ 20 then some (bodyOf c head) else none
        reply := headText body.length ++ (blankLine ++ body)
        unread := [] }

/-- What is read, with what is behind it. -/
theorem gather_split (s : Stream Char) :
    (gather headEnd 8191 8191 [] s).1 ++ (gather headEnd 8191 8191 [] s).2.2.all = s.all :=
  gather_append 8191 [] s

theorem gather_fits (s : Stream Char) : (gather headEnd 8191 8191 [] s).1.length ≤ 8191 :=
  have start : ([] : Text).length ≤ 8191 := Nat.zero_le _
  length_gather_le 8191 start s

theorem served_short {path : Text} (short : path.length ≤ 127) : (served path).length ≤ 127 := by
  rw [served]
  split
  · exact short
  · decide

theorem announce_remember {path : Text} (short : path.length ≤ 127) (seen : List Text) :
    ((announce seen path).1, (announce seen path).2.toList) = (remember 16).step seen path := by
  have whole : remembered path = path := List.take_of_length_le short
  rw [announce, FirstSeen.remember_step, whole]
  split
  next => rfl
  next =>
    split
    next => rfl
    next => rfl

/-- A request that is whole and formed is answered by its bytes. -/
theorem serve_formed {env : Env} {server : Server} (warm : Warm env server.statics)
    (want : Option Text) {c : Connection} {head path : Text} (found : headOf c = some head)
    (formed : Formed c.socket.all head path) :
    (serve env want server c).1.seen = ((remember 16).step server.seen (pathOf head)).1 ∧
      (serve env want server c).2.1 = outcome env want c ∧
      (serve env want server c).2.2.toList =
        ((remember 16).step server.seen (pathOf head)).2 := by
  have gathered := (gather_head c.socket).trans found
  have split := gather_split c.socket
  have done := gather_done gathered
  have fits := gather_fits c.socket
  unfold serve outcome
  rw [found]
  generalize gather headEnd 8191 8191 [] c.socket = g at gathered split done fits
  obtain ⟨req, end_, s⟩ := g
  dsimp only at gathered split done fits ⊢
  subst gathered
  have part : req <+: c.socket.all.take 8191 :=
    List.prefix_take_iff.mpr ⟨⟨s.all, split⟩, fits⟩
  have h := headed done
  obtain ⟨rest, whole⟩ := h.cstr_eq
  have same : cstr head = head ++ [] := h.cstr_head.trans (List.append_nil head).symm
  have headPath : pathOf head = served path := pathOf_line formed.line same
  have samePath : pathOf req = pathOf head := (pathOf_line formed.line whole).trans headPath.symm
  have size : contentLength req = contentLength head := contentLength_head h formed.sized part
  have short : (pathOf head).length ≤ 127 := by
    rw [headPath]
    exact served_short formed.short
  have body : bodyOf c head = req.drop (head.length + 4) ++ s.all := by
    obtain ⟨behind, ended⟩ := h.split
    have long : head.length + 4 ≤ req.length := by
      simp only [ended, List.length_append, blankLine, List.length_cons, List.length_nil]
      omega
    rw [bodyOf, ← split, List.drop_append_of_le_length long]
  have whole := formed.whole
  change (bodyOf c head).length ≤ _ at whole
  rw [body, List.length_append] at whole
  obtain ⟨read, ended⟩ := drain_all (show 0 < 2048 by decide) whole
  have all : (req.drop (head.length + 4) ++ s.all).take (contentLength head).toNat =
      bodyOf c head := by
    rw [← body]
    exact List.take_of_length_le formed.whole
  obtain ⟨text, -, fits⟩ := replyBody_prints warm want c.time (pathOf head)
  have announced := announce_remember short server.seen
  dsimp only
  rw [samePath, size, read, ended, all, text, Option.bind_some, reply_eq fits]
  exact ⟨congrArg Prod.fst announced, rfl, congrArg Prod.snd announced⟩

/-- One whose header does not end is closed, and leaves nothing. -/
theorem serve_headless (env : Env) (server : Server) (want : Option Text) {c : Connection}
    (found : headOf c = none) : serve env want server c = (server, .closed, none) := by
  have gathered := (gather_head c.socket).trans found
  unfold serve
  generalize gather headEnd 8191 8191 [] c.socket = g at gathered
  obtain ⟨req, end_, s⟩ := g
  subst gathered
  rfl

/-! ## Over a run -/

/-- The bytes of a connection decide what comes of it. -/
def Regular (c : Connection) : Prop :=
  ∀ head, headOf c = some head → ∃ path, Formed c.socket.all head path

/-- What is asked for, in this order. -/
def asked (cs : List Connection) : List Text := cs.flatMap fun c => ((headOf c).map pathOf).toList

/-- What is announced. -/
def announced (out : List (Served × Option Text)) : List Text := out.flatMap fun o => o.2.toList

theorem run_formed {env : Env} (want : Option Text) {cs : List Connection}
    (regular : ∀ c ∈ cs, Regular c) {server : Server} (warm : Warm env server.statics) :
    ((listener env want).run server cs).2.map Prod.fst = cs.map (outcome env want) ∧
      announced ((listener env want).run server cs).2 =
        ((remember 16).run server.seen (asked cs)).2 := by
  induction cs generalizing server with
  | nil => exact ⟨rfl, rfl⟩
  | cons c cs ih =>
    obtain ⟨here, later⟩ := List.forall_mem_cons.mp regular
    obtain ⟨kept, -⟩ := serve_answered warm want c
    obtain ⟨outcomes, announcements⟩ := ih later kept
    have step : (listener env want).run server (c :: cs) =
        (((listener env want).run (serve env want server c).1 cs).1,
          (serve env want server c).2 ::
            ((listener env want).run (serve env want server c).1 cs).2) := rfl
    have more : asked (c :: cs) = ((headOf c).map pathOf).toList ++ asked cs := rfl
    rw [step, more, List.map_cons, List.map_cons, outcomes, announced, List.flatMap_cons]
    change _ ∧ _ ++ announced _ = _
    rw [announcements, Transducer.run_append]
    cases found : headOf c with
    | none =>
      rw [serve_headless env server want found]
      refine ⟨?_, rfl⟩
      rw [outcome, found]
    | some head =>
      obtain ⟨path, formed⟩ := here head found
      obtain ⟨seen, out, said⟩ := serve_formed warm want found formed
      rw [seen, out, said]
      refine ⟨rfl, ?_⟩
      rw [Option.map_some, Option.toList_some, Transducer.run_cons, Transducer.run_nil,
        List.append_nil]

/-- However the bytes of the requests are cut and whatever the hooks were called with before: what
comes of each connection is decided by its bytes, nothing of it is left unread, and the paths that
are announced are the first sixteen there are, once each. -/
theorem requests_by_bytes (env : Env) (want : Option Text) (calls : List HookCall)
    {cs : List Connection} (regular : ∀ c ∈ cs, Regular c) :
    ((listener env want).run ⟨[], afterAll env calls⟩ cs).2.map Prod.fst =
        cs.map (outcome env want) ∧
      announced ((listener env want).run ⟨[], afterAll env calls⟩ cs).2 =
        (firsts (asked cs)).take 16 := by
  have warm : Warm env (Server.mk [] (afterAll env calls)).statics := afterAll_warm env calls
  obtain ⟨outcomes, announcements⟩ := run_formed want regular warm
  rw [run_remember] at announcements
  exact ⟨outcomes, announcements⟩

def powerOnLine : Text := "POST /sys/servlet/PowerOn HTTP/1.1\r\nContent-Length: 4".toList

def powerOnRequest (ready : List Nat) : Connection :=
  ⟨⟨powerOnLine ++ (blankLine ++ "DFI=".toList), ready⟩, noon, true⟩

def quiet : Connection := ⟨⟨"POST ".toList, [2]⟩, noon, true⟩

theorem powerOn_regular (ready : List Nat) : Regular (powerOnRequest ready) := by
  intro head found
  have first : headOf (powerOnRequest ready) = some powerOnLine :=
    show headOf (powerOnRequest []) = some powerOnLine by decide +kernel
  obtain rfl := Option.some.inj (found.symm.trans first)
  exact ⟨"/sys/servlet/PowerOn".toList,
    { line := ⟨⟨"POST".toList, "HTTP/1.1\r\nContent-Length: 4".toList, by decide +kernel,
        by decide +kernel⟩, by decide +kernel⟩
      sized := .inl ⟨"POST /sys/servlet/PowerOn HTTP/1.1\r\n".toList, " 4".toList,
        by decide +kernel, '4', by decide +kernel, by decide⟩
      whole := show (bodyOf (powerOnRequest []) powerOnLine).length ≤ _ by decide +kernel
      short := by decide +kernel }⟩

/-- In one piece and in small ones, with a quiet connection between the two. -/
theorem requests_in_pieces :
    ((listener cabinet none).run ⟨[], afterAll cabinet []⟩
          [powerOnRequest [], quiet, powerOnRequest [3, 50, 7, 1]]).2.map Prod.fst =
        [outcome cabinet none (powerOnRequest []), .closed,
          outcome cabinet none (powerOnRequest [3, 50, 7, 1])] ∧
      announced ((listener cabinet none).run ⟨[], afterAll cabinet []⟩
          [powerOnRequest [], quiet, powerOnRequest [3, 50, 7, 1]]).2 =
        ["/sys/servlet/PowerOn".toList] := by
  have headless : headOf quiet = none := by decide +kernel
  have regular : ∀ c ∈ [powerOnRequest [], quiet, powerOnRequest [3, 50, 7, 1]], Regular c := by
    refine List.forall_mem_cons.mpr ⟨powerOn_regular _, List.forall_mem_cons.mpr ⟨?_,
      List.forall_mem_singleton.mpr (powerOn_regular _)⟩⟩
    intro head found
    rw [headless] at found
    cases found
  have paths : (firsts (asked [powerOnRequest [], quiet, powerOnRequest [3, 50, 7, 1]])).take 16 =
      ["/sys/servlet/PowerOn".toList] := by decide +kernel
  have closed : outcome cabinet none quiet = .closed := by rw [outcome, headless]
  obtain ⟨outcomes, announcements⟩ := requests_by_bytes cabinet none [] regular
  rw [List.map_cons, List.map_cons, List.map_singleton, closed] at outcomes
  exact ⟨outcomes, announcements.trans paths⟩

end Es3Recomp.Guarantees.Allnet
