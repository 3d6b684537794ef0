import Mathlib.Algebra.Group.Int.Defs
import Es3Recomp.Library.Atoi
import Es3Recomp.Library.CutStream
import Es3Recomp.Library.Transducer
import Es3Recomp.Source.Resolver
import Es3Recomp.Source.TraceCalls

/-!
# The server that answers for ALL.Net

Source: src/src/runtime/allnet.c:95-101 (`started_pair`), 107-205 (`reply_body`), 207-326
(`serve`), 345-356 (`allnet_thread`). A socket is the bytes that come before the client ends the
connection or says nothing for five seconds, and how many of them are there at each `recv`.
`sprintf_s` ends the process where a text does not fit. That `send` takes the whole reply is what
the code relies on; the traces of ES3_TRACE_NET are left out.
-/
namespace Es3Recomp.Source.Allnet
open Library Library.Atoi Library.CutStream
open Source.TraceCalls (strstr)
open Source.Resolver (Env Statics allnetAddrStr)

/-! ## Texts -/

/-- A buffer as a C string. -/
def cstr (buf : Text) : Text := buf.takeWhile (· ≠ '\x00')

/-- `%0*d` of what is not negative -/
def padded (width n : Nat) : Text := (Nat.toDigits 10 n).leftpad width '0'

def decimal (n : Nat) : Text := Nat.toDigits 10 n

/-- What `localtime_s` gives: with 1900 added to the year and 1 to the month. -/
structure LocalTime where
  year : Nat
  month : Nat
  day : Nat
  hour : Nat
  minute : Nat
  second : Nat
  /-- its years end with 3000 -/
  year_lt : year < 10000
  month_lt : month < 100
  day_lt : day < 100
  hour_lt : hour < 100
  minute_lt : minute < 100
  second_lt : second < 100

def started (t : LocalTime) : Text :=
  padded 4 t.year ++ '-' :: (padded 2 t.month ++ '-' :: (padded 2 t.day ++ 'T' ::
    (padded 2 t.hour ++ ':' :: (padded 2 t.minute ++ ':' :: (padded 2 t.second ++ ['Z'])))))

def startedPair (when : Text) : Text := "\"started_at\":\"".toList ++ when ++ ['\x22']

/-- `kv`, all of it -/
def kv (t : LocalTime) : List Text :=
  ["\"status\":0".toList,
    "\"net_id\":\"AZZZ0123\"".toList,
    "\"place_id\":\"0123\"".toList,
    "\"current_place_id\":\"0123\"".toList,
    "\"game_id\":\"SBZB\"".toList,
    "\"serial_no\":\"271000020001\"".toList,
    "\"store_id\":\"0123\"".toList,
    "\"store_name\":\"RECOMP\"".toList,
    "\"store_nickname\":\"RECOMP\"".toList,
    "\"allnet_game_id\":\"SBZB\"".toList,
    "\"allnet_game_ver\":\"0.01\"".toList,
    "\"line_type\":1".toList,
    "\"area_cd_0\":\"1\"".toList,
    "\"area_name_0\":\"W\"".toList,
    "\"area_name_1\":\"X\"".toList,
    "\"area_name_2\":\"Y\"".toList,
    "\"area_name_3\":\"Z\"".toList,
    "\"country_code\":\"JPN\"".toList,
    "\"time_zone\":\"+09:00\"".toList,
    startedPair (started t),
    "\"yuai_option_limit_at\":\"2099-12-31T23:59:59Z\"".toList]

/-! ## The reply -/

/-- `sprintf_s` at the end of what is there already, in a buffer of `n` bytes. -/
def sprintfS (n : Nat) (out text : Text) : Option Text :=
  if out.length + text.length < n then some (out ++ text) else none

/-- The loop over `kv`, from the `i`-th field on. -/
def printFields (n : Nat) : List Text → Nat → Text → Option Text
  | [], _, out => some out
  | field :: fields, i, out => do
    let out ← sprintfS n out ((if i = 0 then [] else [',']) ++ field)
    printFields n fields (i + 1) out

/-- How many of the fields are sent, by ES3_ALLNET_FIELDS. -/
def fieldCount (want : Option Text) (nkv : Nat) : Nat :=
  let limit := (want.map atoi).getD (-1)
  if 0 ≤ limit ∧ limit < nkv then limit.toNat else nkv

def controlData (n : Nat) (want : Option Text) (t : LocalTime) : Option Text := do
  let out ← sprintfS n [] ['\x7b']
  let out ← printFields n ((kv t).take (fieldCount want (kv t).length)) 0 out
  sprintfS n out ['\x7d']

def powerOn (host : Text) (t : LocalTime) : Text :=
  "stat=1&uri=http://".toList ++ host ++ "/&host=".toList ++ host ++
    "&place_id=0123&name=RECOMP&nickname=RECOMP".toList ++
    "&region0=1&region_name0=W&region_name1=X".toList ++
    "&region_name2=Y&region_name3=Z".toList ++
    "&country=JPN&timezone=+09:00".toList ++
    "&year=".toList ++ padded 4 t.year ++ "&month=".toList ++ decimal t.month ++
    "&day=".toList ++ decimal t.day ++ "&hour=".toList ++ decimal t.hour ++
    "&minute=".toList ++ decimal t.minute ++ "&second=".toList ++ decimal t.second

/-- `strstr(path, name)` -/
def has (path name : Text) : Bool := (strstr path name).isSome

/-- `reply_body`; the address is asked for where it is sent, and is remembered from then on. -/
def replyBody (env : Env) (fields : Option Text) (n : Nat) (st : Statics) (t : LocalTime)
    (path : Text) : Option Text × Statics :=
  if has path "/board/getControlData".toList then (controlData n fields t, st)
  else if has path "/amid/".toList ∨ has path "/board/".toList ∨ has path "/incoming/".toList then
    (sprintfS n [] "\x7b\"status\":0\x7d".toList, st)
  else if has path "DownloadOrder".toList then (sprintfS n [] "stat=1&uri=&host=".toList, st)
  else
    let (host, st) := allnetAddrStr env st
    (sprintfS n [] (powerOn host t), st)

/-- `out`, with the body behind the header. -/
def reply (body : Text) : Option Text :=
  sprintfS 2048 [] ("HTTP/1.1 200 OK\r\n".toList ++ "Content-Type: text/plain\r\n".toList ++
    "Content-Length: ".toList ++ decimal body.length ++ "\r\n".toList ++
    "Connection: close\r\n\r\n".toList ++ body)

/-! ## The request -/

def blankLine : Text := ['\r', '\n', '\r', '\n']

/-- `end`, as the text before it. -/
def headEnd (req : Text) : Option Text := (strstr (cstr req) blankLine).map (·.1)

/-- The text between the first two blanks, if it fits. -/
def pathOf (req : Text) : Text :=
  match (cstr req).dropWhile (· ≠ ' ') with
  | _ :: rest =>
    let path := rest.takeWhile (· ≠ ' ')
    if path.length < rest.length ∧ path ≠ [] ∧ path.length < 256 then path else ['/']
  | [] => ['/']

/-- `want` -/
def contentLength (req : Text) : Int :=
  match strstr (cstr req) "Content-Length:".toList with
  | some (_, cl) => atoi (cl.drop 15)
  | none => 0

/-- What one request came to. -/
structure Exchange where
  path : Text
  /-- the body that ES3_TRACE_AMID prints -/
  kept : Option Text
  reply : Text
  /-- what the socket still holds when it is closed -/
  unread : Text

inductive Served where
  /-- closed without an answer -/
  | closed
  /-- a text did not fit -/
  | stopped
  | answered (e : Exchange)

structure Connection where
  socket : Stream Char
  time : LocalTime
  /-- ES3_TRACE_AMID is set and there is memory for the body -/
  traced : Bool

/-- `seen[0 .. nseen)`, with the address of the reply. -/
structure Server where
  seen : List Text
  statics : Statics

/-- What a path leaves in `seen`. -/
def remembered (path : Text) : Text := path.take 127

/-- The path, if it is announced. -/
def announce (seen : List Text) (path : Text) : List Text × Option Text :=
  if path ∈ seen then (seen, none)
  else if seen.length < 16 then (seen ++ [remembered path], some path)
  else (seen, none)

/-- `serve`: what the connection came to, and the path where it is announced. -/
def serve (env : Env) (fields : Option Text) (server : Server) (c : Connection) :
    Server × Served × Option Text :=
  let (req, found, s) := gather headEnd 8191 8191 [] c.socket
  match found with
  | none => (server, .closed, none)
  | some head =>
    let path := pathOf req
    let want := contentLength req
    let got := req.drop (head.length + 4)
    let (more, s) := drain 2048 want.toNat (s.all.length + 1) got.length s
    let kept := if c.traced ∧ 0 < want ∧ want < 2 ^ 20 then some ((got ++ more).take want.toNat)
      else none
    let (seen, announced) := announce server.seen path
    let (body, statics) := replyBody env fields 1024 server.statics c.time path
    (⟨seen, statics⟩,
      match body.bind reply with
      | some reply => .answered ⟨path, kept, reply, s.all⟩
      | none => .stopped,
      announced)

/-- `allnet_thread` -/
def listener (env : Env) (fields : Option Text) :
    Transducer Server Connection (Served × Option Text) where
  step server c :=
    let (server, out) := serve env fields server c
    (server, [out])

end Es3Recomp.Source.Allnet
