import Es3Recomp.Library.Json

/-!
# An object printed member by member

A member is a name, a text and the value that the text reads as in front of a comma or the end.
The members with commas between them, in braces, say the object of the values in that order.
-/
namespace Es3Recomp.Library.Json

structure Member where
  name : List Char
  text : List Char
  value : Value

def Member.print (m : Member) : List Char := member m.name m.text

/-- The name needs no escapes, and the text is read as the value. -/
structure Member.Reads (m : Member) : Prop where
  plain : ∀ c ∈ m.name, Plain c
  read : ∀ fuel c rest, c = ',' ∨ c = '\x7d' →
    Json.value (fuel + 1) (m.text ++ c :: rest) = some (m.value, c :: rest)

def Member.pair (m : Member) : List UInt16 × Value := (utf16 m.name, m.value)

/-- Each behind a comma. -/
def following (texts : List (List Char)) : List Char := texts.flatMap (',' :: ·)

/-- With commas between them. -/
def commas : List (List Char) → List Char
  | [] => []
  | text :: texts => text ++ following texts

def object (ms : List Member) : List Char := '\x7b' :: (commas (ms.map Member.print) ++ ['\x7d'])

theorem following_cons (text : List Char) (texts : List (List Char)) :
    following (text :: texts) = ',' :: (text ++ following texts) := rfl

theorem member_append (name text rest : List Char) :
    member name text ++ rest = member name (text ++ rest) := by
  simp only [member, quoted, List.cons_append, List.append_assoc]

theorem members_following {m : Member} {ms : List Member} (first : m.Reads)
    (reads : ∀ m ∈ ms, m.Reads) (fuel : Nat) (rest : List Char) :
    members (fuel + ms.length + 2)
        (m.print ++ (following (ms.map Member.print) ++ '\x7d' :: rest)) =
      some (m.pair :: ms.map Member.pair, rest) := by
  induction ms generalizing m fuel with
  | nil =>
    rw [Member.print, member_append]
    exact members_close first.plain (first.read fuel '\x7d' rest (.inr rfl))
  | cons next ms ih =>
    obtain ⟨here, later⟩ := List.forall_mem_cons.mp reads
    have turns : fuel + (ms.length + 1) + 2 = fuel + ms.length + 2 + 1 := by omega
    rw [List.map_cons, following_cons, List.cons_append, List.append_assoc, Member.print,
      member_append, List.length_cons, turns,
      members_comma first.plain (first.read (fuel + ms.length + 1) ',' _ (.inl rfl)),
      ih here later]
    rfl

theorem object_says {ms : List Member} (reads : ∀ m ∈ ms, m.Reads) :
    Says (object ms) (.object (ms.map Member.pair)) := by
  refine ⟨ms.length + 2, fun fuel enough => ?_⟩
  obtain ⟨more, rfl⟩ := Nat.exists_eq_add_of_le' enough
  cases ms with
  | nil => rfl
  | cons m ms =>
    obtain ⟨here, later⟩ := List.forall_mem_cons.mp reads
    have inside := members_following here later more []
    have opened : object (m :: ms) = '\x7b' :: member m.name
        (m.text ++ (following (ms.map Member.print) ++ ['\x7d'])) := by
      rw [object, List.map_cons, commas, Member.print, List.append_assoc, member_append]
    rw [Member.print, member_append] at inside
    have turns : more + ((m :: ms).length + 2) = more + ms.length + 2 + 1 := by
      rw [List.length_cons]
      omega
    rw [parse, opened, turns, value_object, inside]
    rfl

end Es3Recomp.Library.Json
