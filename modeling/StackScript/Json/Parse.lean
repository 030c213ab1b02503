import StackScript.Json.Basic

/-!
# Reading JSON

A JSON text is read in two steps. The first cuts it into marks: brackets,
commas, colons, and values without parts. The second feeds the marks one by one
to a machine that knows what may come next and keeps the arrays and objects
that are still open. Both go through their input once, so a text may be nested
as deep as it likes.

The grammar is strict: no blanks other than space, tab, line feed and carriage
return, no comma behind a last item, no digits behind a leading zero.

## Main definitions

* `Json.Mark`, `Json.marks?`: The marks of a text.
* `Json.State`, `Json.State.step?`: The machine that puts marks together.
* `Json.parse?`: The value that a text writes.
-/

namespace StackScript

namespace Json

/-- What a JSON text is made of. -/
inductive Mark where
  | openArray
  | closeArray
  | openObject
  | closeObject
  | comma
  | colon
  /-- A value without parts. -/
  | atom (value : Json)

/-- The characters that may stand between marks. -/
def isGap (c : Char) : Bool :=
  c = ' ' || c = '\t' || c = '\n' || c = '\r'

/-- The string behind an opening quote, as written, with what follows its
    closing quote. -/
def scanString? : List Char → Option (List Char × List Char)
  | [] => none
  | '"' :: rest => some ([], rest)
  | '\\' :: 'u' :: a :: b :: c :: d :: rest =>
      if (fourHex? a b c d).isSome then
        (scanString? rest).map fun (written, behind) =>
          ('\\' :: 'u' :: a :: b :: c :: d :: written, behind)
      else
        none
  | '\\' :: c :: rest =>
      if (shortEscape? c).isSome then
        (scanString? rest).map fun (written, behind) => ('\\' :: c :: written, behind)
      else
        none
  | c :: rest =>
      if c.toNat < 0x20 || c = '\\' then
        none
      else
        (scanString? rest).map fun (written, behind) => (c :: written, behind)

/-- What follows a string is shorter than what it began in. -/
theorem scanString?_length_lt (cs : List Char) :
    ∀ result ∈ scanString? cs, result.2.length < cs.length := by
  fun_induction scanString? cs with
  | case1 => simp
  | case2 => simp
  | case3 a b c d rest h ih =>
      intro result hresult
      obtain ⟨inner, hinner, rfl⟩ := Option.map_eq_some_iff.1 hresult
      have := ih inner hinner
      simp only [List.length_cons]
      omega
  | case4 => simp
  | case5 c rest _ _ ih =>
      intro result hresult
      obtain ⟨inner, hinner, rfl⟩ := Option.map_eq_some_iff.1 hresult
      have := ih inner hinner
      simp only [List.length_cons]
      omega
  | case6 => simp
  | case7 => simp
  | case8 c rest _ _ _ _ ih =>
      intro result hresult
      obtain ⟨inner, hinner, rfl⟩ := Option.map_eq_some_iff.1 hresult
      have := ih inner hinner
      simp only [List.length_cons]
      omega

/-- The characters that occur in numbers. -/
def isNumberChar (c : Char) : Bool :=
  c.isDigit || c = '-' || c = '+' || c = '.' || c = 'e' || c = 'E'

/-- Digits, at least one, and what follows them. -/
def dropDigits? (cs : List Char) : Option (List Char) :=
  match cs with
  | [] => none
  | c :: rest => if c.isDigit then some (rest.dropWhile Char.isDigit) else none

/-- What follows the whole part of a number: a zero, or digits without a zero
    in front. -/
def dropWhole? : List Char → Option (List Char)
  | '0' :: rest => some rest
  | cs => dropDigits? cs

/-- What follows the fraction of a number, if it has one. -/
def dropFraction? : List Char → Option (List Char)
  | '.' :: rest => dropDigits? rest
  | cs => some cs

/-- What follows the sign of an exponent, if it has one. -/
def dropSign : List Char → List Char
  | '+' :: rest => rest
  | '-' :: rest => rest
  | cs => cs

/-- What follows the exponent of a number, if it has one. -/
def dropExponent? : List Char → Option (List Char)
  | 'e' :: rest => dropDigits? (dropSign rest)
  | 'E' :: rest => dropDigits? (dropSign rest)
  | cs => some cs

/-- The characters write a number. -/
def isNumber (cs : List Char) : Bool :=
  let unsigned := match cs with
    | '-' :: rest => rest
    | cs => cs
  (dropWhole? unsigned >>= dropFraction? >>= dropExponent?) == some []

/-- The mark that begins with `c` and goes on in `cs`, with what follows it. -/
def mark? (c : Char) (cs : List Char) : Option (Mark × List Char) :=
  match c, cs with
  | '[', _ => some (.openArray, cs)
  | ']', _ => some (.closeArray, cs)
  | '{', _ => some (.openObject, cs)
  | '}', _ => some (.closeObject, cs)
  | ',', _ => some (.comma, cs)
  | ':', _ => some (.colon, cs)
  | 'n', 'u' :: 'l' :: 'l' :: rest => some (.atom .null, rest)
  | 't', 'r' :: 'u' :: 'e' :: rest => some (.atom (.bool true), rest)
  | 'f', 'a' :: 'l' :: 's' :: 'e' :: rest => some (.atom (.bool false), rest)
  | '"', _ => (scanString? cs).map fun (written, rest) => (.atom (.string written), rest)
  | _, _ =>
      let written := c :: cs.takeWhile isNumberChar
      if isNumber written then
        some (.atom (.number written), cs.dropWhile isNumberChar)
      else
        none

/-- What follows a mark is a part of what follows its first character. -/
theorem mark?_length_le (c : Char) (cs : List Char) :
    ∀ result ∈ mark? c cs, result.2.length ≤ cs.length := by
  intro result hresult
  unfold mark? at hresult
  split at hresult
  case h_10 =>
    obtain ⟨inner, hinner, rfl⟩ := Option.map_eq_some_iff.1 hresult
    exact Nat.le_of_lt (scanString?_length_lt cs inner hinner)
  case h_11 =>
    dsimp only at hresult
    split at hresult
    · cases hresult
      exact (List.dropWhile_sublist _).length_le
    · cases hresult
  all_goals
    cases hresult
    simp only [List.length_cons]
    omega

/-- The marks of a text. -/
def marks? (cs : List Char) : Option (List Mark) :=
  match cs with
  | [] => some []
  | c :: rest =>
      if isGap c then
        marks? rest
      else
        match _hmark : mark? c rest with
        | none => none
        | some (mark, behind) => (marks? behind).map (mark :: ·)
termination_by cs.length
decreasing_by
  · simp
  · have : behind.length ≤ rest.length := mark?_length_le c rest (mark, behind) _hmark
    simp only [List.length_cons]
    omega

/-- An array or an object that is still open, with what it has so far, the last
    first. -/
inductive Frame where
  | array (items : List Json)
  /-- An object, with the name whose value comes next. -/
  | object (members : List (List Char × Json)) (name : List Char)

/-- What may come next, and which arrays and objects are open around it, the
    innermost first. -/
inductive State where
  /-- A value has to come. -/
  | atValue (frames : List Frame)
  /-- A first item has to come, or the end of the array. -/
  | atFirstItem (frames : List Frame)
  /-- A first name has to come, or the end of the object. -/
  | atFirstName (frames : List Frame)
  /-- A name has to come. -/
  | atName (members : List (List Char × Json)) (frames : List Frame)
  /-- A colon has to come. -/
  | atColon (members : List (List Char × Json)) (name : List Char) (frames : List Frame)
  /-- A value is complete. -/
  | behind (value : Json) (frames : List Frame)

namespace State

/-- A value begins. -/
def begin? (frames : List Frame) : Mark → Option State
  | .atom value => some (behind value frames)
  | .openArray => some (atFirstItem frames)
  | .openObject => some (atFirstName frames)
  | _ => none

/-- The next mark comes. -/
def step? (state : State) (mark : Mark) : Option State :=
  match state, mark with
  | atValue frames, mark => begin? frames mark
  | atFirstItem frames, .closeArray => some (behind (.array []) frames)
  | atFirstItem frames, mark => begin? (.array [] :: frames) mark
  | atFirstName frames, .closeObject => some (behind (.object []) frames)
  | atFirstName frames, .atom (.string name) => some (atColon [] name frames)
  | atName members frames, .atom (.string name) => some (atColon members name frames)
  | atColon members name frames, .colon => some (atValue (.object members name :: frames))
  | behind value (.array items :: frames), .comma =>
      some (atValue (.array (value :: items) :: frames))
  | behind value (.array items :: frames), .closeArray =>
      some (behind (.array (value :: items).reverse) frames)
  | behind value (.object members name :: frames), .comma =>
      some (atName ((name, value) :: members) frames)
  | behind value (.object members name :: frames), .closeObject =>
      some (behind (.object ((name, value) :: members).reverse) frames)
  | _, _ => none

/-- The value that is complete with nothing open around it. -/
def result? : State → Option Json
  | behind value [] => some value
  | _ => none

end State

/-- The value that some marks write. -/
def ofMarks? (marks : List Mark) : Option Json :=
  marks.foldlM State.step? (.atValue []) >>= State.result?

/-- The value that a text writes. -/
def parse? (text : String) : Option Json :=
  marks? text.toList >>= ofMarks?

end Json

end StackScript
