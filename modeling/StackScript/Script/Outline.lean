import StackScript.Scheme
import StackScript.Script.Statement
import StackScript.Text.Quoted

/-!
# Outline of a Script

A script is a header line and a body of sections:

    query "brands/{id}" verb=GET {     the header
      input { ... }                    a section with a block
      stack { ... }
      response = $brand                a section by assignment
    }

A fragment without a header is all body.

## Main definitions

* `Header`: The line that declares the object.
* `Section`: A section of the body.
* `Outline`: A header and the sections of the body.
* `outline`: The outline of a script.
-/

namespace StackScript

/-- The line that declares the object. -/
structure Header where
  /-- The word that declares the kind of object. -/
  keyword : String
  /-- The name of the object, without quotes. -/
  name : Option String
  /-- The verb of an endpoint, in capitals. -/
  verb : Option String
  /-- Where the keyword stands. -/
  position : Position
  deriving DecidableEq, Repr

/-- A section of the body. -/
structure Section where
  /-- The name of the section. -/
  name : String
  /-- The quoted label between the name and the block. -/
  label : Option String
  /-- Where the name stands. -/
  position : Position
  /-- The index of the opening brace, if the section has a block. -/
  openIndex : Option Nat
  /-- The index of the closing brace, if the block has one. -/
  closeIndex : Option Nat
  /-- No block is left open. -/
  terminated : Bool
  deriving DecidableEq, Repr

namespace Section

/-- The section has a block, and is no assignment. -/
def hasBlock (heading : Section) : Bool :=
  heading.openIndex.isSome

/-- The indices inside the braces of the block, from the first to the one
    behind the last; a block left open reaches to the end of the script. -/
def bodyRange (heading : Section) (tokenCount : Nat) : Option (Nat × Nat) :=
  heading.openIndex.map fun start => (start + 1, heading.closeIndex.getD tokenCount)

end Section

/-- A section together with the tokens inside its braces. -/
structure Part where
  /-- The section. -/
  heading : Section
  /-- The tokens inside its braces, if it has a block. -/
  body : Option (List Occurrence)

/-- The header line and the body of a script. -/
structure Outline where
  /-- The header line. -/
  header : Option Header
  /-- The indices of the body, from the first to the one behind the last. -/
  bodyRange : Nat × Nat
  /-- The sections of the body, with their tokens. -/
  parts : List Part

/-- The sections of the body. -/
def Outline.sections (outline : Outline) : List Section :=
  outline.parts.map Part.heading

/-- Reading a header: its name and its verb are taken from the words in front
    of the opening brace of the body, which is the second part of the answer. -/
def readHeader (header : Header) : List Occurrence → Header × Option Occurrence
  | [] => (header, none)
  | place :: places =>
      let token := place.token
      if token.kind = .lBrace then
        (header, some place)
      else if header.name = none && (token.kind = .ident || token.kind = .string) then
        readHeader { header with name := some (Text.unquote token.text) } places
      else if token.isIdent "verb" then
        match places with
        | sign :: value :: rest =>
            if sign.token.kind = .eq then
              readHeader { header with verb := some (Text.unquote value.token.text).toUpper } rest
            else
              readHeader header (sign :: value :: rest)
        | rest => readHeader header rest
      else
        readHeader header places

/-- The section that begins with `name` and goes on with the given words. Words
    other than a block or an assignment make no section; an assignment has no
    label. -/
def partOf (name : Token) (label : Option String) : List Occurrence → Option Part
  | [] => none
  | place :: places =>
      match place.token.kind with
      | .lBrace =>
          let block := untilClose 0 places
          some {
            heading := {
              name := name.text
              label := label
              position := name.position
              openIndex := some place.index
              closeIndex := block.close?.map Occurrence.index
              terminated := block.ending.isSome }
            body := some block.body }
      | .eq =>
          if label = none then
            some ⟨⟨name.text, none, name.position, none, none, true⟩, none⟩
          else
            none
      | _ => none

/-- The section that a statement of the body is, if it is one. -/
def Statement.part? (statement : Statement) : Option Part :=
  if statement.first.token.kind = .ident then
    let name := statement.first.token
    match statement.others.dropWhile fun place => !place.isSignificant with
    | place :: places =>
        if place.token.kind = .string then
          partOf name (some (Text.unquote place.token.text))
            (places.dropWhile fun other => !other.isSignificant)
        else
          partOf name none (place :: places)
    | [] => none
  else
    none

/-- The sections among the statements of a body. -/
def partsOf (body : List Occurrence) : List Part :=
  (statements body).filterMap Statement.part?

/-- The outline of a script whose keyword has the given index. Without a
    keyword the whole script is body, and with one the body lies between the
    first opening brace of the header and its partner. -/
def outline (tokens : List Token) (keyword : Option Nat) : Outline :=
  let places := occurrences tokens
  match keyword.bind fun index => (places.drop index).head? with
  | none =>
      { header := none, bodyRange := (0, tokens.length), parts := partsOf places }
  | some place =>
      let declared : Header := ⟨place.token.text, none, none, place.token.position⟩
      let words := significant (places.drop (place.index + 1))
      match readHeader declared words with
      | (header, none) =>
          { header := some header, bodyRange := (tokens.length, tokens.length), parts := [] }
      | (header, some opening) =>
          let block := untilClose 0 (places.drop (opening.index + 1))
          { header := some header
            bodyRange :=
              (opening.index + 1, (block.close?.map Occurrence.index).getD tokens.length)
            parts := partsOf block.body }

end StackScript
