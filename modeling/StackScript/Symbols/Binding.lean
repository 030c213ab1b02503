import StackScript.OrderedTable
import StackScript.Script.Brace

/-!
# Bindings

The statements of a stack bind variables. `var $name[?] { value = EXPR }`
declares one, with a type that is read off a literal value. `... as $name`
gives a name to the result of a call, of which nothing is known; it declares
the variable only if nothing else has.

Bindings are found wherever the words stand, in the blocks of a stack as well
as on its level.

## Main definitions

* `Binding`: What is known about a variable.
* `assignedValue`: What a block assigns to `value`.
* `literalType`: The type of a literal.
* `readBindings`: The variables bound in a stack.
-/

namespace StackScript

/-- What is known about a variable. -/
structure Binding where
  /-- The type of its first value, or `any`. -/
  type : String
  /-- The value may be null. -/
  nullable : Bool
  /-- The variable may be left unset. -/
  optional : Bool
  /-- What the comments above say. -/
  description : Option String
  /-- Where the variable stands. -/
  position : Position
  deriving DecidableEq, Repr

/-- What stands behind the equals sign of `value = ...`, directly inside a
    block with `depth` groups open. -/
def assignedValue (depth : Nat) : List Occurrence → Option (List Occurrence)
  | [] => none
  | place :: places =>
      match place.token.kind with
      | .lBrace => assignedValue (depth + 1) places
      | .lBracket => assignedValue (depth + 1) places
      | .lParen => assignedValue (depth + 1) places
      | .rBrace => assignedValue (depth - 1) places
      | .rBracket => assignedValue (depth - 1) places
      | .rParen => assignedValue (depth - 1) places
      | .ident =>
          if depth = 0 && place.token.text = "value" then
            match places with
            | [] => none
            | sign :: value =>
                if sign.token.kind = .eq then some value else assignedValue depth (sign :: value)
          else
            assignedValue depth places
      | _ => assignedValue depth places

/-- The type of a number: a point or an exponent makes it a decimal. -/
def numberType (digits : String) : String :=
  if digits.toList.any fun c => c = '.' || c = 'e' || c = 'E' then "decimal" else "int"

/-- The type of the literal at the front, and whether it is null. Anything but
    a literal has the type `any`. -/
def literalType : List Occurrence → String × Bool
  | [] => ("any", false)
  | place :: places =>
      match place.token.kind with
      | .number => (numberType place.token.text, false)
      | .operator =>
          match places with
          | digits :: _ =>
              if place.token.text = "-" && digits.token.kind = .number then
                (numberType digits.token.text, false)
              else
                ("any", false)
          | [] => ("any", false)
      | .string => ("text", false)
      | .lBrace => ("object", false)
      | .lBracket => ("array", false)
      | .ident =>
          if place.token.text = "true" || place.token.text = "false" then
            ("bool", false)
          else
            ("any", place.token.text = "null")
      | _ => ("any", false)

/-- The type of a variable by the block behind its name. -/
def blockType : List Occurrence → String × Bool
  | [] => ("any", false)
  | place :: places =>
      if place.token.kind = .lBrace then
        literalType ((assignedValue 0 (untilClose 0 places).body).getD [])
      else
        ("any", false)

/-- What `var` says of a variable: `word` is the word `var`, and `places` is
    what follows the variable. -/
def Binding.ofVar (word : Occurrence) (name : Token) (places : List Occurrence) : Binding :=
  let optional := places.head?.any fun place => place.token.kind = .question
  let (type, nullable) := blockType (if optional then places.drop 1 else places)
  { type := type
    nullable := nullable
    optional := optional
    description := word.description
    position := name.position }

/-- What `as` says of a variable. -/
def Binding.ofAs (name : Token) : Binding where
  type := "any"
  nullable := false
  optional := false
  description := none
  position := name.position

/-- The variables bound by the words of a stack, which are no comments, behind
    those already known. -/
def readBindings (known : OrderedTable Binding) : List Occurrence → OrderedTable Binding
  | [] => known
  | [_] => known
  | word :: name :: places =>
      -- a word is looked at with its successor, which may bind in turn
      let bound :=
        if name.token.kind = .variable && word.token.isIdent "var" then
          known.insert name.token.text (Binding.ofVar word name.token places)
        else if name.token.kind = .variable && word.token.isIdent "as" then
          known.insertNew name.token.text (Binding.ofAs name.token)
        else
          known
      readBindings bound (name :: places)

end StackScript
