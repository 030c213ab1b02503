import StackScript.Json.Basic

/-!
# Writing JSON

Two ways to write a value down: in one line without blanks, and over several
lines with two spaces for each level. Empty arrays and objects take no line
break in either.

## Main definitions

* `Json.compact`: The value in one line.
* `Json.pretty`: The value over several lines.
-/

namespace StackScript

namespace Json

/-- A string with its quotes. -/
def quote (written : List Char) : List Char :=
  '"' :: (written ++ ['"'])

mutual

/-- The value in one line. -/
def compactChars : Json → List Char
  | null => ['n', 'u', 'l', 'l']
  | bool true => ['t', 'r', 'u', 'e']
  | bool false => ['f', 'a', 'l', 's', 'e']
  | number written => written
  | string written => quote written
  | array items => '[' :: (compactItems items ++ [']'])
  | object members => '{' :: (compactMembers members ++ ['}'])

/-- The items of an array, with commas between them. -/
def compactItems : List Json → List Char
  | [] => []
  | item :: items =>
      match items with
      | [] => compactChars item
      | _ :: _ => compactChars item ++ ',' :: compactItems items

/-- The members of an object, with commas between them. -/
def compactMembers : List (List Char × Json) → List Char
  | [] => []
  | (name, value) :: members =>
      match members with
      | [] => quote name ++ ':' :: compactChars value
      | _ :: _ => quote name ++ ':' :: compactChars value ++ ',' :: compactMembers members

end

/-- The value in one line. -/
def compact (value : Json) : String :=
  String.ofList (compactChars value)

/-- A new line on the given level. -/
def newLine (level : Nat) : List Char :=
  '\n' :: List.replicate (2 * level) ' '

mutual

/-- The value over several lines, where the line that it begins on is on the
    given level. -/
def prettyChars (level : Nat) : Json → List Char
  | array [] => ['[', ']']
  | array (item :: items) =>
      '[' :: (prettyItems (level + 1) (item :: items) ++ newLine level ++ [']'])
  | object [] => ['{', '}']
  | object (member :: members) =>
      '{' :: (prettyMembers (level + 1) (member :: members) ++ newLine level ++ ['}'])
  | value => compactChars value

/-- The items of an array, each on a line of its own. -/
def prettyItems (level : Nat) : List Json → List Char
  | [] => []
  | item :: items =>
      match items with
      | [] => newLine level ++ prettyChars level item
      | _ :: _ => newLine level ++ prettyChars level item ++ ',' :: prettyItems level items

/-- The members of an object, each on a line of its own. -/
def prettyMembers (level : Nat) : List (List Char × Json) → List Char
  | [] => []
  | (name, value) :: members =>
      let written := newLine level ++ quote name ++ ':' :: ' ' :: prettyChars level value
      match members with
      | [] => written
      | _ :: _ => written ++ ',' :: prettyMembers level members

end

/-- The value over several lines. -/
def pretty (value : Json) : String :=
  String.ofList (prettyChars 0 value)

end Json

end StackScript
