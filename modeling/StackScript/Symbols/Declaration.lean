import StackScript.Diagnostic
import StackScript.OrderedTable
import StackScript.Script.Statement
import StackScript.Text.Quoted

/-!
# Declarations

The statements of an `input` or `schema` section declare typed names:

    TYPE[[]][?] NAME[?] [filters=F1|F2:arg ...] [attr=value ...] [{ BLOCK }]

A question mark behind the type lets the value be null, one behind the name
lets the caller leave it out. Attributes and blocks come in any order, and the
last of a kind counts. The block of an enumeration lists its values.

A statement of another shape is reported and passed over.

## Main definitions

* `Declaration`: What a statement declares about a name.
* `Statement.declaration?`: The declaration that a statement is, if it is one.
* `readDeclarations`: The declarations of a section, with the problems in them.
-/

namespace StackScript

/-- What a statement declares about a name. -/
structure Declaration where
  /-- The type, without its question mark. -/
  type : String
  /-- The value may be null. -/
  nullable : Bool
  /-- The caller may leave the value out. -/
  optional : Bool
  /-- The filters that the value goes through. -/
  filters : Option (List String)
  /-- The values of an enumeration. -/
  enumValues : Option (List String)
  /-- What the comments above say. -/
  description : Option String
  /-- Where the declaration begins. -/
  position : Position
  deriving DecidableEq, Repr

namespace Declaration

/-- A caller has to give the value. -/
def isRequired (declaration : Declaration) : Bool :=
  !declaration.nullable && !declaration.optional

/-- The declaration is of an enumeration, or of a list of its values. -/
def isEnum (declaration : Declaration) : Bool :=
  declaration.type = "enum" || declaration.type = "enum[]"

/-- An enumeration for which no values are given. -/
def lacksValues (declaration : Declaration) : Bool :=
  declaration.isEnum && declaration.enumValues.all List.isEmpty

end Declaration

/-- The first of the tokens is of this kind. -/
def startsWith (kind : TokenKind) (places : List Occurrence) : Bool :=
  places.head?.any fun place => place.token.kind = kind

/-- The arguments of a filter, each behind a colon, are passed over. -/
def skipFilterArguments : List Occurrence → List Occurrence
  | [] => []
  | colon :: places =>
      if colon.token.kind = .colon then
        match places with
        | [] => []
        | argument :: rest =>
            if argument.token.kind.isArgument then
              skipFilterArguments rest
            else
              skipFilterArguments (argument :: rest)
      else
        colon :: places

/-- What follows the arguments is a part of what was offered. -/
theorem skipFilterArguments_length_le (places : List Occurrence) :
    (skipFilterArguments places).length ≤ places.length := by
  fun_induction skipFilterArguments places with
  | case1 => simp
  | case2 => simp
  | case3 _ _ _ _ _ ih => simp only [List.length_cons]; omega
  | case4 _ _ _ _ _ ih => simp only [List.length_cons] at ih ⊢; omega
  | case5 => simp

/-- The names of a list of filters, and what follows the list. -/
def readFilters (places : List Occurrence) : List String × List Occurrence :=
  match places with
  | [] => ([], [])
  | name :: rest =>
      if name.token.kind = .ident then
        let behind := skipFilterArguments rest
        if startsWith .pipe behind then
          let more := readFilters (behind.drop 1)
          (name.token.text :: more.1, more.2)
        else
          ([name.token.text], behind)
      else
        ([], name :: rest)
termination_by places.length
decreasing_by
  have := skipFilterArguments_length_le rest
  simp only [List.length_drop, List.length_cons]
  omega

/-- What follows a list of filters is a part of what was offered. -/
theorem readFilters_length_le (places : List Occurrence) :
    (readFilters places).2.length ≤ places.length := by
  fun_induction readFilters places with
  | case1 => simp
  | case2 name rest hname behind hpipe more ih =>
      have hbehind : behind.length ≤ rest.length := skipFilterArguments_length_le rest
      have hmore : more.2.length ≤ (behind.drop 1).length := ih
      simp only [List.length_drop] at hmore
      simp only [List.length_cons]
      omega
  | case3 name rest hname behind hpipe =>
      exact Nat.le_succ_of_le (skipFilterArguments_length_le rest)
  | case4 => simp

/-- The values in the first pair of brackets: texts, names and numbers, without
    quotes and outer blanks, and without empty ones. -/
def bracketedValues (places : List Occurrence) : List String :=
  let inside := (places.dropWhile fun place => place.token.kind ≠ .lBracket).drop 1
  let listed := inside.takeWhile fun place => place.token.kind ≠ .rBracket
  let worded := listed.filter fun place =>
    place.token.kind = .string || place.token.kind = .ident || place.token.kind = .number
  (worded.map fun place => Text.onChars Text.trim (Text.unquote place.token.text)).filter (· ≠ "")

/-- The values that the block of an enumeration assigns to `values`. -/
def enumValuesOf : List Occurrence → Option (List String)
  | [] => none
  | [_] => none
  | word :: sign :: places =>
      if word.token.isIdent "values" && sign.token.kind = .eq then
        some (bracketedValues places)
      else
        enumValuesOf (sign :: places)

/-- What stands behind the name of a declaration. -/
structure Attributes where
  /-- The last list of filters. -/
  filters : Option (List String)
  /-- The values in the last block. -/
  enumValues : Option (List String)

/-- Reading attributes and blocks behind what has been read already; only an
    enumeration takes values from its blocks. -/
def readAttributes (isEnum : Bool) (known : Attributes) (places : List Occurrence) :
    Attributes :=
  match places with
  | [] => known
  | place :: rest =>
      if place.token.kind = .lBrace then
        let block := untilClose 0 rest
        let values := if isEnum then enumValuesOf block.body else known.enumValues
        readAttributes isEnum { known with enumValues := values } block.rest
      else if place.token.kind = .ident && startsWith .eq rest then
        if place.token.text = "filters" then
          let list := readFilters (rest.drop 1)
          readAttributes isEnum { known with filters := some list.1 } list.2
        else
          readAttributes isEnum known (rest.drop 2)
      else
        readAttributes isEnum known rest
termination_by places.length
decreasing_by
  · have := untilClose_rest_length_le 0 rest
    simp only [List.length_cons]
    omega
  · have := readFilters_length_le (rest.drop 1)
    simp only [List.length_drop, List.length_cons] at this ⊢
    omega
  · simp only [List.length_drop, List.length_cons]
    omega
  · simp

/-- The sign is passed over if it comes first; the first part of the answer
    says whether it did. -/
def skipKind (kind : TokenKind) : List Occurrence → Bool × List Occurrence
  | [] => (false, [])
  | place :: places =>
      if place.token.kind = kind then (true, places) else (false, place :: places)

/-- The brackets of a list type are passed over if they come first. -/
def skipListMark : List Occurrence → Bool × List Occurrence
  | left :: right :: places =>
      if left.token.kind = .lBracket && right.token.kind = .rBracket then
        (true, places)
      else
        (false, left :: right :: places)
  | places => (false, places)

/-- The declaration that a statement is, with the declared name. -/
def Statement.declaration? (statement : Statement) : Option (String × Declaration) :=
  match statement.significant with
  | [] => none
  | typeWord :: afterType =>
      if typeWord.token.kind = .ident && !typeWord.token.text.toList.contains '.' then
        -- the type may be a list, and the list may be null: `text[]?`
        let (isList, afterMark) := skipListMark afterType
        let (nullable, atName) := skipKind .question afterMark
        match atName with
        | [] => none
        | nameWord :: afterName =>
            let name := Text.unquote nameWord.token.text
            if (nameWord.token.kind = .ident || nameWord.token.kind = .string) && name ≠ "" then
              let (optional, attributes) := skipKind .question afterName
              let type := typeWord.token.text ++ if isList then "[]" else ""
              let known := readAttributes (typeWord.token.text = "enum") ⟨none, none⟩ attributes
              some (name,
                { type := type
                  nullable := nullable
                  optional := optional
                  filters := known.filters
                  enumValues := known.enumValues
                  description := statement.first.description
                  position := typeWord.token.position })
            else
              none
      else
        none

/-- Declarations with the problems found in reading them. -/
structure DeclarationReport where
  /-- The declarations by name. -/
  table : OrderedTable Declaration
  /-- The problems, in the order of the script. -/
  problems : List Diagnostic

/-- One more statement is read. -/
def DeclarationReport.read (block : String) (report : DeclarationReport)
    (statement : Statement) : DeclarationReport :=
  match statement.declaration? with
  | none =>
      -- a closing brace without a partner is reported with the braces already
      if statement.first.token.kind = .rBrace then
        report
      else
        let problem := Diagnostic.ofProblem (.unrecognizedDeclaration block)
          statement.first.token.position
        { report with problems := report.problems ++ [problem] }
  | some (name, declaration) =>
      let empty :=
        if declaration.lacksValues then
          [Diagnostic.ofProblem (.enumWithoutValues name) declaration.position]
        else
          []
      let again :=
        if report.table.contains name then
          [Diagnostic.ofProblem (.duplicateDeclaration name) declaration.position]
        else
          []
      { table := report.table.insert name declaration
        problems := report.problems ++ empty ++ again }

/-- The declarations of a section of the given name, behind those already known. -/
def readDeclarations (block : String) (known : OrderedTable Declaration)
    (body : List Occurrence) : DeclarationReport :=
  (statements body).foldl (DeclarationReport.read block) ⟨known, []⟩

end StackScript
