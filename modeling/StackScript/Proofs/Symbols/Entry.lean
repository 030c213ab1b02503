import StackScript.Proofs.Text.Trim
import StackScript.Proofs.Token.Print
import StackScript.Symbols.Declaration

/-!
# Declarations as They Are Written

A declaration is written on a line, below a comment for each remark about it:

    // What the remark says.
    TYPE[[]][?] NAME[?] [filters=F1|F2] [{ values = [V1, V2] }]

An `Entry` is what somebody has in mind who writes such a line. It holds nothing
that the line could not say: types and filters are names, values have no blanks
around them, and values are given for an enumeration and for nothing else. A
declared name that is no plain name is written in quotes.

The line is a row of pieces, `row_pieces`, which is legible: every word of it is
followed by a blank or by a sign that the word does not go on with.

## Main definitions

* `Entry`: A declaration that can be written.
* `Entry.declaration`: What the entry declares.
* `Entry.row`, `Entry.print`: The entry as written.
* `Entry.pieces`: The words of its line.

## Theorems

* `row_pieces`: The line is the row of its pieces.
* `legible_pieces`: The pieces are read as they are meant.
-/

namespace StackScript

/-- A declared name: a plain name, or any text in quotes. -/
inductive EntryName where
  | plain (word : Word)
  | quoted (text : String) (ne : text ≠ "")

namespace EntryName

/-- The name itself. -/
def text : EntryName → String
  | plain word => word.text
  | quoted text _ => text

/-- The name as written. -/
def literal : EntryName → String
  | plain word => word.text
  | quoted text _ => Text.quoted text

/-- The kind of word that the name is written as. -/
def kind : EntryName → TokenKind
  | plain _ => .ident
  | quoted _ _ => .string

end EntryName

/-- A value of an enumeration. -/
structure EntryValue where
  /-- The value itself. -/
  text : String
  ne : text ≠ ""
  trimmed : Text.IsTrimmed text.toList

/-- A remark about a declaration, which fills a line. It may begin with a slash:
    the blank in front of it keeps it apart from those of the comment. -/
structure Remark where
  /-- What the remark says. -/
  text : String
  ne : text ≠ ""
  trimmed : Text.IsTrimmed text.toList
  one_line : '\n' ∉ text.toList

/-- A declaration that can be written. -/
structure Entry where
  /-- The type, or the type of the members of a list. -/
  type : Word
  /-- The type is a list. -/
  isList : Bool
  /-- The value may be null. -/
  nullable : Bool
  /-- The declared name. -/
  name : EntryName
  /-- The caller may leave the value out. -/
  optional : Bool
  /-- The filters that the value goes through, if there are any. -/
  filters : List DottedName
  /-- The values of an enumeration. -/
  values : List EntryValue
  /-- Values are given for enumerations, and only for them. -/
  values_ok : values = [] ↔ type.text ≠ "enum"
  /-- What the comments above say. -/
  remarks : List Remark

namespace Entry

/-- What the remarks say, one after the other. -/
def description (entry : Entry) : Option String :=
  if entry.remarks = [] then none else some (" ".intercalate (entry.remarks.map Remark.text))

/-- What the entry declares at a position. -/
def declaration (entry : Entry) (position : Position) : Declaration where
  type := entry.type.text ++ if entry.isList then "[]" else ""
  nullable := entry.nullable
  optional := entry.optional
  filters := if entry.filters = [] then none else some (entry.filters.map DottedName.text)
  enumValues := if entry.values = [] then none else some (entry.values.map EntryValue.text)
  description := entry.description
  position := position

/-! ## Printing -/

/-- A question mark, or nothing. -/
def printMark (marked : Bool) : String :=
  if marked then "?" else ""

/-- The list of filters, if there are any. -/
def printFilters (filters : List DottedName) : String :=
  if filters = [] then "" else " filters=" ++ "|".intercalate (filters.map DottedName.text)

/-- The block of an enumeration. -/
def printValues (values : List EntryValue) : String :=
  if values = [] then "" else
    " \x7b values = [" ++ ", ".intercalate (values.map fun value => Text.quoted value.text) ++
      "] \x7d"

/-- The line of the declaration. -/
def row (entry : Entry) : String :=
  entry.type.text ++ (if entry.isList then "[]" else "") ++ printMark entry.nullable ++ " " ++
    entry.name.literal ++ printMark entry.optional ++ printFilters entry.filters ++
    printValues entry.values

/-- A number of blanks. -/
def blanks (n : Nat) : String :=
  String.ofList (List.replicate n ' ')

/-- The entry as written: a comment for each remark, and its line. -/
def print (indent : Nat) (entry : Entry) : String :=
  String.join (entry.remarks.map fun remark => blanks indent ++ "// " ++ remark.text ++ "\n") ++
    (blanks indent ++ entry.row ++ "\n")

/-! ## Pieces -/

/-- The brackets of a list type. -/
def listPieces (isList : Bool) : List Piece :=
  if isList then [⟨0, .lBracket, ['[']⟩, ⟨0, .rBracket, [']']⟩] else []

/-- A question mark, or nothing. -/
def markPieces (marked : Bool) : List Piece :=
  if marked then [⟨0, .question, ['?']⟩] else []

/-- The filters behind the first. -/
def moreFilters (filters : List DottedName) : List Piece :=
  filters.flatMap fun filter => [⟨0, .pipe, ['|']⟩, ⟨0, .ident, filter.text.toList⟩]

/-- The list of filters, if there are any. -/
def filterPieces : List DottedName → List Piece
  | [] => []
  | filter :: filters =>
      ⟨1, .ident, "filters".toList⟩ :: ⟨0, .eq, ['=']⟩ :: ⟨0, .ident, filter.text.toList⟩ ::
        moreFilters filters

/-- A value in quotes. -/
def valuePiece (gap : Nat) (value : EntryValue) : Piece :=
  ⟨gap, .string, Text.quoteChars '"' value.text.toList⟩

/-- The values behind the first. -/
def moreValues (values : List EntryValue) : List Piece :=
  values.flatMap fun value => [⟨0, .comma, [',']⟩, valuePiece 1 value]

/-- What stands in the block of an enumeration. -/
def insidePieces (value : EntryValue) (values : List EntryValue) : List Piece :=
  ⟨1, .ident, "values".toList⟩ :: ⟨1, .eq, ['=']⟩ :: ⟨1, .lBracket, ['[']⟩ ::
    valuePiece 0 value :: (moreValues values ++ [⟨0, .rBracket, [']']⟩])

/-- The block of an enumeration. -/
def valuePieces : List EntryValue → List Piece
  | [] => []
  | value :: values =>
      ⟨1, .lBrace, ['\x7b']⟩ :: (insidePieces value values ++ [⟨1, .rBrace, ['\x7d']⟩])

/-- What stands behind the name. -/
def attributePieces (entry : Entry) : List Piece :=
  filterPieces entry.filters ++ valuePieces entry.values

/-- The words of the line. -/
def pieces (indent : Nat) (entry : Entry) : List Piece :=
  ⟨indent, .ident, entry.type.text.toList⟩ :: (listPieces entry.isList ++
    (markPieces entry.nullable ++ (⟨1, entry.name.kind, entry.name.literal.toList⟩ ::
      (markPieces entry.optional ++ attributePieces entry))))

-- The pieces of a list type, and of a mark, are what is printed for them.
theorem printed_list (isList : Bool) :
    (if isList then "[]" else "").toList = printed (listPieces isList) := by
  cases isList <;> rfl

theorem printed_mark (marked : Bool) : (printMark marked).toList = printed (markPieces marked) := by
  cases marked <;> rfl

/-- A pipe stands in front of each further filter. -/
theorem printed_moreFilters (filters : List DottedName) :
    printed (moreFilters filters) = filters.flatMap fun filter => '|' :: filter.text.toList := by
  rw [printed, moreFilters, List.flatMap_assoc]
  congr 1
  funext filter
  simp [Piece.chars]

theorem printed_filters (filters : List DottedName) :
    (printFilters filters).toList = printed (filterPieces filters) := by
  cases filters with
  | nil => rfl
  | cons filter filters =>
      have hpieces : printed (filterPieces (filter :: filters)) =
          " filters=".toList ++ (filter.text.toList ++ printed (moreFilters filters)) := rfl
      rw [hpieces, printed_moreFilters, printFilters, if_neg (List.cons_ne_nil _ _),
        String.toList_append, String.toList_intercalate, List.map_map, List.map_cons,
        intercalate_cons, List.flatMap_map]
      rfl

theorem toList_quoted (text : String) :
    (Text.quoted text).toList = Text.quoteChars '"' text.toList := by
  rw [Text.quoted, Text.onChars, String.toList_ofList]

/-- A comma and a blank stand in front of each further value. -/
theorem printed_moreValues (values : List EntryValue) :
    printed (moreValues values) =
      values.flatMap fun value => ", ".toList ++ (Text.quoted value.text).toList := by
  rw [printed, moreValues, List.flatMap_assoc]
  congr 1
  funext value
  rw [toList_quoted]
  simp [Piece.chars, valuePiece]

/-- The pieces of the values are what is printed for them, braces and key included. -/
theorem printed_values (values : List EntryValue) :
    (printValues values).toList = printed (valuePieces values) := by
  cases values with
  | nil => rfl
  | cons value values =>
      -- The first value is printed apart, as no comma stands in front of it.
      have hpieces : printed (valuePieces (value :: values)) =
          " \x7b values = [".toList ++ ((Text.quoteChars '"' value.text.toList ++
            printed (moreValues values)) ++ "] \x7d".toList) := by
        rw [valuePieces, insidePieces]
        simp only [printed_cons, printed_append, List.cons_append, List.append_assoc]
        rfl
      rw [hpieces, printed_moreValues, printValues, if_neg (List.cons_ne_nil _ _),
        String.toList_append, String.toList_append, String.toList_intercalate, List.map_map,
        List.map_cons, intercalate_cons, List.flatMap_map, Function.comp_apply, toList_quoted,
        List.append_assoc]
      rfl

/-- The line is the row of its pieces. -/
theorem row_pieces (indent : Nat) (entry : Entry) :
    List.replicate indent ' ' ++ entry.row.toList = printed (entry.pieces indent) := by
  unfold row pieces attributePieces
  simp only [String.toList_append, printed_list, printed_mark, printed_filters, printed_values,
    printed_cons, printed_append, List.append_assoc]
  rw [Piece.chars, List.append_assoc]
  rfl

/-! ## Legibility -/

/-- Brackets end where they stand. -/
theorem legible_list (isList : Bool) (rest : List Char) : Legible rest (listPieces isList) := by
  cases isList with
  | false => trivial
  | true =>
      exact ⟨reads_sign_of_notMem rfl (by decide) _, reads_sign_of_notMem rfl (by decide) _,
        trivial⟩

theorem legible_mark (marked : Bool) {rest : List Char} (h : EndsWord rest) :
    Legible rest (markPieces marked) := by
  cases marked with
  | false => trivial
  | true => exact ⟨reads_sign_of_endsWord rfl h, trivial⟩

/-- A name does not go on with a bracket, a mark or a pipe. -/
theorem endsName_list (isList : Bool) {rest : List Char} (h : EndsName rest) :
    EndsName (printed (listPieces isList) ++ rest) := by
  cases isList with
  | false => exact h
  | true =>
      intro c hc
      cases hc
      exact ⟨rfl, by decide⟩

theorem endsName_mark (marked : Bool) {rest : List Char} (h : EndsWord rest) :
    EndsName (printed (markPieces marked) ++ rest) := by
  cases marked with
  | false => exact h.endsName
  | true =>
      intro c hc
      cases hc
      exact ⟨rfl, by decide⟩

theorem endsName_moreFilters (filters : List DottedName) {rest : List Char} (h : EndsWord rest) :
    EndsName (printed (moreFilters filters) ++ rest) := by
  cases filters with
  | nil => exact h.endsName
  | cons filter filters =>
      intro c hc
      cases hc
      exact ⟨rfl, by decide⟩

theorem legible_moreFilters (filters : List DottedName) {rest : List Char} (h : EndsWord rest) :
    Legible rest (moreFilters filters) := by
  induction filters with
  | nil => trivial
  | cons filter filters ih =>
      refine ⟨?_, reads_name filter (endsName_moreFilters filters h), ih⟩
      change Reads .pipe ['|'] (filter.text.toList ++ printed (moreFilters filters) ++ rest)
      rw [List.append_assoc]
      exact reads_sign_of_name rfl filter _

theorem reads_filters {rest : List Char} (h : EndsName rest) :
    Reads .ident "filters".toList rest :=
  reads_word ⟨"filters", by decide, by decide⟩ h

-- The key of the values is a name like others.
theorem reads_values {rest : List Char} (h : EndsName rest) : Reads .ident "values".toList rest :=
  reads_word ⟨"values", by decide, by decide⟩ h

/-- Each filter ends at the pipe behind it, and the last one where the word ends. -/
theorem legible_filters (filters : List DottedName) {rest : List Char} (h : EndsWord rest) :
    Legible rest (filterPieces filters) := by
  cases filters with
  | nil => trivial
  | cons filter filters =>
      refine ⟨reads_filters fun c hc => ?_, ?_, reads_name filter (endsName_moreFilters filters h),
        legible_moreFilters filters h⟩
      · cases hc
        exact ⟨rfl, by decide⟩
      · change Reads .eq ['='] (filter.text.toList ++ printed (moreFilters filters) ++ rest)
        rw [List.append_assoc]
        exact reads_sign_of_name rfl filter _

/-- A value ends at its quote, whatever follows. -/
theorem legible_moreValues (values : List EntryValue) (rest : List Char) :
    Legible rest (moreValues values) := by
  induction values with
  | nil => trivial
  | cons value values ih =>
      exact ⟨reads_sign_of_notMem rfl (by decide) _, reads_quoted _ _, ih⟩

theorem legible_values (values : List EntryValue) (rest : List Char) :
    Legible rest (valuePieces values) := by
  cases values with
  | nil => trivial
  | cons value values =>
      have hinside : ∀ rest, Legible rest (insidePieces value values) := by
        intro rest
        refine ⟨reads_values (endsWord_gap Nat.one_pos _ _).endsName,
          reads_sign_of_endsWord rfl (endsWord_gap Nat.one_pos _ _),
          reads_sign_of_notMem rfl (by decide) _, reads_quoted _ _, ?_⟩
        exact legible_append.mpr ⟨legible_moreValues values _,
          reads_sign_of_notMem rfl (by decide) _, trivial⟩
      exact ⟨reads_sign_of_notMem rfl (by decide) _, legible_append.mpr ⟨hinside _,
        reads_sign_of_notMem rfl (by decide) _, trivial⟩⟩

/-- Values stand behind a blank, and so does what comes in front of them. -/
theorem endsWord_values (values : List EntryValue) : EndsWord (printed (valuePieces values)) := by
  cases values with
  | nil => exact fun c hc => by cases hc
  | cons value values =>
      rw [← List.append_nil (printed _)]
      exact endsWord_gap Nat.one_pos _ []

theorem endsWord_attributes (entry : Entry) : EndsWord (printed (attributePieces entry)) := by
  unfold attributePieces
  cases entry.filters with
  | nil => exact endsWord_values entry.values
  | cons filter filters =>
      rw [printed_append]
      exact endsWord_gap Nat.one_pos _ _

/-- A name is read as it is written, in quotes or plain. -/
theorem reads_literal (name : EntryName) {rest : List Char} (h : EndsName rest) :
    Reads name.kind name.literal.toList rest := by
  cases name with
  | plain word => exact reads_word word h
  | quoted text ne =>
      rw [EntryName.literal, toList_quoted]
      exact reads_quoted _ _

/-- The pieces of a line are read as they are meant. -/
theorem legible_pieces (indent : Nat) (entry : Entry) : Legible [] (entry.pieces indent) := by
  have hattributes : Legible [] (attributePieces entry) := by
    refine legible_append.mpr ⟨legible_filters _ ?_, legible_values _ _⟩
    rw [List.append_nil]
    exact endsWord_values entry.values
  -- What follows the name begins with a blank, or there is nothing.
  have hends : EndsWord (printed (attributePieces entry) ++ []) := by
    rw [List.append_nil]
    exact endsWord_attributes entry
  have hname : Legible [] (⟨1, entry.name.kind, entry.name.literal.toList⟩ ::
      (markPieces entry.optional ++ attributePieces entry)) := by
    refine ⟨reads_literal _ ?_, legible_append.mpr ⟨legible_mark _ hends, hattributes⟩⟩
    rw [printed_append, List.append_assoc]
    exact endsName_mark _ hends
  refine ⟨reads_word _ ?_, legible_append.mpr ⟨legible_list _ _, legible_append.mpr
    ⟨legible_mark _ (endsWord_gap Nat.one_pos _ _), hname⟩⟩⟩
  rw [printed_append, printed_append, List.append_assoc, List.append_assoc]
  exact endsName_list _ (endsName_mark _ (endsWord_gap Nat.one_pos _ _))

end Entry

end StackScript
