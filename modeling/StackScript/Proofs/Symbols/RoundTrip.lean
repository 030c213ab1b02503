import StackScript.Proofs.Script.Row
import StackScript.Proofs.Symbols.Entry

/-!
# Declarations Are Read as They Are Written

The readers of a declaration look at the kinds of tokens and at their texts and
at nothing else, so what they make of a line depends on the pieces that it is
written with. `Spells` says that some tokens are those pieces, wherever they
stand.

Each reader takes the pieces that are meant for it and leaves the rest, provided
that the rest does not begin with something it would go on with. The provisos are
what makes the grammar unambiguous: the name of a list type is no bracket, what
follows the filters is no pipe and no colon. The statements about the readers
therefore have the shape of the grammar, and `declaration?_of_spells` puts them
together as the line puts together its parts.

## Main definitions

* `Spells`: The tokens are the pieces.
* `IsRow`: The pieces leave a statement level.

## Theorems

* `readFilters_of_spells`, `readAttributes_of_spells`: The parts of a line.
* `declaration?_of_spells`: The line of an entry declares the entry.
* `isRow_pieces`: The line of an entry is a statement of its own.
-/

namespace StackScript

/-! ## Words without places -/

/-- The tokens are the pieces, wherever they stand. -/
def Spells (places : List Occurrence) (pieces : List Piece) : Prop :=
  places.map (fun place => place.token.spelling) = pieces.map Piece.spelling

/-- Each token is one of the pieces. -/
theorem exists_piece_of_spelling {tokens : List Token} {pieces : List Piece}
    (h : tokens.map Token.spelling = pieces.map Piece.spelling) :
    ∀ token ∈ tokens, ∃ piece ∈ pieces, token.kind = piece.kind := by
  intro token hmem
  have hspelling : token.spelling ∈ pieces.map Piece.spelling := by
    rw [← h]
    exact List.mem_map_of_mem hmem
  rcases List.mem_map.mp hspelling with ⟨piece, hpiece, heq⟩
  exact ⟨piece, hpiece, (congrArg Prod.fst heq).symm⟩

namespace Spells

variable {places : List Occurrence} {pieces : List Piece}

theorem eq_nil (h : Spells places []) : places = [] :=
  List.map_eq_nil_iff.mp h

-- The first piece is written by the first word.
theorem exists_cons {piece : Piece} (h : Spells places (piece :: pieces)) :
    ∃ place rest, places = place :: rest ∧ place.token.kind = piece.kind ∧
      place.token.text = String.ofList piece.word ∧ Spells rest pieces := by
  rcases List.map_eq_cons_iff.mp h with ⟨place, rest, rfl, hplace, hrest⟩
  exact ⟨place, rest, rfl, congrArg Prod.fst hplace, congrArg Prod.snd hplace, hrest⟩

/-- Pieces in a row are written by words in a row. -/
theorem exists_append {others : List Piece} (h : Spells places (pieces ++ others)) :
    ∃ front rest, places = front ++ rest ∧ Spells front pieces ∧ Spells rest others := by
  unfold Spells at h
  rw [List.map_append] at h
  rcases List.map_eq_append_iff.mp h with ⟨front, rest, rfl, hfront, hrest⟩
  exact ⟨front, rest, rfl, hfront, hrest⟩

theorem exists_piece (h : Spells places pieces) {place : Occurrence} (hmem : place ∈ places) :
    ∃ piece ∈ pieces, place.token.kind = piece.kind := by
  have htokens : (places.map Occurrence.token).map Token.spelling = pieces.map Piece.spelling := by
    rw [List.map_map]
    exact h
  exact exists_piece_of_spelling htokens place.token (List.mem_map_of_mem hmem)

/-- What the first piece is not, the first token is not. -/
theorem head_kind (h : Spells places pieces) {kind : TokenKind}
    (hpieces : ∀ piece ∈ pieces.head?, piece.kind ≠ kind) :
    ∀ place ∈ places.head?, place.token.kind ≠ kind := by
  intro place hplace
  cases pieces with
  | nil =>
      rw [h.eq_nil] at hplace
      cases hplace
  | cons piece pieces =>
      rcases h.exists_cons with ⟨first, rest, rfl, hkind, -, -⟩
      cases hplace
      rw [hkind]
      exact hpieces piece rfl

end Spells

namespace Entry

/-! ## The parts of a line -/

/-- The mark of a list is passed if it is there, and nothing that follows is taken for it. -/
theorem skipListMark_of_spells {isList : Bool} {places : List Occurrence} {pieces : List Piece}
    (h : Spells places (listPieces isList ++ pieces))
    (hnext : ∀ piece ∈ pieces.head?, piece.kind ≠ .lBracket) :
    ∃ rest, skipListMark places = (isList, rest) ∧ Spells rest pieces := by
  cases isList with
  | true =>
      rcases h.exists_cons with ⟨left, places, rfl, hleft, -, h⟩
      rcases h.exists_cons with ⟨right, rest, rfl, hright, -, h⟩
      exact ⟨rest, by rw [skipListMark, hleft, hright]; rfl, h⟩
  | false =>
      have hplaces : Spells places pieces := h
      have hhead := hplaces.head_kind hnext
      refine ⟨places, ?_, hplaces⟩
      unfold skipListMark
      split
      · next left right rest =>
        rw [decide_eq_false (hhead left rfl)]
        rfl
      · rfl

-- A mark of one sign is passed if it is there.
theorem skipKind_of_spells {marked : Bool} {places : List Occurrence} {pieces : List Piece}
    (h : Spells places (markPieces marked ++ pieces))
    (hnext : ∀ piece ∈ pieces.head?, piece.kind ≠ .question) :
    ∃ rest, skipKind .question places = (marked, rest) ∧ Spells rest pieces := by
  cases marked with
  | true =>
      rcases h.exists_cons with ⟨mark, rest, rfl, hmark, -, h⟩
      exact ⟨rest, by rw [skipKind, if_pos hmark], h⟩
  | false =>
      have hplaces : Spells places pieces := h
      have hhead := hplaces.head_kind hnext
      refine ⟨places, ?_, hplaces⟩
      cases places with
      | nil => rfl
      | cons place places => rw [skipKind, if_neg (hhead place rfl)]

theorem skipFilterArguments_of_ne {places : List Occurrence}
    (h : ∀ place ∈ places.head?, place.token.kind ≠ .colon) : skipFilterArguments places = places := by
  cases places with
  | nil => rw [skipFilterArguments]
  | cons place places => rw [skipFilterArguments.eq_def]; exact if_neg (h place rfl)

theorem startsWith_of_ne {kind : TokenKind} {places : List Occurrence}
    (h : ∀ place ∈ places.head?, place.token.kind ≠ kind) : startsWith kind places = false := by
  cases places with
  | nil => rfl
  | cons place places => exact decide_eq_false (h place rfl)

/-- A list of filters is read up to whatever is no pipe and no colon. -/
theorem readFilters_of_spells {filter : DottedName} {filters : List DottedName}
    {places : List Occurrence} {pieces : List Piece}
    (h : Spells places (⟨0, .ident, filter.text.toList⟩ :: (moreFilters filters ++ pieces)))
    (hcolon : ∀ piece ∈ pieces.head?, piece.kind ≠ .colon)
    (hpipe : ∀ piece ∈ pieces.head?, piece.kind ≠ .pipe) :
    ∃ rest, readFilters places = ((filter :: filters).map DottedName.text, rest) ∧
      Spells rest pieces := by
  induction filters generalizing filter places with
  | nil =>
      rcases h.exists_cons with ⟨name, rest, rfl, hname, htext, h⟩
      have hrest : Spells rest pieces := h
      refine ⟨rest, ?_, hrest⟩
      rw [String.ofList_toList] at htext
      rw [readFilters, if_pos hname, skipFilterArguments_of_ne (hrest.head_kind hcolon)]
      dsimp only
      rw [startsWith_of_ne (hrest.head_kind hpipe), htext]
      rfl
  -- A pipe follows, so the reader goes on with the next filter.
  | cons next filters ih =>
      rcases h.exists_cons with ⟨name, places, rfl, hname, htext, hmore⟩
      rcases Spells.exists_cons hmore with ⟨sign, behind, rfl, hsign, -, hnext⟩
      rcases ih hnext with ⟨rest, hread, hrest⟩
      refine ⟨rest, ?_, hrest⟩
      -- The filter has no arguments.
      have hskip : skipFilterArguments (sign :: behind) = sign :: behind :=
        skipFilterArguments_of_ne fun place hplace => by
          cases hplace
          rw [hsign]
          exact TokenKind.noConfusion
      have hstarts : startsWith .pipe (sign :: behind) := decide_eq_true hsign
      rw [String.ofList_toList] at htext
      rw [readFilters, if_pos hname, hskip]
      dsimp only
      rw [if_pos hstarts, List.drop_succ_cons, List.drop_zero, hread, htext]
      rfl

/-! ## Values -/

/-- The word is one that a list of values takes. -/
def isListed (place : Occurrence) : Bool :=
  place.token.kind = .string || place.token.kind = .ident || place.token.kind = .number

/-- The value that a word stands for. -/
def valueOf (place : Occurrence) : String :=
  Text.onChars Text.trim (Text.unquote place.token.text)

-- A value has no blanks around it, so cutting them off does no harm.
theorem valueOf_quoted {place : Occurrence} {value : EntryValue}
    (h : place.token.text = String.ofList (Text.quoteChars '"' value.text.toList)) :
    valueOf place = value.text := by
  rw [valueOf, h, ← toList_quoted, String.ofList_toList, Text.unquote_quoted, Text.onChars,
    Text.trim_of_isTrimmed value.trimmed, String.ofList_toList]

/-- Behind each comma a value is found, and the commas themselves are passed over. -/
theorem listed_of_spells {values : List EntryValue} {places : List Occurrence}
    (h : Spells places (moreValues values)) :
    (places.filter isListed).map valueOf = values.map EntryValue.text := by
  induction values generalizing places with
  | nil =>
      rw [h.eq_nil]
      rfl
  | cons value values ih =>
      rcases Spells.exists_cons h with ⟨comma, places, rfl, hcomma, -, h⟩
      rcases h.exists_cons with ⟨word, rest, rfl, hword, htext, hrest⟩
      have hskip : ¬ isListed comma := by
        rw [isListed, hcomma]
        exact Bool.false_ne_true
      have htake : isListed word := by
        rw [isListed, hword]
        rfl
      rw [List.filter_cons_of_neg hskip, List.filter_cons_of_pos htake, List.map_cons,
        valueOf_quoted htext, ih hrest, List.map_cons]

/-- A list of values goes on up to its bracket. -/
theorem kind_moreValues {values : List EntryValue} {places : List Occurrence}
    (h : Spells places (moreValues values)) :
    ∀ place ∈ places, place.token.kind = .comma ∨ place.token.kind = .string := by
  intro place hplace
  rcases h.exists_piece hplace with ⟨piece, hpiece, hkind⟩
  rcases List.mem_flatMap.mp hpiece with ⟨value, -, hmem⟩
  rw [hkind]
  rcases List.mem_cons.mp hmem with rfl | hmem
  · exact Or.inl rfl
  · rw [List.mem_singleton.mp hmem]
    exact Or.inr rfl

/-- All values between the brackets are found, in order. -/
theorem bracketedValues_of_spells {value : EntryValue} {values : List EntryValue}
    {places : List Occurrence}
    (h : Spells places (⟨1, .lBracket, ['[']⟩ :: valuePiece 0 value ::
      (moreValues values ++ [⟨0, .rBracket, [']']⟩]))) :
    bracketedValues places = (value :: values).map EntryValue.text := by
  rcases h.exists_cons with ⟨left, places, rfl, hleft, -, h⟩
  rcases h.exists_cons with ⟨word, places, rfl, hword, htext, h⟩
  rcases h.exists_append with ⟨more, places, rfl, hmore, h⟩
  rcases h.exists_cons with ⟨right, rest, rfl, hright, -, -⟩
  have hopen : (left :: word :: (more ++ right :: rest)).dropWhile
      (fun place => place.token.kind ≠ .lBracket) = left :: word :: (more ++ right :: rest) :=
    List.dropWhile_cons_of_neg (by simp [hleft])
  -- The first bracket that closes is the one at the end.
  have hinside : ∀ place ∈ word :: more, decide (place.token.kind ≠ .rBracket) = true := by
    intro place hplace
    rw [decide_eq_true_eq]
    rcases List.mem_cons.mp hplace with rfl | hplace
    · rw [hword]
      exact TokenKind.noConfusion
    · rcases kind_moreValues hmore place hplace with hkind | hkind
      · rw [hkind]
        exact TokenKind.noConfusion
      · rw [hkind]
        exact TokenKind.noConfusion
  have hlisted : (word :: (more ++ right :: rest)).takeWhile
      (fun place => place.token.kind ≠ .rBracket) = word :: more := by
    rw [← List.cons_append, List.takeWhile_append_of_pos hinside,
      List.takeWhile_cons_of_neg (by simp [hright]), List.append_nil]
  have htake : isListed word := by
    rw [isListed, hword]
    rfl
  -- The first value has no comma in front, the others are found behind theirs.
  have hvalues : ((word :: more).filter isListed).map valueOf =
      (value :: values).map EntryValue.text := by
    rw [List.filter_cons_of_pos htake, List.map_cons, valueOf_quoted htext,
      listed_of_spells hmore, List.map_cons]
  unfold bracketedValues
  rw [hopen, List.drop_succ_cons, List.drop_zero]
  dsimp only
  rw [hlisted]
  change (((word :: more).filter isListed).map valueOf).filter (· ≠ "") = _
  -- No value is empty, so none is dropped.
  rw [hvalues, List.filter_eq_self]
  intro text htext
  rcases List.mem_map.mp htext with ⟨other, -, rfl⟩
  exact decide_eq_true other.ne

/-- The values are found behind their key. -/
theorem enumValuesOf_of_spells {value : EntryValue} {values : List EntryValue}
    {places : List Occurrence} (h : Spells places (insidePieces value values)) :
    enumValuesOf places = some ((value :: values).map EntryValue.text) := by
  rcases Spells.exists_cons h with ⟨word, places, rfl, hword, htext, h⟩
  rcases h.exists_cons with ⟨sign, places, rfl, hsign, -, h⟩
  have hvalues : word.token.isIdent "values" && sign.token.kind = .eq := by
    rw [Token.isIdent, hword, htext, hsign]
    rfl
  rw [enumValuesOf, if_pos hvalues, bracketedValues_of_spells h]

/-- There are no blocks in the block of an enumeration. -/
theorem kind_insidePieces {value : EntryValue} {values : List EntryValue} {piece : Piece}
    (h : piece ∈ insidePieces value values) : piece.kind ≠ .lBrace ∧ piece.kind ≠ .rBrace := by
  simp only [insidePieces, moreValues, valuePiece, List.mem_cons, List.mem_append,
    List.mem_flatMap, List.not_mem_nil, or_false] at h
  rcases h with rfl | rfl | rfl | rfl | ⟨other, -, rfl | rfl⟩ | rfl
  all_goals exact ⟨TokenKind.noConfusion, TokenKind.noConfusion⟩

/-- A block of values sets the values of an enumeration, and no block sets nothing. -/
theorem readAttributes_values {isEnum : Bool} {values : List EntryValue} (known : Attributes)
    {places : List Occurrence} (h : Spells places (valuePieces values))
    (henum : values ≠ [] → isEnum) :
    readAttributes isEnum known places = { known with
      enumValues := if values = [] then known.enumValues else some (values.map EntryValue.text) } := by
  cases values with
  | nil =>
      rw [h.eq_nil, readAttributes, if_pos rfl]
  | cons value values =>
      rcases Spells.exists_cons h with ⟨opening, places, rfl, hopen, -, h⟩
      rcases h.exists_append with ⟨inside, places, rfl, hinside, h⟩
      rcases h.exists_cons with ⟨close, rest, rfl, hclose, -, h⟩
      -- There are no braces inside, so the block ends at the brace behind the values.
      have hbraces : ∀ token ∈ inside.map Occurrence.token,
          token.kind ≠ .lBrace ∧ token.kind ≠ .rBrace := by
        intro token hmem
        rcases List.mem_map.mp hmem with ⟨place, hplace, rfl⟩
        rcases hinside.exists_piece hplace with ⟨piece, hpiece, hkind⟩
        rw [hkind]
        exact kind_insidePieces hpiece
      have hbalanced := checkBraces_of_ne (fun token hmem => (hbraces token hmem).1)
        fun token hmem => (hbraces token hmem).2
      rw [readAttributes, if_pos hopen, h.eq_nil, untilClose_balanced hbalanced hclose]
      dsimp only
      rw [if_pos (henum (List.cons_ne_nil _ _)), enumValuesOf_of_spells hinside,
        if_neg (List.cons_ne_nil _ _)]
      exact readAttributes.eq_1 _ _

/-- The block of an enumeration begins with its brace. -/
theorem head_valuePieces {values : List EntryValue} {kind : TokenKind} (h : kind ≠ .lBrace) :
    ∀ piece ∈ (valuePieces values).head?, piece.kind ≠ kind := by
  intro piece hpiece
  cases values with
  | nil => cases hpiece
  | cons value values =>
      cases hpiece
      exact h.symm

/-- What is read behind the name is what has been written there. -/
theorem readAttributes_of_spells (entry : Entry) {places : List Occurrence}
    (h : Spells places (attributePieces entry)) :
    readAttributes (entry.type.text = "enum") ⟨none, none⟩ places =
      ⟨if entry.filters = [] then none else some (entry.filters.map DottedName.text),
        if entry.values = [] then none else some (entry.values.map EntryValue.text)⟩ := by
  -- Values are written for an enumeration only.
  have henum : entry.values ≠ [] → decide (entry.type.text = "enum") = true := by
    intro hvalues
    rw [decide_eq_true_eq]
    exact Classical.not_not.mp fun hne => hvalues (entry.values_ok.mpr hne)
  unfold attributePieces at h
  cases hfilters : entry.filters with
  | nil =>
      rw [hfilters] at h
      exact readAttributes_values ⟨none, none⟩ h henum
  | cons filter filters =>
      rw [hfilters] at h
      rcases Spells.exists_cons h with ⟨word, places, rfl, hword, htext, h⟩
      rcases h.exists_cons with ⟨sign, places, rfl, hsign, -, h⟩
      -- What follows the filters is a brace or nothing.
      rcases readFilters_of_spells h (head_valuePieces TokenKind.noConfusion)
        (head_valuePieces TokenKind.noConfusion) with ⟨rest, hread, hrest⟩
      have hbrace : word.token.kind ≠ .lBrace := by
        rw [hword]
        exact TokenKind.noConfusion
      have hattribute : word.token.kind = .ident && startsWith .eq (sign :: places) := by
        rw [hword]
        exact decide_eq_true hsign
      have hkey : word.token.text = "filters" := htext.trans String.ofList_toList
      rw [readAttributes, if_neg hbrace, if_pos hattribute, if_pos hkey, List.drop_succ_cons,
        List.drop_zero, hread]
      dsimp only
      rw [readAttributes_values _ hrest henum, if_neg (List.cons_ne_nil _ _)]

/-! ## The line -/

/-- The kinds of the words of a declaration. -/
def kinds : List TokenKind :=
  [.ident, .string, .question, .eq, .pipe, .comma, .lBracket, .rBracket, .lBrace, .rBrace]

/-- A line is written with these kinds of words and with no comment among them. -/
theorem kind_pieces (indent : Nat) (entry : Entry) :
    ∀ piece ∈ entry.pieces indent, piece.kind ∈ kinds := by
  have hlist : ∀ b, ∀ piece ∈ listPieces b, piece.kind ∈ kinds := by
    intro b
    cases b <;> simp [listPieces, kinds]
  have hmark : ∀ b, ∀ piece ∈ markPieces b, piece.kind ∈ kinds := by
    intro b
    cases b <;> simp [markPieces, kinds]
  have hname : entry.name.kind ∈ kinds := by
    cases entry.name <;> simp [EntryName.kind, kinds]
  have hfilters : ∀ piece ∈ filterPieces entry.filters, piece.kind ∈ kinds := by
    cases entry.filters with
    | nil => exact fun piece h => by cases h
    | cons filter filters =>
        intro piece h
        simp only [filterPieces, moreFilters, List.mem_cons, List.mem_flatMap, List.not_mem_nil,
          or_false] at h
        rcases h with rfl | rfl | rfl | ⟨other, -, rfl | rfl⟩
        all_goals simp [kinds]
  have hvalues : ∀ piece ∈ valuePieces entry.values, piece.kind ∈ kinds := by
    cases entry.values with
    | nil => exact fun piece h => by cases h
    | cons value values =>
        intro piece h
        simp only [valuePieces, insidePieces, moreValues, valuePiece, List.mem_cons,
          List.mem_append, List.mem_flatMap, List.not_mem_nil, or_false] at h
        rcases h with rfl | (rfl | rfl | rfl | rfl | ⟨other, -, rfl | rfl⟩ | rfl) | rfl
        all_goals simp [kinds]
  intro piece hpiece
  simp only [pieces, attributePieces, List.mem_cons, List.mem_append] at hpiece
  rcases hpiece with rfl | hpiece | hpiece | rfl | hpiece | hpiece | hpiece
  · exact List.mem_cons_self
  · exact hlist _ piece hpiece
  · exact hmark _ piece hpiece
  · exact hname
  · exact hmark _ piece hpiece
  · exact hfilters piece hpiece
  · exact hvalues piece hpiece

/-- A plain name has no quotes to lose. -/
theorem unquote_word (word : Word) : Text.unquote word.text = word.text := by
  rcases word.exists_cons with ⟨c, cs, htext, hstart, -⟩
  have hquote : ¬ (c = '"' || c = '\'') := by
    simp only [Bool.or_eq_true, decide_eq_true_eq]
    rintro (rfl | rfl) <;> cases hstart
  rw [Text.unquote, Text.onChars, htext, Text.unquoteChars, if_neg hquote, ← htext,
    String.ofList_toList]

theorem unquote_literal (name : EntryName) : Text.unquote name.literal = name.text := by
  cases name with
  | plain word => exact unquote_word word
  | quoted text ne => exact Text.unquote_quoted text

/-- A declared name has a text. -/
theorem text_ne_empty (name : EntryName) : name.text ≠ "" := by
  cases name with
  | plain word =>
      rcases word.exists_cons with ⟨c, cs, htext, -, -⟩
      intro hempty
      rw [EntryName.text] at hempty
      rw [hempty] at htext
      cases htext
  | quoted text ne => exact ne

/-- No word of a declaration is a comment. -/
theorem significant_of_spells {indent : Nat} {entry : Entry} {statement : Statement}
    (h : Spells statement.places (entry.pieces indent)) :
    statement.significant = statement.places := by
  refine List.filter_eq_self.mpr fun place hplace => ?_
  rcases h.exists_piece hplace with ⟨piece, hpiece, hkind⟩
  have hmem := kind_pieces indent entry piece hpiece
  have hcomment : piece.kind ≠ .comment := by
    intro hcomment
    rw [hcomment] at hmem
    exact absurd hmem (by decide)
  rw [Occurrence.isSignificant, Token.isSignificant, hkind, TokenKind.isTrivia,
    decide_eq_false hcomment]
  rfl

/-- What follows a part of the line is nothing that the part goes on with. -/
theorem head_name {name : EntryName} {gap : Nat} {word : List Char} {pieces : List Piece}
    {kind : TokenKind} (hident : kind ≠ .ident) (hstring : kind ≠ .string) :
    ∀ piece ∈ (⟨gap, name.kind, word⟩ :: pieces : List Piece).head?, piece.kind ≠ kind := by
  intro piece hpiece
  cases hpiece
  cases name with
  | plain _ => exact hident.symm
  | quoted _ _ => exact hstring.symm

theorem head_attributePieces (entry : Entry) :
    ∀ piece ∈ (attributePieces entry).head?, piece.kind ≠ .question := by
  unfold attributePieces
  cases entry.filters with
  | nil => exact head_valuePieces TokenKind.noConfusion
  | cons filter filters =>
      intro piece hpiece
      cases hpiece
      exact TokenKind.noConfusion

/-- The line of an entry declares the entry, but for the comments above it. -/
theorem declaration?_of_spells {indent : Nat} {entry : Entry} {statement : Statement}
    (h : Spells statement.places (entry.pieces indent)) :
    statement.declaration? = some (entry.name.text,
      { entry.declaration statement.first.token.position with
        description := statement.first.description }) := by
  have hwords := significant_of_spells h
  rcases Spells.exists_cons h with ⟨typeWord, afterType, hplaces, hkind, htext, hafterType⟩
  have hfirst : statement.first = typeWord := (List.cons.inj hplaces).1
  have hmark : ∀ piece ∈ (markPieces entry.nullable ++
      (⟨1, entry.name.kind, entry.name.literal.toList⟩ ::
        (markPieces entry.optional ++ attributePieces entry))).head?, piece.kind ≠ .lBracket := by
    cases entry.nullable with
    | false => exact head_name TokenKind.noConfusion TokenKind.noConfusion
    | true =>
        intro piece hpiece
        cases hpiece
        exact TokenKind.noConfusion
  -- Each reader passes its part of the line and hands on the rest.
  rcases skipListMark_of_spells hafterType hmark with ⟨afterMark, hlist, hafterMark⟩
  rcases skipKind_of_spells hafterMark (head_name TokenKind.noConfusion TokenKind.noConfusion)
    with ⟨atName, hnullable, hatName⟩
  rcases hatName.exists_cons with ⟨nameWord, afterName, rfl, hnameKind, hnameText, hafterName⟩
  rcases skipKind_of_spells hafterName (head_attributePieces entry)
    with ⟨attributes, hoptional, hattributes⟩
  rw [String.ofList_toList] at htext hnameText
  -- A type has no dot, so it is not taken for a call.
  have htype : typeWord.token.kind = .ident && !typeWord.token.text.toList.contains '.' := by
    have hdot : entry.type.text.toList.contains '.' = false := by
      rw [List.contains_eq_mem, decide_eq_false entry.type.dot_notMem]
    rw [hkind, htext, hdot]
    rfl
  have hname : (nameWord.token.kind = .ident || nameWord.token.kind = .string) &&
      Text.unquote nameWord.token.text ≠ "" := by
    rw [hnameText, unquote_literal, decide_eq_true (text_ne_empty entry.name), Bool.and_true,
      hnameKind]
    cases entry.name <;> rfl
  have hunquote : Text.unquote nameWord.token.text = entry.name.text := by
    rw [hnameText, unquote_literal]
  unfold Statement.declaration?
  rw [hwords, hplaces]
  dsimp only
  rw [if_pos htype, hlist]
  dsimp only
  rw [hnullable]
  dsimp only
  rw [if_pos hname, hoptional, hunquote, htext, readAttributes_of_spells entry hattributes, hfirst]
  rfl

/-! ## The line as a statement -/

/-- On one line the pieces leave a statement level. -/
def IsRow (pieces : List Piece) : Prop :=
  ∀ line tokens, OnLine line tokens → tokens.map Token.spelling = pieces.map Piece.spelling →
    (Extent.level line).Passes tokens (Extent.level line)

/-- Rows of one line can stand behind each other. -/
theorem IsRow.append {pieces others : List Piece} (h : IsRow pieces) (h' : IsRow others) :
    IsRow (pieces ++ others) := by
  intro line tokens hline hspells
  rw [List.map_append] at hspells
  rcases List.map_eq_append_iff.mp hspells with ⟨front, rest, rfl, hfront, hrest⟩
  exact (h line front (fun token hmem => hline token (List.mem_append_left _ hmem)) hfront).append
    (h' line rest (fun token hmem => hline token (List.mem_append_right _ hmem)) hrest)

/-- Words and signs without brackets are a row. -/
theorem isRow_plain {pieces : List Piece} (h : ∀ piece ∈ pieces, piece.kind.isPlain) :
    IsRow pieces := by
  intro line tokens hline hspells
  refine Extent.passes_plain hline fun token hmem => ?_
  rcases exists_piece_of_spelling hspells token hmem with ⟨piece, hpiece, hkind⟩
  rw [hkind]
  exact h piece hpiece

theorem isRow_list (isList : Bool) : IsRow (listPieces isList) := by
  cases isList with
  | false => exact isRow_plain fun piece hpiece => by cases hpiece
  | true =>
      intro line tokens hline hspells
      rcases List.map_eq_cons_iff.mp hspells with ⟨left, tokens, rfl, hleft, hspells⟩
      rcases List.map_eq_cons_iff.mp hspells with ⟨right, tokens, rfl, hright, hspells⟩
      rw [List.map_eq_nil_iff.mp hspells] at hline ⊢
      exact Extent.passes_brackets hline (congrArg Prod.fst hleft) (congrArg Prod.fst hright)

theorem isRow_mark (marked : Bool) : IsRow (markPieces marked) := by
  refine isRow_plain fun piece hpiece => ?_
  cases marked with
  | false => cases hpiece
  | true =>
      rw [List.mem_singleton.mp hpiece]
      rfl

theorem isRow_filters (filters : List DottedName) : IsRow (filterPieces filters) := by
  refine isRow_plain fun piece hpiece => ?_
  cases filters with
  | nil => cases hpiece
  | cons filter filters =>
      simp only [filterPieces, moreFilters, List.mem_cons, List.mem_flatMap, List.not_mem_nil,
        or_false] at hpiece
      rcases hpiece with rfl | rfl | rfl | ⟨other, -, rfl | rfl⟩
      all_goals rfl

/-- The block of the values closes on its own line. -/
theorem isRow_values (values : List EntryValue) : IsRow (valuePieces values) := by
  cases values with
  | nil => exact isRow_plain fun piece hpiece => by cases hpiece
  | cons value values =>
      intro line tokens hline hspells
      rcases List.map_eq_cons_iff.mp hspells with ⟨opening, tokens, rfl, hopen, hspells⟩
      rw [List.map_append] at hspells
      rcases List.map_eq_append_iff.mp hspells with ⟨inside, rest, rfl, hinside, hspells⟩
      rcases List.map_eq_cons_iff.mp hspells with ⟨close, rest, rfl, hclose, hspells⟩
      have hbraces : ∀ token ∈ inside, token.kind ≠ .lBrace ∧ token.kind ≠ .rBrace := by
        intro token hmem
        rcases exists_piece_of_spelling hinside token hmem with ⟨piece, hpiece, hkind⟩
        rw [hkind]
        exact kind_insidePieces hpiece
      rw [List.map_eq_nil_iff.mp hspells] at hline ⊢
      have hlast : close.position.line = line :=
        hline close (List.mem_cons_of_mem _ (List.mem_append_right _ List.mem_cons_self))
      -- The statement is inside of the block until the brace that ends it.
      have hpasses := Extent.passes_block (hline opening List.mem_cons_self)
        (congrArg Prod.fst hopen) (congrArg Prod.fst hclose)
        (checkBraces_of_ne (fun token hmem => (hbraces token hmem).1)
          fun token hmem => (hbraces token hmem).2)
      rwa [hlast] at hpasses

/-- The line of an entry is a statement of its own. -/
theorem isRow_pieces (indent : Nat) (entry : Entry) : IsRow (entry.pieces indent) := by
  have htype : IsRow [⟨indent, .ident, entry.type.text.toList⟩] :=
    isRow_plain fun piece hpiece => by
      rw [List.mem_singleton.mp hpiece]
      rfl
  have hname : IsRow [⟨1, entry.name.kind, entry.name.literal.toList⟩] :=
    isRow_plain fun piece hpiece => by
      rw [List.mem_singleton.mp hpiece]
      cases entry.name <;> rfl
  have hattributes : IsRow (attributePieces entry) :=
    (isRow_filters entry.filters).append (isRow_values entry.values)
  exact htype.append ((isRow_list _).append ((isRow_mark _).append
    (hname.append ((isRow_mark _).append hattributes))))

end Entry

end StackScript
