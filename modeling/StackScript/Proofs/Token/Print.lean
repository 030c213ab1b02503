import StackScript.Proofs.Text.Quoted
import StackScript.Proofs.Token.Tiling

/-!
# Words as They Are Written

Whoever writes a line puts words next to each other, some of them with blanks in
front, and hopes that they are read as the words that were meant. They are not
always: two names without a blank between them are one name, and two question
marks are an operator.

A word is written as a `Piece`. What matters for a piece is the first character
behind it, which must not be one that the word would go on with, so a row of
pieces is `Legible` in front of some rest if each is read as meant in front of
those behind it. The blanks belong in front of a word and not behind, since what
a word has to know is what follows.

A literal and a bracket end by themselves. A name ends in front of a blank and
in front of every sign but a dot, and a sign that begins an operator ends in
front of a blank and in front of a name.

## Main definitions

* `Piece`, `printed`: Words with blanks in front of them, and the line they make.
* `Reads`, `Legible`: What is written is read.
* `EndsWord`, `EndsName`: What has to follow a word.
* `Word`, `DottedName`: Names, without dots and with.

## Theorems

* `tokenizeAt_printed`: A legible row is read as the words that it is made of.
* `tokenizeAt_spelling`: The words of a text are the same wherever it begins.
* `reads_name`, `reads_sign`, `reads_quoteChars`, `reads_comment`: The kinds of words.
-/

namespace StackScript

/-- A word with a number of blanks in front of it. -/
structure Piece where
  /-- The number of blanks. -/
  gap : Nat
  /-- What kind of word it is meant to be. -/
  kind : TokenKind
  /-- The word as written. -/
  word : List Char

/-- The kind of a word and the word itself, wherever it stands. -/
abbrev Spelling := TokenKind × String

namespace Piece

/-- The piece as written. -/
def chars (piece : Piece) : List Char :=
  List.replicate piece.gap ' ' ++ piece.word

/-- The word without its place. -/
def spelling (piece : Piece) : Spelling :=
  (piece.kind, String.ofList piece.word)

end Piece

/-- The word without its place. -/
def Token.spelling (token : Token) : Spelling :=
  (token.kind, token.text)

/-- The pieces as written, one behind the other. -/
def printed (pieces : List Piece) : List Char :=
  pieces.flatMap Piece.chars

theorem printed_cons (piece : Piece) (pieces : List Piece) :
    printed (piece :: pieces) = piece.chars ++ printed pieces :=
  List.flatMap_cons

theorem printed_append (pieces others : List Piece) :
    printed (pieces ++ others) = printed pieces ++ printed others :=
  List.flatMap_append

/-- In front of `rest` the word is read as a word of the kind. -/
def Reads (kind : TokenKind) (word rest : List Char) : Prop :=
  ∃ c cs, word = c :: cs ∧ ¬ Lexeme.isSpace c ∧ lexeme c (cs ++ rest) = (kind, cs.length + 1)

/-- In front of `rest` all pieces are read as words of their kinds. -/
def Legible (rest : List Char) : List Piece → Prop
  | [] => True
  | piece :: pieces =>
      Reads piece.kind piece.word (printed pieces ++ rest) ∧ Legible rest pieces

/-- A row is legible if each part of it is, in front of what follows it. -/
theorem legible_append {rest : List Char} {pieces others : List Piece} :
    Legible rest (pieces ++ others) ↔
      Legible (printed others ++ rest) pieces ∧ Legible rest others := by
  induction pieces with
  | nil => exact ⟨fun h => ⟨trivial, h⟩, And.right⟩
  | cons piece pieces ih =>
      rw [List.cons_append, Legible, Legible, ih, printed_append, List.append_assoc, and_assoc]

/-! ## Reading a row of pieces -/

/-- Blanks are passed over. -/
theorem tokenizeAt_blanks (place : Place) (n : Nat) (cs : List Char) :
    tokenizeAt place (List.replicate n ' ' ++ cs) =
      tokenizeAt (place.after (List.replicate n ' ')) cs := by
  induction n generalizing place with
  | zero => rfl
  | succ n ih =>
      rw [List.replicate_succ, List.cons_append, tokenizeAt_space place rfl, ih,
        ← Place.after_append]
      rfl

-- A word that is read as meant is taken as it is written.
theorem Reads.wordTaken {kind : TokenKind} {c : Char} {cs rest : List Char}
    (h : lexeme c (cs ++ rest) = (kind, cs.length + 1)) :
    StackScript.wordTaken c (cs ++ rest) = c :: cs := by
  rw [StackScript.wordTaken, h, Nat.add_sub_cancel, List.take_left]

/-- A word that is read as meant is the first token, and what follows it is read
    on its own. -/
theorem tokenizeAt_reads {kind : TokenKind} {word rest : List Char} (h : Reads kind word rest)
    (place : Place) :
    tokenizeAt place (word ++ rest) =
      ⟨kind, String.ofList word, place.position, place.offset⟩ ::
        tokenizeAt (place.after word) rest := by
  rcases h with ⟨c, cs, rfl, hspace, hlexeme⟩
  rw [List.cons_append, tokenizeAt_word place hspace, wordAt, Reads.wordTaken hlexeme, hlexeme,
    Nat.add_sub_cancel, List.drop_left]

/-- The first piece of a legible row is read as its word, behind its blanks. -/
theorem tokenizeAt_cons {rest : List Char} {piece : Piece} {pieces : List Piece}
    (h : Legible rest (piece :: pieces)) (place : Place) :
    tokenizeAt place (printed (piece :: pieces) ++ rest) =
      ⟨piece.kind, String.ofList piece.word, (place.after (List.replicate piece.gap ' ')).position,
          (place.after (List.replicate piece.gap ' ')).offset⟩ ::
        tokenizeAt (place.after piece.chars) (printed pieces ++ rest) := by
  rw [printed_cons, Piece.chars, List.append_assoc, List.append_assoc, tokenizeAt_blanks,
    tokenizeAt_reads h.1, ← Place.after_append]

/-- A legible row is read as the words that it is made of. -/
theorem tokenizeAt_printed {pieces : List Piece} (h : Legible [] pieces) (place : Place) :
    (tokenizeAt place (printed pieces)).map Token.spelling = pieces.map Piece.spelling := by
  induction pieces generalizing place with
  | nil =>
      unfold printed
      rw [List.flatMap_nil, tokenizeAt]
      rfl
  | cons piece pieces ih =>
      have hcons := tokenizeAt_cons h place
      rw [List.append_nil, List.append_nil] at hcons
      rw [hcons, List.map_cons, ih h.2]
      rfl

/-- The words of a text are the same wherever it begins. -/
theorem tokenizeAt_spelling (place : Place) (cs : List Char) : ∀ place' : Place,
    (tokenizeAt place' cs).map Token.spelling = (tokenizeAt place cs).map Token.spelling := by
  fun_induction tokenizeAt place cs with
  | case1 place =>
      intro place'
      rw [tokenizeAt]
  | case2 place c rest hspace ih =>
      intro place'
      rw [tokenizeAt_space place' hspace, ih]
  | case3 place c rest hspace word taken ih =>
      intro place'
      rw [tokenizeAt_word place' hspace, List.map_cons, List.map_cons]
      exact congrArg (_ :: ·) (ih _)

/-- No word goes on behind the end of its line. -/
theorem Reads.newline_notMem {kind : TokenKind} {word rest : List Char} (h : Reads kind word rest) :
    '\n' ∉ word := by
  rcases h with ⟨c, cs, rfl, hspace, hlexeme⟩
  rw [← Reads.wordTaken hlexeme]
  exact newline_notMem_wordTaken hspace _

/-- A row is printed on one line. -/
theorem newline_notMem_printed {rest : List Char} {pieces : List Piece} (h : Legible rest pieces) :
    '\n' ∉ printed pieces := by
  induction pieces with
  | nil => exact List.not_mem_nil
  | cons piece pieces ih =>
      rw [printed_cons, Piece.chars, List.mem_append, List.mem_append]
      rintro ((hgap | hword) | hrest)
      · cases List.eq_of_mem_replicate hgap
      · exact h.1.newline_notMem hword
      · exact ih h.2 hrest

/-- All tokens of a line are on that line. -/
theorem line_of_mem_tokenizeAt (place : Place) {cs : List Char} (h : '\n' ∉ cs) :
    ∀ token ∈ tokenizeAt place cs, token.position.line = place.position.line := by
  intro token hmem
  rcases exists_word_of_mem hmem with ⟨before, c, behind, rfl, -, rfl⟩
  exact Position.line_after_of_notMem _ fun hbefore => h (List.mem_append_left _ hbefore)

/-! ## Names -/

/-- The rest is empty or begins with a space, which ends a word of any kind. -/
def EndsWord (rest : List Char) : Prop :=
  ∀ c ∈ rest.head?, Lexeme.isSpace c

/-- The rest is empty or begins with a character that is no part of a name. -/
def EndsName (rest : List Char) : Prop :=
  ∀ c ∈ rest.head?, Lexeme.isNameChar c = false ∧ c ≠ '.'

/-- Where a word ends a name ends. -/
theorem EndsWord.endsName {rest : List Char} (h : EndsWord rest) : EndsName rest := by
  intro c hc
  have hspace := h c hc
  simp only [Lexeme.isSpace, Bool.or_eq_true, decide_eq_true_eq] at hspace
  rcases hspace with (((rfl | rfl) | rfl) | rfl) | rfl
  all_goals exact ⟨rfl, by decide⟩

/-- A blank in front of the next word ends the word before. -/
theorem endsWord_gap {piece : Piece} (h : 0 < piece.gap) (pieces : List Piece) (rest : List Char) :
    EndsWord (printed (piece :: pieces) ++ rest) := by
  rcases Nat.exists_eq_succ_of_ne_zero (Nat.ne_of_gt h) with ⟨gap, hgap⟩
  rw [printed_cons, Piece.chars, hgap, List.replicate_succ]
  intro c hc
  cases hc
  rfl

/-- A name without dots. -/
structure Word where
  /-- The name as written. -/
  text : String
  /-- It begins with a letter or an underscore. -/
  start_ok : text.toList.head?.any Lexeme.isNameStart
  /-- It goes on with letters, digits and underscores. -/
  chars_ok : text.toList.all Lexeme.isNameChar

/-- A name of one or several words with dots between them. -/
structure DottedName where
  /-- The first word. -/
  first : Word
  /-- The other words. -/
  others : List Word

/-- The words behind the first, each with its dot. -/
def dotted (words : List Word) : List Char :=
  words.flatMap fun word => '.' :: word.text.toList

/-- The name as written. -/
def DottedName.text (name : DottedName) : String :=
  ".".intercalate ((name.first :: name.others).map Word.text)

/-- Between separators, the members of a list are the first and the others behind a
    separator each. -/
theorem intercalate_cons {α : Type} (separator first : List α) (others : List (List α)) :
    List.intercalate separator (first :: others) =
      first ++ others.flatMap fun other => separator ++ other := by
  induction others generalizing first with
  | nil => rw [List.intercalate_singleton, List.flatMap_nil, List.append_nil]
  | cons other others ih =>
      rw [List.intercalate_cons_cons, ih, List.flatMap_cons, List.append_assoc, List.append_assoc]

/-- A dot stands in front of each word but the first. -/
theorem DottedName.toList_text (name : DottedName) :
    name.text.toList = name.first.text.toList ++ dotted name.others := by
  rw [text, String.toList_intercalate, List.map_map, List.map_cons, intercalate_cons,
    List.flatMap_map]
  rfl

/-- A word has a first character. -/
theorem Word.exists_cons (word : Word) :
    ∃ c cs, word.text.toList = c :: cs ∧ Lexeme.isNameStart c ∧ cs.all Lexeme.isNameChar := by
  have hstart := word.start_ok
  have hchars := word.chars_ok
  cases htext : word.text.toList with
  | nil =>
      rw [htext] at hstart
      cases hstart
  | cons c cs =>
      rw [htext] at hstart hchars
      rw [List.all_cons, Bool.and_eq_true_iff] at hchars
      exact ⟨c, cs, rfl, hstart, hchars.2⟩

theorem Word.dot_notMem (word : Word) : '.' ∉ word.text.toList := fun h =>
  absurd (List.all_eq_true.mp word.chars_ok '.' h) (by decide)

/-- The reading of a name has come to the inside of a word. -/
def InWord (state : Lexeme.NameState) : Prop :=
  state = .opened ∨ state = .segment

/-- In a word the name goes on with the characters of the word. -/
theorem goes_word {state : Lexeme.NameState} (h : InWord state) {cs : List Char}
    (hchars : cs.all Lexeme.isNameChar) : ∃ next, InWord next ∧ Lexeme.Goes state cs next := by
  cases cs with
  | nil => exact ⟨state, h, Lexeme.goes_nil state⟩
  | cons c cs =>
      rw [List.all_cons, Bool.and_eq_true_iff, List.all_eq_true] at hchars
      have hstep : state.step c = some .segment := by
        rcases h with rfl | rfl <;> exact if_pos hchars.1
      exact ⟨.segment, Or.inr rfl, (Lexeme.goes_chars hchars.2).cons hstep⟩

/-- Behind a dot it goes on with the next word. -/
theorem goes_dot {state : Lexeme.NameState} (h : InWord state) (word : Word) :
    ∃ next, InWord next ∧ Lexeme.Goes state ('.' :: word.text.toList) next := by
  rcases word.exists_cons with ⟨c, cs, htext, hstart, hchars⟩
  rcases goes_word (Or.inr rfl) hchars with ⟨next, hnext, hgoes⟩
  have hsteps : ∃ between : Lexeme.NameState,
      state.step '.' = some between ∧ between.step c = some .segment := by
    rcases h with rfl | rfl
    · exact ⟨.lastDot, rfl, if_pos hstart⟩
    · exact ⟨.dot, rfl, if_pos hstart⟩
  rcases hsteps with ⟨between, hdot, hfirst⟩
  rw [htext]
  exact ⟨next, hnext, (hgoes.cons hfirst).cons hdot⟩

/-- A dot and a word lead from one state inside of a word to another. -/
theorem goes_dotted {state : Lexeme.NameState} (h : InWord state) (words : List Word) :
    ∃ next, InWord next ∧ Lexeme.Goes state (dotted words) next := by
  induction words generalizing state with
  | nil => exact ⟨state, h, Lexeme.goes_nil state⟩
  | cons word words ih =>
      rcases goes_dot h word with ⟨between, hbetween, hword⟩
      rcases ih hbetween with ⟨next, hnext, hmore⟩
      exact ⟨next, hnext, hword.append hmore⟩

/-- What is no part of a name ends it. -/
theorem nameTailLength_of_endsName {state : Lexeme.NameState} (h : InWord state)
    {rest : List Char} (hrest : EndsName rest) : Lexeme.nameTailLength state rest = 0 := by
  cases rest with
  | nil => rfl
  | cons d ds =>
      rcases hrest d rfl with ⟨hchar, hdot⟩
      have hstep : state.step d = none := by
        rcases h with rfl | rfl <;> simp [Lexeme.NameState.step, hchar, hdot]
      rw [Lexeme.nameTailLength, hstep]

/-- A name is read as a name in front of whatever is no part of one. -/
theorem reads_name (name : DottedName) {rest : List Char} (h : EndsName rest) :
    Reads .ident name.text.toList rest := by
  rcases name.first.exists_cons with ⟨c, cs, htext, hstart, hchars⟩
  rcases goes_word (Or.inl rfl) hchars with ⟨between, hbetween, hfirst⟩
  rcases goes_dotted hbetween name.others with ⟨next, hnext, hothers⟩
  refine ⟨c, cs ++ dotted name.others, ?_, ?_, ?_⟩
  · rw [DottedName.toList_text, htext, List.cons_append]
  · intro hspace
    simp only [Lexeme.isSpace, Bool.or_eq_true, decide_eq_true_eq] at hspace
    rcases hspace with (((rfl | rfl) | rfl) | rfl) | rfl
    all_goals cases hstart
  · rw [lexeme_nameStart hstart, Lexeme.nameLength, hfirst.append hothers,
      nameTailLength_of_endsName hnext h]

theorem reads_word (word : Word) {rest : List Char} (h : EndsName rest) :
    Reads .ident word.text.toList rest := by
  have hname := reads_name ⟨word, []⟩ h
  rwa [DottedName.toList_text, dotted, List.flatMap_nil, List.append_nil] at hname

/-! ## Other words -/

/-- A sign is read as a sign where no operator begins. -/
theorem reads_sign {kind : TokenKind} {c : Char} (h : Lexeme.punctuation c = some kind)
    {rest : List Char} (hlong : Lexeme.startsLongOperator c rest = false) :
    Reads kind [c] rest := by
  refine ⟨c, [], rfl, ?_, ?_⟩
  · unfold Lexeme.punctuation at h
    split at h
    all_goals first | exact Bool.false_ne_true | cases h
  · have hkind : Lexeme.signKind c = kind := by rw [Lexeme.signKind, h, Option.getD_some]
    -- No mark of punctuation begins another kind of word.
    have hother : c ≠ '/' ∧ ¬ Lexeme.isNameStart c ∧ ¬ c.isDigit ∧ c ≠ '$' ∧ c ≠ '"' ∧
        c ≠ '\'' := by
      unfold Lexeme.punctuation at h
      split at h
      all_goals first | decide | cases h
    rcases hother with ⟨hslash, hstart, hdigit, hdollar, hdouble, hsingle⟩
    rw [lexeme, List.nil_append, if_neg (by simp [hslash]), if_neg hstart, if_neg hdigit,
      if_neg (by simp [hdollar]), if_neg (by simp [hdouble, hsingle]),
      if_neg (by rw [hlong]; exact Bool.false_ne_true), hkind]
    rfl

/-- Only these can be the second character of an operator. -/
theorem startsLongOperator_of_head (c : Char) {rest : List Char}
    (h : ∀ d ∈ rest.head?, d ∉ ['=', '&', '|', '?', '>']) :
    Lexeme.startsLongOperator c rest = false := by
  cases rest with
  | nil => rfl
  | cons d ds =>
      have hd := h d rfl
      simp only [List.mem_cons, List.not_mem_nil, or_false, not_or] at hd
      simp [Lexeme.startsLongOperator, Lexeme.longOperators, hd]

/-- Only these can be the first. -/
theorem startsLongOperator_of_notMem {c : Char}
    (h : c ∉ ['=', '!', '<', '>', '&', '|', '?', '-', '+', '*', '/']) (rest : List Char) :
    Lexeme.startsLongOperator c rest = false := by
  simp only [List.mem_cons, List.not_mem_nil, or_false, not_or] at h
  cases rest with
  | nil => rfl
  | cons d ds => simp [Lexeme.startsLongOperator, Lexeme.longOperators, h]

/-- A sign in front of a blank is no operator. -/
theorem reads_sign_of_endsWord {kind : TokenKind} {c : Char}
    (hc : Lexeme.punctuation c = some kind) {rest : List Char} (h : EndsWord rest) :
    Reads kind [c] rest := by
  refine reads_sign hc (startsLongOperator_of_head c fun d hd => ?_)
  have hspace := h d hd
  simp only [Lexeme.isSpace, Bool.or_eq_true, decide_eq_true_eq] at hspace
  rcases hspace with (((rfl | rfl) | rfl) | rfl) | rfl
  all_goals decide

theorem reads_sign_of_name {kind : TokenKind} {c : Char} (hc : Lexeme.punctuation c = some kind)
    (name : DottedName) (rest : List Char) : Reads kind [c] (name.text.toList ++ rest) := by
  rcases name.first.exists_cons with ⟨d, ds, htext, hstart, -⟩
  refine reads_sign hc (startsLongOperator_of_head c fun e he => ?_)
  rw [DottedName.toList_text, htext] at he
  cases he
  simp only [List.mem_cons, List.not_mem_nil, or_false, not_or]
  refine ⟨?_, ?_, ?_, ?_, ?_⟩
  all_goals
    rintro rfl
    cases hstart

theorem reads_sign_of_notMem {kind : TokenKind} {c : Char} (hc : Lexeme.punctuation c = some kind)
    (h : c ∉ ['=', '!', '<', '>', '&', '|', '?', '-', '+', '*', '/']) (rest : List Char) :
    Reads kind [c] rest :=
  reads_sign hc (startsLongOperator_of_notMem h rest)

/-- A text in quotes is read as such in front of anything. -/
theorem reads_quoteChars {quote : Char} (hquote : Text.IsQuote quote) (cs rest : List Char) :
    Reads .string (Text.quoteChars quote cs) rest := by
  have hspace : ¬ Lexeme.isSpace quote := by
    rcases hquote with rfl | rfl <;> decide
  have hlength := Text.quotedLength_escape hquote cs rest
  refine ⟨quote, Text.escape quote cs ++ [quote], rfl, hspace, ?_⟩
  rw [lexeme_quote hquote, List.append_assoc, List.singleton_append, hlength, List.length_append]
  rfl

theorem reads_quoted (cs rest : List Char) : Reads .string (Text.quoteChars '"' cs) rest :=
  reads_quoteChars (Or.inl rfl) cs rest

/-- A comment is read as such at the end of its line. -/
theorem reads_comment {cs : List Char} (h : '\n' ∉ cs) : Reads .comment ('/' :: '/' :: cs) [] := by
  refine ⟨'/', '/' :: cs, rfl, Bool.false_ne_true, ?_⟩
  have hline : ∀ c ∈ '/' :: cs, decide (c ≠ '\n') = true := by
    intro c hc
    rw [decide_eq_true_eq]
    rintro rfl
    rcases List.mem_cons.mp hc with hc | hc
    · cases hc
    · exact h hc
  have hall := @List.takeWhile_append_of_pos _ _ _ [] hline
  rw [List.append_nil, List.takeWhile_nil, List.append_nil] at hall
  rw [lexeme, List.append_nil, if_pos (by simp), Lexeme.countWhile, hall]

end StackScript
