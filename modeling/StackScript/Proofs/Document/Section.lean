import StackScript.Proofs.Document.Fragment
import StackScript.Proofs.Script.Row
import StackScript.Proofs.Token.Print
import StackScript.Proofs.Token.Space

/-!
# Sections on One Line

The sections of an object are looked for among its statements, and a statement
is not over with the closing brace of its block: what follows on the line of the
brace belongs to it, as in `} as $result`. So a section that begins on the line
on which another one ends is no statement of its own, and it is not found. It is
found if it stands on a line of its own, whatever the layout of the sections
around it is, or if it is the first of its object.

A script does not get to know of a section that is not found: its braces have
partners, and no diagnostic is about it.

## Main definitions

* `SectionText`: A section with a block, as it is written.
* `functionOf`: A function with such sections.
* `onOwnLines`: The first section, and the others that begin a line.
* `AreLaid`: The tokens of sections, one behind the other.

## Theorems

* `tokenizeAt_sections`: The tokens of sections as they are written.
* `sections_of_areLaid`: The sections that are found among their statements.
* `blocks_functionOf`: The sections that are found in a function.
* `blocks_oneLine`: A section that is not found.
-/

namespace StackScript

/-! ## Sections as they are written -/

/-- A section with a block, as it is written. -/
structure SectionText where
  /-- A line feed stands in front of it, and not a space. -/
  ownLine : Bool
  /-- The name. -/
  name : Word
  /-- The text inside the braces. -/
  body : String
  /-- The body has no comments and no errors. -/
  words_ok : ∀ token ∈ tokenize body, token.kind ≠ .comment ∧ token.kind ≠ .error
  /-- The braces of the body are in order. -/
  braces_ok : checkBraces (tokenize body) = []

/-- The section with what stands in front of it. -/
def SectionText.text (laid : SectionText) : String :=
  (if laid.ownLine then "\n" else " ") ++ laid.name.text ++ " \x7b " ++ laid.body ++ " \x7d"

/-- A function with the sections in its body. -/
def functionOf (sections : List SectionText) : String :=
  "function f \x7b" ++ String.join (sections.map SectionText.text) ++ " \x7d"

/-- The first section, and the others that begin a line. -/
def onOwnLines : List SectionText → List SectionText
  | [] => []
  | first :: others => first :: others.filter SectionText.ownLine

/-! ## Their tokens -/

/-- The tokens are those of the section, which stands behind tokens that end on
    the line. -/
structure SectionText.IsReadAs (laid : SectionText) (line : Nat) (name opening : Token)
    (inside : List Token) (close : Token) : Prop where
  kind_name : name.kind = .ident
  text_name : name.text = laid.name.text
  line_name : name.position.line = if laid.ownLine then line + 1 else line
  kind_opening : opening.kind = .lBrace
  line_opening : opening.position.line = name.position.line
  braces : checkBraces inside = []
  kind_close : close.kind = .rBrace

/-- The tokens are those of the sections, the first of which stands behind tokens
    that end on the line. -/
def AreLaid (line : Nat) : List SectionText → List Token → Prop
  | [], tokens => tokens = []
  | laid :: sections, tokens =>
      ∃ name opening inside close rest,
        tokens = name :: opening :: (inside ++ close :: rest) ∧
          laid.IsReadAs line name opening inside close ∧
            AreLaid close.position.line sections rest

namespace SectionText

variable (laid : SectionText)

/-- The characters of the section with what stands in front of it. -/
def chars : List Char :=
  (if laid.ownLine then '\n' else ' ') ::
    (laid.name.text.toList ++ ' ' :: '\x7b' :: ' ' :: (laid.body.toList ++ [' ', '\x7d']))

/-- The text of a section, as characters. -/
theorem toList_text : laid.text.toList = laid.chars := by
  unfold text chars
  simp only [String.toList_append, List.append_assoc]
  cases laid.ownLine <;> rfl

/-- The body is read in its place as it is read on its own. -/
theorem tokenizeAt_body (place : Place) (rest : List Char) :
    tokenizeAt place (laid.body.toList ++ ' ' :: rest) =
      tokenizeAt place laid.body.toList ++
        tokenizeAt (place.after (laid.body.toList ++ [' '])) rest := by
  refine tokenizeAt_append_space rfl (fun token hmem => ?_) rest
  have hspelling := tokenizeAt_spelling Place.start laid.body.toList place
  have hmem' := List.mem_map_of_mem (f := Token.spelling) hmem
  rw [hspelling] at hmem'
  rcases List.mem_map.mp hmem' with ⟨other, hother, heq⟩
  have hkind : other.kind = token.kind := congrArg Prod.fst heq
  rw [← hkind]
  exact laid.words_ok other hother

/-- A place in another text does not change the kinds of tokens. -/
theorem braces_tokenizeAt_body (place : Place) :
    checkBraces (tokenizeAt place laid.body.toList) = [] := by
  have hspelling := congrArg (List.map Prod.fst)
    (tokenizeAt_spelling Place.start laid.body.toList place)
  rw [List.map_map, List.map_map] at hspelling
  exact (checkBraces_of_kinds hspelling).trans laid.braces_ok

/-- A section is read as its name, its braces, and the words of its body. -/
theorem tokenizeAt_chars (place : Place) (rest : List Char) :
    ∃ name opening inside close place',
      tokenizeAt place (laid.chars ++ rest) =
          name :: opening :: (inside ++ close :: tokenizeAt place' rest) ∧
        laid.IsReadAs place.position.line name opening inside close ∧
          place'.position.line = close.position.line := by
  let behindName := ' ' :: '\x7b' :: ' ' :: (laid.body.toList ++ ' ' :: '\x7d' :: rest)
  let atName := place.after [if laid.ownLine then '\n' else ' ']
  let atOpening := (atName.after laid.name.text.toList).after [' ']
  let atBody := (atOpening.after ['\x7b']).after [' ']
  let atClose := atBody.after (laid.body.toList ++ [' '])
  -- The name ends at the space behind it.
  have hends : EndsName behindName := by
    rintro c ⟨⟩
    exact ⟨rfl, by decide⟩
  have hname := reads_word laid.name hends
  have hopening : Reads .lBrace ['\x7b'] (' ' :: (laid.body.toList ++ ' ' :: '\x7d' :: rest)) :=
    reads_sign_of_notMem rfl (by decide) _
  have hclose : Reads .rBrace ['\x7d'] rest := reads_sign_of_notMem rfl (by decide) _
  have hgap : Lexeme.isSpace (if laid.ownLine then '\n' else ' ') := by
    cases laid.ownLine <;> rfl
  have hchars : laid.chars ++ rest =
      (if laid.ownLine then '\n' else ' ') :: (laid.name.text.toList ++ behindName) := by
    simp only [chars, behindName, List.cons_append, List.append_assoc, List.nil_append]
  -- Word by word: the name, the brace, what is inside, and the brace that closes it.
  have htokens : tokenizeAt place (laid.chars ++ rest) =
      ⟨.ident, laid.name.text, atName.position, atName.offset⟩ ::
        ⟨.lBrace, "\x7b", atOpening.position, atOpening.offset⟩ ::
          (tokenizeAt atBody laid.body.toList ++
            ⟨.rBrace, "\x7d", atClose.position, atClose.offset⟩ ::
              tokenizeAt (atClose.after ['\x7d']) rest) := by
    have hopened := tokenizeAt_reads hopening atOpening
    have hclosed := tokenizeAt_reads hclose atClose
    rw [List.singleton_append] at hopened hclosed
    rw [hchars, tokenizeAt_space place hgap, tokenizeAt_reads hname, String.ofList_toList,
      tokenizeAt_space _ rfl, hopened, tokenizeAt_space _ rfl, tokenizeAt_body, hclosed]
  refine ⟨_, _, _, _, _, htokens, ⟨rfl, rfl, ?_, rfl, ?_, laid.braces_tokenizeAt_body _, rfl⟩, ?_⟩
  · -- A line feed in front of the name moves it down, a space does not.
    change (place.position.after _).line = _
    rw [Position.after_line]
    cases laid.ownLine <;> rfl
  · change ((atName.position.after _).after _).line = atName.position.line
    rw [Position.line_after_of_notMem _ (by decide),
      Position.line_after_of_notMem _ hname.newline_notMem]
  · exact Position.line_after_of_notMem _ (by decide)

end SectionText

/-- The tokens of sections in a row are those of one section behind those of the other, on
    the lines where they begin. -/
theorem tokenizeAt_sections (sections : List SectionText) (place : Place) (rest : List Char) :
    ∃ tokens place', tokenizeAt place (sections.flatMap SectionText.chars ++ rest) =
        tokens ++ tokenizeAt place' rest ∧ AreLaid place.position.line sections tokens := by
  induction sections generalizing place with
  | nil => exact ⟨[], place, rfl, rfl⟩
  | cons laid sections ih =>
      rcases laid.tokenizeAt_chars place (sections.flatMap SectionText.chars ++ rest) with
        ⟨name, opening, inside, close, between, htokens, hread, hline⟩
      -- The next section begins where the brace of this one stands.
      rcases ih between with ⟨tokens, place', hmore, hlaid⟩
      rw [hline] at hlaid
      refine ⟨name :: opening :: (inside ++ close :: tokens), place', ?_, _, _, _, _, _, rfl,
        hread, hlaid⟩
      rw [List.flatMap_cons, List.append_assoc, htokens, hmore]
      simp only [List.cons_append, List.append_assoc]

/-! ## Their statements -/

/-- What is to be known of a section: its name, whether it has a block, and whether
    the block is closed. -/
def Section.summary (heading : Section) : String × Bool × Bool :=
  (heading.name, heading.hasBlock, heading.terminated)

/-- The sections among statements. -/
def sectionsAmong (among : List Statement) : List (String × Bool × Bool) :=
  among.filterMap fun statement => statement.part?.map fun part => part.heading.summary

/-- A statement that begins with a name and a block is a section, and it does not
    matter what the statement takes behind the block. -/
theorem part?_block {name opening close : Occurrence} {inside : List Occurrence}
    (hname : name.token.kind = .ident) (hopening : opening.token.kind = .lBrace)
    (hinside : checkBraces (inside.map Occurrence.token) = []) (hclose : close.token.kind = .rBrace)
    (behind : List Occurrence) :
    (Statement.mk [] name (opening :: (inside ++ close :: behind))).part?.map
        (fun part => part.heading.summary) = some (name.token.text, true, true) := by
  have hsignificant : (!opening.isSignificant) = false := by
    rw [Occurrence.isSignificant, Token.isSignificant, hopening]
    rfl
  have hlabel : opening.token.kind ≠ .string := by
    rw [hopening]
    exact TokenKind.noConfusion
  unfold Statement.part?
  dsimp only
  rw [if_pos hname, List.dropWhile_cons_of_neg (by rw [hsignificant]; exact Bool.false_ne_true)]
  dsimp only
  -- Behind the name stands no label but the brace, and its partner is the last token of the
  -- block.
  rw [if_neg hlabel, partOf, hopening, untilClose_balanced hinside hclose]
  rfl

-- A statement that is a section is the first of the sections.
theorem sectionsAmong_cons {statement : Statement} {summary : String × Bool × Bool}
    (h : statement.part?.map (fun part => part.heading.summary) = some summary)
    (among : List Statement) :
    sectionsAmong (statement :: among) = summary :: sectionsAmong among :=
  List.filterMap_cons_some h

namespace SectionText.IsReadAs

variable {laid : SectionText} {line : Nat} {name opening : Token} {inside : List Token}
  {close : Token}

/-- The tokens behind the name are passed by a statement, and the statement that begins with
    the name is the section. -/
theorem exists_block (h : laid.IsReadAs line name opening inside close) (before : List Token) :
    ∃ (block : List Occurrence) (behind : List Token),
      (∀ rest, occurrencesAfter before (name :: opening :: (inside ++ close :: rest)) =
        ⟨before, name⟩ :: (block ++ occurrencesAfter behind rest)) ∧
      (Extent.level name.position.line).Passes (block.map Occurrence.token)
        (.level close.position.line) ∧
      ∀ taken, (Statement.mk [] ⟨before, name⟩ (block ++ taken)).part?.map
        (fun part => part.heading.summary) = some (laid.name.text, true, true) := by
  let behindOpening := opening :: name :: before
  let closing : Occurrence := ⟨inside.reverse ++ behindOpening, close⟩
  refine ⟨⟨name :: before, opening⟩ :: (occurrencesAfter behindOpening inside ++ [closing]),
    close :: closing.before, fun rest => ?_, ?_, fun taken => ?_⟩
  · rw [occurrencesAfter, occurrencesAfter, occurrencesAfter_append, List.cons_append,
      List.append_assoc]
    rfl
  · rw [List.map_cons, List.map_append, occurrencesAfter_map_token]
    exact Extent.passes_block h.line_opening h.kind_opening h.kind_close h.braces
  · -- Whatever the statement takes in behind its block makes no difference to the section.
    have hinside : checkBraces ((occurrencesAfter behindOpening inside).map
        Occurrence.token) = [] := by
      rw [occurrencesAfter_map_token, h.braces]
    rw [List.cons_append, List.append_assoc, ← h.text_name]
    exact @part?_block ⟨before, name⟩ ⟨name :: before, opening⟩ closing _ h.kind_name
      h.kind_opening hinside h.kind_close taken

theorem name_plain (h : laid.IsReadAs line name opening inside close) : name.kind.isPlain := by
  rw [h.kind_name]
  rfl

theorem name_ne (h : laid.IsReadAs line name opening inside close) :
    name.kind ≠ .rBrace ∧ name.kind ≠ .semicolon := by
  rw [h.kind_name]
  exact ⟨TokenKind.noConfusion, TokenKind.noConfusion⟩

variable {before : List Token} {block : List Occurrence}

/-- A statement that begins at the name takes the block, and then goes on as before. -/
theorem sections_fromName (h : laid.IsReadAs line name opening inside close)
    (hpasses : (Extent.level name.position.line).Passes (block.map Occurrence.token)
      (.level close.position.line))
    (hpart : ∀ taken, (Statement.mk [] ⟨before, name⟩ (block ++ taken)).part?.map
      (fun part => part.heading.summary) = some (laid.name.text, true, true))
    (more : List Occurrence) :
    sectionsAmong (statementsAfter [] (⟨before, name⟩ :: (block ++ more))) =
      (laid.name.text, true, true) :: sectionsAmong (statementsAfter []
        (restOfStatement (.level close.position.line) more).2) := by
  have hcomment : (!Occurrence.isSignificant ⟨before, name⟩) = false := by
    rw [Occurrence.isSignificant, Token.isSignificant, h.kind_name]
    rfl
  have hextent : Extent.ofFirst name = .level name.position.line :=
    Extent.level_take rfl h.name_plain
  rw [statementsAfter, hcomment, if_neg Bool.false_ne_true, if_neg h.name_ne.2]
  dsimp only
  rw [hextent, restOfStatement_passes hpasses]
  exact sectionsAmong_cons (hpart _) _

/-- A statement that has come to the line of the name takes the section in. -/
theorem passes_section (h : laid.IsReadAs line name opening inside close)
    (hline : name.position.line = line)
    (hpasses : (Extent.level name.position.line).Passes (block.map Occurrence.token)
      (.level close.position.line)) :
    (Extent.level line).Passes ((⟨before, name⟩ :: block).map Occurrence.token)
      (.level close.position.line) := by
  refine ⟨Extent.level_endsBefore hline h.name_ne.1, Extent.endsWith_of_ne _ h.name_ne.2, ?_⟩
  rw [Extent.level_take hline h.name_plain]
  exact hline ▸ hpasses

end SectionText.IsReadAs

/-- Among sections that are written one behind the other those on lines of their
    own are found. A statement that has come to them takes the others in. -/
theorem sections_of_areLaid {line : Nat} {sections : List SectionText} {tokens : List Token}
    (h : AreLaid line sections tokens) (before : List Token) :
    sectionsAmong (statementsAfter [] (occurrencesAfter before tokens)) =
        (onOwnLines sections).map (fun laid => (laid.name.text, true, true)) ∧
      sectionsAmong (statementsAfter []
          (restOfStatement (.level line) (occurrencesAfter before tokens)).2) =
        (sections.filter SectionText.ownLine).map fun laid => (laid.name.text, true, true) := by
  induction sections generalizing line tokens before with
  | nil =>
      rw [h]
      have hnone : statementsAfter [] [] = [] := by rw [statementsAfter]
      exact ⟨congrArg sectionsAmong hnone, congrArg sectionsAmong hnone⟩
  | cons laid sections ih =>
      rcases h with ⟨name, opening, inside, close, rest, rfl, hread, hrest⟩
      rcases hread.exists_block before with ⟨block, behind, hplaces, hpasses, hpart⟩
      -- The induction has two parts: what is found from a new statement on, and what is
      -- found behind a statement that is not over.
      rcases ih hrest behind with ⟨-, hmore⟩
      rw [hplaces rest]
      generalize occurrencesAfter behind rest = more at hmore
      have hfirst : sectionsAmong (statementsAfter [] (⟨before, name⟩ :: (block ++ more))) =
          (laid.name.text, true, true) ::
            (sections.filter SectionText.ownLine).map fun laid => (laid.name.text, true, true) :=
        (hread.sections_fromName hpasses hpart more).trans (congrArg (_ :: ·) hmore)
      refine ⟨hfirst, ?_⟩
      have hline := hread.line_name
      cases hown : laid.ownLine with
      | true =>
          -- The statement is over with its line.
          rw [hown, if_pos rfl] at hline
          have hends : (Extent.level line).endsBefore name := by
            rw [Extent.endsBefore, Bool.or_eq_true_iff]
            exact Or.inl (decide_eq_true (hline ▸ Nat.lt_succ_self line))
          rw [restOfStatement, if_pos hends, hfirst, List.filter_cons_of_pos hown, List.map_cons]
      | false =>
          rw [hown, if_neg Bool.false_ne_true] at hline
          rw [← List.cons_append, restOfStatement_passes (hread.passes_section hline hpasses),
            List.filter_cons_of_neg (by rw [hown]; exact Bool.false_ne_true)]
          exact hmore

/-- The braces of sections are in order. -/
theorem AreLaid.checkBraces {line : Nat} {sections : List SectionText} {tokens : List Token}
    (h : AreLaid line sections tokens) : StackScript.checkBraces tokens = [] := by
  induction sections generalizing line tokens with
  | nil =>
      rw [h]
      exact checkBraces_of_passAll rfl
  | cons laid sections ih =>
      rcases h with ⟨name, opening, inside, close, rest, rfl, hread, hrest⟩
      -- The block of every section closes, and a name has no braces.
      have hblock := (Extent.passes_block hread.line_opening hread.kind_opening hread.kind_close
        hread.braces).checkBraces
      have hname : StackScript.checkBraces [name] = [] := by
        refine checkBraces_of_ne (fun token hmem => ?_) fun token hmem => ?_
        all_goals
          rw [List.mem_singleton.mp hmem, hread.kind_name]
          exact TokenKind.noConfusion
      have hall := checkBraces_append hname (checkBraces_append hblock (ih hrest))
      rwa [List.singleton_append, List.cons_append, List.append_assoc] at hall

/-! ## Documents -/

/-- The tokens of a function with sections in its body. -/
theorem tokenize_functionOf (sections : List SectionText) :
    ∃ tokens close, AreLaid 1 sections tokens ∧ close.kind = .rBrace ∧
      tokenize (functionOf sections) = headerTokens ++ (tokens ++ [close]) := by
  have hchars : (functionOf sections).toList = "function f".toList ++
      ' ' :: '\x7b' :: (sections.flatMap SectionText.chars ++ [' ', '\x7d']) := by
    have hsections : (String.join (sections.map SectionText.text)).toList =
        sections.flatMap SectionText.chars := by
      rw [String.toList_join, List.flatMap_map]
      simp only [SectionText.toList_text]
    rw [functionOf, String.toList_append, String.toList_append, hsections, List.append_assoc]
    rfl
  let place := Place.start.after ("function f".toList ++ [' '] ++ ['\x7b'])
  rcases tokenizeAt_sections sections place [' ', '\x7d'] with ⟨tokens, place', htokens, hlaid⟩
  -- The header is read up to its brace, and a space parts the two.
  have hfront : tokenizeAt Place.start "function f".toList = headerTokens.take 2 := by
    decide +kernel
  have hkinds : ∀ token ∈ tokenizeAt Place.start "function f".toList,
      token.kind ≠ .comment ∧ token.kind ≠ .error := by
    rw [hfront]
    decide
  have hopening := tokenizeAt_reads (reads_sign_of_notMem (c := '\x7b') rfl (by decide)
    (sections.flatMap SectionText.chars ++ [' ', '\x7d']))
    (Place.start.after ("function f".toList ++ [' ']))
  let close : Token :=
    ⟨.rBrace, "\x7d", (place'.after [' ']).position, (place'.after [' ']).offset⟩
  have hclose : tokenizeAt place' [' ', '\x7d'] = [close] := by
    rw [tokenizeAt_space _ rfl, tokenizeAt_word _ (by decide), List.drop_nil, tokenizeAt]
    rfl
  rw [hclose] at htokens
  rw [← Place.after_append, htokens] at hopening
  refine ⟨tokens, close, hlaid, rfl, ?_⟩
  rw [tokenize, hchars, tokenizeAt_append_space rfl hkinds, hfront]
  exact congrArg (headerTokens.take 2 ++ ·) hopening

/-- In a function the first section is found and those that begin a line, in their
    order, each with a block that is closed. -/
theorem blocks_functionOf (asked : Option String) (sections : List SectionText) :
    (parseWith asked (functionOf sections)).blocks.map Section.summary =
      (onOwnLines sections).map fun laid => (laid.name.text, true, true) := by
  rcases tokenize_functionOf sections with ⟨tokens, close, hlaid, hclose, htokens⟩
  have hparts : partsOfText (functionOf sections) =
      partsOf (occurrencesAfter headerTokens.reverse tokens) := by
    rw [partsOfText, htokens]
    exact parts_function hlaid.checkBraces hclose
  have hsections := (sections_of_areLaid hlaid headerTokens.reverse).1
  change ((partsOfText (functionOf sections)).map Part.heading).map Section.summary = _
  rw [hparts, ← hsections, partsOf, List.map_map, List.map_filterMap]
  rfl

/-- Two sections on one line. -/
def SectionText.oneLine : List SectionText :=
  [{  ownLine := false
      name := ⟨"input", by decide, by decide⟩
      body := "int a"
      words_ok := by decide +kernel
      braces_ok := by rw [checkBraces_eq]; decide +kernel },
    { ownLine := false
      name := ⟨"stack", by decide, by decide⟩
      body := "var $x \x7b value = 1 \x7d"
      words_ok := by decide +kernel
      braces_ok := by rw [checkBraces_eq]; decide +kernel }]

/-- The second section is not found, its variable is not known, and nothing is said to be
    wrong. -/
theorem blocks_oneLine :
    functionOf SectionText.oneLine =
        "function f \x7b input \x7b int a \x7d stack \x7b var $x \x7b value = 1 \x7d \x7d \x7d" ∧
      (parseWith none (functionOf SectionText.oneLine)).blocks.map Section.name = ["input"] ∧
      (parseWith none (functionOf SectionText.oneLine)).symbols.vars.names = [] ∧
      (parseWith none (functionOf SectionText.oneLine)).diagnostics = [] := by
  refine ⟨by decide +kernel, by decide +kernel, by decide +kernel, ?_⟩
  rw [diagnostics_parseWith, braceProblems, checkBraces_eq]
  decide +kernel

end StackScript
