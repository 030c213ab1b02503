import StackScript.Proofs.Document.Fragment
import StackScript.Proofs.Symbols.RoundTrip

/-!
# A Section of Declarations, Written and Read

Entries are written one below the other into an `input` section, and the section
is read back: the script declares the entries, in their order and where they
stand, and nothing is wrong with it.

The way back goes line by line. A line is read without the others, so the tokens
of the section are those of its lines (`AreReadAs`). A line is a statement of its
own, which takes nothing of the line below; it declares its entry and finds the
remarks in the comments above, `statements_of_isReadAs`.

The section is a fragment. Read on its own it is taken for the body of a
function, with the hint that nobody said so. There is no such hint if a scheme is
asked for, or if the section stands in a function.

## Main definitions

* `listing`: Entries in a section.
* `declaredFrom`: What the entries declare, and where.
* `Entry.IsReadAs`, `AreReadAs`: The tokens of entries.
* `Document.Declares`: A document without problems.

## Theorems

* `tokenizeAt_entries`: Entries are read line by line.
* `Entry.IsReadAs.description`: The remarks are found from the line below them.
* `statements_of_isReadAs`, `declarations_of_areReadAs`: Each line declares its
  entry.
* `partsOfText_listing`: The text is a single section.
* `parse_listing`: What is written is declared.
-/

namespace StackScript

/-- Entries in a section. -/
def listing (indent : Nat) (entries : List Entry) : String :=
  "input \x7b\n" ++ String.join (entries.map (Entry.print indent)) ++ "\x7d"

/-- The lines that an entry takes. -/
def Entry.height (entry : Entry) : Nat :=
  entry.remarks.length + 1

/-- What the entries declare if the first is written from `line` on. -/
def declaredFrom (indent line : Nat) : List Entry → List (String × Declaration)
  | [] => []
  | entry :: entries =>
      (entry.name.text, entry.declaration ⟨line + entry.remarks.length, indent + 1⟩) ::
        declaredFrom indent (line + entry.height) entries

/-! ## Lines -/

/-- The comment for a remark. -/
def Remark.piece (indent : Nat) (remark : Remark) : Piece :=
  ⟨indent, .comment, "// ".toList ++ remark.text.toList⟩

/-- The comments for some remarks, a line each. -/
def remarkLines (indent : Nat) (remarks : List Remark) : List Char :=
  remarks.flatMap fun remark => printed [remark.piece indent] ++ ['\n']

/-- An entry is printed as its remarks, a line each, and its row behind them. -/
theorem toList_print (indent : Nat) (entry : Entry) :
    (entry.print indent).toList =
      remarkLines indent entry.remarks ++ (printed (entry.pieces indent) ++ ['\n']) := by
  have hremarks : ∀ remarks : List Remark,
      (String.join (remarks.map fun remark =>
        Entry.blanks indent ++ "// " ++ remark.text ++ "\n")).toList =
          remarkLines indent remarks := by
    intro remarks
    rw [String.toList_join, List.flatMap_map, remarkLines]
    congr 1
    funext remark
    simp [Entry.blanks, Remark.piece, printed, Piece.chars, String.toList_append]
  rw [Entry.print, String.toList_append, hremarks, String.toList_append, String.toList_append,
    Entry.blanks, String.toList_ofList, Entry.row_pieces]
  rfl

/-- A comment may stand in front of anything but a line that goes on. -/
theorem legible_remark (indent : Nat) (remark : Remark) : Legible [] [remark.piece indent] := by
  refine ⟨reads_comment ?_, trivial⟩
  intro hmem
  rcases List.mem_cons.mp hmem with hmem | hmem
  · cases hmem
  · exact remark.one_line hmem

/-- The remark of a comment is the remark that it was written for. -/
theorem remark_of_spelling {indent : Nat} {remark : Remark} {token : Token}
    (h : token.spelling = (remark.piece indent).spelling) :
    token.remark = remark.text.toList := by
  have htext : token.text.toList = "// ".toList ++ remark.text.toList := by
    have hword : token.text = String.ofList ("// ".toList ++ remark.text.toList) :=
      congrArg Prod.snd h
    rw [hword, String.toList_ofList]
  have hslashes : ("// ".toList ++ remark.text.toList).dropWhile (· = '/') =
      ' ' :: remark.text.toList := rfl
  have hblank : (' ' :: remark.text.toList).dropWhile Unicode.isBlank =
      remark.text.toList.dropWhile Unicode.isBlank := List.dropWhile_cons_of_pos (by decide)
  rw [Token.remark, htext, hslashes, Text.trim, Text.trimBy, hblank]
  exact Text.trim_of_isTrimmed remark.trimmed

/-- Behind a line the text goes on in the first column of the next. -/
theorem position_after_newline (place : Place) {cs : List Char} (h : '\n' ∉ cs) :
    (place.after (cs ++ ['\n'])).position = ⟨place.position.line + 1, 1⟩ := by
  have hline : (place.position.after cs).line = place.position.line := by
    rw [Position.after_line, List.count_eq_zero.mpr h, Nat.add_zero]
  change place.position.after (cs ++ ['\n']) = _
  rw [Position.after_append, Position.after_cons, Position.after_nil, Position.afterChar_newline,
    hline]

/-- Blanks move the column only. -/
theorem position_after_blanks (place : Place) (n : Nat) :
    (place.after (List.replicate n ' ')).position =
      ⟨place.position.line, place.position.column + n⟩ := by
  induction n generalizing place with
  | zero => rfl
  | succ n ih =>
      have hsplit : place.after (List.replicate (n + 1) ' ') =
          (place.after [' ']).after (List.replicate n ' ') := by
        rw [← Place.after_append]
        rfl
      have hone : (place.after [' ']).position =
          ⟨place.position.line, place.position.column + 1⟩ := rfl
      rw [hsplit, ih, hone, Nat.add_assoc, Nat.add_comm 1 n]

/-! ## Reading entries -/

/-- The tokens of the comments for some remarks. -/
theorem tokenizeAt_remarks (indent : Nat) (remarks : List Remark) {line : Nat} {place : Place}
    (hplace : place.position = ⟨line, 1⟩) (ds : List Char) :
    ∃ run place', tokenizeAt place (remarkLines indent remarks ++ ds) =
        run ++ tokenizeAt place' ds ∧
      place'.position = ⟨line + remarks.length, 1⟩ ∧ IsRun line run ∧
      run.map Token.remark = remarks.map fun remark => remark.text.toList := by
  induction remarks generalizing line place with
  | nil => exact ⟨[], place, rfl, hplace, trivial, rfl⟩
  | cons remark remarks ih =>
      have hlegible := legible_remark indent remark
      -- The lines below are read from the start of the next line.
      have hnext := position_after_newline place (newline_notMem_printed hlegible)
      rw [hplace] at hnext
      rcases ih hnext with ⟨run, place', htokens, hplace', hrun, hremarks⟩
      have hspelling := tokenizeAt_printed hlegible place
      -- The line itself is one comment and nothing else.
      rcases List.map_eq_singleton_iff.mp hspelling with ⟨comment, hcomment, hword⟩
      have hline := line_of_mem_tokenizeAt place (newline_notMem_printed hlegible) comment
        (by rw [hcomment]; exact List.mem_singleton_self _)
      rw [hplace] at hline
      have hsplit : remarkLines indent (remark :: remarks) ++ ds =
          printed [remark.piece indent] ++ '\n' :: (remarkLines indent remarks ++ ds) := by
        rw [remarkLines, List.flatMap_cons, List.append_assoc, List.append_assoc]
        rfl
      refine ⟨comment :: run, place', ?_, ?_, ⟨congrArg Prod.fst hword, hline, hrun⟩, ?_⟩
      · rw [hsplit, tokenizeAt_append_newline, htokens, hcomment]
        rfl
      · rw [hplace', List.length_cons, Nat.add_assoc, Nat.add_comm 1]
      · rw [List.map_cons, List.map_cons, remark_of_spelling hword, hremarks]

/-- An entry that is written from `line` on is read as comments and as the words
    of its line. -/
structure Entry.IsReadAs (entry : Entry) (indent line : Nat) (run row : List Token) : Prop where
  /-- The comments are on consecutive lines. -/
  isRun : IsRun line run
  /-- They say what the remarks say. -/
  remarks : run.map Token.remark = entry.remarks.map fun remark => remark.text.toList
  /-- The words are those of the line. -/
  spelling : row.map Token.spelling = (entry.pieces indent).map Piece.spelling
  /-- They are on the line below the comments. -/
  onLine : OnLine (line + entry.remarks.length) row
  /-- The first of them stands behind the blanks of the line. -/
  position : ∀ first ∈ row.head?, first.position = ⟨line + entry.remarks.length, indent + 1⟩

/-- The tokens of entries that are written from `line` on. -/
def AreReadAs (indent : Nat) : Nat → List Entry → List Token → Prop
  | _, [], tokens => tokens = []
  | line, entry :: entries, tokens =>
      ∃ run row rest, tokens = run ++ (row ++ rest) ∧ entry.IsReadAs indent line run row ∧
        AreReadAs indent (line + entry.height) entries rest

/-- The first word of a row stands behind the blanks. -/
theorem tokenizeAt_row (indent : Nat) (entry : Entry) {line : Nat} {place : Place}
    (hplace : place.position = ⟨line, 1⟩) :
    ∀ first ∈ (tokenizeAt place (printed (entry.pieces indent))).head?,
      first.position = ⟨line, indent + 1⟩ := by
  have hcons := tokenizeAt_cons (Entry.legible_pieces indent entry) place
  rw [List.append_nil] at hcons
  intro first hfirst
  have hpieces := hcons ▸ hfirst
  cases hpieces
  rw [position_after_blanks, hplace, Nat.add_comm]

/-- Entries are read line by line. -/
theorem tokenizeAt_entries (indent : Nat) (entries : List Entry) {line : Nat} {place : Place}
    (hplace : place.position = ⟨line, 1⟩) (ds : List Char) :
    ∃ tokens place', tokenizeAt place
        (entries.flatMap (fun entry => (entry.print indent).toList) ++ ds) =
          tokens ++ tokenizeAt place' ds ∧
      AreReadAs indent line entries tokens := by
  induction entries generalizing line place with
  | nil => exact ⟨[], place, rfl, rfl⟩
  | cons entry entries ih =>
      have hlegible := Entry.legible_pieces indent entry
      have hnewline := newline_notMem_printed hlegible
      -- First the lines of the remarks are read, then that of the row, then what is below
      -- it.
      rcases tokenizeAt_remarks indent entry.remarks hplace (printed (entry.pieces indent) ++
        '\n' :: (entries.flatMap (fun entry => (entry.print indent).toList) ++ ds))
        with ⟨run, below, hrunTokens, hbelow, hrun, hremarks⟩
      have hnext := position_after_newline below hnewline
      rw [hbelow] at hnext
      rcases ih hnext with ⟨rest, place', hrest, hareRead⟩
      have hsplit : (entry :: entries).flatMap (fun entry => (entry.print indent).toList) ++ ds =
          remarkLines indent entry.remarks ++ (printed (entry.pieces indent) ++
            '\n' :: (entries.flatMap (fun entry => (entry.print indent).toList) ++ ds)) := by
        rw [List.flatMap_cons, toList_print]
        simp only [List.append_assoc, List.cons_append, List.nil_append]
      -- The row is read where the remarks have ended.
      have hread : entry.IsReadAs indent line run
          (tokenizeAt below (printed (entry.pieces indent))) := {
        isRun := hrun
        remarks := hremarks
        spelling := tokenizeAt_printed hlegible below
        onLine := by
          have hline := line_of_mem_tokenizeAt below hnewline
          rwa [hbelow] at hline
        position := tokenizeAt_row indent entry hbelow }
      refine ⟨run ++ (tokenizeAt below (printed (entry.pieces indent)) ++ rest), place', ?_,
        run, _, rest, rfl, hread, hareRead⟩
      rw [hsplit, hrunTokens, tokenizeAt_append_newline, hrest, List.append_assoc,
        List.append_assoc]

/-! ## Statements of entries -/

-- The words of a line are at least the one of the type.
theorem Entry.IsReadAs.exists_first {entry : Entry} {indent line : Nat} {run row : List Token}
    (h : entry.IsReadAs indent line run row) : ∃ first others, row = first :: others ∧
      first.kind = .ident ∧ first.position = ⟨line + entry.remarks.length, indent + 1⟩ := by
  rcases List.map_eq_cons_iff.mp h.spelling with ⟨first, others, rfl, hfirst, -⟩
  exact ⟨first, others, rfl, congrArg Prod.fst hfirst, h.position first rfl⟩

/-- What a row is spelled with are the words of its pieces. -/
theorem Entry.IsReadAs.kind_mem {entry : Entry} {indent line : Nat} {run row : List Token}
    (h : entry.IsReadAs indent line run row) : ∀ token ∈ row, token.kind ∈ Entry.kinds := by
  intro token hmem
  rcases exists_piece_of_spelling h.spelling token hmem with ⟨piece, hpiece, hkind⟩
  rw [hkind]
  exact Entry.kind_pieces indent entry piece hpiece

/-- The description of a declaration is what the remarks above it say. -/
theorem Entry.IsReadAs.description {entry : Entry} {indent line : Nat} {run row : List Token}
    (h : entry.IsReadAs indent line run row) {before : List Token}
    (hbefore : EndsAbove line before) {first : Token}
    (hfirst : first.position.line = line + entry.remarks.length) :
    (Occurrence.mk (run.reverse ++ before) first).description = entry.description := by
  have hlength : run.length = entry.remarks.length := by
    rw [← List.length_map (f := Token.remark), h.remarks, List.length_map]
  -- The lines of the remarks come to an end above the first of them, since nothing there
  -- ends on the line before.
  have habove : commentsAbove first.position.line (run.reverse ++ before) = run.reverse := by
    rw [hfirst, ← hlength]
    exact commentsAbove_run h.isRun hbefore
  -- No remark is empty, so all of them are shown.
  have hfilter : (entry.remarks.map fun remark => remark.text.toList).filter (· ≠ []) =
      entry.remarks.map fun remark => remark.text.toList := by
    refine List.filter_eq_self.mpr fun text htext => ?_
    rcases List.mem_map.mp htext with ⟨remark, -, rfl⟩
    exact decide_eq_true fun hempty => remark.ne (String.toList_eq_nil_iff.mp hempty)
  unfold Occurrence.description
  dsimp only
  rw [habove, List.reverse_reverse, h.remarks, hfilter, Entry.description]
  cases entry.remarks with
  | nil => rfl
  | cons remark remarks =>
      rw [if_neg (List.cons_ne_nil _ _), List.map_cons]
      refine congrArg some (String.toList_inj.mp ?_)
      rw [String.toList_ofList, String.toList_intercalate, List.map_map]
      rfl

/-- The first entry is written from `line` on. -/
theorem AreReadAs.line_le {indent line : Nat} {entries : List Entry} {tokens : List Token}
    (h : AreReadAs indent line entries tokens) :
    ∀ token ∈ tokens.head?, line ≤ token.position.line := by
  intro token htoken
  cases entries with
  | nil =>
      rw [AreReadAs] at h
      rw [h] at htoken
      cases htoken
  | cons entry entries =>
      -- The first token is the first remark, or the first word of the row if there is none.
      rcases h with ⟨run, row, rest, rfl, hread, -⟩
      cases run with
      | nil =>
          rcases hread.exists_first with ⟨first, others, rfl, -, hposition⟩
          cases htoken
          rw [hposition]
          exact Nat.le_add_right _ _
      | cons comment run =>
          cases htoken
          exact Nat.le_of_eq hread.isRun.2.1.symm

/-- The last word of a line is no comment. -/
theorem Entry.IsReadAs.last {entry : Entry} {indent line : Nat} {run row : List Token}
    (h : entry.IsReadAs indent line run row) (before : List Token) :
    EndsAbove (line + entry.height) (row.reverse ++ before) := by
  rcases h.exists_first with ⟨first, others, hrow, -, -⟩
  have hne : row.reverse ≠ [] := by simp [hrow]
  rcases List.exists_cons_of_ne_nil hne with ⟨final, words, hwords⟩
  intro last hlast
  rw [hwords] at hlast
  cases hlast
  have hmem : final ∈ row := by
    rw [← List.mem_reverse, hwords]
    exact List.mem_cons_self
  refine ⟨fun hcomment => ?_, ?_⟩
  · -- A row has no comment in it, so it does not end with one.
    have hkind := h.kind_mem final hmem
    rw [hcomment] at hkind
    exact absurd hkind (by decide)
  · rw [h.onLine final hmem, Entry.height]
    exact Nat.lt_succ_self _

/-- An entry is a statement that declares it, and the entries below are
    statements of their own. -/
theorem statements_of_isReadAs {entry : Entry} {indent line : Nat} {run row rest : List Token}
    (h : entry.IsReadAs indent line run row)
    (hrest : ∀ token ∈ rest.head?, line + entry.height ≤ token.position.line)
    {before : List Token} (hbefore : EndsAbove line before) :
    (statements (occurrencesAfter before (run ++ (row ++ rest)))).map Statement.declaration? =
      some (entry.name.text, entry.declaration ⟨line + entry.remarks.length, indent + 1⟩) ::
        (statements (occurrencesAfter (row.reverse ++ (run.reverse ++ before)) rest)).map
          Statement.declaration? := by
  rcases h.exists_first with ⟨first, others, rfl, hkind, hposition⟩
  have hcomments : ∀ place ∈ occurrencesAfter before run, place.token.kind = .comment := by
    intro place hplace
    refine h.isRun.kind place.token ?_
    rw [← occurrencesAfter_map_token before run]
    exact List.mem_map_of_mem hplace
  have hline : first.position.line = line + entry.remarks.length :=
    h.onLine first List.mem_cons_self
  -- The row has no brace that is open and no line feed, so its statement is as long as it.
  have hpasses : (Extent.level (line + entry.remarks.length)).Passes
      ((occurrencesAfter (first :: (run.reverse ++ before)) others).map Occurrence.token)
        (Extent.level (line + entry.remarks.length)) := by
    have hrow := (Entry.isRow_pieces indent entry _ _ h.onLine h.spelling).2.2
    rw [Extent.level_take hline (by rw [hkind]; rfl)] at hrow
    rwa [occurrencesAfter_map_token]
  -- And no longer, since what follows is on other lines.
  have hbelow : ∀ other ∈ (occurrencesAfter ((first :: others).reverse ++
      (run.reverse ++ before)) rest).head?,
        line + entry.remarks.length < other.token.position.line := by
    intro other hother
    cases rest with
    | nil => cases hother
    | cons token rest =>
        cases hother
        exact hrest token rfl
  have hspells : Spells (occurrencesAfter (run.reverse ++ before) (first :: others))
      (entry.pieces indent) := by
    have htokens := h.spelling
    rwa [← occurrencesAfter_map_token (run.reverse ++ before) (first :: others),
      List.map_map] at htokens
  -- The remarks, the first word, the rest of the row, and the other entries.
  have hsplit : occurrencesAfter before (run ++ (first :: others ++ rest)) =
      occurrencesAfter before run ++ (⟨run.reverse ++ before, first⟩ ::
        (occurrencesAfter (first :: (run.reverse ++ before)) others ++
          occurrencesAfter ((first :: others).reverse ++ (run.reverse ++ before)) rest)) := by
    rw [occurrencesAfter_append, occurrencesAfter_append, occurrencesAfter, List.cons_append]
  -- What a statement declares is read off from its spelling alone.
  have hdeclaration := @Entry.declaration?_of_spells indent entry
    ⟨occurrencesAfter before run, ⟨run.reverse ++ before, first⟩,
      occurrencesAfter (first :: (run.reverse ++ before)) others⟩ hspells
  dsimp only at hdeclaration
  rw [h.description hbefore hline, hposition] at hdeclaration
  rw [statements, hsplit, statementsAfter_comments _ _ _ hcomments, List.nil_append,
    statementsAfter_row _ hkind hline hpasses hbelow, List.map_cons, hdeclaration]
  rfl

/-- Each line declares its entry. -/
theorem declarations_of_areReadAs {indent line : Nat} {entries : List Entry} {tokens : List Token}
    (h : AreReadAs indent line entries tokens) {before : List Token}
    (hbefore : EndsAbove line before) :
    (statements (occurrencesAfter before tokens)).map Statement.declaration? =
      (declaredFrom indent line entries).map some := by
  induction entries generalizing line tokens before with
  | nil =>
      rw [AreReadAs] at h
      rw [h, occurrencesAfter, statements_nil]
      rfl
  | cons entry entries ih =>
      rcases h with ⟨run, row, rest, rfl, hread, hrest⟩
      rw [statements_of_isReadAs hread hrest.line_le hbefore, ih hrest (hread.last _)]
      rfl

/-! ## Braces and words of entries -/

/-- The braces of entries are in order. -/
theorem AreReadAs.checkBraces {indent line : Nat} {entries : List Entry} {tokens : List Token}
    (h : AreReadAs indent line entries tokens) : StackScript.checkBraces tokens = [] := by
  induction entries generalizing line tokens with
  | nil =>
      rw [AreReadAs] at h
      rw [h]
      exact checkBraces_of_passAll rfl
  | cons entry entries ih =>
      rcases h with ⟨run, row, rest, rfl, hread, hrest⟩
      -- There are no braces in the remarks, and those of the row close each other.
      have hrun : StackScript.checkBraces run = [] := by
        refine checkBraces_of_ne (fun comment hmem => ?_) fun comment hmem => ?_
        · rw [hread.isRun.kind comment hmem]
          exact TokenKind.noConfusion
        · rw [hread.isRun.kind comment hmem]
          exact TokenKind.noConfusion
      have hrow := (Entry.isRow_pieces indent entry _ row hread.onLine hread.spelling).checkBraces
      exact checkBraces_append hrun (checkBraces_append hrow (ih hrest))

/-- Remarks are comments, and rows are made of words of known kinds. -/
theorem AreReadAs.kind_ne {indent line : Nat} {entries : List Entry} {tokens : List Token}
    (h : AreReadAs indent line entries tokens) : ∀ token ∈ tokens, token.kind ≠ .error := by
  induction entries generalizing line tokens with
  | nil =>
      rw [AreReadAs] at h
      rw [h]
      exact fun token hmem => by cases hmem
  | cons entry entries ih =>
      rcases h with ⟨run, row, rest, rfl, hread, hrest⟩
      intro token hmem herror
      rcases List.mem_append.mp hmem with hmem | hmem
      · rw [hread.isRun.kind token hmem] at herror
        cases herror
      · rcases List.mem_append.mp hmem with hmem | hmem
        · have hkind := hread.kind_mem token hmem
          rw [herror] at hkind
          exact absurd hkind (by decide)
        · exact ih hrest token hmem herror

/-! ## The section -/

/-- The words of the line in front of the entries. -/
def inputTokens : List Token :=
  [⟨.ident, "input", ⟨1, 1⟩, 0⟩, ⟨.lBrace, "\x7b", ⟨1, 7⟩, 6⟩]

/-- The words of the section are those of its first line, those of the entries,
    and the closing brace. -/
theorem tokenize_listing (indent : Nat) (entries : List Entry) :
    ∃ (body : List Token) (close : Token), close.kind = .rBrace ∧
      AreReadAs indent 2 entries body ∧
      tokenize (listing indent entries) = inputTokens ++ (body ++ [close]) := by
  have hchars : (listing indent entries).toList = "input \x7b".toList ++
      '\n' :: (entries.flatMap (fun entry => (entry.print indent).toList) ++ ['\x7d']) := by
    rw [listing, String.toList_append, String.toList_append, String.toList_join, List.flatMap_map,
      List.append_assoc]
    rfl
  have hheader : tokenizeAt Place.start "input \x7b".toList = inputTokens := by
    decide +kernel
  have hbelow : (Place.start.after ("input \x7b".toList ++ ['\n'])).position = ⟨2, 1⟩ := rfl
  -- The entries begin on the second line, and end in front of the last brace.
  rcases tokenizeAt_entries indent entries hbelow ['\x7d'] with ⟨body, place, hbody, hread⟩
  have hclose : tokenizeAt place ['\x7d'] =
      [⟨.rBrace, "\x7d", place.position, place.offset⟩] := by
    rw [tokenizeAt_word place (by decide), List.drop_nil, tokenizeAt]
    rfl
  refine ⟨body, ⟨.rBrace, "\x7d", place.position, place.offset⟩, rfl, hread, ?_⟩
  rw [tokenize, hchars, tokenizeAt_append_newline, hheader, hbody, hclose]

/-- The section is a single statement, and its block holds the entries. -/
theorem partsOf_section {body : List Token} {close : Token} (hbody : checkBraces body = [])
    (hclose : close.kind = .rBrace) :
    ∃ part, partsOf (occurrences (inputTokens ++ (body ++ [close]))) = [part] ∧
      part.heading.name = "input" ∧
      part.places = occurrencesAfter inputTokens.reverse body := by
  have hplaces : occurrences (inputTokens ++ (body ++ [close])) =
      ⟨[], inputTokens[0]⟩ :: ⟨[inputTokens[0]], inputTokens[1]⟩ ::
        (occurrencesAfter inputTokens.reverse body ++
          [⟨body.reverse ++ inputTokens.reverse, close⟩]) := by
    rw [occurrences, occurrencesAfter_append, occurrencesAfter_append]
    rfl
  have hinside : checkBraces ((occurrencesAfter inputTokens.reverse body).map
      Occurrence.token) = [] := by
    rwa [occurrencesAfter_map_token]
  -- The braces inside close each other, so the last one closes the section.
  have hblock := @untilClose_balanced _ []
    ⟨body.reverse ++ inputTokens.reverse, close⟩ hinside hclose
  have htaken := @restOfStatement_block ⟨1, 0, 1⟩ rfl _
    ⟨body.reverse ++ inputTokens.reverse, close⟩ hinside hclose
  generalize occurrencesAfter inputTokens.reverse body ++
    [⟨body.reverse ++ inputTokens.reverse, close⟩] = block at hplaces hblock htaken
  -- The statement of the section takes all of it in.
  have hrest : restOfStatement (Extent.ofFirst inputTokens[0])
      (⟨[inputTokens[0]], inputTokens[1]⟩ :: block) =
        (⟨[inputTokens[0]], inputTokens[1]⟩ :: block, []) := by
    have hstep : restOfStatement (Extent.ofFirst inputTokens[0])
        (⟨[inputTokens[0]], inputTokens[1]⟩ :: block) =
          (⟨[inputTokens[0]], inputTokens[1]⟩ :: (restOfStatement ⟨1, 0, 1⟩ block).1,
            (restOfStatement ⟨1, 0, 1⟩ block).2) := rfl
    rw [hstep, htaken]
  -- So there is no other statement.
  have hstatements : statements (occurrences (inputTokens ++ (body ++ [close]))) =
      [⟨[], ⟨[], inputTokens[0]⟩, ⟨[inputTokens[0]], inputTokens[1]⟩ :: block⟩] := by
    have hfirst : (!Occurrence.isSignificant ⟨[], inputTokens[0]⟩) = false := rfl
    rw [hplaces, statements, statementsAfter, hfirst, hrest]
    exact congrArg (_ :: ·) statements_nil
  refine ⟨⟨⟨"input", none, ⟨1, 1⟩, some 1, (untilClose 0 block).close?.map Occurrence.index,
    (untilClose 0 block).ending.isSome⟩, some (untilClose 0 block).body⟩, ?_, rfl,
      congrArg Block.body hblock⟩
  rw [partsOf, hstatements]
  rfl

/-- The name of a section is no keyword. -/
theorem detectKeyword_listing (indent : Nat) (entries : List Entry) :
    detectKeyword (tokenize (listing indent entries)) = none := by
  rcases tokenize_listing indent entries with ⟨body, close, -, -, htokens⟩
  rw [htokens]
  rfl

/-- The braces of the section are in order. -/
theorem checkBraces_listing (indent : Nat) (entries : List Entry) :
    checkBraces (tokenize (listing indent entries)) = [] := by
  rcases tokenize_listing indent entries with ⟨body, close, hclose, hread, htokens⟩
  refine checkBraces_of_passAll ?_
  rw [htokens, passAll_append, passAll_append, passAll_balanced hread.checkBraces,
    LooseBraces.passAll, hclose]
  rfl

/-- All words of a section are good: its name, its braces, and those of the entries. -/
theorem wordProblems_listing (indent : Nat) (entries : List Entry) :
    wordProblems (tokenize (listing indent entries)) = [] := by
  rcases tokenize_listing indent entries with ⟨body, close, hclose, hread, htokens⟩
  have hnone : (tokenize (listing indent entries)).filter (fun token => token.kind = .error) =
      [] := by
    refine List.filter_eq_nil_iff.mpr fun token hmem herror => ?_
    rw [htokens, List.mem_append, List.mem_append, List.mem_singleton] at hmem
    rw [decide_eq_true_eq] at herror
    -- The first two tokens, the entries, and the last brace.
    rcases hmem with hmem | hmem | rfl
    · simp only [inputTokens, List.mem_cons, List.not_mem_nil, or_false] at hmem
      rcases hmem with rfl | rfl
      · cases herror
      · cases herror
    · exact hread.kind_ne token hmem herror
    · rw [hclose] at herror
      cases herror
  rw [wordProblems, hnone]
  rfl

/-- The hint points to the name of the section. -/
theorem schemeProblems_listing (indent : Nat) (entries : List Entry) :
    schemeProblems (tokenize (listing indent entries)) none =
      [Diagnostic.ofProblem .missingKeyword Position.start] := by
  rcases tokenize_listing indent entries with ⟨body, close, -, -, htokens⟩
  rw [htokens]
  rfl

/-! ## What the entries declare -/

/-- An entry is of an enumeration only if its type says so. -/
theorem Entry.type_of_isEnum {entry : Entry} {position : Position}
    (h : (entry.declaration position).isEnum) : entry.type.text = "enum" := by
  -- The written name of a type has no brackets, so they are there exactly if it is a list.
  have hbracket : '[' ∉ entry.type.text.toList := fun hmem =>
    absurd (List.all_eq_true.mp entry.type.chars_ok '[' hmem) (by decide)
  have htype : entry.type.text ++ (if entry.isList then "[]" else "") = "enum" ∨
      entry.type.text ++ (if entry.isList then "[]" else "") = "enum[]" := by
    rwa [Declaration.isEnum, Bool.or_eq_true, decide_eq_true_eq, decide_eq_true_eq] at h
  cases hlist : entry.isList with
  | false =>
      rw [hlist, if_neg Bool.false_ne_true, String.append_empty] at htype
      rcases htype with htype | htype
      · exact htype
      · refine absurd ?_ hbracket
        rw [htype]
        decide
  | true =>
      rw [hlist, if_pos rfl] at htype
      rcases htype with htype | htype
      · have hmem : '[' ∈ (entry.type.text ++ "[]").toList := by
          rw [String.toList_append]
          exact List.mem_append_right _ (by decide)
        rw [htype] at hmem
        exact absurd hmem (by decide)
      · exact (String.append_left_inj "[]").mp htype

/-- An entry of this type is written with its values. -/
theorem Entry.lacksValues_eq_false (entry : Entry) (position : Position) :
    (entry.declaration position).lacksValues = false := by
  rw [Declaration.lacksValues, Bool.and_eq_false_iff]
  by_cases henum : (entry.declaration position).isEnum
  · have hvalues : entry.values ≠ [] := fun hnil =>
      entry.values_ok.mp hnil (type_of_isEnum henum)
    refine Or.inr ?_
    rw [Entry.declaration, if_neg hvalues, Option.all_some, List.isEmpty_map]
    simpa using hvalues
  · exact Or.inl (Bool.not_eq_true _ ▸ henum)

/-- The names are those of the entries, and the lines follow from the heights. -/
theorem mem_declaredFrom {indent line : Nat} {entries : List Entry} {found : String × Declaration}
    (h : found ∈ declaredFrom indent line entries) :
    ∃ (entry : Entry) (position : Position),
      found = (entry.name.text, entry.declaration position) := by
  induction entries generalizing line with
  | nil => cases h
  | cons entry entries ih =>
      rcases List.mem_cons.mp h with rfl | h
      · exact ⟨entry, _, rfl⟩
      · exact ih h

/-- Nothing else is declared. -/
theorem names_declaredFrom (indent line : Nat) (entries : List Entry) :
    (declaredFrom indent line entries).map (·.1) = entries.map fun entry => entry.name.text := by
  induction entries generalizing line with
  | nil => rfl
  | cons entry entries ih => rw [declaredFrom, List.map_cons, ih, List.map_cons]

/-- In a function the entries are declared one line further down. -/
theorem declaredFrom_down (indent line : Nat) (entries : List Entry) :
    (declaredFrom indent line entries).map (fun found => (found.1, found.2.down 1)) =
      declaredFrom indent (line + 1) entries := by
  induction entries generalizing line with
  | nil => rfl
  | cons entry entries ih =>
      have hline : line + entry.height + 1 = line + 1 + entry.height := Nat.add_right_comm _ _ _
      have hposition : line + entry.remarks.length + 1 = line + 1 + entry.remarks.length :=
        Nat.add_right_comm _ _ _
      rw [declaredFrom, List.map_cons, ih, declaredFrom, hline, ← hposition]
      rfl

/-! ## Documents -/

/-- The document declares what it is to declare, and nothing is wrong with it. -/
structure Document.Declares (document : Document) (declared : List (String × Declaration)) :
    Prop where
  inputs : document.symbols.inputs.entries = declared
  diagnostics : document.diagnostics = []

/-- Whoever has a section `input` for declarations knows it. -/
theorem knows_input {scheme : Scheme} (h : scheme.grammar.declarationBlock = some "input") :
    scheme.grammar.knows "input" := by
  cases scheme with
  | function => rfl
  | api => rfl
  | tableTrigger => rfl
  | db => exact absurd h (by decide)
  | task => cases h
  | apiGroup => cases h

/-- The text is a single section, and the statements in it declare the
    entries. -/
theorem partsOfText_listing (indent : Nat) (entries : List Entry) :
    ∃ part, partsOfText (listing indent entries) = [part] ∧ part.heading.name = "input" ∧
      (statements part.places).map Statement.declaration? =
        (declaredFrom indent 2 entries).map some := by
  rcases tokenize_listing indent entries with ⟨body, close, hclose, hread, htokens⟩
  rcases partsOf_section hread.checkBraces hclose with ⟨part, hpartsOf, hname, hplaces⟩
  refine ⟨part, ?_, hname, ?_⟩
  · rw [partsOfText_eq (detectKeyword_listing indent entries), htokens, hpartsOf]
  · rw [hplaces]
    refine declarations_of_areReadAs hread fun last hlast => ?_
    cases hlast
    exact ⟨TokenKind.noConfusion, by decide⟩

section Listing

variable (indent : Nat) {entries : List Entry}
  (hnames : (entries.map fun entry => entry.name.text).Nodup)

include hnames

/-- Whoever reads `input` sections as declarations finds the entries, and nothing
    wrong with them. -/
theorem readSymbols_listing {grammar : Grammar}
    (hblock : grammar.declarationBlock = some "input") :
    (readSymbols grammar (partsOfText (listing indent entries))).table.inputs.entries =
        declaredFrom indent 2 entries ∧
      (readSymbols grammar (partsOfText (listing indent entries))).problems = [] := by
  rcases partsOfText_listing indent entries with ⟨part, hparts, hname, hstatements⟩
  -- No name comes twice, so no declaration replaces another.
  have hfresh : ((OrderedTable.empty : OrderedTable Declaration).names ++
      (declaredFrom indent 2 entries).map (·.1)).Nodup := by
    rwa [names_declaredFrom]
  have hvalues : ∀ found ∈ declaredFrom indent 2 entries, found.2.lacksValues = false := by
    intro found hfound
    rcases mem_declaredFrom hfound with ⟨entry, position, rfl⟩
    exact entry.lacksValues_eq_false position
  rcases declareAll_of_nodup hstatements .empty hfresh hvalues "input" with ⟨htable, hcauses⟩
  -- The one section is that of the declarations.
  have hdeclaring : [part].flatMap (Part.declaring grammar) = statements part.places := by
    rw [List.flatMap_cons, List.flatMap_nil, List.append_nil, Part.declaring, hblock, hname,
      if_pos rfl]
  have hdeclared := declared_readSymbols grammar [part]
  rw [hdeclaring, htable, Grammar.declared, hblock, if_neg (by decide)] at hdeclared
  refine ⟨?_, ?_⟩
  · rw [hparts, hdeclared]
    rfl
  · rw [hparts, readSymbols_causes, hdeclaring, hblock, Option.getD_some, hcauses]
    rfl

/-- Nothing is wrong with the section but the choice of the scheme. -/
theorem parseWith_listing (asked : Option String)
    (hblock : (parseWith asked (listing indent entries)).scheme.grammar.declarationBlock =
      some "input") :
    (parseWith asked (listing indent entries)).symbols.inputs.entries =
        declaredFrom indent 2 entries ∧
      (parseWith asked (listing indent entries)).diagnostics =
        schemeProblems (tokenize (listing indent entries)) asked := by
  rcases readSymbols_listing indent hnames hblock with ⟨hinputs, hproblems⟩
  rcases partsOfText_listing indent entries with ⟨part, hparts, hname, -⟩
  have hblocks : (parseWith asked (listing indent entries)).blocks = [part.heading] :=
    congrArg (List.map Part.heading) hparts
  -- Its name is known to every scheme that has its declarations there.
  have hsections : sectionProblems (parseWith asked (listing indent entries)).scheme
      [part.heading] = [] := by
    rw [sectionProblems, List.map_eq_nil_iff, List.filter_eq_nil_iff]
    intro block hmem
    rw [List.mem_singleton.mp hmem, hname, knows_input hblock]
    exact Bool.false_ne_true
  refine ⟨hinputs, ?_⟩
  rw [diagnostics_parseWith, hproblems, hblocks, hsections, wordProblems_listing, braceProblems,
    checkBraces_listing]
  simp only [List.map_nil, List.nil_append, List.append_nil]

end Listing

/-- Entries that are written into a section are declared by it, in their order
    and where they stand, and nothing is wrong with it. Read on its own the
    section lacks a keyword; it lacks nothing in a function, and nothing if it is
    said what it is a part of. -/
theorem parse_listing (indent : Nat) (entries : List Entry)
    (hnames : (entries.map fun entry => entry.name.text).Nodup) :
    (parse (listing indent entries)).symbols.inputs.entries = declaredFrom indent 2 entries ∧
      (parse (listing indent entries)).diagnostics =
        [Diagnostic.ofProblem .missingKeyword Position.start] ∧
      (parse (enclose (listing indent entries))).Declares (declaredFrom indent 3 entries) ∧
      ∀ name scheme, Scheme.ofName? name = some scheme →
        scheme.grammar.declarationBlock = some "input" →
          (parseWith (some name) (listing indent entries)).Declares
            (declaredFrom indent 2 entries) := by
  have hbraces := checkBraces_listing indent entries
  have hkeyword := detectKeyword_listing indent entries
  have hscheme : (parseWith none (listing indent entries)).scheme = .function :=
    scheme_eq_function hkeyword
  -- Alone the section is read as the body of a function.
  have halone := parseWith_listing indent hnames none (by rw [hscheme]; rfl)
  rw [schemeProblems_listing] at halone
  refine ⟨halone.1, halone.2, ⟨?_, ?_⟩, fun name scheme hname hblock => ?_⟩
  · -- In a function it is what it was alone, one line further down and without the hint.
    have hinputs := congrArg SymbolTable.inputs (table_enclose hbraces hkeyword)
    rw [← declaredFrom_down, ← halone.1]
    exact congrArg OrderedTable.entries hinputs
  · have hhint := diagnostics_enclose hbraces hkeyword
    change _ = ((parseWith none (listing indent entries)).diagnostics.filter _).map _ at hhint
    rw [halone.2] at hhint
    exact hhint
  · -- Under a scheme it is read in the same way.
    have hasked : (parseWith (some name) (listing indent entries)).scheme = scheme := by
      change ((some name).bind Scheme.ofName?).getD _ = scheme
      rw [Option.bind_some, hname, Option.getD_some]
    rcases parseWith_listing indent hnames (some name) (by rw [hasked, hblock])
      with ⟨hinputs, hdiagnostics⟩
    exact ⟨hinputs, hdiagnostics.trans (schemeProblems_of_ofName? hname _)⟩

/-- A number that may be left out, with a remark and a filter. -/
def Entry.limit : Entry where
  type := ⟨"int", by decide, by decide⟩
  isList := false
  nullable := true
  name := .plain ⟨"limit", by decide, by decide⟩
  optional := true
  filters := [⟨⟨"min", by decide, by decide⟩, []⟩, ⟨⟨"math", by decide, by decide⟩,
    [⟨"floor", by decide, by decide⟩]⟩]
  values := []
  values_ok := by decide
  remarks := [⟨"At most so many.", by decide, ⟨by decide, by decide⟩, by decide⟩]

/-- An enumeration whose name is written in quotes. -/
def Entry.roles : Entry where
  type := ⟨"enum", by decide, by decide⟩
  isList := true
  nullable := false
  name := .quoted "the \"roles\"" (by decide)
  optional := false
  filters := []
  values := [⟨"read", by decide, ⟨by decide, by decide⟩⟩,
    ⟨"read, write", by decide, ⟨by decide, by decide⟩⟩]
  values_ok := by decide
  remarks := []

example : listing 2 [.limit, .roles] =
    "input \x7b\n  // At most so many.\n  int? limit? filters=min|math.floor\n" ++
      "  enum[] \"the \\\"roles\\\"\" \x7b values = [\"read\", \"read, write\"] \x7d\n\x7d" := by
  decide +kernel

/-- A section with both of them, alone and in a function. -/
theorem parse_listing_roles :
    ([Entry.limit, Entry.roles].map fun entry => entry.name.text).Nodup ∧
      (parse (listing 2 [.limit, .roles])).symbols.inputs.entries =
        [("limit", ⟨"int", true, true, some ["min", "math.floor"], none,
            some "At most so many.", ⟨3, 3⟩⟩),
          ("the \"roles\"", ⟨"enum[]", false, false, none, some ["read", "read, write"],
            none, ⟨4, 3⟩⟩)] ∧
      (parse (enclose (listing 2 [.limit, .roles]))).Declares
        (declaredFrom 2 3 [.limit, .roles]) := by
  have hnames : ([Entry.limit, Entry.roles].map fun entry => entry.name.text).Nodup := by decide
  rcases parse_listing 2 [.limit, .roles] hnames with ⟨hinputs, -, henclosed, -⟩
  exact ⟨hnames, hinputs.trans (by decide +kernel), henclosed⟩

end StackScript
