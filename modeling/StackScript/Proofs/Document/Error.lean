import StackScript.Proofs.Document.Brace
import StackScript.Proofs.Script.Loose

/-!
# The Errors of a Document

Errors are about words and about braces, and there is nothing else to be wrong
with a script that is an error. So the errors of a document can be listed
without reading it again: one for each error token, then one for each brace
without a partner, each in the order of the script and at its place.

That a brace has no partner is said here in terms of `blockEnd`, which knows
nothing of the reader that reports it. The two agree, `bracesAgree`, and the
reports come in order, `checkBraces_pairwise`.

Notes follow behind the errors. They are put where the words of the script
stand as well, with one exception: a scheme that does not exist has been asked
for from outside, and no word of the script is to blame.

## Main definitions

* `Unpartnered`: A brace without a partner.
* `errorTokens`, `Token.errorReport`, `braceReport`: What is an error, and how it
  is reported.
* `Document.ErrorsExact`: A document reports the errors of its tokens and no
  others.

## Theorems

* `mem_checkBraces_index`: The braces that are reported.
* `position_of_mem_notes`: Where the notes are.
* `parseWith_errorsExact`: Every document reports its errors.
-/

namespace StackScript

/-! ## Braces -/

/-- The token at the index is a brace without a partner. -/
def Unpartnered (tokens : List Token) (index : Nat) : Prop :=
  kindAt tokens index = some .lBrace ∧ blockEnd tokens index = none ∨
    kindAt tokens index = some .rBrace ∧ ¬ ∃ start, IsGroup tokens start index

/-- The kind of brace that is reported. -/
def BraceIssue.kind : BraceIssue → TokenKind
  | unterminated _ => .lBrace
  | unmatched _ => .rBrace

/-- An opening brace is reported as unterminated, a closing one as unmatched. -/
theorem kindAt_of_mem_checkBraces {tokens : List Token} {issue : BraceIssue}
    (h : issue ∈ checkBraces tokens) : kindAt tokens issue.index = some issue.kind := by
  cases issue with
  | unterminated i => exact kindAt_of_mem_openings ((unterminated_mem_checkBraces tokens i).mp h)
  | unmatched j => exact kindAt_of_mem_closings ((unmatched_mem_checkBraces tokens j).mp h)

/-- The braces that are reported are those without a partner. -/
theorem mem_checkBraces_index (tokens : List Token) (index : Nat) :
    index ∈ (checkBraces tokens).map BraceIssue.index ↔ Unpartnered tokens index := by
  constructor
  · intro h
    rcases List.mem_map.mp h with ⟨issue, hissue, rfl⟩
    have hkind := kindAt_of_mem_checkBraces hissue
    cases issue with
    | unterminated i => exact Or.inl ⟨hkind, ((bracesAgree tokens).unterminated i hkind).mp hissue⟩
    | unmatched j => exact Or.inr ⟨hkind, ((bracesAgree tokens).unmatched j hkind).mp hissue⟩
  · rintro (⟨hkind, hend⟩ | ⟨hkind, hgroup⟩)
    · exact List.mem_map.mpr ⟨_, ((bracesAgree tokens).unterminated index hkind).mpr hend, rfl⟩
    · exact List.mem_map.mpr ⟨_, ((bracesAgree tokens).unmatched index hkind).mpr hgroup, rfl⟩

/-- The report of a brace without a partner. -/
def braceReport (tokens : List Token) (index : Nat) : Diagnostic :=
  if kindAt tokens index = some .lBrace then
    ⟨.error, positionAt tokens index, Problem.unterminatedBlock.message, some "X001"⟩
  else
    ⟨.error, positionAt tokens index, Problem.unmatchedBrace.message, some "X002"⟩

-- Positions count from one here, so none of them is put right.
theorem ofProblem_eq (problem : Problem) {p : Position} (h : p.IsCounted) :
    Diagnostic.ofProblem problem p = ⟨problem.severity, p, problem.message, some problem.code⟩ := by
  unfold Diagnostic.ofProblem Diagnostic.free
  rw [Nat.max_eq_left h.1, Nat.max_eq_left h.2]

/-- A report of a brace can be read off from the tokens and the index of the brace. -/
theorem braceProblems_eq_map (text : String) :
    braceProblems (tokenize text) =
      ((checkBraces (tokenize text)).map BraceIssue.index).map (braceReport (tokenize text)) := by
  rw [braceProblems, List.map_map]
  refine List.map_congr_left fun issue hissue => ?_
  have hkind := kindAt_of_mem_checkBraces hissue
  have hcounted := isCounted_positionAt text issue.index
  rw [Function.comp_apply, braceReport, hkind]
  cases issue with
  | unterminated i => exact ofProblem_eq .unterminatedBlock hcounted
  | unmatched j => exact ofProblem_eq .unmatchedBrace hcounted

/-! ## Words -/

/-- The error tokens, in order. -/
def errorTokens (tokens : List Token) : List Token :=
  tokens.filter fun token => token.kind = .error

/-- The report of an error token. -/
def Token.errorReport (token : Token) : Diagnostic :=
  if token.text.toList.head?.any fun c => c = '"' || c = '\'' then
    ⟨.error, token.position, Problem.unterminatedString.message, some "X003"⟩
  else
    ⟨.error, token.position, (Problem.unexpectedCharacter token.text).message, some "X004"⟩

-- An error token is an unterminated text if it begins with a quote.
theorem isUnterminatedString_of_error {token : Token} (h : token.kind = .error) :
    token.isUnterminatedString = token.text.toList.head?.any fun c => c = '"' || c = '\'' := by
  rw [Token.isUnterminatedString, decide_eq_true h, Bool.true_and]
  cases token.text.toList <;> rfl

theorem wordProblems_eq_map (text : String) :
    wordProblems (tokenize text) = (errorTokens (tokenize text)).map Token.errorReport := by
  refine List.map_congr_left fun token htoken => ?_
  rcases List.mem_filter.mp htoken with ⟨hmem, hkind⟩
  have hcounted := isCounted_of_mem_tokenize hmem
  rw [Token.errorReport, isUnterminatedString_of_error (of_decide_eq_true hkind)]
  split
  · exact ofProblem_eq _ hcounted
  · exact ofProblem_eq _ hcounted

/-! ## Places -/

-- A place is made from a token of the script.
theorem mem_tokens_of_occurrence {tokens : List Token} {place : Occurrence}
    (h : place ∈ occurrences tokens) : place.token ∈ tokens := by
  have hmem := List.mem_map_of_mem (f := Occurrence.token) h
  rwa [occurrences, occurrencesAfter_map_token] at hmem

/-- The statements of the sections of declarations are parts of the script. -/
theorem mem_occurrences_of_declaring {grammar : Grammar} {tokens : List Token}
    {keyword : Option Nat} {statement : Statement} {place : Occurrence}
    (h : statement ∈ (outline tokens keyword).parts.flatMap (Part.declaring grammar))
    (hplace : place ∈ statement.places) : place ∈ occurrences tokens := by
  rcases List.mem_flatMap.mp h with ⟨part, hpart, hdeclaring⟩
  unfold Part.declaring at hdeclaring
  split at hdeclaring
  · have hstatements : place ∈ (statements part.places).flatMap Statement.places :=
      List.mem_flatMap.mpr ⟨statement, hdeclaring, hplace⟩
    have hbody := (statementsAfter_places_sublist [] part.places).subset hstatements
    exact (places_sublist_outline tokens keyword).subset (List.mem_flatMap.mpr ⟨part, hpart, hbody⟩)
  · cases hdeclaring

/-- What is wrong with a declaration is wrong at a token of the script. -/
theorem exists_place_of_declaring (grammar : Grammar) (tokens : List Token) (keyword : Option Nat)
    (block : String) (known : OrderedTable Declaration) :
    ∀ cause ∈ causesOf block known
        ((outline tokens keyword).parts.flatMap (Part.declaring grammar)),
      ∃ place ∈ occurrences tokens, cause.2 = place.token.position := by
  intro cause hcause
  rcases exists_place_of_mem_causesOf _ _ _ cause hcause with
    ⟨statement, hstatement, place, hplace, hposition⟩
  exact ⟨place, mem_occurrences_of_declaring hstatement hplace, hposition⟩

-- A report at a token of the text has the position of the token.
theorem exists_token_of_occurrence {text : String} {place : Occurrence}
    (h : place ∈ occurrences (tokenize text)) (problem : Problem) :
    ∃ token ∈ tokenize text,
      (Diagnostic.ofProblem problem place.token.position).position = token.position := by
  have hmem := mem_tokens_of_occurrence h
  exact ⟨place.token, hmem, ofProblem_position problem (isCounted_of_mem_tokenize hmem)⟩

/-- The notes of a document, behind its errors. -/
def notesOf (asked : Option String) (text : String) : List Diagnostic :=
  schemeProblems (tokenize text) asked ++
    sectionProblems (parseWith asked text).scheme (parseWith asked text).blocks ++
      (readSymbols (parseWith asked text).scheme.grammar (partsOfText text)).problems

theorem severity_of_isNote {diagnostic : Diagnostic} (h : diagnostic.IsNote) :
    diagnostic.severity ≠ .error := by
  rcases h with ⟨problem, position, rfl, hseverity⟩
  exact hseverity

/-- The readers of schemes, sections and declarations report nothing but notes. -/
theorem severity_of_mem_notesOf {asked : Option String} {text : String} :
    ∀ note ∈ notesOf asked text, note.severity ≠ .error := by
  intro note h
  rcases List.mem_append.mp h with h | h
  · rcases List.mem_append.mp h with h | h
    · exact severity_of_isNote ((isFrom_of_mem_schemeProblems h).isNote nofun nofun)
    · exact severity_of_isNote ((isFrom_of_mem_sectionProblems h).isNote nofun nofun)
  · exact severity_of_isNote ((isFrom_of_mem_readSymbols h).isNote nofun nofun)

/-- A note is at a token of the text, but for the one about a scheme that was
    asked for, which is at the start. -/
theorem position_of_mem_notes {asked : Option String} {text : String} {note : Diagnostic}
    (h : note ∈ notesOf asked text) :
    (∃ token ∈ tokenize text, note.position = token.position) ∨
      note.code = some "X103" ∧ note.position = Position.start := by
  rcases List.mem_append.mp h with h | h
  · rcases List.mem_append.mp h with h | h
    · rcases List.mem_append.mp h with h | h
      · split at h
        · split at h
          · rw [List.mem_singleton.mp h]
            -- The unknown scheme is the one note that is about no word.
            exact Or.inr ⟨rfl, ofProblem_position _ Position.isCounted_start⟩
          · cases h
        · cases h
      · split at h
        · split at h
          · -- A missing keyword is reported at the first word.
            next token hfind =>
            have hmem := List.mem_of_find?_eq_some hfind
            rw [List.mem_singleton.mp h]
            exact Or.inl
              ⟨token, hmem, ofProblem_position _ (isCounted_of_mem_tokenize hmem)⟩
          · cases h
        · cases h
    · rcases List.mem_map.mp h with ⟨block, hblock, rfl⟩
      -- A section stands where its name does.
      rcases List.mem_map.mp (List.mem_filter.mp hblock).1 with ⟨part, hpart, rfl⟩
      rcases exists_place_of_heading hpart with ⟨place, hplace, hposition⟩
      rw [hposition]
      exact Or.inl (exists_token_of_occurrence hplace _)
  · rw [readSymbols_causes] at h
    rcases List.mem_map.mp h with ⟨cause, hcause, rfl⟩
    -- And a statement where its first word does.
    rcases exists_place_of_declaring _ _ _ _ _ cause hcause with ⟨place, hplace, hposition⟩
    rw [reportOf, hposition]
    exact Or.inl (exists_token_of_occurrence hplace _)

theorem exists_token_of_mem_notes {asked : Option String} {text : String} {note : Diagnostic}
    (h : note ∈ notesOf asked text) (hcode : note.code ≠ some "X103") :
    ∃ token ∈ tokenize text, note.position = token.position :=
  (position_of_mem_notes h).resolve_right fun hscheme => hcode hscheme.1

/-! ## Documents -/

/-- A document has the tokens of a text and reports their errors and no others, each
    at its place, and whatever else it reports stands at a token too. -/
structure Document.ErrorsExact (document : Document) (asked : Option String)
    (text : String) : Prop extends document.IsReadingOf asked text where
  /-- First come the error tokens, then the braces without a partner, each in
      the order of the script, and no error comes behind them. -/
  errors : ∃ (braces : List Nat) (notes : List Diagnostic), braces.Pairwise (· < ·) ∧
    (∀ index, index ∈ braces ↔ Unpartnered document.tokens index) ∧
    document.diagnostics = (errorTokens document.tokens).map Token.errorReport ++
      braces.map (braceReport document.tokens) ++ notes ∧
    ∀ note ∈ notes, note.severity ≠ .error
  /-- A document has errors if a token is one or a brace has no partner. -/
  hasErrors : hasErrors document.diagnostics ↔
    (∃ token ∈ document.tokens, token.kind = .error) ∨
      ∃ index, Unpartnered document.tokens index
  /-- A diagnostic is at a token, unless it is about a scheme asked for. -/
  placed : ∀ diagnostic ∈ document.diagnostics, diagnostic.code ≠ some "X103" →
    ∃ token ∈ document.tokens, diagnostic.position = token.position

/-- The diagnostics are the reports of words, then those of braces, then the notes. -/
theorem diagnostics_eq_append_notes (asked : Option String) (text : String) :
    (parseWith asked text).diagnostics =
      (errorTokens (tokenize text)).map Token.errorReport ++
        ((checkBraces (tokenize text)).map BraceIssue.index).map (braceReport (tokenize text)) ++
          notesOf asked text := by
  rw [← wordProblems_eq_map, ← braceProblems_eq_map, notesOf, diagnostics_parseWith]
  simp only [List.append_assoc]

theorem severity_errorReport (token : Token) : token.errorReport.severity = .error := by
  unfold Token.errorReport
  split <;> rfl

theorem severity_braceReport (tokens : List Token) (index : Nat) :
    (braceReport tokens index).severity = .error := by
  unfold braceReport
  split <;> rfl

theorem position_errorReport (token : Token) : token.errorReport.position = token.position := by
  unfold Token.errorReport
  split <;> rfl

theorem position_braceReport (tokens : List Token) (index : Nat) :
    (braceReport tokens index).position = positionAt tokens index := by
  unfold braceReport
  split <;> rfl

/-- A brace without a partner is a token. -/
theorem exists_token_of_unpartnered {tokens : List Token} {index : Nat}
    (h : Unpartnered tokens index) : ∃ token ∈ tokens, positionAt tokens index = token.position := by
  have hlt : index < tokens.length := by
    rcases h with ⟨hkind, -⟩ | ⟨hkind, -⟩
    · exact lt_of_kindAt hkind
    · exact lt_of_kindAt hkind
  refine ⟨tokens[index], List.getElem_mem hlt, ?_⟩
  rw [positionAt, List.getElem?_eq_getElem hlt]

/-- Every document reports the errors of its tokens and no others. -/
theorem parseWith_errorsExact (asked : Option String) (text : String) :
    (parseWith asked text).ErrorsExact asked text where
  toIsReadingOf := parseWith_isReadingOf asked text
  errors := by
    refine ⟨(checkBraces (tokenize text)).map BraceIssue.index, notesOf asked text, ?_,
      mem_checkBraces_index _, diagnostics_eq_append_notes asked text, severity_of_mem_notesOf⟩
    exact List.pairwise_map.mpr (checkBraces_pairwise _)
  hasErrors := by
    rw [diagnostics_eq_append_notes, hasErrors, List.any_append, List.any_append, List.any_map,
      List.any_map, Bool.or_eq_true, Bool.or_eq_true]
    constructor
    · -- A diagnostic that is an error is one of the first two lists.
      rintro ((h | h) | h)
      · rcases List.any_eq_true.mp h with ⟨token, htoken, -⟩
        rcases List.mem_filter.mp htoken with ⟨hmem, hkind⟩
        exact Or.inl ⟨token, hmem, of_decide_eq_true hkind⟩
      · rcases List.any_eq_true.mp h with ⟨index, hindex, -⟩
        exact Or.inr ⟨index, (mem_checkBraces_index _ index).mp hindex⟩
      · rcases List.any_eq_true.mp h with ⟨note, hnote, herror⟩
        exact absurd (of_decide_eq_true herror) (severity_of_mem_notesOf note hnote)
    · -- Every error token and every brace without a partner is reported, and as an error.
      rintro (⟨token, hmem, hkind⟩ | ⟨index, hindex⟩)
      · refine Or.inl (Or.inl (List.any_eq_true.mpr ⟨token, ?_, ?_⟩))
        · exact List.mem_filter.mpr ⟨hmem, decide_eq_true hkind⟩
        · exact decide_eq_true (severity_errorReport token)
      · refine Or.inl (Or.inr (List.any_eq_true.mpr ⟨index, ?_, ?_⟩))
        · exact (mem_checkBraces_index _ index).mpr hindex
        · exact decide_eq_true (severity_braceReport _ index)
  placed := by
    intro diagnostic h hcode
    rw [diagnostics_eq_append_notes] at h
    -- Reports stand at their own token, and notes do by `exists_token_of_mem_notes`.
    rcases List.mem_append.mp h with h | h
    · rcases List.mem_append.mp h with h | h
      · rcases List.mem_map.mp h with ⟨token, htoken, rfl⟩
        exact ⟨token, (List.mem_filter.mp htoken).1, position_errorReport token⟩
      · rcases List.mem_map.mp h with ⟨index, hindex, rfl⟩
        rw [position_braceReport]
        exact exists_token_of_unpartnered ((mem_checkBraces_index _ index).mp hindex)
    · exact exists_token_of_mem_notes h hcode

end StackScript
