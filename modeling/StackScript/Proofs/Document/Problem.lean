import StackScript.Document
import StackScript.Proofs.Symbols.Cause

/-!
# Where Diagnostics Come From

Five readers report problems: of words, of braces, of the scheme, of sections and of
declarations. No two of them report the same problem, so a code tells the reader, and
whoever looks for a code among the diagnostics has to look at the reports of one reader
only, `Diagnostic.IsFrom.code_ne`. Errors are reported by the first two. All others leave
notes, which are reports of a problem that is no error.

A document keeps the words and the sections that it has been read from, and most of what
is known about its reports and tables is said in terms of these. That they are the words
and the sections of the text is `Document.IsReadingOf`, once for all such statements.

## Main definitions

* `Reader`, `Problem.reader`: The reader that reports a problem.
* `Diagnostic.IsFrom`: A diagnostic is from a reader.
* `Diagnostic.IsNote`: The report of a problem that is no error.
* `partsOfText`: The sections of a text with their tokens.
* `Document.IsReadingOf`: A document keeps the words and the outline of a text.

## Theorems

* `isFrom_of_mem_wordProblems`, and others like it for each reader: Where reports are from.
* `Diagnostic.IsFrom.code_ne`: A reader has its own codes.
* `Diagnostic.IsFrom.isNote`: All but two readers leave notes.
* `parseWith_isReadingOf`: The reading of a text keeps its words and its outline.
* `mem_braceProblems`: The reports of open blocks come from the braces.
-/

namespace StackScript

/-! ## Readers -/

/-- The readers that report problems. -/
inductive Reader where
  | words
  | braces
  | scheme
  | sections
  | declarations

/-- The reader that reports the problem. -/
def Problem.reader : Problem → Reader
  | unterminatedString | unexpectedCharacter _ => .words
  | unterminatedBlock | unmatchedBrace => .braces
  | missingKeyword | unknownScheme _ => .scheme
  | unknownSection _ _ => .sections
  | unrecognizedDeclaration _ | duplicateDeclaration _ | enumWithoutValues _ => .declarations

/-- The diagnostic is the report of a problem by the reader. -/
def Diagnostic.IsFrom (reader : Reader) (diagnostic : Diagnostic) : Prop :=
  ∃ problem position, diagnostic = .ofProblem problem position ∧ problem.reader = reader

/-- The report of a problem that is no error. -/
def Diagnostic.IsNote (diagnostic : Diagnostic) : Prop :=
  ∃ problem position, diagnostic = .ofProblem problem position ∧ problem.severity ≠ .error

namespace Problem

/-- Only words and braces can be errors. -/
theorem severity_ne_error {problem : Problem} (hwords : problem.reader ≠ .words)
    (hbraces : problem.reader ≠ .braces) : problem.severity ≠ .error := by
  cases problem with
  | unterminatedString => exact absurd rfl hwords
  | unexpectedCharacter text => exact absurd rfl hwords
  | unterminatedBlock => exact absurd rfl hbraces
  | unmatchedBrace => exact absurd rfl hbraces
  | _ => exact Severity.noConfusion

/-- No two problems of different kinds share a code, so the code of an open block tells its
    cause. -/
theorem code_eq_unterminatedBlock {problem : Problem} (h : problem.code = "X001") :
    problem = .unterminatedBlock := by
  cases problem with
  | unterminatedBlock => rfl
  | _ => simp [code] at h

-- Every code is compared with those of all problems.
theorem reader_of_code_braces {problem : Problem} (h : problem.code = "X001") :
    problem.reader = .braces := by
  rw [code_eq_unterminatedBlock h]
  rfl

theorem reader_of_code_scheme {problem : Problem}
    (h : problem.code = "X101" ∨ problem.code = "X103") : problem.reader = .scheme := by
  cases problem with
  | missingKeyword => rfl
  | unknownScheme name => rfl
  | _ => simp [code] at h

theorem reader_of_code_declarations {problem : Problem}
    (h : problem.code = "X104" ∨ problem.code = "X105") : problem.reader = .declarations := by
  cases problem with
  | unrecognizedDeclaration block => rfl
  | duplicateDeclaration name => rfl
  | _ => simp [code] at h

end Problem

namespace Diagnostic.IsFrom

variable {reader other : Reader} {diagnostic : Diagnostic}

/-- The reports of a reader do not have the codes of another one. -/
theorem code_ne (h : diagnostic.IsFrom reader) (hne : reader ≠ other) {code : String}
    (hcode : ∀ {problem : Problem}, problem.code = code → problem.reader = other) :
    diagnostic.code ≠ some code := by
  rcases h with ⟨problem, position, rfl, hreader⟩
  exact fun heq => hne (hreader.symm.trans (hcode (Option.some.inj heq)))

/-- All readers but those of words and of braces leave notes. -/
theorem isNote (h : diagnostic.IsFrom reader) (hwords : reader ≠ .words)
    (hbraces : reader ≠ .braces) : diagnostic.IsNote := by
  rcases h with ⟨problem, position, rfl, rfl⟩
  exact ⟨problem, position, rfl, Problem.severity_ne_error hwords hbraces⟩

end Diagnostic.IsFrom

/-- An error token is a string without an end, or no word at all. -/
theorem isFrom_of_mem_wordProblems {tokens : List Token} {diagnostic : Diagnostic}
    (h : diagnostic ∈ wordProblems tokens) : diagnostic.IsFrom .words := by
  rcases List.mem_map.mp h with ⟨token, -, rfl⟩
  split
  · exact ⟨_, _, rfl, rfl⟩
  · exact ⟨_, _, rfl, rfl⟩

/-- Both kinds of braces have the one code. -/
theorem isFrom_of_mem_braceProblems {tokens : List Token} {diagnostic : Diagnostic}
    (h : diagnostic ∈ braceProblems tokens) : diagnostic.IsFrom .braces := by
  rcases List.mem_map.mp h with ⟨issue, -, rfl⟩
  cases issue with
  | unterminated i => exact ⟨_, _, rfl, rfl⟩
  | unmatched j => exact ⟨_, _, rfl, rfl⟩

/-- An unknown scheme or none. -/
theorem isFrom_of_mem_schemeProblems {tokens : List Token} {asked : Option String}
    {diagnostic : Diagnostic} (h : diagnostic ∈ schemeProblems tokens asked) :
    diagnostic.IsFrom .scheme := by
  rcases List.mem_append.mp h with h | h
  · -- A scheme was asked for, and does not exist.
    split at h
    · split at h
      · rw [List.mem_singleton.mp h]
        exact ⟨_, _, rfl, rfl⟩
      · cases h
    · cases h
  · -- The script declares none.
    split at h
    · split at h
      · rw [List.mem_singleton.mp h]
        exact ⟨_, _, rfl, rfl⟩
      · cases h
    · cases h

-- A section with a name that the scheme does not have.
theorem isFrom_of_mem_sectionProblems {scheme : Scheme} {blocks : List Section}
    {diagnostic : Diagnostic} (h : diagnostic ∈ sectionProblems scheme blocks) :
    diagnostic.IsFrom .sections := by
  rcases List.mem_map.mp h with ⟨block, -, rfl⟩
  exact ⟨_, _, rfl, rfl⟩

/-- The problems of a table are the causes that its statements give. -/
theorem isFrom_of_mem_readSymbols {grammar : Grammar} {parts : List Part}
    {diagnostic : Diagnostic} (h : diagnostic ∈ (readSymbols grammar parts).problems) :
    diagnostic.IsFrom .declarations := by
  rw [readSymbols_causes] at h
  rcases List.mem_map.mp h with ⟨cause, hcause, rfl⟩
  refine ⟨cause.1, cause.2, rfl, ?_⟩
  refine forall_mem_causesOf (p := fun cause => cause.1.reader = .declarations)
    (fun statement _ known cause hmem => ?_) _ cause hcause
  rcases causes_cases hmem with ⟨-, rfl⟩ | ⟨name, declaration, -, rfl | rfl⟩
  · rfl
  · rfl
  · rfl

/-! ## Documents -/

/-- The sections of a text with their tokens. -/
def partsOfText (text : String) : List Part :=
  (outline (tokenize text) ((detectKeyword (tokenize text)).map (·.2))).parts

/-- A document keeps the words and the outline of a text. What else is said about a
    document by its words and sections is thereby said about the text. -/
structure Document.IsReadingOf (document : Document) (asked : Option String)
    (text : String) : Prop where
  /-- Its words are those of the text. -/
  tokens : document.tokens = tokenize text
  /-- Its scheme is the one asked for, or else the one that the text declares. -/
  scheme : document.scheme =
    (asked.bind Scheme.ofName?).getD (declaredScheme (tokenize text))
  /-- Its header is that of the outline. -/
  header : document.header =
    (outline (tokenize text) ((detectKeyword (tokenize text)).map (·.2))).header
  /-- Its sections are those of the outline. -/
  blocks : document.blocks =
    (outline (tokenize text) ((detectKeyword (tokenize text)).map (·.2))).sections

/-- The reading of a text keeps its words and its outline. -/
theorem parseWith_isReadingOf (asked : Option String) (text : String) :
    (parseWith asked text).IsReadingOf asked text where
  tokens := rfl
  scheme := rfl
  header := rfl
  blocks := rfl

/-- The diagnostics of a document are those of the five readers, one behind the other. -/
theorem diagnostics_parseWith (asked : Option String) (text : String) :
    (parseWith asked text).diagnostics =
      wordProblems (tokenize text) ++ braceProblems (tokenize text) ++
          schemeProblems (tokenize text) asked ++
        sectionProblems (parseWith asked text).scheme (parseWith asked text).blocks ++
      (readSymbols (parseWith asked text).scheme.grammar (partsOfText text)).problems := rfl

-- The table is read from the parts of the text by the grammar of the scheme.
theorem symbols_parseWith (asked : Option String) (text : String) :
    (parseWith asked text).symbols =
      (readSymbols (parseWith asked text).scheme.grammar (partsOfText text)).table := rfl

-- Nothing is wrong with a scheme that exists and was asked for.
theorem schemeProblems_of_ofName? {name : String} {scheme : Scheme}
    (h : Scheme.ofName? name = some scheme) (tokens : List Token) :
    schemeProblems tokens (some name) = [] := by
  rw [schemeProblems, Option.bind_some, h]
  simp

/-- The reports of open blocks come from the braces. -/
theorem mem_braceProblems {asked : Option String} {text : String} {diagnostic : Diagnostic}
    (h : diagnostic ∈ (parseWith asked text).diagnostics) (hcode : diagnostic.code = some "X001") :
    diagnostic ∈ braceProblems (tokenize text) := by
  have hother : ∀ {reader : Reader}, reader ≠ .braces → ¬ diagnostic.IsFrom reader :=
    fun hne hfrom => hfrom.code_ne hne Problem.reader_of_code_braces hcode
  rw [diagnostics_parseWith] at h
  simp only [List.mem_append] at h
  rcases h with (((hword | hbrace) | hscheme) | hsection) | hsymbol
  · exact absurd (isFrom_of_mem_wordProblems hword) (hother Reader.noConfusion)
  · exact hbrace
  · exact absurd (isFrom_of_mem_schemeProblems hscheme) (hother Reader.noConfusion)
  · exact absurd (isFrom_of_mem_sectionProblems hsection) (hother Reader.noConfusion)
  · exact absurd (isFrom_of_mem_readSymbols hsymbol) (hother Reader.noConfusion)

end StackScript
