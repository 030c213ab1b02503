import StackScript.Proofs.Document.Error
import StackScript.Proofs.Scheme

/-!
# A Scheme Asked For

Whoever reads a text can ask for a scheme by name. The name replaces what the script
says of itself, and it is used late: words, header and sections are read before any
scheme is known, and only the vocabulary of the sections and the choice of declarations
depend on it. So a name that says what the script says changes nothing, and a name that
no scheme has is reported and changes nothing else.

The reports about the scheme stand between two lists that are the same for every name
that leaves the scheme as it is, `problemsBefore` and `problemsAfter`. Whatever a name
changes then is found by comparing what stands between them.

## Main definitions

* `AsksFor`: What a name that is asked for changes in the reading of a text.
* `problemsBefore`, `problemsAfter`: The reports around those about the scheme.

## Theorems

* `parseWith_eq`: A name that leaves the scheme changes the reports about it only.
* `code_of_mem_problems`: No other reader reports anything about the scheme.
* `parseWith_asksFor`: What a name that is asked for changes.
-/

namespace StackScript

/-- What a name that is asked for changes in the reading of a text. -/
structure AsksFor (name text : String) : Prop where
  /-- The words are the same. -/
  tokens : (parseWith (some name) text).tokens = (parse text).tokens
  /-- The header is the same. -/
  header : (parseWith (some name) text).header = (parse text).header
  /-- The sections are the same. -/
  blocks : (parseWith (some name) text).blocks = (parse text).blocks
  /-- A name that no scheme has is reported, once, behind the errors and in front of
      all else, and changes nothing. -/
  unknown : (∀ scheme : Scheme, ¬ scheme.IsNamedBy name) →
    ∃ errors notes, (parse text).diagnostics = errors ++ notes ∧
      (∀ error ∈ errors, error.severity = .error) ∧ (∀ note ∈ notes, note.severity ≠ .error) ∧
      (∀ other ∈ errors ++ notes, other.code ≠ some "X103") ∧
      parseWith (some name) text =
        { parse text with
          diagnostics := errors ++
            ⟨.warning, ⟨1, 1⟩, (Problem.unknownScheme name).message, some "X103"⟩ :: notes }
  /-- A name that says what the script says changes nothing. -/
  declared : ∀ scheme index, detectKeyword (tokenize text) = some (scheme, index) →
    scheme.IsNamedBy name → parseWith (some name) text = parse text
  /-- A name that calls a script without a keyword a function takes away the hint that
      there is no keyword, and changes nothing else. -/
  fragment : detectKeyword (tokenize text) = none → Scheme.function.IsNamedBy name →
    ∃ front behind, (∀ other ∈ front ++ behind, other.code ≠ some "X101") ∧
      (parse text).diagnostics = front ++
        ((tokenize text).find? Token.isSignificant).toList.map
          (fun token => ⟨.hint, token.position, Problem.missingKeyword.message, some "X101"⟩) ++
        behind ∧
      parseWith (some name) text = { parse text with diagnostics := front ++ behind }

/-! ## The reports about the scheme -/

/-- What is reported before the scheme is looked at. -/
def problemsBefore (text : String) : List Diagnostic :=
  wordProblems (tokenize text) ++ braceProblems (tokenize text)

/-- What is reported once the scheme is known. -/
def problemsAfter (text : String) : List Diagnostic :=
  sectionProblems (parse text).scheme (parse text).blocks ++
    (readSymbols (parse text).scheme.grammar (partsOfText text)).problems

-- What is reported, in front of the scheme, about it, and behind it.
theorem diagnostics_parse (text : String) :
    (parse text).diagnostics =
      problemsBefore text ++ schemeProblems (tokenize text) none ++ problemsAfter text := by
  rw [parse, diagnostics_parseWith, problemsBefore, problemsAfter, parse]
  simp only [List.append_assoc]

/-- If the scheme stays, then so does everything but the reports about it. -/
theorem parseWith_eq {asked : Option String} {text : String}
    (h : (asked.bind Scheme.ofName?).getD (declaredScheme (tokenize text)) =
      declaredScheme (tokenize text)) :
    parseWith asked text =
      { parse text with
        diagnostics :=
          problemsBefore text ++ schemeProblems (tokenize text) asked ++ problemsAfter text } := by
  have hscheme : (parseWith asked text).scheme = (parse text).scheme := h
  have hsymbols : (parseWith asked text).symbols = (parse text).symbols := by
    rw [symbols_parseWith, hscheme, parse, symbols_parseWith]
  have hdiagnostics : (parseWith asked text).diagnostics =
      problemsBefore text ++ schemeProblems (tokenize text) asked ++ problemsAfter text := by
    rw [diagnostics_parseWith, hscheme, problemsBefore, problemsAfter]
    simp only [List.append_assoc]
    rfl
  -- The two readings agree in every field that is not named here.
  calc
    parseWith asked text = { parse text with
        scheme := (parseWith asked text).scheme
        symbols := (parseWith asked text).symbols
        diagnostics := (parseWith asked text).diagnostics } := rfl
    _ = _ := by rw [hscheme, hsymbols, hdiagnostics]

/-- An unknown name is reported at the start of the text, in front of what is reported
    without it. -/
theorem schemeProblems_unknown {name : String} (h : Scheme.ofName? name = none)
    (tokens : List Token) :
    schemeProblems tokens (some name) =
      ⟨.warning, ⟨1, 1⟩, (Problem.unknownScheme name).message, some "X103"⟩ ::
        schemeProblems tokens none := by
  unfold schemeProblems
  rw [Option.bind_some, h, Option.bind_none]
  rfl

-- A script with a keyword leaves nothing to report.
theorem schemeProblems_declared {tokens : List Token} {found : Scheme × Nat}
    (h : detectKeyword tokens = some found) : schemeProblems tokens none = [] := by
  rw [schemeProblems, h]
  rfl

/-- A script without one is told so at its first word, if it has any. -/
theorem schemeProblems_fragment {text : String} (h : detectKeyword (tokenize text) = none) :
    schemeProblems (tokenize text) none =
      ((tokenize text).find? Token.isSignificant).toList.map fun token =>
        ⟨.hint, token.position, Problem.missingKeyword.message, some "X101"⟩ := by
  rw [schemeProblems, h]
  cases hfirst : (tokenize text).find? Token.isSignificant with
  | none => rfl
  | some token =>
      have hcounted := isCounted_of_mem_tokenize (List.mem_of_find?_eq_some hfirst)
      exact congrArg (· :: []) (ofProblem_eq .missingKeyword hcounted)

/-! ## The other reports -/

/-- What comes in front is about words and braces, and these are errors. -/
theorem severity_of_mem_problemsBefore {text : String} :
    ∀ error ∈ problemsBefore text, error.severity = .error := by
  intro error h
  rw [problemsBefore, wordProblems_eq_map, braceProblems_eq_map] at h
  rcases List.mem_append.mp h with h | h
  · rcases List.mem_map.mp h with ⟨token, -, rfl⟩
    exact severity_errorReport token
  · rcases List.mem_map.mp h with ⟨index, -, rfl⟩
    exact severity_braceReport _ index

/-- No other reader reports anything about the scheme. -/
theorem code_of_mem_problems {text : String} :
    ∀ other ∈ problemsBefore text ++ problemsAfter text,
      other.code ≠ some "X101" ∧ other.code ≠ some "X103" := by
  intro other h
  have hcodes : ∀ {reader : Reader}, reader ≠ .scheme → other.IsFrom reader →
      other.code ≠ some "X101" ∧ other.code ≠ some "X103" := fun hne hfrom =>
    ⟨hfrom.code_ne hne fun hcode => Problem.reader_of_code_scheme (Or.inl hcode),
      hfrom.code_ne hne fun hcode => Problem.reader_of_code_scheme (Or.inr hcode)⟩
  simp only [problemsBefore, problemsAfter, List.mem_append] at h
  rcases h with (hword | hbrace) | (hsection | hsymbol)
  · exact hcodes Reader.noConfusion (isFrom_of_mem_wordProblems hword)
  · exact hcodes Reader.noConfusion (isFrom_of_mem_braceProblems hbrace)
  · exact hcodes Reader.noConfusion (isFrom_of_mem_sectionProblems hsection)
  · exact hcodes Reader.noConfusion (isFrom_of_mem_readSymbols hsymbol)

/-- Where no scheme is asked for, at most the keyword is missed. -/
theorem code_of_mem_schemeProblems {text : String} :
    ∀ diagnostic ∈ schemeProblems (tokenize text) none, diagnostic.code ≠ some "X103" := by
  intro diagnostic h
  cases hkeyword : detectKeyword (tokenize text) with
  | some found =>
      rw [schemeProblems_declared hkeyword] at h
      cases h
  | none =>
      rw [schemeProblems_fragment hkeyword] at h
      rcases List.mem_map.mp h with ⟨token, -, rfl⟩
      exact fun hcode => absurd (Option.some.inj hcode) (by decide)

/-- A scheme that does not exist is reported only to whoever asks for one. -/
theorem code_of_mem_parse {text : String} :
    ∀ diagnostic ∈ (parse text).diagnostics, diagnostic.code ≠ some "X103" := by
  intro diagnostic h
  rw [diagnostics_parse, List.append_assoc, List.mem_append, List.mem_append] at h
  rcases h with hbefore | hscheme | hafter
  · exact (code_of_mem_problems diagnostic (List.mem_append_left _ hbefore)).2
  · exact code_of_mem_schemeProblems diagnostic hscheme
  · exact (code_of_mem_problems diagnostic (List.mem_append_right _ hafter)).2

/-- What comes behind is what `notesOf` lists. -/
theorem severity_of_mem_behind {text : String} :
    ∀ note ∈ schemeProblems (tokenize text) none ++ problemsAfter text,
      note.severity ≠ .error := by
  have hnotes : notesOf none text = schemeProblems (tokenize text) none ++ problemsAfter text := by
    rw [notesOf, problemsAfter, parse, List.append_assoc]
  exact hnotes ▸ severity_of_mem_notesOf

/-! ## All of it -/

/-- What a name that is asked for changes in the reading of a text. -/
theorem parseWith_asksFor (name text : String) : AsksFor name text where
  tokens := rfl
  header := rfl
  blocks := rfl
  unknown := by
    intro hname
    have hnone := Scheme.ofName?_eq_none_iff.mpr hname
    have hdiagnostics := diagnostics_parse text
    rw [List.append_assoc] at hdiagnostics
    refine ⟨problemsBefore text, _, hdiagnostics, severity_of_mem_problemsBefore,
      severity_of_mem_behind, hdiagnostics ▸ code_of_mem_parse, ?_⟩
    rw [parseWith_eq (by rw [Option.bind_some, hnone]; rfl), schemeProblems_unknown hnone,
      List.append_assoc, List.cons_append]
  declared := by
    intro scheme index hkeyword hname
    have hsome := Scheme.ofName?_eq_some_iff.mpr hname
    rw [parseWith_eq (by rw [Option.bind_some, hsome, declaredScheme, hkeyword]; rfl),
      schemeProblems_of_ofName? hsome, ← schemeProblems_declared hkeyword, ← diagnostics_parse]
  fragment := by
    intro hkeyword hname
    have hsome := Scheme.ofName?_eq_some_iff.mpr hname
    refine ⟨problemsBefore text, problemsAfter text,
      fun other hother => (code_of_mem_problems other hother).1, ?_, ?_⟩
    · rw [← schemeProblems_fragment hkeyword, diagnostics_parse]
    · rw [parseWith_eq (by rw [Option.bind_some, hsome, declaredScheme, hkeyword]; rfl),
        schemeProblems_of_ofName? hsome, List.append_nil]

end StackScript
