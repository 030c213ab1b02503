import StackScript.Proofs.Document.Error

/-!
# No Declaration Is Lost

Whatever stands in a section of declarations ends up somewhere: in the table,
or in a hint at the place where it stands. The reader has one way to pass over
a statement in silence, which is for statements that begin with a closing
brace, and such a statement is never offered to it.

The statements that should be in one of the two are those of `Document.declaring`. It
finds them by the sections of a document and their indices, which are those of the text,
`Document.IsReadingOf`, and so does not depend on the reader that has made the table.

Hints carry no more than a position. They can be told apart because the
statements of all sections keep the order of the script, so that no two of them
begin at the same place.

## Main definitions

* `Document.declaring`: The statements in the sections of declarations.
* `Document.declared`: The table that they are read into.
* `Document.hintOf`, `Document.hintsAt`: The hints that a statement declares
  nothing.
* `Document.DeclarationsExact`: Every statement is in the table or in a hint.

## Theorems

* `declaring_parseWith`: The statements that are read.
* `filter_code_diagnostics`: The hints about declarations.
* `declaring_pairwise`: The statements begin one behind the other.
* `filter_unrecognized`, `hintsAt_first`: The hints that they declare nothing.
* `parseWith_declarationsExact`: No declaration is lost.
-/

namespace StackScript

namespace Document

/-- The statements in the sections of declarations. -/
def declaring (document : Document) : List Statement :=
  (document.blocks.filter fun block =>
      document.scheme.grammar.declarationBlock = some block.name).flatMap fun block =>
    statements (block.inside document.tokens)

/-- The table of the declarations: the fields of a table, or else the inputs. -/
def declared (document : Document) : OrderedTable Declaration :=
  document.scheme.grammar.declared document.symbols

/-- The hints at a position that a statement declares nothing. -/
def hintsAt (document : Document) (position : Position) : List Diagnostic :=
  document.diagnostics.filter fun diagnostic =>
    diagnostic.code = some "X104" && diagnostic.position = position

/-- The hint that a statement declares nothing. -/
def hintOf (document : Document) (statement : Statement) : Diagnostic :=
  let block := document.scheme.grammar.declarationBlock.getD ""
  ⟨.hint, statement.first.token.position, (Problem.unrecognizedDeclaration block).message,
    some "X104"⟩

/-- How many of the diagnostics have a code. -/
def countCode (document : Document) (code : String) : Nat :=
  document.diagnostics.countP fun diagnostic => diagnostic.code = some code

end Document

/-! ## The statements -/

/-- Going through the sections of a kind is going through all parts and passing over the
    others. -/
theorem flatMap_heading {α : Type} {p : Section → Bool} {f : Section → List α}
    {g : Part → List α} {parts : List Part}
    (h : ∀ part ∈ parts, g part = if p part.heading then f part.heading else []) :
    ((parts.map Part.heading).filter p).flatMap f = parts.flatMap g := by
  induction parts with
  | nil => rfl
  | cons part parts ih =>
      have hrest := ih fun other hother => h other (List.mem_cons_of_mem _ hother)
      rw [List.map_cons, List.flatMap_cons, h part List.mem_cons_self, ← hrest]
      by_cases hp : p part.heading
      · rw [List.filter_cons_of_pos hp, List.flatMap_cons, if_pos hp]
      · rw [List.filter_cons_of_neg hp, if_neg hp, List.nil_append]

/-- The statements of the sections, as the sections tell where they are, are
    those that are read. -/
theorem declaring_parseWith (asked : Option String) (text : String) :
    (parseWith asked text).declaring =
      (partsOfText text).flatMap (Part.declaring (parseWith asked text).scheme.grammar) := by
  refine flatMap_heading fun part hpart => ?_
  have hinside : part.places = part.heading.inside (tokenize text) := places_eq_inside hpart
  simp only [Part.declaring, hinside, decide_eq_true_eq]
  rfl

/-- The table of a document is that of its statements, read one after the other. -/
theorem declared_parseWith (asked : Option String) (text : String) :
    (parseWith asked text).declared =
      declareAll .empty (parseWith asked text).declaring := by
  rw [declaring_parseWith, ← declared_readSymbols]
  rfl

/-- The body of a section has no closing brace on its level. -/
theorem first_kind_of_mem_declaring {asked : Option String} {text : String} :
    ∀ statement ∈ (parseWith asked text).declaring,
      statement.first.token.kind ≠ .rBrace := by
  intro statement h
  rw [declaring_parseWith] at h
  rcases List.mem_flatMap.mp h with ⟨part, hpart, hstatement⟩
  unfold Part.declaring at hstatement
  split at hstatement
  · refine first_kind_of_ending ?_ statement hstatement
    -- The places of a part with a block end at the closing brace, which is left out; a part
    -- without one has no places.
    by_cases hblock : part.heading.hasBlock
    · rcases hasBlock_outline hpart hblock with ⟨l, opening, q, -, hhas⟩
      rw [Part.places, hhas.body]
      exact ending_untilClose_body 0 q
    · rw [body_outline hpart, Bool.not_eq_true, Option.isSome_eq_false_iff,
        Option.isNone_iff_eq_none] at hblock
      rw [Part.places, hblock]
      rfl
  · cases hstatement

/-- Every statement begins inside of its part, and later statements begin later. -/
theorem declaring_firsts_sublist (grammar : Grammar) (parts : List Part) :
    ((parts.flatMap (Part.declaring grammar)).map Statement.first).Sublist
      (parts.flatMap Part.places) := by
  induction parts with
  | nil => exact List.Sublist.refl _
  | cons part parts ih =>
      rw [List.flatMap_cons, List.flatMap_cons, List.map_append]
      refine List.Sublist.append ?_ ih
      unfold Part.declaring
      split
      · exact firsts_sublist part.places
      · exact List.nil_sublist _

-- The parts in turn stand one behind the other in the script.
theorem declaring_firsts_in_text (asked : Option String) (text : String) :
    ((parseWith asked text).declaring.map Statement.first).Sublist
      (occurrences (tokenize text)) := by
  rw [declaring_parseWith]
  exact (declaring_firsts_sublist _ _).trans (places_sublist_outline _ _)

/-- The statements of all sections of declarations begin one behind the
    other. -/
theorem declaring_pairwise (asked : Option String) (text : String) :
    (parseWith asked text).declaring.Pairwise fun a b =>
      a.first.token.position < b.first.token.position := by
  have hrising := (tokenizeAt_pairwise Place.start text.toList).imp And.right
  have htokens : (occurrences (tokenize text)).map Occurrence.token = tokenize text :=
    occurrencesAfter_map_token _ _
  change (tokenize text).Pairwise _ at hrising
  rw [← htokens, List.pairwise_map] at hrising
  have hfirsts := hrising.sublist (declaring_firsts_in_text asked text)
  rwa [List.pairwise_map] at hfirsts

/-! ## The hints -/

/-- The diagnostics with the code of a problem of declarations come from the
    declarations. -/
theorem filter_code_diagnostics {code : String} (hcode : code = "X104" ∨ code = "X105")
    (asked : Option String) (text : String) :
    (parseWith asked text).diagnostics.filter (fun diagnostic => diagnostic.code = some code) =
      ((causesOf ((parseWith asked text).scheme.grammar.declarationBlock.getD "") .empty
        (parseWith asked text).declaring).filter fun cause => cause.1.code = code).map
          reportOf := by
  -- The other readers have codes of their own.
  have hnone : ∀ {reader : Reader} {diagnostics : List Diagnostic}, reader ≠ .declarations →
      (∀ diagnostic ∈ diagnostics, diagnostic.IsFrom reader) →
        diagnostics.filter (fun diagnostic => diagnostic.code = some code) = [] := by
    intro reader diagnostics hne hfrom
    refine List.filter_eq_nil_iff.mpr fun diagnostic hmem hsome => ?_
    refine (hfrom diagnostic hmem).code_ne hne (fun hproblem => ?_) (of_decide_eq_true hsome)
    rw [← hproblem] at hcode
    exact Problem.reader_of_code_declarations hcode
  rw [diagnostics_parseWith, List.filter_append, List.filter_append, List.filter_append,
    List.filter_append, hnone Reader.noConfusion fun _ => isFrom_of_mem_wordProblems,
    hnone Reader.noConfusion fun _ => isFrom_of_mem_braceProblems,
    hnone Reader.noConfusion fun _ => isFrom_of_mem_schemeProblems,
    hnone Reader.noConfusion fun _ => isFrom_of_mem_sectionProblems, readSymbols_causes,
    ← declaring_parseWith, List.filter_map]
  simp only [List.nil_append]
  congr 2
  funext cause
  exact decide_eq_decide.mpr ⟨Option.some.inj, congrArg some⟩

theorem countCode_parseWith {code : String} (hcode : code = "X104" ∨ code = "X105")
    (asked : Option String) (text : String) :
    (parseWith asked text).countCode code =
      countCode code (causesOf ((parseWith asked text).scheme.grammar.declarationBlock.getD "")
        .empty (parseWith asked text).declaring) := by
  rw [Document.countCode, List.countP_eq_length_filter, filter_code_diagnostics hcode,
    List.length_map, ← List.countP_eq_length_filter]
  rfl

/-- Where positions rise, a position tells its statement. -/
theorem filter_first_position {among : List Statement} {statement : Statement}
    (h : among.Pairwise fun a b => a.first.token.position < b.first.token.position)
    (hmem : statement ∈ among) :
    (among.filter fun other =>
      other.first.token.position = statement.first.token.position) = [statement] := by
  induction h with
  | nil => cases hmem
  | @cons head among hhead _ ih =>
      -- Every other statement begins later, so it is not at the position of this one.
      rcases List.mem_cons.mp hmem with rfl | hmem
      · rw [List.filter_cons_of_pos (by simp), List.filter_eq_nil_iff.mpr]
        intro other hother heq
        have hless := hhead other hother
        rw [of_decide_eq_true heq] at hless
        exact Position.lt_irrefl _ hless
      · rw [List.filter_cons_of_neg, ih hmem]
        intro heq
        have hless := hhead statement hmem
        rw [of_decide_eq_true heq] at hless
        exact Position.lt_irrefl _ hless

/-- The hints that a statement declares nothing: one for each such statement,
    in order. -/
theorem filter_unrecognized (asked : Option String) (text : String) :
    (parseWith asked text).diagnostics.filter (fun diagnostic => diagnostic.code = some "X104") =
      ((parseWith asked text).declaring.filter fun statement =>
        statement.declaration?.isNone).map (parseWith asked text).hintOf := by
  rw [filter_code_diagnostics (Or.inl rfl), filter_causesOf _ _ first_kind_of_mem_declaring,
    List.map_map]
  refine List.map_congr_left fun statement hmem => ?_
  have hplace := (declaring_firsts_in_text asked text).subset
    (List.mem_map_of_mem (List.mem_filter.mp hmem).1)
  exact ofProblem_eq _ (isCounted_of_mem_tokenize (mem_tokens_of_occurrence hplace))

/-- The hints at the first token of a statement: one if it declares nothing,
    and none otherwise. -/
theorem hintsAt_first {asked : Option String} {text : String} {statement : Statement}
    (h : statement ∈ (parseWith asked text).declaring) :
    (parseWith asked text).hintsAt statement.first.token.position =
      if statement.declaration?.isNone then [(parseWith asked text).hintOf statement] else [] := by
  have hcode : (parseWith asked text).hintsAt statement.first.token.position =
      ((parseWith asked text).diagnostics.filter fun diagnostic =>
        diagnostic.code = some "X104").filter fun diagnostic =>
          diagnostic.position = statement.first.token.position := by
    rw [List.filter_filter, Document.hintsAt]
    simp only [Bool.and_comm]
  -- The position of a hint is that of its statement, which is the only one there.
  have hwhere : ((parseWith asked text).declaring.filter fun other =>
      other.declaration?.isNone).filter ((fun diagnostic : Diagnostic =>
        decide (diagnostic.position = statement.first.token.position)) ∘
          (parseWith asked text).hintOf) =
      ((parseWith asked text).declaring.filter fun other =>
        other.first.token.position = statement.first.token.position).filter fun other =>
          other.declaration?.isNone := by
    rw [List.filter_filter, List.filter_filter]
    refine List.filter_congr fun other _ => ?_
    exact Bool.and_comm _ _
  rw [hcode, filter_unrecognized, List.filter_map, hwhere,
    filter_first_position (declaring_pairwise asked text) h, List.filter_cons]
  split <;> rfl

/-! ## Documents -/

/-- Every statement in a section of declarations of a text is in the table or in a
    hint. -/
structure Document.DeclarationsExact (document : Document) (asked : Option String)
    (text : String) : Prop extends document.IsReadingOf asked text where
  /-- No statement is passed over because it begins with a closing brace. -/
  first_kind : ∀ statement ∈ document.declaring, statement.first.token.kind ≠ .rBrace
  /-- A statement declares a name of the table, and no hint is at its first
      token, or it declares nothing, and there is one hint. -/
  each : ∀ statement ∈ document.declaring,
    (∃ name declaration, statement.declaration? = some (name, declaration) ∧
      name ∈ document.declared.names ∧
      document.hintsAt statement.first.token.position = []) ∨
    statement.declaration? = none ∧
      document.hintsAt statement.first.token.position = [document.hintOf statement]
  /-- The statements are the entries of the table, those that declare a name
      again, and those that declare nothing. -/
  count : document.declaring.length =
    document.declared.entries.length + document.countCode "X105" + document.countCode "X104"

/-- No declaration is lost. -/
theorem parseWith_declarationsExact (asked : Option String) (text : String) :
    (parseWith asked text).DeclarationsExact asked text where
  toIsReadingOf := parseWith_isReadingOf asked text
  first_kind := first_kind_of_mem_declaring
  each := by
    intro statement h
    rw [hintsAt_first h, declared_parseWith]
    cases hfound : statement.declaration? with
    | none => exact Or.inr ⟨rfl, rfl⟩
    | some found =>
        exact Or.inl ⟨found.1, found.2, rfl, mem_names_declareAll h hfound _, rfl⟩
  count := by
    rw [declared_parseWith, countCode_parseWith (Or.inr rfl), countCode_parseWith (Or.inl rfl),
      -- Each statement has given a name, or a repetition of one, or a hint.
      length_declareAll_add _ _ first_kind_of_mem_declaring]
    exact (Nat.zero_add _).symm

end StackScript
