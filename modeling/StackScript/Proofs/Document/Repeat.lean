import StackScript.Proofs.Document.Declaration
import StackScript.Proofs.Symbols.Bound

/-!
# Names That Come Again

A script may declare a name twice and bind a variable more often than that, in one section or
in several. The tables have one entry for each name. Where it stands and what it says can be
told from the declarations and the bindings in the order of the script, whichever sections
they are from.

Both tables keep a name where it came first. Declarations replace one another, each with a
hint where it stands, so the last one counts; with bindings it depends on their form, and no
hint is given.

## Main definitions

* `Document.declarations`, `Document.bound`: The declarations and the bindings of a script.
* `Document.againHint`: The hint that a name has been declared before.
* `Document.MergesRepeats`: What becomes of names that come again.

## Theorems

* `declareAll_eq_ofList`, `filter_duplicate`: Declarations in a row.
* `filter_duplicate_diagnostics`: The hints about names that come again.
* `parseWith_mergesRepeats`: The tables of a document.
-/

namespace StackScript

namespace Document

/-- The declarations of a script with their names. -/
def declarations (document : Document) : List (String × Declaration) :=
  document.declaring.filterMap Statement.declaration?

/-- The bindings in the stacks of a script. -/
def bound (document : Document) : List Bound :=
  (document.blocks.filter fun block =>
      block.name = "stack" && document.scheme.grammar.hasStack).flatMap fun block =>
    boundIn (significant (block.inside document.tokens))

/-- The hint that the name of a declaration has been declared before. -/
def againHint (entry : String × Declaration) : Diagnostic :=
  ⟨.hint, entry.2.position, (Problem.duplicateDeclaration entry.1).message, some "X105"⟩

end Document

/-! ## Declarations in a row -/

/-- Statements put what they declare into the table, one after the other. -/
theorem declareAll_eq_ofList (among : List Statement) :
    declareAll .empty among = .ofList (among.filterMap Statement.declaration?) := by
  induction among using List.reverseRecOn with
  | nil => rfl
  | append_singleton among statement ih =>
      rw [declareAll_append, ih, List.filterMap_append]
      change statement.declareIn _ = _
      unfold Statement.declareIn
      cases hfound : statement.declaration? with
      | none => rw [List.filterMap_cons_none hfound, List.filterMap_nil, List.append_nil]
      | some entry =>
          rw [List.filterMap_cons_some hfound, List.filterMap_nil,
            OrderedTable.ofList_append_singleton]

/-- A name is known exactly if one of the statements has declared it. -/
theorem mem_names_declareAll_iff (among : List Statement) (name : String) :
    (declareAll .empty among).contains name ↔
      name ∈ (among.filterMap Statement.declaration?).map (·.1) := by
  rw [OrderedTable.contains_iff_mem_names, declareAll_eq_ofList, OrderedTable.names_ofList,
    List.mem_eraseDups]

/-- One statement: it declares nothing, or a new name, or one that is known. -/
theorem filter_duplicate_causes (block : String) (known : OrderedTable Declaration)
    (statement : Statement) :
    (statement.causes block known).filter (fun cause => cause.1.code = "X105") =
      match statement.declaration? with
      | none => []
      | some entry =>
          if known.contains entry.1 then
            [(.duplicateDeclaration entry.1, entry.2.position)]
          else
            [] := by
  unfold Statement.causes
  cases statement.declaration? with
  | none =>
      dsimp only
      split <;> rfl
  | some entry =>
      -- Missing values have a code of their own.
      have hvalues : (if entry.2.lacksValues then
          [(Problem.enumWithoutValues entry.1, entry.2.position)] else []).filter
            (fun cause => cause.1.code = "X105") = [] := by
        split <;> rfl
      dsimp only
      rw [List.filter_append, hvalues, List.nil_append]
      split <;> rfl

/-- Statements that declare a name again are reported, each once and in order. -/
theorem filter_duplicate (block : String) (among : List Statement) :
    (causesOf block .empty among).filter (fun cause => cause.1.code = "X105") =
      (OrderedTable.repeats (among.filterMap Statement.declaration?)).map fun entry =>
        (.duplicateDeclaration entry.1, entry.2.position) := by
  induction among using List.reverseRecOn with
  | nil => rfl
  | append_singleton among statement ih =>
      -- The last statement is compared with what all others have declared.
      rw [causesOf_append, List.filter_append, ih, causesOf, causesOf, List.append_nil,
        filter_duplicate_causes, List.filterMap_append]
      cases hfound : statement.declaration? with
      | none =>
          rw [List.filterMap_cons_none hfound, List.filterMap_nil, List.append_nil,
            List.append_nil]
      | some entry =>
          simp only [mem_names_declareAll_iff]
          rw [List.filterMap_cons_some hfound, List.filterMap_nil,
            OrderedTable.repeats_append_singleton, List.map_append]
          congr 1
          split <;> rfl

/-! ## Documents -/

/-- A declaration stands at a token of the script. -/
theorem exists_token_of_mem_declarations {asked : Option String} {text : String}
    {entry : String × Declaration} (h : entry ∈ (parseWith asked text).declarations) :
    ∃ token ∈ tokenize text, entry.2.position = token.position := by
  rcases List.mem_filterMap.mp h with ⟨statement, hstatement, hdeclares⟩
  rcases exists_place_of_declaration? hdeclares with ⟨place, hplace, hposition⟩
  rw [declaring_parseWith] at hstatement
  exact ⟨place.token,
    mem_tokens_of_occurrence (mem_occurrences_of_declaring hstatement hplace), hposition⟩

/-- The hints about names that come again: one for each declaration of a name that has been
    declared before, in order. -/
theorem filter_duplicate_diagnostics (asked : Option String) (text : String) :
    (parseWith asked text).diagnostics.filter (fun diagnostic => diagnostic.code = some "X105") =
      (OrderedTable.repeats (parseWith asked text).declarations).map Document.againHint := by
  rw [filter_code_diagnostics (Or.inr rfl), filter_duplicate, List.map_map]
  refine List.map_congr_left fun entry hmem => ?_
  have hentry := OrderedTable.mem_of_mem_repeats hmem
  rcases exists_token_of_mem_declarations hentry with ⟨token, htoken, hposition⟩
  have hcounted : entry.2.position.IsCounted := by
    rw [hposition]
    exact isCounted_of_mem_tokenize htoken
  exact ofProblem_eq _ hcounted

/-- The stacks, as the sections tell where they are, are those that are read. -/
theorem bound_parseWith (asked : Option String) (text : String) :
    (parseWith asked text).bound =
      (partsOfText text).flatMap (Part.bound (parseWith asked text).scheme.grammar) := by
  refine flatMap_heading fun part hpart => ?_
  have hinside : part.places = part.heading.inside (tokenize text) := places_eq_inside hpart
  simp only [Part.bound, hinside]
  rfl

-- The parts with a stack are the sections of that name.
theorem vars_parseWith (asked : Option String) (text : String) :
    (parseWith asked text).symbols.vars = Bound.bindAll (parseWith asked text).bound := by
  rw [bound_parseWith, ← vars_readSymbols, symbols_parseWith]

/-- What becomes of names that come again in a text. -/
structure Document.MergesRepeats (document : Document) (asked : Option String)
    (text : String) : Prop extends document.IsReadingOf asked text where
  /-- A declared name stands where it was declared first. -/
  declared_names : document.declared.names = (document.declarations.map (·.1)).eraseDups
  /-- It has its last declaration. -/
  declared_get? : ∀ name, document.declared.get? name =
    (document.declarations.filter fun entry => entry.1 = name).getLast?.map (·.2)
  /-- Every declaration of a name that was declared before has a hint. -/
  declared_again :
    document.diagnostics.filter (fun diagnostic => diagnostic.code = some "X105") =
      (OrderedTable.repeats document.declarations).map Document.againHint
  /-- A variable stands where it was bound first. -/
  bound_names :
    document.symbols.vars.names = (document.bound.map fun bound => bound.name.text).eraseDups
  /-- It has its last binding with `var`, or else its first one. -/
  bound_get? : ∀ name, document.symbols.vars.get? name =
    (Bound.deciding name document.bound).map Bound.binding

/-- The tables of a document have each name once. -/
theorem parseWith_mergesRepeats (asked : Option String) (text : String) :
    (parseWith asked text).MergesRepeats asked text where
  toIsReadingOf := parseWith_isReadingOf asked text
  declared_names := by
    rw [declared_parseWith, declareAll_eq_ofList, OrderedTable.names_ofList]
    rfl
  declared_get? name := by
    rw [declared_parseWith, declareAll_eq_ofList, OrderedTable.get?_ofList, List.getLast?_filter]
    rfl
  declared_again := filter_duplicate_diagnostics asked text
  bound_names := by
    rw [vars_parseWith, Bound.names_bindAll]
  bound_get? name := by
    rw [vars_parseWith, Bound.get?_bindAll]

-- The result of a call does not change the type of a declared variable.
example : ((parse ("function f \x7b\n  stack \x7b\n    var $x \x7b value = 1 \x7d\n" ++
    "    math.add $x as $x\n  \x7d\n\x7d")).symbols.vars.get? "$x").map Binding.type =
      some "int" := by
  decide +kernel

end StackScript
