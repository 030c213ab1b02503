import StackScript.Proofs.Script.Body
import StackScript.Symbols.Table

/-!
# What Is Wrong with Declarations

A section of declarations is read with a report in hand, to which every
statement adds. A diagnostic does not say any more what it was made from, so
here the reading is taken apart: what a statement declares and what is wrong
with it depend on the statement and on the names declared before it, and on
nothing else.

A scheme has one section for declarations, which may come several times. The
statements of all of them are read in a row into one table, so a whole script
is no different from a single section, `readSymbols_causes`. Whatever is to be
known of the declarations of a script is an induction on that row.

## Main definitions

* `reportOf`: The report of a cause at a position.
* `Statement.declareIn`, `Statement.causes`: What a statement declares, and what
  is wrong with it.
* `declareAll`, `causesOf`: The same for statements in a row.
* `Grammar.declared`: The table that the declarations of a scheme go to.
* `Part.declaring`: The statements of a section of declarations.

## Theorems

* `foldl_read_eq`: Statements in a row.
* `declared_readSymbols`: The table of a script.
* `readSymbols_causes`: What is wrong with the declarations of a script.
* `causes_cases`: What can be wrong with a statement.
* `exists_place_of_mem_causesOf`: It is wrong at a token of its statement.
* `filter_causesOf`: The statements that declare nothing.
* `mem_names_declareAll`: The names that are declared.
* `declareAll_of_nodup`: Statements with nothing wrong with them.
* `length_declareAll_add`: Every statement is accounted for.
-/

namespace StackScript

/-- The report of a cause. -/
def reportOf (cause : Problem × Position) : Diagnostic :=
  .ofProblem cause.1 cause.2

namespace Statement

/-- The table with what the statement declares. -/
def declareIn (known : OrderedTable Declaration) (statement : Statement) :
    OrderedTable Declaration :=
  match statement.declaration? with
  | none => known
  | some (name, declaration) => known.insert name declaration

/-- What is wrong with a statement of a section of declarations, and where. -/
def causes (block : String) (known : OrderedTable Declaration) (statement : Statement) :
    List (Problem × Position) :=
  match statement.declaration? with
  | none =>
      if statement.first.token.kind = .rBrace then
        []
      else
        [(.unrecognizedDeclaration block, statement.first.token.position)]
  | some (name, declaration) =>
      (if declaration.lacksValues then [(.enumWithoutValues name, declaration.position)] else []) ++
        if known.contains name then [(.duplicateDeclaration name, declaration.position)] else []

end Statement

/-- The table with what the statements declare, one after the other. -/
def declareAll (known : OrderedTable Declaration) (among : List Statement) :
    OrderedTable Declaration :=
  among.foldl Statement.declareIn known

/-- What is wrong with the statements, where each finds declared what those in
    front of it declare. -/
def causesOf (block : String) (known : OrderedTable Declaration) :
    List Statement → List (Problem × Position)
  | [] => []
  | statement :: among =>
      statement.causes block known ++ causesOf block (statement.declareIn known) among

theorem declareAll_append (known : OrderedTable Declaration) (before behind : List Statement) :
    declareAll known (before ++ behind) = declareAll (declareAll known before) behind :=
  List.foldl_append

/-- What is wrong behind a statement is wrong given the names declared up to there. -/
theorem causesOf_append (block : String) (known : OrderedTable Declaration)
    (before behind : List Statement) :
    causesOf block known (before ++ behind) =
      causesOf block known before ++ causesOf block (declareAll known before) behind := by
  induction before generalizing known with
  | nil => rfl
  | cons statement before ih =>
      rw [List.cons_append, causesOf, ih, causesOf, List.append_assoc]
      rfl

/-! ## Reading statements -/

/-- Reading a statement adds what it declares and what is wrong with it. -/
theorem read_eq (block : String) (report : DeclarationReport) (statement : Statement) :
    report.read block statement =
      ⟨statement.declareIn report.table,
        report.problems ++ (statement.causes block report.table).map reportOf⟩ := by
  unfold DeclarationReport.read Statement.declareIn Statement.causes
  cases statement.declaration? with
  | none =>
      dsimp only
      split
      · rw [List.map_nil, List.append_nil]
      · rfl
  | some found =>
      dsimp only
      rw [List.map_append, List.append_assoc]
      congr 3
      · split <;> rfl
      · split <;> rfl

/-- Statements in a row add what they declare to the table, and what is wrong
    with them to the problems. -/
theorem foldl_read_eq (block : String) (report : DeclarationReport) (among : List Statement) :
    among.foldl (DeclarationReport.read block) report =
      ⟨declareAll report.table among,
        report.problems ++ (causesOf block report.table among).map reportOf⟩ := by
  induction among generalizing report with
  | nil =>
      rw [causesOf, List.map_nil, List.append_nil]
      rfl
  | cons statement among ih =>
      rw [List.foldl_cons, ih, read_eq, causesOf, List.map_append, List.append_assoc]
      rfl

theorem readDeclarations_eq (block : String) (known : OrderedTable Declaration)
    (body : List Occurrence) :
    readDeclarations block known body =
      ⟨declareAll known (statements body), (causesOf block known (statements body)).map reportOf⟩ :=
  foldl_read_eq block ⟨known, []⟩ (statements body)

/-! ## Reading sections -/

/-- The table that the declarations of a scheme go to. -/
def Grammar.declared (grammar : Grammar) (table : SymbolTable) : OrderedTable Declaration :=
  if grammar.declarationBlock = some "schema" then table.fields else table.inputs

/-- The statements of the section, if it is one of declarations. -/
def Part.declaring (grammar : Grammar) (part : Part) : List Statement :=
  if grammar.declarationBlock = some part.heading.name then
    statements part.places
  else
    []

theorem statements_nil : statements [] = [] := by
  rw [statements, statementsAfter]

/-- One section more: the statements of a section of declarations are read, and nothing else
    has to do with declarations. -/
theorem readPart_eq (grammar : Grammar) (report : SymbolReport) (part : Part) :
    grammar.declared (report.read grammar part).table =
        declareAll (grammar.declared report.table) (part.declaring grammar) ∧
      (report.read grammar part).problems = report.problems ++
        (causesOf (grammar.declarationBlock.getD "") (grammar.declared report.table)
          (part.declaring grammar)).map reportOf := by
  rcases part with ⟨heading, _ | body⟩
  · have hnone : (Part.mk heading none).declaring grammar = [] := by
      unfold Part.declaring Part.places
      rw [Option.getD_none, statements_nil, ite_self]
    rw [hnone]
    exact ⟨rfl, (List.append_nil _).symm⟩
  · unfold SymbolReport.read Part.declaring Part.places Grammar.declared
    dsimp only
    -- A section of another name declares nothing.
    by_cases hblock : grammar.declarationBlock = some heading.name
    · simp only [hblock, if_true, Option.getD_some, Option.some.injEq, readDeclarations_eq]
      split <;> exact ⟨rfl, rfl⟩
    · rw [if_neg hblock, if_neg hblock, causesOf]
      cases decide (heading.name = "stack") && grammar.hasStack with
      | false => exact ⟨rfl, (List.append_nil _).symm⟩
      | true => exact ⟨rfl, (List.append_nil _).symm⟩

/-- Sections read in a row are as good as one section with all of their statements. -/
theorem foldl_readPart_eq (grammar : Grammar) (report : SymbolReport) (parts : List Part) :
    grammar.declared (parts.foldl (SymbolReport.read grammar) report).table =
        declareAll (grammar.declared report.table) (parts.flatMap (Part.declaring grammar)) ∧
      (parts.foldl (SymbolReport.read grammar) report).problems = report.problems ++
        (causesOf (grammar.declarationBlock.getD "") (grammar.declared report.table)
          (parts.flatMap (Part.declaring grammar))).map reportOf := by
  induction parts generalizing report with
  | nil => exact ⟨rfl, (List.append_nil _).symm⟩
  | cons part parts ih =>
      rcases readPart_eq grammar report part with ⟨htable, hproblems⟩
      rcases ih (report.read grammar part) with ⟨htable', hproblems'⟩
      rw [List.foldl_cons, htable', hproblems', htable, hproblems, List.flatMap_cons,
        declareAll_append, causesOf_append, List.map_append, List.append_assoc]
      exact ⟨rfl, rfl⟩

theorem declared_empty (grammar : Grammar) : grammar.declared .empty = .empty := by
  unfold Grammar.declared
  split <;> rfl

/-- The table of a script holds what the statements of all sections of
    declarations declare, one after the other. -/
theorem declared_readSymbols (grammar : Grammar) (parts : List Part) :
    grammar.declared (readSymbols grammar parts).table =
      declareAll .empty (parts.flatMap (Part.declaring grammar)) := by
  have hfold := (foldl_readPart_eq grammar ⟨.empty, []⟩ parts).1
  rwa [declared_empty] at hfold

/-- The problems of a script are what is wrong with those statements. -/
theorem readSymbols_causes (grammar : Grammar) (parts : List Part) :
    (readSymbols grammar parts).problems =
      (causesOf (grammar.declarationBlock.getD "") .empty
        (parts.flatMap (Part.declaring grammar))).map reportOf := by
  have hfold := (foldl_readPart_eq grammar ⟨.empty, []⟩ parts).2
  rwa [declared_empty] at hfold

/-! ## What is wrong, and where -/

/-- What holds of all that is wrong with single statements holds of all that is wrong with
    statements in a row. -/
theorem forall_mem_causesOf {block : String} {p : Problem × Position → Prop}
    {among : List Statement}
    (h : ∀ statement ∈ among, ∀ known, ∀ cause ∈ statement.causes block known, p cause)
    (known : OrderedTable Declaration) : ∀ cause ∈ causesOf block known among, p cause := by
  induction among generalizing known with
  | nil => exact fun cause hmem => by cases hmem
  | cons statement among ih =>
      intro cause hmem
      rcases List.mem_append.mp hmem with hmem | hmem
      · exact h statement List.mem_cons_self known cause hmem
      · exact ih (fun other hother => h other (List.mem_cons_of_mem _ hother)) _ cause hmem

/-- What is wrong with a statement: it declares nothing, or something is wrong with what it
    declares. -/
theorem causes_cases {block : String} {known : OrderedTable Declaration} {statement : Statement}
    {cause : Problem × Position} (h : cause ∈ statement.causes block known) :
    statement.declaration? = none ∧
        cause = (.unrecognizedDeclaration block, statement.first.token.position) ∨
      ∃ name declaration, statement.declaration? = some (name, declaration) ∧
        (cause = (.enumWithoutValues name, declaration.position) ∨
          cause = (.duplicateDeclaration name, declaration.position)) := by
  unfold Statement.causes at h
  split at h
  · next hnone =>
    split at h
    · cases h
    · exact Or.inl ⟨hnone, List.mem_singleton.mp h⟩
  · -- A declaration may be wrong in two ways, and each names it.
    next name declaration hsome =>
    refine Or.inr ⟨name, declaration, hsome, (List.mem_append.mp h).imp ?_ ?_⟩
    · intro hempty
      split at hempty
      · exact List.mem_singleton.mp hempty
      · cases hempty
    · intro hagain
      split at hagain
      · exact List.mem_singleton.mp hagain
      · cases hagain

/-- A declaration stands at a token of its statement. -/
theorem exists_place_of_declaration? {statement : Statement} {name : String}
    {declaration : Declaration} (h : statement.declaration? = some (name, declaration)) :
    ∃ place ∈ statement.places, declaration.position = place.token.position := by
  unfold Statement.declaration? at h
  split at h
  · cases h
  · next typeWord afterType hwords =>
    -- The type is the first word of the statement.
    have hmem : typeWord ∈ statement.places := by
      have hword : typeWord ∈ statement.significant := by
        rw [hwords]
        exact List.mem_cons_self
      exact (List.mem_filter.mp hword).1
    split at h
    · dsimp only at h
      split at h
      · cases h
      · split at h
        · cases h
          exact ⟨typeWord, hmem, rfl⟩
        · cases h
    · cases h

/-- What is wrong with a statement is wrong at one of its tokens. -/
theorem exists_place_of_mem_causesOf (block : String) (known : OrderedTable Declaration)
    (among : List Statement) : ∀ cause ∈ causesOf block known among,
      ∃ statement ∈ among, ∃ place ∈ statement.places, cause.2 = place.token.position := by
  refine forall_mem_causesOf (fun statement hstatement known cause hmem => ?_) known
  refine ⟨statement, hstatement, ?_⟩
  rcases causes_cases hmem with ⟨-, rfl⟩ | ⟨name, declaration, hsome, rfl | rfl⟩
  · exact ⟨statement.first, List.mem_cons_self, rfl⟩
  · exact exists_place_of_declaration? hsome
  · exact exists_place_of_declaration? hsome

/-- The statements that declare nothing are reported, each once and in
    order. -/
theorem filter_causesOf (block : String) (known : OrderedTable Declaration)
    {among : List Statement} (h : ∀ statement ∈ among, statement.first.token.kind ≠ .rBrace) :
    (causesOf block known among).filter (fun cause => cause.1.code = "X104") =
      (among.filter fun statement => statement.declaration?.isNone).map fun statement =>
        (.unrecognizedDeclaration block, statement.first.token.position) := by
  induction among generalizing known with
  | nil => rfl
  | cons statement among ih =>
      rw [causesOf, List.filter_append,
        ih _ fun other hother => h other (List.mem_cons_of_mem _ hother)]
      unfold Statement.causes
      cases hfound : statement.declaration? with
      | none =>
          rw [List.filter_cons_of_pos (by rw [hfound]; rfl)]
          dsimp only
          rw [if_neg (h statement List.mem_cons_self)]
          rfl
      | some found =>
          -- What is wrong with a declaration has another code.
          have hother : ∀ problem : Problem, problem.code ≠ "X104" → ∀ p : Bool,
              (if p then [(problem, found.2.position)] else []).filter
                (fun cause => cause.1.code = "X104") = [] := by
            intro problem hproblem p
            cases p
            · rfl
            · exact List.filter_cons_of_neg (by simpa using hproblem)
          rw [List.filter_cons_of_neg (by rw [hfound]; exact Bool.false_ne_true)]
          dsimp only
          rw [List.filter_append, hother _ (by simp [Problem.code]),
            hother _ (by simp [Problem.code])]
          rfl

/-! ## What is declared -/

/-- Declaring more takes no name out of the table. -/
theorem mem_names_declareIn {known : OrderedTable Declaration} {name : String}
    (h : name ∈ known.names) (statement : Statement) :
    name ∈ (statement.declareIn known).names := by
  unfold Statement.declareIn
  cases statement.declaration? with
  | none => exact h
  | some found =>
      rw [OrderedTable.names_insert]
      split
      · exact h
      · exact List.mem_append_left _ h

/-- A declared name stays declared. -/
theorem mem_names_declareAll_of_mem {known : OrderedTable Declaration} {name : String}
    (h : name ∈ known.names) (among : List Statement) : name ∈ (declareAll known among).names := by
  induction among generalizing known with
  | nil => exact h
  | cons statement among ih => exact ih (mem_names_declareIn h statement)

/-- A statement puts the name that it declares into the table. -/
theorem mem_names_declareAll {among : List Statement} {statement : Statement}
    (h : statement ∈ among) {name : String} {declaration : Declaration}
    (hfound : statement.declaration? = some (name, declaration))
    (known : OrderedTable Declaration) : name ∈ (declareAll known among).names := by
  induction among generalizing known with
  | nil => cases h
  | cons first among ih =>
      rcases List.mem_cons.mp h with rfl | h
      · -- Declared here it is known, and nothing later takes it back.
        refine mem_names_declareAll_of_mem ?_ among
        unfold Statement.declareIn
        rw [hfound]
        dsimp only
        rw [OrderedTable.names_insert]
        split
        · assumption
        · exact List.mem_append_right _ List.mem_cons_self
      · exact ih h _

/-- A statement that declares a new name adds it at the end. -/
theorem declareIn_of_notMem {statement : Statement} {entry : String × Declaration}
    (h : statement.declaration? = some entry) {known : OrderedTable Declaration}
    (hnew : entry.1 ∉ known.names) : statement.declareIn known = ⟨known.entries ++ [entry]⟩ := by
  unfold Statement.declareIn
  rw [h]
  exact known.insert_of_notMem hnew entry.2

/-- A new name with all that it needs is in order. -/
theorem causes_of_notMem {statement : Statement} {entry : String × Declaration}
    (h : statement.declaration? = some entry) {known : OrderedTable Declaration}
    (hnew : entry.1 ∉ known.names) (hvalues : entry.2.lacksValues = false) (block : String) :
    statement.causes block known = [] := by
  have hcontains : ¬ known.contains entry.1 := by rwa [OrderedTable.contains_iff_mem_names]
  unfold Statement.causes
  rw [h]
  dsimp only
  rw [hvalues, if_neg hcontains]
  rfl

/-- Statements that declare names of their own, with values for enumerations, add
    them to the table in order, and nothing is wrong with them. -/
theorem declareAll_of_nodup {among : List Statement} {declared : List (String × Declaration)}
    (h : among.map Statement.declaration? = declared.map some) (known : OrderedTable Declaration)
    (hnames : (known.names ++ declared.map (·.1)).Nodup)
    (hvalues : ∀ entry ∈ declared, entry.2.lacksValues = false) (block : String) :
    declareAll known among = ⟨known.entries ++ declared⟩ ∧ causesOf block known among = [] := by
  induction declared generalizing among known with
  | nil =>
      rw [List.map_eq_nil_iff.mp h, List.append_nil]
      exact ⟨rfl, rfl⟩
  | cons entry declared ih =>
      rcases List.map_eq_cons_iff.mp h with ⟨statement, among, rfl, hone, hmore⟩
      -- No name comes twice, so this one has not been declared.
      have hnew : entry.1 ∉ known.names := fun hmem =>
        (List.nodup_append.mp hnames).2.2 _ hmem _ List.mem_cons_self rfl
      have hrest : ((OrderedTable.mk (known.entries ++ [entry])).names ++
          declared.map (·.1)).Nodup := by
        rw [OrderedTable.names, List.map_append, List.append_assoc]
        exact hnames
      rcases ih hmore _ hrest fun other hmem => hvalues other (List.mem_cons_of_mem _ hmem)
        with ⟨htable, hcauses⟩
      have hstep := declareIn_of_notMem hone hnew
      refine ⟨?_, ?_⟩
      · change declareAll (statement.declareIn known) among = _
        rw [hstep, htable, List.append_assoc]
        rfl
      · rw [causesOf, causes_of_notMem hone hnew (hvalues entry List.mem_cons_self), hstep,
          hcauses]
        rfl

/-! ## Counting -/

/-- How many of the causes have a code. -/
def countCode (code : String) (causes : List (Problem × Position)) : Nat :=
  causes.countP fun cause => cause.1.code = code

theorem countCode_append (code : String) (causes others : List (Problem × Position)) :
    countCode code (causes ++ others) = countCode code causes + countCode code others :=
  List.countP_append

/-- A statement that does not begin with a closing brace either adds a name, declares a
    known one again, or declares nothing. -/
theorem length_declareIn_add (block : String) (known : OrderedTable Declaration)
    {statement : Statement} (h : statement.first.token.kind ≠ .rBrace) :
    (statement.declareIn known).entries.length +
        countCode "X105" (statement.causes block known) +
        countCode "X104" (statement.causes block known) =
      known.entries.length + 1 := by
  unfold Statement.declareIn Statement.causes
  cases statement.declaration? with
  | none =>
      dsimp only
      rw [if_neg h]
      rfl
  | some found =>
      -- Missing values are reported under a code of their own.
      have hvalues : ∀ code ∈ ["X105", "X104"], countCode code
          (if found.2.lacksValues then [(.enumWithoutValues found.1, found.2.position)] else []) =
            0 := by
        intro code hcode
        simp only [List.mem_cons, List.not_mem_nil, or_false] at hcode
        rcases hcode with rfl | rfl
        · split <;> rfl
        · split <;> rfl
      dsimp only
      rw [countCode_append, countCode_append, hvalues "X105" (by decide),
        hvalues "X104" (by decide), OrderedTable.length_insert]
      split <;> rfl

/-- Every statement is accounted for: behind statements of which none begins
    with a closing brace, the table has one name more for each, but for those
    that are reported to declare a name again or nothing at all. -/
theorem length_declareAll_add (block : String) (known : OrderedTable Declaration)
    {among : List Statement} (h : ∀ statement ∈ among, statement.first.token.kind ≠ .rBrace) :
    (declareAll known among).entries.length + countCode "X105" (causesOf block known among) +
        countCode "X104" (causesOf block known among) =
      known.entries.length + among.length := by
  induction among generalizing known with
  | nil => rfl
  | cons statement among ih =>
      have hone := length_declareIn_add block known (h statement List.mem_cons_self)
      have hmore := ih (statement.declareIn known) fun other hother =>
        h other (List.mem_cons_of_mem _ hother)
      rw [causesOf, countCode_append, countCode_append, List.length_cons]
      change (declareAll (statement.declareIn known) among).entries.length + _ + _ = _
      omega

end StackScript
