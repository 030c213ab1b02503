import StackScript.Proofs.Script.Recast
import StackScript.Proofs.Symbols.Cause

/-!
# Symbols of a Recast Script

Declarations and bindings are read from the words of a section. In a script
whose words have been recast they are the same, with their positions and
descriptions recast; names, types, flags, filters and values do not depend on
where the words stand.

Problems need a little more care than symbols. A diagnostic has forgotten what
it was made from, and its position is moved to the first line if it was in
front of that, which does not commute with moving it down. So two lists of
diagnostics are compared through their causes: `MovedDown` says that they have
the same causes, at positions that have been moved.

## Main definitions

* `OrderedTable.map`: A table with all its values replaced.
* `causeDown`: The same cause some lines further down.
* `MovedDown`: The same problems some lines further down.
* `Recast.declaration`, `Recast.binding`: What has been declared, recast.
* `Recast.table`: The symbols of a script, recast.

## Theorems

* `Recast.declaration?_map`: Declarations of a recast script.
* `Recast.causesOf_declaring_map`: What is wrong with them.
* `Recast.readBindings_map`: Bindings of a recast script.
* `Recast.readSymbols_map`: Symbols of a recast script.
-/

namespace StackScript

open TokenShift

/-! ## Tables -/

namespace OrderedTable

variable {α β : Type}

/-- The table with all its values replaced. -/
def map (f : α → β) (table : OrderedTable α) : OrderedTable β :=
  ⟨table.entries.map fun entry => (entry.1, f entry.2)⟩

/-- Names are kept, so the table answers at the same names. -/
theorem get?_map (f : α → β) (table : OrderedTable α) (name : String) :
    (table.map f).get? name = (table.get? name).map f := by
  unfold get? map
  rw [List.find?_map, Option.map_map, Option.map_map]
  rfl

theorem contains_map (f : α → β) (table : OrderedTable α) (name : String) :
    (table.map f).contains name = table.contains name := by
  rw [contains, contains, get?_map, Option.isSome_map]

/-- A value goes in where it would go. -/
theorem insert_map (f : α → β) (table : OrderedTable α) (name : String) (value : α) :
    (table.map f).insert name (f value) = (table.insert name value).map f := by
  unfold insert map
  congr 1
  induction table.entries with
  | nil => rfl
  | cons entry entries ih =>
      rw [List.map_cons, insertEntry, insertEntry]
      split
      · rfl
      · rw [ih, List.map_cons]

theorem insertNew_map (f : α → β) (table : OrderedTable α) (name : String) (value : α) :
    (table.map f).insertNew name (f value) = (table.insertNew name value).map f := by
  rw [insertNew, insertNew, contains_map, insert_map]
  split <;> rfl

end OrderedTable

/-! ## Problems -/

/-- The cause some lines further down. -/
def causeDown (lines : Nat) (cause : Problem × Position) : Problem × Position :=
  (cause.1, cause.2.down lines)

/-- The second list reports the problems of the first, some lines further
    down. -/
def MovedDown (lines : Nat) (diagnostics others : List Diagnostic) : Prop :=
  ∃ causes : List (Problem × Position), diagnostics = causes.map reportOf ∧
    others = causes.map fun cause => reportOf (cause.1, cause.2.down lines)

namespace MovedDown

variable {lines : Nat}

-- Problems that have not been moved are the same problems.
theorem eq {a a' : List Diagnostic} (h : MovedDown 0 a a') : a' = a := by
  rcases h with ⟨causes, rfl, rfl⟩
  rfl

end MovedDown

namespace Recast

variable (recast : Recast)

/-! ## Declarations -/

/-- One word ahead is looked at by its kind. -/
theorem startsWith_map (kind : TokenKind) (places : List Occurrence) :
    startsWith kind (places.map recast.place) = startsWith kind places := by
  cases places with
  | nil => rfl
  | cons place places => simp [startsWith]

/-- Arguments of filters are told by kinds. -/
theorem skipFilterArguments_map (places : List Occurrence) :
    skipFilterArguments (places.map recast.place) =
      (skipFilterArguments places).map recast.place := by
  fun_induction skipFilterArguments places with
  | case1 => rfl
  | case2 colon hcolon => simp [skipFilterArguments, hcolon]
  | case3 colon hcolon argument rest hargument ih =>
      simpa [skipFilterArguments, hcolon, hargument] using ih
  | case4 colon hcolon argument rest hargument ih =>
      simpa [skipFilterArguments, hcolon, hargument] using ih
  | case5 colon places hcolon =>
      rw [List.map_cons, skipFilterArguments.eq_def]
      simp [hcolon]

/-- A list of filters ends at the same word, and has the same names. -/
theorem readFilters_map (places : List Occurrence) :
    readFilters (places.map recast.place) =
      ((readFilters places).1, (readFilters places).2.map recast.place) := by
  fun_induction readFilters places with
  | case1 => simp [readFilters]
  -- A pipe follows in both, so both go on behind it.
  | case2 name rest hname behind hpipe more ih =>
      rw [List.map_cons, readFilters, token_place, kind_token, text_token, if_pos hname,
        skipFilterArguments_map]
      dsimp only
      rw [startsWith_map, if_pos hpipe, ← List.map_drop, ih]
  | case3 name rest hname behind hpipe =>
      rw [List.map_cons, readFilters, token_place, kind_token, text_token, if_pos hname,
        skipFilterArguments_map]
      dsimp only
      rw [startsWith_map, if_neg hpipe]
  | case4 name rest hname =>
      rw [List.map_cons, readFilters, token_place, kind_token, if_neg hname]

/-- Values are texts, and stand at no place. -/
theorem bracketedValues_map (places : List Occurrence) :
    bracketedValues (places.map recast.place) = bracketedValues places := by
  unfold bracketedValues
  simp only [List.dropWhile_map, List.takeWhile_map, List.filter_map, List.map_map,
    ← List.map_drop, Function.comp_def, token_place, kind_token, text_token]

theorem enumValuesOf_map (places : List Occurrence) :
    enumValuesOf (places.map recast.place) = enumValuesOf places := by
  fun_induction enumValuesOf places with
  | case1 => rfl
  | case2 => rfl
  | case3 word sign places hvalues =>
      simp only [List.map_cons, enumValuesOf, token_place, isIdent_token, kind_token,
        bracketedValues_map]
      rw [if_pos hvalues]
  | case4 word sign places hvalues ih =>
      simp only [List.map_cons, enumValuesOf, token_place, isIdent_token, kind_token]
      rw [if_neg hvalues]
      exact ih

/-- Attributes know of no place, so they are the same. -/
theorem readAttributes_map (isEnum : Bool) (known : Attributes) (places : List Occurrence) :
    readAttributes isEnum known (places.map recast.place) =
      readAttributes isEnum known places := by
  fun_induction readAttributes isEnum known places with
  | case1 => rw [List.map_nil, readAttributes]
  -- A block is read and left as a whole.
  | case2 known place rest hbrace block values ih =>
      rw [List.map_cons, readAttributes, token_place, kind_token, if_pos hbrace, untilClose_map]
      dsimp only
      rw [Block.map_rest, Block.map, enumValuesOf_map]
      exact ih
  | case3 known place rest hbrace hattribute hfilters list ih =>
      rw [List.map_cons, readAttributes, token_place, kind_token, text_token, if_neg hbrace,
        startsWith_map, if_pos hattribute, if_pos hfilters, ← List.map_drop, readFilters_map, ih]
  | case4 known place rest hbrace hattribute hfilters ih =>
      rw [List.map_cons, readAttributes, token_place, kind_token, text_token, if_neg hbrace,
        startsWith_map, if_pos hattribute, if_neg hfilters, ← List.map_drop, ih]
  | case5 known place rest hbrace hattribute ih =>
      rw [List.map_cons, readAttributes, token_place, kind_token, if_neg hbrace, startsWith_map,
        if_neg hattribute, ih]

/-- Marks are passed alike. -/
theorem skipKind_map (kind : TokenKind) (places : List Occurrence) :
    skipKind kind (places.map recast.place) =
      ((skipKind kind places).1, (skipKind kind places).2.map recast.place) := by
  cases places with
  | nil => rfl
  | cons place places =>
      simp only [List.map_cons, skipKind, token_place, kind_token]
      split <;> rfl

theorem skipListMark_map (places : List Occurrence) :
    skipListMark (places.map recast.place) =
      ((skipListMark places).1, (skipListMark places).2.map recast.place) := by
  rcases places with _ | ⟨left, _ | ⟨right, places⟩⟩
  · rfl
  · rfl
  · simp only [List.map_cons, skipListMark, token_place, kind_token]
    split <;> rfl

/-- A declaration in the other script. -/
def declaration (declaration : Declaration) : Declaration :=
  { declaration with
    description := recast.describe declaration.description
    position := declaration.position.down recast.lines }

/-- A declaration is that of the other script, at its own place and with its own
    description. -/
theorem declaration?_map (statement : Statement) :
    (statement.map recast.place).declaration? =
      statement.declaration?.map fun found => (found.1, recast.declaration found.2) := by
  have hwords : (statement.map recast.place).significant =
      statement.significant.map recast.place :=
    recast.significant_map statement.places
  unfold Statement.declaration?
  rw [hwords]
  cases statement.significant with
  | nil => rfl
  | cons typeWord afterType =>
      -- The marks behind the type are read before the name is looked for.
      rcases hmark : skipListMark afterType with ⟨isList, afterMark⟩
      rcases hnull : skipKind .question afterMark with ⟨nullable, atName⟩
      simp only [List.map_cons, token_place, kind_token, text_token, position_token,
        skipListMark_map, hmark, skipKind_map, hnull]
      split
      · cases atName with
        | nil => rfl
        | cons nameWord afterName =>
            simp only [List.map_cons, token_place, kind_token, text_token, skipKind_map,
              readAttributes_map]
            split
            · simp [declaration, Statement.map]
            · rfl
      · rfl

theorem declareIn_map (known : OrderedTable Declaration) (statement : Statement) :
    (statement.map recast.place).declareIn (known.map recast.declaration) =
      (statement.declareIn known).map recast.declaration := by
  unfold Statement.declareIn
  rw [declaration?_map]
  cases statement.declaration? with
  | none => rfl
  | some found => exact OrderedTable.insert_map _ _ _ _

/-- What is wrong with a statement depends on what the two scripts have in common, but for
    where it is. -/
theorem causes_map (block : String) (known : OrderedTable Declaration) (statement : Statement) :
    (statement.map recast.place).causes block (known.map recast.declaration) =
      (statement.causes block known).map (causeDown recast.lines) := by
  have hposition : (statement.map recast.place).first.token.position =
      statement.first.token.position.down recast.lines := by
    simp [Statement.map]
  have hkind : (statement.map recast.place).first.token.kind = statement.first.token.kind := by
    simp [Statement.map]
  unfold Statement.causes
  rw [declaration?_map]
  cases statement.declaration? with
  | none =>
      dsimp only [Option.map_none]
      rw [hkind, hposition]
      split <;> rfl
  | some found =>
      dsimp only [Option.map_some]
      rw [OrderedTable.contains_map, List.map_append]
      -- Whether values are missing is not a matter of the place.
      have hvalues : (recast.declaration found.2).lacksValues = found.2.lacksValues := rfl
      rw [hvalues, apply_ite (List.map _), apply_ite (List.map _)]
      rfl

theorem declareAll_map (known : OrderedTable Declaration) (among : List Statement) :
    declareAll (known.map recast.declaration) (among.map (Statement.map recast.place)) =
      (declareAll known among).map recast.declaration := by
  induction among generalizing known with
  | nil => rfl
  | cons statement among ih =>
      rw [declareAll, List.map_cons, List.foldl_cons, declareIn_map]
      exact ih _

/-- The same is wrong with the recast statements. -/
theorem causesOf_map (block : String) (known : OrderedTable Declaration)
    (among : List Statement) :
    causesOf block (known.map recast.declaration) (among.map (Statement.map recast.place)) =
      (causesOf block known among).map (causeDown recast.lines) := by
  induction among generalizing known with
  | nil => rfl
  | cons statement among ih =>
      rw [List.map_cons, causesOf, causesOf, declareIn_map, causes_map, ih, List.map_append]

theorem statements_map (places : List Occurrence) :
    statements (places.map recast.place) = (statements places).map (Statement.map recast.place) :=
  recast.statementsAfter_map [] places

theorem readDeclarations_map (block : String) (known : OrderedTable Declaration)
    (body : List Occurrence) :
    (readDeclarations block (known.map recast.declaration) (body.map recast.place)).table =
      (readDeclarations block known body).table.map recast.declaration := by
  rw [readDeclarations_eq, readDeclarations_eq, statements_map, declareAll_map]

/-! ## Bindings -/

/-- A value is found at the same distance into its block. -/
theorem assignedValue_map (depth : Nat) (places : List Occurrence) :
    assignedValue depth (places.map recast.place) =
      (assignedValue depth places).map (List.map recast.place) := by
  induction places generalizing depth with
  | nil => rfl
  | cons place places ih =>
      rw [List.map_cons, assignedValue.eq_def, assignedValue.eq_def]
      simp only [token_place, kind_token, text_token]
      split
      · exact ih _
      · exact ih _
      · exact ih _
      · exact ih _
      · exact ih _
      · exact ih _
      · -- The key has to be followed by its sign.
        split
        · cases places with
          | nil => rfl
          | cons sign value =>
              simp only [List.map_cons, token_place, kind_token]
              split
              · rfl
              · exact ih depth
        · exact ih depth
      · exact ih depth

/-- A literal is known by its first two words. -/
theorem literalType_map (places : List Occurrence) :
    literalType (places.map recast.place) = literalType places := by
  rcases places with _ | ⟨place, places⟩
  · rfl
  · unfold literalType
    simp only [List.map_cons, token_place, kind_token, text_token]
    split
    · rfl
    · cases places with
      | nil => rfl
      | cons digits places => simp
    · rfl
    · rfl
    · rfl
    · rfl
    · rfl

-- The type of a block is that of its value.
theorem blockType_map (places : List Occurrence) :
    blockType (places.map recast.place) = blockType places := by
  cases places with
  | nil => rfl
  | cons place places =>
      have hvalue : ((assignedValue 0 (untilClose 0 places).body).map
          (List.map recast.place)).getD [] =
            ((assignedValue 0 (untilClose 0 places).body).getD []).map recast.place := by
        cases assignedValue 0 (untilClose 0 places).body <;> rfl
      rw [List.map_cons, blockType, blockType, token_place, kind_token, untilClose_map, Block.map,
        assignedValue_map, hvalue, literalType_map]

/-- A binding in the other script. -/
def binding (binding : Binding) : Binding :=
  { binding with
    description := recast.describe binding.description
    position := binding.position.down recast.lines }

/-- A `var` takes type and mark from its words and description from what stands before them. -/
theorem ofVar_map (word : Occurrence) (name : Token) (places : List Occurrence) :
    Binding.ofVar (recast.place word) (recast.token name) (places.map recast.place) =
      recast.binding (Binding.ofVar word name places) := by
  have hoptional : (places.map recast.place).head?.any (fun place => place.token.kind = .question) =
      places.head?.any fun place => place.token.kind = .question :=
    recast.startsWith_map .question places
  -- The block begins one word further on behind a mark.
  have hblock : ∀ rest : Bool, blockType
      (if rest then (places.map recast.place).drop 1 else places.map recast.place) =
        blockType (if rest then places.drop 1 else places) := by
    intro rest
    cases rest
    · exact recast.blockType_map places
    · simp only [← List.map_drop]
      exact recast.blockType_map _
  unfold Binding.ofVar
  rw [hoptional]
  simp only [hblock, binding, description_place, position_token]

theorem ofAs_token (name : Token) :
    Binding.ofAs (recast.token name) = recast.binding (Binding.ofAs name) := by
  simp [Binding.ofAs, binding]

/-- Each pair of words binds in both scripts or in neither. -/
theorem readBindings_map (known : OrderedTable Binding) (words : List Occurrence) :
    readBindings (known.map recast.binding) (words.map recast.place) =
      (readBindings known words).map recast.binding := by
  fun_induction readBindings known words with
  | case1 => rfl
  | case2 => rfl
  | case3 known word name places bound ih =>
      -- The table so far is recast, and what the pair adds is recast too.
      have hbound : (if (recast.place name).token.kind = .variable &&
          (recast.place word).token.isIdent "var" then
            (known.map recast.binding).insert (recast.place name).token.text
              (Binding.ofVar (recast.place word) (recast.place name).token
                (places.map recast.place))
          else if (recast.place name).token.kind = .variable &&
              (recast.place word).token.isIdent "as" then
            (known.map recast.binding).insertNew (recast.place name).token.text
              (Binding.ofAs (recast.place name).token)
          else known.map recast.binding) = bound.map recast.binding := by
        simp only [token_place, kind_token, isIdent_token, text_token, ofVar_map, ofAs_token,
          OrderedTable.insert_map, OrderedTable.insertNew_map, bound]
        split
        · rfl
        · split <;> rfl
      rw [List.map_cons, List.map_cons, readBindings, ← ih, ← List.map_cons, ← hbound]

/-! ## Symbols -/

/-- The symbols in the other script. -/
def table (table : SymbolTable) : SymbolTable :=
  ⟨table.inputs.map recast.declaration, table.vars.map recast.binding,
    table.fields.map recast.declaration⟩

/-- A section adds the same to a table that is the same. -/
theorem readPart_map (grammar : Grammar) {report other : SymbolReport} (part : Part)
    (h : other.table = recast.table report.table) :
    (other.read grammar (recast.part part)).table =
      recast.table (report.read grammar part).table := by
  rcases part with ⟨heading, _ | body⟩
  · exact h
  · have hname : (recast.part ⟨heading, some body⟩).heading.name = heading.name := rfl
    have hbody : (recast.part ⟨heading, some body⟩).body = some (body.map recast.place) := rfl
    unfold SymbolReport.read
    simp only [hname, hbody, h, table]
    split
    · split
      · rw [readDeclarations_map]
      · rw [readDeclarations_map]
    · split
      · rw [significant_map, readBindings_map]
      · exact h

theorem declaring_map (grammar : Grammar) (part : Part) :
    (recast.part part).declaring grammar =
      (part.declaring grammar).map (Statement.map recast.place) := by
  have hbody : (recast.part part).places = part.places.map recast.place := by
    unfold Recast.part Part.places
    cases part.body <;> rfl
  unfold Part.declaring
  rw [hbody, statements_map, apply_ite (List.map _)]
  rfl

/-- What is wrong with the declarations in the other script is what is wrong
    with them in the one, some lines further down. -/
theorem causesOf_declaring_map (grammar : Grammar) (block : String) (parts : List Part) :
    causesOf block .empty ((parts.map recast.part).flatMap (Part.declaring grammar)) =
      (causesOf block .empty (parts.flatMap (Part.declaring grammar))).map
        (causeDown recast.lines) := by
  rw [← causesOf_map, List.flatMap_map, List.map_flatMap]
  simp only [declaring_map]
  rfl

/-- The symbols of the recast sections are the recast symbols, and the same is wrong with
    them. -/
theorem readSymbols_map (grammar : Grammar) (parts : List Part) :
    (readSymbols grammar (parts.map recast.part)).table =
        recast.table (readSymbols grammar parts).table ∧
      MovedDown recast.lines (readSymbols grammar parts).problems
        (readSymbols grammar (parts.map recast.part)).problems := by
  -- The table in hand is recast before each section.
  have hfold : ∀ (parts : List Part) (report other : SymbolReport),
      other.table = recast.table report.table →
        ((parts.map recast.part).foldl (SymbolReport.read grammar) other).table =
          recast.table (parts.foldl (SymbolReport.read grammar) report).table := by
    intro parts
    induction parts with
    | nil => exact fun _ _ h => h
    | cons part parts ih => exact fun _ _ h => ih _ _ (recast.readPart_map grammar part h)
  refine ⟨hfold parts _ _ rfl, _, readSymbols_causes grammar parts, ?_⟩
  rw [readSymbols_causes, causesOf_declaring_map, List.map_map]
  rfl

end Recast

end StackScript
