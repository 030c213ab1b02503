import StackScript.Proofs.OrderedTable
import StackScript.Proofs.Symbols.Cause

/-!
# Where Symbols Stand

An input stands at the type word of its declaration, a variable at the token
that names it. Nothing else is ever taken as the position of a symbol, so what
is true of the positions of all tokens is true of those of the symbols. The
tables are read section by section, and one section more keeps this, as long as
its tokens are such.

## Main definitions

* `SymbolTable.HoldsAt`: A property of the positions of all symbols.

## Theorems

* `holds_declareAll`, `holds_readBindings`: One section of either kind.
* `holdsAt_read`: One section more.
* `holdsAt_readSymbols`: All sections of a script.
-/

namespace StackScript

/-- No name comes twice in one of the tables, and the positions of all symbols
    have the property. -/
structure SymbolTable.HoldsAt (p : Position → Prop) (table : SymbolTable) : Prop where
  inputs : table.inputs.Holds fun declaration => p declaration.position
  vars : table.vars.Holds fun binding => p binding.position
  fields : table.fields.Holds fun declaration => p declaration.position

variable {p : Position → Prop}

theorem SymbolTable.holdsAt_empty : SymbolTable.empty.HoldsAt p :=
  ⟨OrderedTable.holds_empty, OrderedTable.holds_empty, OrderedTable.holds_empty⟩

/-- A declaration stands at a word of its statement. -/
theorem holds_declareIn {known : OrderedTable Declaration} {statement : Statement}
    (hknown : known.Holds fun declaration => p declaration.position)
    (h : ∀ place ∈ statement.places, p place.token.position) :
    (statement.declareIn known).Holds fun declaration => p declaration.position := by
  unfold Statement.declareIn
  split
  · exact hknown
  · next name declaration hsome =>
    rcases exists_place_of_declaration? hsome with ⟨place, hplace, hposition⟩
    refine hknown.insert name ?_
    rw [hposition]
    exact h place hplace

/-- Statement by statement, this holds of a whole table. -/
theorem holds_declareAll {known : OrderedTable Declaration} {among : List Statement}
    (hknown : known.Holds fun declaration => p declaration.position)
    (h : ∀ statement ∈ among, ∀ place ∈ statement.places, p place.token.position) :
    (declareAll known among).Holds fun declaration => p declaration.position := by
  induction among generalizing known with
  | nil => exact hknown
  | cons statement among ih =>
      rw [List.forall_mem_cons] at h
      exact ih (holds_declareIn hknown h.1) h.2

theorem holds_readDeclarations {block : String} {known : OrderedTable Declaration}
    {body : List Occurrence} (hknown : known.Holds fun declaration => p declaration.position)
    (h : ∀ place ∈ body, p place.token.position) :
    (readDeclarations block known body).table.Holds fun declaration => p declaration.position := by
  rw [readDeclarations_eq]
  refine holds_declareAll hknown fun statement hstatement place hplace => h place ?_
  exact (statementsAfter_places_sublist [] body).subset
    (List.mem_flatMap.mpr ⟨statement, hstatement, hplace⟩)

/-- A variable stands at its own name, whichever word binds it. -/
theorem holds_readBindings {known : OrderedTable Binding} {words : List Occurrence}
    (hknown : known.Holds fun binding => p binding.position)
    (h : ∀ place ∈ words, p place.token.position) :
    (readBindings known words).Holds fun binding => p binding.position := by
  fun_induction readBindings known words with
  | case1 known => exact hknown
  | case2 known word => exact hknown
  | case3 known word name places bound ih =>
      rw [List.forall_mem_cons] at h
      have hname : p name.token.position := h.2 name List.mem_cons_self
      refine ih ?_ h.2
      unfold bound
      split
      · exact hknown.insert _ hname
      · split
        · exact hknown.insertNew _ hname
        · exact hknown

/-- One section more, whose tokens are such. -/
theorem holdsAt_read {grammar : Grammar} {report : SymbolReport} {part : Part}
    (hreport : report.table.HoldsAt p) (h : ∀ place ∈ part.places, p place.token.position) :
    (report.read grammar part).table.HoldsAt p := by
  rcases part with ⟨heading, _ | body⟩
  · exact hreport
  unfold SymbolReport.read
  dsimp only
  split
  · split
    · exact ⟨hreport.inputs, hreport.vars, holds_readDeclarations hreport.fields h⟩
    · exact ⟨holds_readDeclarations hreport.inputs h, hreport.vars, hreport.fields⟩
  · split
    · refine ⟨hreport.inputs, holds_readBindings hreport.vars ?_, hreport.fields⟩
      exact fun place hplace => h place (List.mem_filter.mp hplace).1
    · exact hreport

/-- What is true of the positions of all tokens in the sections is true of those
    of all symbols. -/
theorem holdsAt_readSymbols {grammar : Grammar} {parts : List Part}
    (h : ∀ place ∈ parts.flatMap Part.places, p place.token.position) :
    (readSymbols grammar parts).table.HoldsAt p := by
  have hfold : ∀ report : SymbolReport, report.table.HoldsAt p →
      (parts.foldl (SymbolReport.read grammar) report).table.HoldsAt p := by
    induction parts with
    | nil => exact fun report hreport => hreport
    | cons part parts ih =>
        rw [List.flatMap_cons, List.forall_mem_append] at h
        exact fun report hreport => ih h.2 _ (holdsAt_read hreport h.1)
  exact hfold ⟨.empty, []⟩ SymbolTable.holdsAt_empty

end StackScript
