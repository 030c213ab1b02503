import StackScript.Script.Outline
import StackScript.Symbols.Binding
import StackScript.Symbols.Declaration

/-!
# Symbols of a Script

What a script declares: the inputs of its object, the fields of its table and
the variables of its stack. The scheme says which sections to read; sections of
the same kind add to one another.

## Main definitions

* `SymbolTable`: The declared names of a script.
* `readSymbols`: The symbols of the sections of a script.
-/

namespace StackScript

/-- The declared names of a script. -/
structure SymbolTable where
  /-- What a caller passes in. -/
  inputs : OrderedTable Declaration
  /-- The variables of the stack. -/
  vars : OrderedTable Binding
  /-- The fields of a table. -/
  fields : OrderedTable Declaration
  deriving DecidableEq, Repr

namespace SymbolTable

/-- The table of a script that declares nothing. -/
def empty : SymbolTable :=
  ⟨.empty, .empty, .empty⟩

/-- Nothing is declared. -/
def isEmpty (table : SymbolTable) : Bool :=
  table.inputs.entries.isEmpty && table.vars.entries.isEmpty && table.fields.entries.isEmpty

/-- The variable of a name, which may be given without its dollar sign. -/
def var? (table : SymbolTable) (name : String) : Option Binding :=
  if name.toList.head? = some '$' then table.vars.get? name else table.vars.get? ("$" ++ name)

/-- The inputs that a caller has to give, in order. -/
def requiredInputs (table : SymbolTable) : List String :=
  (table.inputs.entries.filter fun entry => entry.2.isRequired).map (·.1)

/-- Both tables declare the same, in whatever order. -/
def sameEntries (a b : SymbolTable) : Bool :=
  a.inputs.sameEntries b.inputs && a.vars.sameEntries b.vars && a.fields.sameEntries b.fields

end SymbolTable

/-- Symbols with the problems found in reading them. -/
structure SymbolReport where
  /-- The symbols. -/
  table : SymbolTable
  /-- The problems, in the order of the script. -/
  problems : List Diagnostic

/-- One more section is read, by the grammar of its scheme: as declarations, as
    a stack, or not at all. -/
def SymbolReport.read (grammar : Grammar) (report : SymbolReport) (part : Part) :
    SymbolReport :=
  match part.body with
  | none => report
  | some body =>
      let name := part.heading.name
      if grammar.declarationBlock = some name then
        if name = "schema" then
          let fields := readDeclarations name report.table.fields body
          { table := { report.table with fields := fields.table }
            problems := report.problems ++ fields.problems }
        else
          let inputs := readDeclarations name report.table.inputs body
          { table := { report.table with inputs := inputs.table }
            problems := report.problems ++ inputs.problems }
      else if name = "stack" && grammar.hasStack then
        let vars := readBindings report.table.vars (significant body)
        { report with table := { report.table with vars := vars } }
      else
        report

/-- The symbols of the sections of a script. -/
def readSymbols (grammar : Grammar) (parts : List Part) : SymbolReport :=
  parts.foldl (SymbolReport.read grammar) ⟨.empty, []⟩

end StackScript
