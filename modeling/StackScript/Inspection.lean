import StackScript.Docs.Registry
import StackScript.Document
import StackScript.Workspace.Resolve

/-!
# Inspecting Scripts and Explaining Names

The two questions that an editor asks. An inspection tells everything about one
script: its reading, what it refers to, and which files of the workspace its
references mean. An explanation tells everything about one name: its
documentation, or the documented names that begin with it, and the files of the
workspace that it may mean.

## Main definitions

* `Inspection`, `Index.inspect`: Everything about a script.
* `Explanation`, `Index.explain`: Everything about a name.
-/

namespace StackScript

/-- Everything about a script. -/
structure Inspection where
  /-- Its reading. -/
  document : Document
  /-- The functions and filters that it calls. -/
  calls : List Call
  /-- The variables that it mentions. -/
  variableRefs : List VariableRef
  /-- The tables that it works on. -/
  tables : List TableRef
  /-- The functions that it runs. -/
  runs : List RunRef
  /-- The files that these tables and functions are in. -/
  resolved : ResolvedRefs

/-- The references whose indices, which count from `start`, are not resolved. -/
def unresolvedFrom {α : Type} (resolved : List (Nat × String)) (start : Nat) :
    List α → List α
  | [] => []
  | ref :: refs =>
      if resolved.any fun entry => entry.1 = start then
        unresolvedFrom resolved (start + 1) refs
      else
        ref :: unresolvedFrom resolved (start + 1) refs

namespace Inspection

/-- The tables that no single file is found for. -/
def unresolvedTables (inspection : Inspection) : List TableRef :=
  unresolvedFrom inspection.resolved.tables 0 inspection.tables

/-- The functions that no single file is found for. -/
def unresolvedRuns (inspection : Inspection) : List RunRef :=
  unresolvedFrom inspection.resolved.runs 0 inspection.runs

end Inspection

/-- Everything about a script in a workspace; a scheme may be asked for. -/
def Index.inspect (index : Index) (asked : Option String) (text : String) : Inspection :=
  let document := parseWith asked text
  let tables := readTables document.tokens
  let runs := readRuns document.tokens
  { document := document
    calls := readCalls document.tokens
    variableRefs := readVariables document.tokens
    tables := tables
    runs := runs
    resolved := index.resolveAll (tables.map TableRef.table) (runs.map RunRef.name) }

/-- Everything about a name. -/
structure Explanation where
  /-- The name, without outer blanks. -/
  identifier : String
  /-- Its documentation. -/
  doc : Option DocEntry
  /-- The summary of its documentation. -/
  summary : Option String
  /-- The documented names that begin with it, if it has no documentation. -/
  related : List String
  /-- The files of the workspace that it may mean. -/
  found : List Match

/-- Nothing is known about the name. -/
def Explanation.isEmpty (explanation : Explanation) : Bool :=
  explanation.doc.isNone && explanation.related.isEmpty && explanation.found.isEmpty

/-- Everything about a name in a workspace. -/
def Index.explain (index : Index) (docs : Registry) (name : String) : Explanation :=
  let identifier := Text.onChars Text.trim name
  let doc := docs.get? identifier
  let related :=
    if doc.isNone && identifier ≠ "" then
      (docs.search identifier).map DocEntry.name
    else
      []
  { identifier := identifier
    doc := doc
    summary := doc.bind fun entry => entry.summary? summaryWidth
    related := related
    found := index.resolve identifier }

end StackScript
