import StackScript.Docs.Summary

/-!
# Documentation Registry

The documentation of functions and filters by their names. The entries are kept
in the order of the names, so all names with the same beginning stand together
and a search reads one stretch of the registry.

## Main definitions

* `DocEntry`: A name with its documentation.
* `Registry`: Entries in the order of their names.
* `Registry.ofEntries`: The registry of a list in which names may repeat.
* `Registry.search`: The entries whose names begin in a certain way.
-/

namespace StackScript

/-- A name with its documentation. -/
structure DocEntry where
  /-- The full name, with dots. -/
  name : String
  /-- The documentation in Markdown. -/
  body : String
  deriving DecidableEq, Repr

/-- The width of a summary if none is asked for. -/
def summaryWidth : Nat := 80

/-- The summary of an entry. -/
def DocEntry.summary? (entry : DocEntry) (width : Nat) : Option String :=
  Docs.summarize entry.body width

/-- Entries in the order of their names, without repetitions. -/
structure Registry where
  /-- The entries. -/
  entries : List DocEntry
  deriving DecidableEq, Repr

namespace Registry

/-- Some entries in order with one more, which replaces that of its name. -/
def insertEntry (entry : DocEntry) : List DocEntry → List DocEntry
  | [] => [entry]
  | other :: others =>
      if entry.name < other.name then
        entry :: other :: others
      else if entry.name = other.name then
        entry :: others
      else
        other :: insertEntry entry others

/-- The registry of some entries; of those with the same name, the last
    counts. -/
def ofEntries (entries : List DocEntry) : Registry :=
  ⟨entries.foldl (fun sorted entry => insertEntry entry sorted) []⟩

/-- The entry of a name. -/
def get? (registry : Registry) (name : String) : Option DocEntry :=
  registry.entries.find? fun entry => entry.name = name

/-- The names, in order. -/
def names (registry : Registry) : List String :=
  registry.entries.map DocEntry.name

/-- The name begins with the given text. -/
def nameBeginsWith (beginning : String) (entry : DocEntry) : Bool :=
  beginning.toList.isPrefixOf entry.name.toList

/-- The entries whose names begin with the given text. They are the first ones
    from that text on in the order of names. -/
def search (registry : Registry) (beginning : String) : List DocEntry :=
  (registry.entries.dropWhile fun entry => entry.name < beginning).takeWhile
    (nameBeginsWith beginning)

/-- The summary of the entry of a name. -/
def summary? (registry : Registry) (name : String) (width : Nat) : Option String :=
  (registry.get? name).bind fun entry => entry.summary? width

end Registry

end StackScript
