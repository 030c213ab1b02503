/-!
# Tables in Order of Insertion

A table from names to values that remembers in which order the names came. A
name that comes again keeps its place and takes the new value.

## Main definitions

* `OrderedTable`: Names with their values, in order.
* `get?`, `contains`, `names`: Reading a table.
* `insert`, `insertNew`: A table with one more value.
* `ofList`: The table of a list in which names may repeat.

## Theorems

* `get?_insert`: What a table holds behind an insertion.
* `names_insert`: Insertion adds new names at the end only.
* `insert_of_notMem`: Insertion of a new name.
* `length_insert`: Insertion makes a table longer if the name is new.
-/

namespace StackScript

/-- Names with their values, in the order in which the names came. -/
structure OrderedTable (α : Type) where
  /-- The names with their values. -/
  entries : List (String × α)
  deriving DecidableEq, Repr

namespace OrderedTable

variable {α : Type}

/-- The table without names. -/
def empty : OrderedTable α := ⟨[]⟩

/-- The names, in order. -/
def names (table : OrderedTable α) : List String :=
  table.entries.map (·.1)

/-- The values, in the order of their names. -/
def values (table : OrderedTable α) : List α :=
  table.entries.map (·.2)

/-- The value of a name. -/
def get? (table : OrderedTable α) (name : String) : Option α :=
  (table.entries.find? fun entry => entry.1 = name).map (·.2)

/-- The table has the name. -/
def contains (table : OrderedTable α) (name : String) : Bool :=
  (table.get? name).isSome

/-- The entries with the value of `name` set: in its place if it has one, else
    at the end. -/
def insertEntry (name : String) (value : α) : List (String × α) → List (String × α)
  | [] => [(name, value)]
  | entry :: entries =>
      if name = entry.1 then
        (name, value) :: entries
      else
        entry :: insertEntry name value entries

/-- The table with the value of `name` set. -/
def insert (table : OrderedTable α) (name : String) (value : α) : OrderedTable α :=
  ⟨insertEntry name value table.entries⟩

/-- The table with the value of `name` set, unless it has one already. -/
def insertNew (table : OrderedTable α) (name : String) (value : α) : OrderedTable α :=
  if table.contains name then table else table.insert name value

/-- The table of a list in which names may repeat: the first place and the last
    value of each. -/
def ofList (entries : List (String × α)) : OrderedTable α :=
  entries.foldl (fun table entry => table.insert entry.1 entry.2) empty

/-- Both tables hold the same values, in whatever order. -/
def sameEntries [DecidableEq α] (a b : OrderedTable α) : Bool :=
  a.entries.length = b.entries.length &&
    a.entries.all fun entry => b.get? entry.1 = some entry.2

/-- The name that is put in is found with its new value, every other one as before. -/
private theorem find?_insertEntry (name other : String) (value : α)
    (entries : List (String × α)) :
    ((insertEntry name value entries).find? fun entry => entry.1 = other).map (·.2) =
      if other = name then some value
      else (entries.find? fun entry => entry.1 = other).map (·.2) := by
  induction entries with
  | nil =>
      by_cases h : other = name
      · simp [insertEntry, h]
      · simp [insertEntry, h, Ne.symm h]
  | cons entry entries ih =>
      rw [insertEntry]
      split
      · next h =>
        by_cases ho : other = name
        · simp [ho]
        · simp [ho, Ne.symm ho, ← h]
      · next h =>
        by_cases ho : entry.1 = other
        · have : other ≠ name := fun hn => h (hn ▸ ho.symm)
          simp [ho, this]
        · simpa [ho] using ih

/-- An insertion sets the value of its name and no other. -/
theorem get?_insert (table : OrderedTable α) (name other : String) (value : α) :
    (table.insert name value).get? other =
      if other = name then some value else table.get? other :=
  find?_insertEntry name other value table.entries

/-- A name that is known keeps its place, a new one comes last. -/
private theorem map_fst_insertEntry (name : String) (value : α) (entries : List (String × α)) :
    (insertEntry name value entries).map (·.1) =
      if name ∈ entries.map (·.1) then entries.map (·.1) else entries.map (·.1) ++ [name] := by
  induction entries with
  | nil => simp [insertEntry]
  | cons entry entries ih =>
      rw [insertEntry]
      by_cases h : name = entry.1
      · simp [h]
      · by_cases hm : name ∈ entries.map (·.1)
        · rw [if_neg h, List.map_cons, ih, if_pos hm, if_pos (by simp at hm ⊢; exact .inr hm)]
          rfl
        · rw [if_neg h, List.map_cons, ih, if_neg hm, if_neg (by simp at hm ⊢; exact ⟨h, hm⟩)]
          rfl

/-- An insertion leaves the order of the names alone and adds a new one at the
    end. -/
theorem names_insert (table : OrderedTable α) (name : String) (value : α) :
    (table.insert name value).names =
      if name ∈ table.names then table.names else table.names ++ [name] :=
  map_fst_insertEntry name value table.entries

private theorem insertEntry_of_notMem {name : String} {entries : List (String × α)}
    (h : name ∉ entries.map (·.1)) (value : α) :
    insertEntry name value entries = entries ++ [(name, value)] := by
  induction entries with
  | nil => rfl
  | cons entry entries ih =>
      rw [List.map_cons, List.mem_cons, not_or] at h
      rw [insertEntry, if_neg h.1, ih h.2]
      rfl

/-- A new name goes to the end. -/
theorem insert_of_notMem (table : OrderedTable α) {name : String} (h : name ∉ table.names)
    (value : α) : table.insert name value = ⟨table.entries ++ [(name, value)]⟩ :=
  congrArg mk (insertEntry_of_notMem h value)

-- A name is found exactly if it is one of the names.
theorem contains_iff_mem_names (table : OrderedTable α) (name : String) :
    table.contains name ↔ name ∈ table.names := by
  rw [contains, get?, Option.isSome_map, List.find?_isSome, names, List.mem_map]
  simp only [decide_eq_true_eq]

/-- An insertion makes the table longer if the name is new. -/
theorem length_insert (table : OrderedTable α) (name : String) (value : α) :
    (table.insert name value).entries.length =
      if table.contains name then table.entries.length else table.entries.length + 1 := by
  have hnames := congrArg List.length (table.names_insert name value)
  rw [names, List.length_map, apply_ite List.length, List.length_append, names,
    List.length_map] at hnames
  simp only [contains_iff_mem_names]
  exact hnames

end OrderedTable

end StackScript
