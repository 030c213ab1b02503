import Mathlib.Data.List.Perm.Basic
import StackScript.Inspection
import StackScript.Proofs.Workspace.Index

/-!
# What the References of a Script Mean

A reference in a script says what kind of object it means and gives a name for
it. It is resolved if one object of that kind bears the name, and only then:
with two such objects neither is taken, and an object of another kind counts for
nothing, neither as an answer nor as a rival.

Which objects bear a name is decided by the number of its keys. A bare name is
looked up among the stems of the file names, a name with folders among the ends
of the paths, and these are two tables of the index. `WorkspaceObject.Bears` puts
both into one condition on the object, and the filter by kind comes after the
look-up in either case, so a single equation, `resolveNamed_object?`, holds for
all names and kinds.

## Main definitions

* `WorkspaceObject.Bears`: The object has the name.
* `IsOnly`: The only object of a kind that bears a name.
* `ResolvesTo`: The files that some names of objects of a kind mean.
* `unlisted`: The references whose indices are not listed.
* `Inspection.ResolvesExactly`: The references of a text and their files.

## Theorems

* `namedObjects_ofInventory`: The objects that bear a name.
* `resolveNamed_ofInventory`: What a name of a kind means.
* `resolveNamed_object?`: A name means the only object of a kind that bears it.
* `resolvesTo_resolvedFrom`: The files of a list of names.
* `inspect_resolvesExactly`: What the references of a script mean.
* `inspect_shop`: Two references with a file and two without.
-/

namespace StackScript

namespace WorkspaceObject

/-- The object bears the name. A name with a single key is that of the file, a
    name with several keys ends the path, folder by folder, and without any key
    it is no name. -/
def Bears (object : WorkspaceObject) (name : String) : Prop :=
  match Text.keySegments name with
  | [] => False
  | [key] => Text.nameKey object.stem = key
  | segments => segments <:+ object.segmentKeys

variable {object : WorkspaceObject} {name : String}

theorem not_bears (h : Text.keySegments name = []) : ¬ object.Bears name := by
  rw [Bears, h]
  exact not_false

theorem bears_bare {key : String} (h : Text.keySegments name = [key]) :
    object.Bears name ↔ Text.nameKey object.stem = key := by
  rw [Bears, h]

theorem bears_folders {first second : String} {others : List String}
    (h : Text.keySegments name = first :: second :: others) :
    object.Bears name ↔ first :: second :: others <:+ object.segmentKeys := by
  rw [Bears, h]

instance (object : WorkspaceObject) (name : String) : Decidable (object.Bears name) :=
  match h : Text.keySegments name with
  | [] => .isFalse (not_bears h)
  | [_] => decidable_of_iff' _ (bears_bare h)
  | _ :: _ :: _ => decidable_of_iff' _ (bears_folders h)

end WorkspaceObject

/-- Among the objects, the only one of the kind that bears the name. -/
def IsOnly (objects : List WorkspaceObject) (kind : ObjectKind) (name : String)
    (object : WorkspaceObject) : Prop :=
  ∀ other, other ∈ objects ∧ other.kind = kind ∧ other.Bears name ↔ other = object

-- The keys of a name are what is left of it once the empty ones are taken out.
theorem ne_empty_of_mem_keySegments {name key : String} (h : key ∈ Text.keySegments name) :
    key ≠ "" :=
  of_decide_eq_true (List.mem_filter.mp h).2

/-- A filter leaves one element of a list without repetitions if it lets through that
    element and no other. -/
theorem filter_eq_singleton_iff {α : Type} {values : List α} (h : values.Nodup) (p : α → Bool)
    (value : α) :
    values.filter p = [value] ↔ ∀ other, other ∈ values ∧ p other = true ↔ other = value := by
  constructor
  · intro hfilter other
    rw [← List.mem_filter, hfilter, List.mem_singleton]
  · intro honly
    refine List.perm_singleton.mp ?_
    rw [List.perm_ext_iff_of_nodup (h.filter p) (List.nodup_singleton value)]
    intro other
    rw [List.mem_filter, List.mem_singleton, honly]

/-- Two candidates decide nothing, so an object is named only if it stands alone. -/
theorem object?_ofCandidates_eq_some_iff {candidates : List WorkspaceObject}
    {object : WorkspaceObject} :
    (Resolution.ofCandidates candidates).object? = some object ↔ candidates = [object] := by
  match candidates with
  | [] => simp [Resolution.ofCandidates, Resolution.object?]
  | [candidate] => simp [Resolution.ofCandidates, Resolution.object?]
  | _ :: _ :: _ => simp [Resolution.ofCandidates, Resolution.object?]

namespace Index

variable (inventory : List WorkspaceObject)

/-- The objects that are found under a name are those that bear it. -/
theorem namedObjects_ofInventory (name : String) :
    (ofInventory inventory).namedObjects name =
      (latestEntries inventory).filter fun object => object.Bears name := by
  rw [namedObjects]
  -- The number of keys tells the table in which the name is looked up.
  match hname : Text.keySegments name with
  | [] =>
      refine (List.filter_eq_nil_iff.mpr fun object _ hbears => ?_).symm
      exact WorkspaceObject.not_bears hname (of_decide_eq_true hbears)
  | [key] =>
      have hkey : key ≠ "" := ne_empty_of_mem_keySegments (by rw [hname]; exact .head _)
      dsimp only
      rw [withKey_ofInventory _ hkey]
      exact List.filter_congr fun object _ =>
        decide_eq_decide.mpr (WorkspaceObject.bears_bare hname).symm
  | first :: second :: others =>
      dsimp only
      rw [withFolders_ofInventory _ (List.cons_ne_nil _ _)]
      exact List.filter_congr fun object _ =>
        decide_eq_decide.mpr (WorkspaceObject.bears_folders hname).symm

/-- What a name means is left over by the objects of the kind that bear it. -/
theorem resolveNamed_ofInventory (name : String) (kind : ObjectKind) :
    (ofInventory inventory).resolveNamed name kind =
      .ofCandidates ((latestEntries inventory).filter fun object =>
        object.kind = kind && object.Bears name) := by
  rw [resolveNamed, namedObjects_ofInventory, List.filter_filter]

/-- A name means an object of a kind if that is the only one of the kind which
    bears the name. -/
theorem resolveNamed_object? (name : String) (kind : ObjectKind) (object : WorkspaceObject) :
    ((ofInventory inventory).resolveNamed name kind).object? = some object ↔
      IsOnly (latestEntries inventory) kind name object := by
  have hnodup : (latestEntries inventory).Nodup :=
    .of_map WorkspaceObject.path (nodup_paths_latestEntries inventory)
  rw [resolveNamed_ofInventory, object?_ofCandidates_eq_some_iff, filter_eq_singleton_iff hnodup]
  simp only [IsOnly, Bool.and_eq_true, decide_eq_true_eq]

end Index

/-! ## Lists of references -/

section Listed

variable (path? : String → Option String)

/-- The indices count from `start`, and names without a file use theirs up as well. -/
theorem le_of_mem_resolvedFrom {start : Nat} {names : List String} {entry : Nat × String}
    (h : entry ∈ Index.resolvedFrom path? start names) : start ≤ entry.1 := by
  fun_induction Index.resolvedFrom path? start names with
  | case1 => cases h
  | case2 start name names path hpath ih =>
      rcases List.mem_cons.mp h with rfl | hrest
      · exact Nat.le_refl start
      · exact Nat.le_of_succ_le (ih hrest)
  | case3 start name names hpath ih => exact Nat.le_of_succ_le (ih h)

/-- No index comes twice, and they come in order. -/
theorem resolvedFrom_pairwise (start : Nat) (names : List String) :
    (Index.resolvedFrom path? start names).Pairwise fun a b => a.1 < b.1 := by
  fun_induction Index.resolvedFrom path? start names with
  | case1 => exact .nil
  | case2 start name names path hpath ih =>
      exact List.pairwise_cons.mpr ⟨fun entry hentry => le_of_mem_resolvedFrom path? hentry, ih⟩
  | case3 start name names hpath ih => exact ih

/-- The index of an entry is that of its name, counted from `start`. -/
theorem mem_resolvedFrom (start : Nat) (names : List String) (i : Nat) (path : String) :
    (start + i, path) ∈ Index.resolvedFrom path? start names ↔
      ∃ name ∈ names[i]?, path? name = some path := by
  induction names generalizing start i with
  | nil => simp [Index.resolvedFrom]
  | cons name names ih =>
      cases i with
      | zero =>
          -- The later names have later indices, so this one is on its own.
          have hrest : (start, path) ∉ Index.resolvedFrom path? (start + 1) names := fun h =>
            absurd (le_of_mem_resolvedFrom path? h) (Nat.not_succ_le_self start)
          cases hname : path? name with
          | none => simp [Index.resolvedFrom, hname, hrest]
          | some found => simp [Index.resolvedFrom, hname, hrest, eq_comm]
      | succ i =>
          have hnext := ih (start + 1) i
          rw [Nat.add_assoc, Nat.add_comm 1 i] at hnext
          cases hname : path? name with
          | none => simpa [Index.resolvedFrom, hname] using hnext
          | some found => simpa [Index.resolvedFrom, hname] using hnext

end Listed

/-- The files that the names of objects of a kind mean, by their indices: a name
    has a file if one object only of the kind bears it, and no index comes
    twice. -/
structure ResolvesTo (objects : List WorkspaceObject) (kind : ObjectKind) (names : List String)
    (resolved : List (Nat × String)) : Prop where
  /-- The indices come in order. -/
  rising : resolved.Pairwise fun a b => a.1 < b.1
  /-- An index has the path of the only object that its name means. -/
  mem_iff : ∀ i path, (i, path) ∈ resolved ↔
    ∃ name ∈ names[i]?, ∃ object, IsOnly objects kind name object ∧ object.path = path

/-- The names of a list have the files of the objects that they mean. -/
theorem resolvesTo_resolvedFrom (inventory : List WorkspaceObject) (kind : ObjectKind)
    (names : List String) :
    ResolvesTo (latestEntries inventory) kind names (Index.resolvedFrom
      (fun name => ((Index.ofInventory inventory).resolveNamed name kind).object?.map
        WorkspaceObject.path) 0 names) where
  rising := resolvedFrom_pairwise _ 0 names
  mem_iff i path := by
    have hmem := mem_resolvedFrom (fun name =>
      ((Index.ofInventory inventory).resolveNamed name kind).object?.map WorkspaceObject.path)
      0 names i path
    rw [Nat.zero_add] at hmem
    simp only [hmem, Option.map_eq_some_iff, Index.resolveNamed_object?]

/-- The references whose indices are not listed, in order. -/
def unlisted {α : Type} (resolved : List (Nat × String)) (refs : List α) : List α :=
  (refs.zipIdx.filter fun entry => entry.2 ∉ resolved.map (·.1)).map (·.1)

/-- The scan asks for each index whether it is listed, the filter does so at once. -/
theorem unresolvedFrom_eq {α : Type} (resolved : List (Nat × String)) (start : Nat)
    (refs : List α) :
    unresolvedFrom resolved start refs =
      ((refs.zipIdx start).filter fun entry => entry.2 ∉ resolved.map (·.1)).map (·.1) := by
  induction refs generalizing start with
  | nil => rfl
  | cons ref refs ih =>
      have hlisted : (resolved.any fun entry => entry.1 = start) =
          decide (start ∈ resolved.map (·.1)) := by
        rw [Bool.eq_iff_iff, List.any_eq_true, decide_eq_true_eq, List.mem_map]
        simp only [decide_eq_true_eq]
      rw [unresolvedFrom, hlisted, List.zipIdx_cons]
      -- The reader asks the list, and so does the filter.
      by_cases hmem : start ∈ resolved.map (·.1)
      · rw [if_pos (decide_eq_true hmem), List.filter_cons_of_neg (by simpa using hmem), ih]
      · rw [if_neg (by simpa using hmem), List.filter_cons_of_pos (by simpa using hmem),
          List.map_cons, ih]

/-- The references of a text, and what they mean in an inventory. -/
structure Inspection.ResolvesExactly (inspection : Inspection)
    (inventory : List WorkspaceObject) (asked : Option String) (text : String) : Prop where
  /-- The document is the reading of the text. -/
  document : inspection.document = parseWith asked text
  /-- The references to tables are those of the text, in order. -/
  tables_read : inspection.tables = readTables (tokenize text)
  /-- The references to functions are those of the text, in order. -/
  runs_read : inspection.runs = readRuns (tokenize text)
  /-- The tables have the files of the only tables that bear their names. -/
  tables : ResolvesTo (latestEntries inventory) .table (inspection.tables.map TableRef.table)
    inspection.resolved.tables
  /-- The functions have the files of the only functions that bear their names. -/
  runs : ResolvesTo (latestEntries inventory) .function (inspection.runs.map RunRef.name)
    inspection.resolved.runs
  /-- The references to tables at all other indices are those without a file. -/
  unresolvedTables : inspection.unresolvedTables =
    unlisted inspection.resolved.tables inspection.tables
  /-- The references to functions at all other indices are those without a file. -/
  unresolvedRuns : inspection.unresolvedRuns =
    unlisted inspection.resolved.runs inspection.runs

/-- The references of a script to tables and to functions have the files of the
    only objects of these kinds that bear their names, among the latest entries
    of the inventory. The references at all other indices are those without a
    file. -/
theorem inspect_resolvesExactly (inventory : List WorkspaceObject) (asked : Option String)
    (text : String) :
    ((Index.ofInventory inventory).inspect asked text).ResolvesExactly inventory asked text where
  document := rfl
  tables_read := rfl
  runs_read := rfl
  tables := resolvesTo_resolvedFrom inventory .table _
  runs := resolvesTo_resolvedFrom inventory .function _
  unresolvedTables := unresolvedFrom_eq _ 0 _
  unresolvedRuns := unresolvedFrom_eq _ 0 _

/-- A shop with a table and a function of one name, and with two tables of
    another name. -/
def shop : List WorkspaceObject :=
  [⟨1, "db/users.xs", .table, ""⟩, ⟨2, "lib/users.xs", .function, ""⟩,
   ⟨3, "db/orders.xs", .table, ""⟩, ⟨4, "db/old/orders.xs", .table, ""⟩,
   ⟨5, "lib/auth/check.xs", .function, ""⟩]

/-- A script for the shop. -/
def shopScript : String :=
  "function f \x7b\n  stack \x7b\n    db.query users\n    db.get orders\n" ++
    "    function.run \"Auth/Check\"\n    function.run \"orders\"\n  \x7d\n\x7d"

/-- A function is no rival of a table, but a second table is. -/
theorem inspect_shop :
    let inspection := (Index.ofInventory shop).inspect none shopScript
    inspection.tables.map TableRef.table = ["users", "orders"] ∧
      inspection.runs.map RunRef.name = ["Auth/Check", "orders"] ∧
      inspection.resolved = ⟨[(0, "db/users.xs")], [(0, "lib/auth/check.xs")]⟩ ∧
      inspection.unresolvedTables.map TableRef.table = ["orders"] ∧
      inspection.unresolvedRuns.map RunRef.name = ["orders"] := by
  intro inspection
  have h : inspection.ResolvesExactly shop none shopScript := inspect_resolvesExactly _ _ _
  have htables : inspection.tables.map TableRef.table = ["users", "orders"] := by
    rw [h.tables_read]
    decide +kernel
  have hruns : inspection.runs.map RunRef.name = ["Auth/Check", "orders"] := by
    rw [h.runs_read]
    decide +kernel
  have hresolved : inspection.resolved = ⟨[(0, "db/users.xs")], [(0, "lib/auth/check.xs")]⟩ := by
    have hall : inspection.resolved = (Index.ofInventory shop).resolveAll
      (inspection.tables.map TableRef.table) (inspection.runs.map RunRef.name) := rfl
    rw [hall, htables, hruns, Index.resolveAll]
    -- A hash table does not evaluate here, a scan of the inventory does.
    unfold Index.tablePath? Index.functionPath?
    simp only [Index.resolveNamed_ofInventory]
    decide +kernel
  refine ⟨htables, hruns, hresolved, ?_, ?_⟩
  · rw [h.unresolvedTables, hresolved, h.tables_read]
    decide +kernel
  · rw [h.unresolvedRuns, hresolved, h.runs_read]
    decide +kernel

end StackScript
