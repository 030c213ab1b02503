import StackScript.Proofs.Workspace.Reference
import StackScript.Proofs.Workspace.Resolve

/-!
# The Order of an Inventory

In which order the files of a workspace are listed is an accident of the file
system, and nothing that is looked up may depend on it. The order shows in the
answers, which come in the order of the inventory, but it decides nothing: the
same files are found in the same way, and a name means the same object or none.

An inventory in which no path comes twice is what the index keeps, so two such
inventories that differ in their order are filtered alike. What could go wrong
then is a step that takes the first of several objects. The way in which a text
is taken asks only whether there are any, and a reference takes an object only
if there is no other.

## Main definitions

* `Resolution.Alike`: The same object, or the same candidates in some order.
* `Index.AnswersAlike`: Two indexes give the same answers up to their order.

## Theorems

* `firstWay?_perm`: The way in which a text is taken.
* `alike_ofCandidates`: The object that some candidates leave.
* `permuted_answersAlike`: The order of an inventory decides nothing.
-/

namespace StackScript

/-- The same object, the same candidates in some order, or nothing. -/
inductive Resolution.Alike : Resolution → Resolution → Prop where
  | found (object : WorkspaceObject) : Alike (.found object) (.found object)
  | ambiguous {objects others : List WorkspaceObject} (h : objects.Perm others) :
      Alike (.ambiguous objects) (.ambiguous others)
  | notFound : Alike .notFound .notFound

/-- Two indexes give the same answers, up to the order in which they list what
    they find. -/
structure Index.AnswersAlike (index other : Index) : Prop where
  /-- Free text means the same files. -/
  resolve : ∀ text, (index.resolve text).Perm (other.resolve text)
  /-- They are found in the same way. -/
  winner : ∀ text, StackScript.winner (index.resolve text) = StackScript.winner (other.resolve text)
  /-- The same endpoints answer a verb on a route. -/
  resolveEndpoint : ∀ verb route,
    (index.resolveEndpoint verb route).Perm (other.resolveEndpoint verb route)
  /-- A name of a kind means the same object. -/
  resolveNamed : ∀ name kind,
    (index.resolveNamed name kind).Alike (other.resolveNamed name kind)
  /-- The references of a script have the same files. -/
  resolveAll : ∀ tables runs, index.resolveAll tables runs = other.resolveAll tables runs

/-- Alike resolutions mean the same object. -/
theorem Resolution.Alike.object? {a b : Resolution} (h : a.Alike b) : a.object? = b.object? := by
  cases h with
  | found object => rfl
  | ambiguous h => rfl
  | notFound => rfl

/-- What some candidates leave does not depend on their order. -/
theorem alike_ofCandidates {candidates others : List WorkspaceObject}
    (h : candidates.Perm others) :
    (Resolution.ofCandidates candidates).Alike (Resolution.ofCandidates others) := by
  match candidates with
  | [] =>
      rw [← h.nil_eq]
      exact .notFound
  | [object] =>
      rw [← List.singleton_perm.mp h]
      exact .found object
  | _ :: _ :: _ =>
      match others with
      | [] => exact absurd h.length_eq (by simp)
      | [_] => exact absurd h.length_eq (by simp)
      | _ :: _ :: _ => exact .ambiguous h

section Permuted

variable {objects others : List WorkspaceObject}

/-- The way in which a text is taken does not depend on the order of the
    objects. -/
theorem firstWay?_perm (h : objects.Perm others) (text : String) (ways : List MatchKind) :
    firstWay? text objects ways = firstWay? text others ways := by
  unfold firstWay?
  congr 1
  funext way
  exact h.any_eq

/-- The way asks only whether there are any objects, so it is the same. -/
theorem foundAmong_perm (h : objects.Perm others) (text : String) :
    (foundAmong text objects).Perm (foundAmong text others) := by
  unfold foundAmong
  rw [firstWay?_perm h]
  cases firstWay? text others MatchKind.all with
  | none => exact .refl _
  | some way => exact (h.filter _).map _

end Permuted

namespace Index

variable {inventory others : List WorkspaceObject}

theorem resolveNamed_alike (h : (latestEntries inventory).Perm (latestEntries others))
    (name : String) (kind : ObjectKind) :
    ((ofInventory inventory).resolveNamed name kind).Alike
      ((ofInventory others).resolveNamed name kind) := by
  rw [resolveNamed_ofInventory, resolveNamed_ofInventory]
  exact alike_ofCandidates (h.filter _)

/-- Indexes of the same objects give the same answers, in whatever order these
    are listed. -/
theorem answersAlike_ofInventory (h : (latestEntries inventory).Perm (latestEntries others)) :
    (ofInventory inventory).AnswersAlike (ofInventory others) where
  resolve text := by
    rw [resolve_eq, resolve_eq]
    split
    · exact .refl _
    · exact foundAmong_perm h _
  winner text := by
    rw [resolve_eq, resolve_eq]
    split
    · rfl
    · rw [winner_foundAmong, winner_foundAmong, firstWay?_perm h]
  resolveEndpoint verb route := by
    unfold resolveEndpoint
    rw [withEndpoint_ofInventory, withEndpoint_ofInventory]
    exact (h.filter _).map _
  resolveNamed := resolveNamed_alike h
  resolveAll tables runs := by
    -- A reference is resolved by the object it means.
    have htables : (ofInventory inventory).tablePath? = (ofInventory others).tablePath? :=
      funext fun name => congrArg (Option.map WorkspaceObject.path)
        (resolveNamed_alike h name .table).object?
    have hruns : (ofInventory inventory).functionPath? = (ofInventory others).functionPath? :=
      funext fun name => congrArg (Option.map WorkspaceObject.path)
        (resolveNamed_alike h name .function).object?
    rw [resolveAll, resolveAll, htables, hruns]

/-- The order of an inventory in which no path comes twice decides nothing. -/
theorem permuted_answersAlike (h : inventory.Perm others)
    (hdistinct : (inventory.map WorkspaceObject.path).Nodup) :
    (ofInventory inventory).AnswersAlike (ofInventory others) := by
  have hothers : (others.map WorkspaceObject.path).Nodup :=
    (h.map WorkspaceObject.path).nodup_iff.mp hdistinct
  refine answersAlike_ofInventory ?_
  rwa [latestEntries_of_nodup hdistinct, latestEntries_of_nodup hothers]

/-- Two tables of one name are found in either order, and neither is taken. -/
theorem permuted_answersAlike_users :
    let users : WorkspaceObject := ⟨1, "db/users.xs", .table, ""⟩
    let archived : WorkspaceObject := ⟨2, "db/old/Users.xs", .table, ""⟩
    let load : WorkspaceObject := ⟨3, "lib/users.xs", .function, ""⟩
    [users, archived, load].Perm [load, archived, users] ∧
      ([users, archived, load].map WorkspaceObject.path).Nodup ∧
      (ofInventory [users, archived, load]).resolve "users" =
        [Match.ofObject .basename users, Match.ofObject .basename load] ∧
      ((ofInventory [load, archived, users]).resolve "users").Perm
        [Match.ofObject .basename users, Match.ofObject .basename load] ∧
      (ofInventory [users, archived, load]).resolveNamed "users" .table =
        .ambiguous [users, archived] ∧
      (Resolution.ambiguous [users, archived]).Alike
        ((ofInventory [load, archived, users]).resolveNamed "users" .table) := by
  intro users archived load
  have hperm : [users, archived, load].Perm [load, archived, users] := by decide
  have hdistinct : ([users, archived, load].map WorkspaceObject.path).Nodup := by decide
  have hfound : (ofInventory [users, archived, load]).resolve "users" =
      [Match.ofObject .basename users, Match.ofObject .basename load] :=
    (resolve_eq _ _).trans (by decide +kernel)
  have hnamed : (ofInventory [users, archived, load]).resolveNamed "users" .table =
      .ambiguous [users, archived] :=
    (resolveNamed_ofInventory _ _ _).trans (by decide +kernel)
  have halike := permuted_answersAlike hperm hdistinct
  refine ⟨hperm, hdistinct, hfound, ?_, hnamed, ?_⟩
  · rw [← hfound]
    exact (halike.resolve "users").symm
  · rw [← hnamed]
    exact halike.resolveNamed "users" .table

end Index

end StackScript
