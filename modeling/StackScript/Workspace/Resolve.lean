import StackScript.Script.Reference
import StackScript.Workspace.Index

/-!
# Resolving Names

Finding the files that a name in a script or in the mouth of a person may mean.
For free text there are five ways to look; the first that finds anything gives
the answer, with all that it finds. Nothing is ever picked from several
candidates: who asks is told all of them.

A reference in a script says what kind of object it means. It is resolved if
exactly one object of that kind has the name.

## Main definitions

* `MatchKind`: The ways to look, in the order in which they are tried.
* `Index.candidates`: What one of the ways finds.
* `Index.resolve`, `Index.resolveEndpoint`: The files that free text, or a verb
  with a route, may mean.
* `Resolution`, `Index.resolveNamed`: The object of a kind that a name means.
* `ResolvedRefs`, `Index.resolveAll`: What the references of a script mean.
-/

namespace StackScript

/-- The ways to look for a name. -/
inductive MatchKind where
  /-- The name is a path. -/
  | exact
  /-- The name is the stem of a file name. -/
  | basename
  /-- The name has the key of a file name. -/
  | sanitized
  /-- The name is a verb with a route, or is formed from both. -/
  | endpoint
  /-- The name ends a path, folder by folder. -/
  | path
  deriving DecidableEq, Repr

namespace MatchKind

/-- The ways in the order in which they are tried. -/
def all : List MatchKind :=
  [exact, basename, sanitized, endpoint, path]

/-- The name under which a way is written down. -/
def name : MatchKind → String
  | exact => "exact"
  | basename => "basename"
  | sanitized => "sanitized"
  | endpoint => "endpoint"
  | path => "path"

end MatchKind

/-- A file that a name may mean. -/
structure Match where
  /-- The path of the file. -/
  path : String
  /-- The stem of the file name. -/
  name : String
  /-- What the file declares. -/
  kind : ObjectKind
  /-- How it was found. -/
  found : MatchKind
  deriving DecidableEq, Repr

/-- An object as it was found. -/
def Match.ofObject (found : MatchKind) (object : WorkspaceObject) : Match :=
  ⟨object.path, object.stem, object.kind, found⟩

/-- A text cut at its first blank: a verb and a route. -/
def cutAtBlank? (text : String) : Option (String × String) :=
  let cs := (Text.onChars Text.trim text).toList
  match cs.dropWhile (!Unicode.isBlank ·) with
  | [] => none
  | _ :: route =>
      some (String.ofList (cs.takeWhile (!Unicode.isBlank ·)), String.ofList route)

namespace Index

/-- The endpoints that a text means: a verb and a route with a blank between
    them, or the stem of the file name of an endpoint. -/
def endpointsOf (index : Index) (text : String) : List WorkspaceObject :=
  let asRequest := (cutAtBlank? text).bind fun (verb, route) =>
    (Verb.ofText? verb).map fun verb => index.withEndpoint verb.name (routePattern route)
  -- a verb in front settles what the text is, even if no endpoint answers it
  match asRequest with
  | some objects => objects
  | none =>
      match Endpoint.ofFileStem? (Text.onChars Text.trim text) with
      | some endpoint => index.withEndpoint endpoint.verb.name endpoint.pattern
      | none => []

/-- What one way of looking finds for a text. -/
def candidates (index : Index) (text : String) : MatchKind → List WorkspaceObject
  | .exact => (index.get? text).toList
  | .basename => index.withStem text
  | .sanitized =>
      let key := Text.nameKey text
      if key = "" then [] else index.withKey key
  | .endpoint => index.endpointsOf text
  | .path =>
      if text.toList.contains '/' then index.withFolders (Text.keySegments text) else []

/-- What the first of some ways that finds anything finds for a text. -/
def firstMatches (index : Index) (text : String) : List MatchKind → List Match
  | [] => []
  | way :: ways =>
      match index.candidates text way with
      | [] => index.firstMatches text ways
      | objects => objects.map (Match.ofObject way)

/-- The files that free text may mean. -/
def resolve (index : Index) (text : String) : List Match :=
  let plain := Text.onChars Text.trim text
  if plain = "" then [] else index.firstMatches plain MatchKind.all

/-- The files of the endpoints that answer a verb on a route. -/
def resolveEndpoint (index : Index) (verb route : String) : List Match :=
  (index.withEndpoint verb (routePattern route)).map (Match.ofObject .endpoint)

end Index

/-- The object that a name means. -/
inductive Resolution where
  /-- Exactly one object has the name. -/
  | found (object : WorkspaceObject)
  /-- Several have it. -/
  | ambiguous (objects : List WorkspaceObject)
  | notFound
  deriving DecidableEq, Repr

namespace Resolution

/-- The object that some candidates leave. -/
def ofCandidates : List WorkspaceObject → Resolution
  | [] => notFound
  | [object] => found object
  | objects => ambiguous objects

/-- The object, if there is exactly one. -/
def object? : Resolution → Option WorkspaceObject
  | found object => some object
  | _ => none

/-- Exactly one object has the name. -/
def isFound : Resolution → Bool
  | found _ => true
  | _ => false

/-- Several objects have the name. -/
def isAmbiguous : Resolution → Bool
  | ambiguous _ => true
  | _ => false

end Resolution

/-- What the references of a script mean, by their indices. -/
structure ResolvedRefs where
  /-- The files of the tables. -/
  tables : List (Nat × String)
  /-- The files of the functions. -/
  runs : List (Nat × String)
  deriving DecidableEq, Repr

namespace Index

/-- The objects that have a name, in whatever folder a bare name may lie, and
    in the folders that the name gives. -/
def namedObjects (index : Index) (name : String) : List WorkspaceObject :=
  match Text.keySegments name with
  | [] => []
  | [key] => index.withKey key
  | segments => index.withFolders segments

/-- The object of a kind that a name means. -/
def resolveNamed (index : Index) (name : String) (kind : ObjectKind) : Resolution :=
  .ofCandidates ((index.namedObjects name).filter fun object => object.kind = kind)

/-- The file of the table that a reference means. -/
def tablePath? (index : Index) (table : String) : Option String :=
  (index.resolveNamed table .table).object?.map WorkspaceObject.path

/-- The file of the function that a reference means. -/
def functionPath? (index : Index) (name : String) : Option String :=
  (index.resolveNamed name .function).object?.map WorkspaceObject.path

/-- What some names mean, by their indices, which count from `start`. -/
def resolvedFrom (path? : String → Option String) (start : Nat) :
    List String → List (Nat × String)
  | [] => []
  | name :: names =>
      match path? name with
      | some path => (start, path) :: resolvedFrom path? (start + 1) names
      | none => resolvedFrom path? (start + 1) names

/-- What the references to tables and functions mean. -/
def resolveAll (index : Index) (tables runs : List String) : ResolvedRefs where
  tables := resolvedFrom index.tablePath? 0 tables
  runs := resolvedFrom index.functionPath? 0 runs

end Index

end StackScript
