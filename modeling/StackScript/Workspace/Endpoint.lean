import StackScript.Text.Trim
import StackScript.Unicode.FinalSigma

/-!
# Endpoint Keys

An API endpoint answers a verb on a route. The file of an endpoint is named
after both: the segments of the route joined by underscores, one more
underscore, and the verb. The key of an endpoint is what a file name and a
route have in common, so that either leads to the other.

## Main definitions

* `Verb`, `Verb.ofText?`: The verbs an endpoint may answer.
* `Endpoint`: A verb and a route pattern.
* `Endpoint.ofFileStem?`: The key that a file name spells.
* `routePattern`: The pattern that a route spells.
-/

namespace StackScript

/-- The verbs an endpoint may answer. -/
inductive Verb where
  | get
  | post
  | put
  | patch
  | delete
  | head
  | options
  deriving DecidableEq, Hashable, Repr

namespace Verb

/-- Every verb, in a fixed order. -/
def all : List Verb :=
  [get, post, put, patch, delete, head, options]

/-- The verb in capitals. -/
def name : Verb → String
  | get => "GET"
  | post => "POST"
  | put => "PUT"
  | patch => "PATCH"
  | delete => "DELETE"
  | head => "HEAD"
  | options => "OPTIONS"

/-- The verb of this name, in ASCII letters of either case. -/
def ofText? (text : String) : Option Verb :=
  all.find? fun verb => verb.name = text.toUpper

end Verb

/-- What identifies an endpoint: its verb and the pattern of its route, in
    lower case. -/
structure Endpoint where
  /-- The verb it answers. -/
  verb : Verb
  /-- The segments of its route, joined by underscores. -/
  pattern : String
  deriving DecidableEq, Hashable, Repr

/-- The endpoint that the stem of a file name spells: a pattern, an underscore
    and a verb. The pattern must not be empty. -/
def Endpoint.ofFileStem? (stem : String) : Option Endpoint :=
  let backwards := stem.toList.reverse
  match backwards.dropWhile (· ≠ '_') with
  | [] => none
  | [_] => none
  | _ :: before =>
      (Verb.ofText? (String.ofList (backwards.takeWhile (· ≠ '_')).reverse)).map
        fun verb => ⟨verb, Unicode.lowerText (String.ofList before.reverse)⟩

/-- A segment of a route without the marks of a parameter: a colon in front,
    or braces around it. -/
def plainSegment (segment : List Char) : List Char :=
  Text.trimBy (fun c => c = '{' || c = '}') ((Text.trim segment).dropWhile (· = ':'))

/-- The pattern that a route spells: its segments without parameter marks,
    joined by underscores, in lower case. -/
def routePattern (route : String) : String :=
  let plain := ((route.toList.splitOn '/').map plainSegment).filter (· ≠ [])
  Unicode.lowerText (String.ofList (List.intercalate ['_'] plain))

end StackScript
