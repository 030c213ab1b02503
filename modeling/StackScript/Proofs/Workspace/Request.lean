import Mathlib.Data.Bool.AllAny
import StackScript.Proofs.Text.Key
import StackScript.Proofs.Workspace.Resolve
import StackScript.Proofs.Workspace.Route

/-!
# Requests for Endpoints

There are three ways to ask for an endpoint: by its verb and its route, by a text
with both of them in it, and by the name of its file. The file is named after the
route as well, so what is read from a name, from its last underscore on, has to
meet what is read from a route, from slash to slash.

A name and a route meet in the segments. `endpointName` writes them with
underscores between them, `IsRouteOf` in all the ways there are for a route, and
both are read back as the same pattern. A verb has neither an underscore nor a
blank in it. So the last underscore of a name is always the one in front of the
verb, and the first blank of a text the one behind it.

In free text a request is one of several things that the text might mean, and
these are tried in a fixed order. A file that is named like the request, letter
by letter, comes before what the request asks for.

## Main definitions

* `Verb.IsNamedBy`: The words for a verb.
* `endpointName`: The name of the file for a route and a verb.
* `WorkspaceObject.IsEndpointFor`: The object is an endpoint with such a name.

## Theorems

* `endpointsOf_request`: What a text with a verb and a route in it means.
* `endpointsOf_endpointName`: What the name of a file means.
* `resolveEndpoint_spelling`: An endpoint is found on every spelling of its route.
* `resolve_verbAndRoute`: What a verb and a route in free text mean.
-/

namespace StackScript

/-! ## Verbs -/

namespace Verb

/-- The word is the name of the verb, in letters of either case. -/
def IsNamedBy (verb : Verb) (word : String) : Prop :=
  word.toUpper = verb.name

instance (verb : Verb) (word : String) : Decidable (verb.IsNamedBy word) :=
  inferInstanceAs (Decidable (_ = _))

variable {verb : Verb} {word : String}

theorem ofText?_of_isNamedBy (h : verb.IsNamedBy word) : ofText? word = some verb := by
  rw [ofText?, show word.toUpper = verb.name from h]
  cases verb <;> decide

theorem isNamedBy_name (verb : Verb) : verb.IsNamedBy verb.name := by
  cases verb <;> decide +kernel

theorem map_toUpper (h : verb.IsNamedBy word) :
    word.toList.map Char.toUpper = verb.name.toList := by
  rw [← String.toList_map]
  exact congrArg String.toList h

theorem toUpper_mem_name (h : verb.IsNamedBy word) {c : Char} (hc : c ∈ word.toList) :
    c.toUpper ∈ verb.name.toList := by
  rw [← map_toUpper h]
  exact List.mem_map_of_mem hc

/-- There is neither an underscore nor a blank among them. -/
theorem underscore_notMem_of_isNamedBy (h : verb.IsNamedBy word) : '_' ∉ word.toList := by
  intro hmem
  have hname := toUpper_mem_name h hmem
  revert hname
  cases verb <;> decide

/-- A small letter is told by its own code, any other character by its capital, which is the
    character itself. -/
theorem isKeyChar_of_isNamedBy (h : verb.IsNamedBy word) {c : Char} (hc : c ∈ word.toList) :
    Text.isKeyChar c = true := by
  have hletters : verb.name.toList.all Char.isAlphanum = true := by
    cases verb <;> decide
  have hletter : c.isAlphanum = true := by
    have hname := List.all_eq_true.mp hletters _ (toUpper_mem_name h hc)
    by_cases hsmall : 'a'.val ≤ c.val ∧ c.val ≤ 'z'.val
    · have hlower : c.isLower = true :=
        Bool.and_eq_true_iff.mpr ⟨decide_eq_true hsmall.1, decide_eq_true hsmall.2⟩
      have halpha : c.isAlpha = true := Bool.or_eq_true_iff.mpr (Or.inr hlower)
      exact Bool.or_eq_true_iff.mpr (Or.inl halpha)
    · rwa [show c.toUpper = c from dif_neg hsmall] at hname
  have hne : c ≠ '_' := fun heq => underscore_notMem_of_isNamedBy h (heq ▸ hc)
  rw [Text.isKeyChar, Unicode.isWordChar_of_isAlphanum c hletter, decide_eq_true hne]
  rfl

theorem isBlank_of_isNamedBy (h : verb.IsNamedBy word) {c : Char} (hc : c ∈ word.toList) :
    Unicode.isBlank c = false := by
  refine Bool.eq_false_iff.mpr fun hblank => ?_
  have hkey := isKeyChar_of_isNamedBy h hc
  rw [Text.isKeyChar_of_isBlank hblank] at hkey
  cases hkey

theorem ne_nil_of_isNamedBy (h : verb.IsNamedBy word) : word.toList ≠ [] := by
  intro hnil
  have hname := map_toUpper h
  rw [hnil, List.map_nil] at hname
  revert hname
  cases verb <;> decide

end Verb

/-! ## A verb and a route -/

/-- A word without blanks is all that is taken in front of a blank. -/
theorem cutAtBlank?_of_trim {text word rest : List Char}
    (htrim : Text.trim text = word ++ ' ' :: rest)
    (hword : ∀ c ∈ word, Unicode.isBlank c = false) :
    cutAtBlank? (String.ofList text) = some (String.ofList word, String.ofList rest) := by
  have hpass : ∀ c ∈ word, (!Unicode.isBlank c) = true := fun c hc => by rw [hword c hc]; rfl
  unfold cutAtBlank?
  dsimp only
  rw [Text.onChars, String.toList_ofList, String.toList_ofList, htrim,
    List.dropWhile_append_of_pos hpass, List.takeWhile_append_of_pos hpass,
    List.dropWhile_cons_of_neg (by decide), List.takeWhile_cons_of_neg (by decide),
    List.append_nil]

/-- A text without blanks has no verb in front. -/
theorem cutAtBlank?_of_forall {text : String} (h : ∀ c ∈ text.toList, Unicode.isBlank c = false) :
    cutAtBlank? text = none := by
  have hall : text.toList.dropWhile (!Unicode.isBlank ·) = [] :=
    List.dropWhile_eq_nil_iff.mpr fun c hc => by rw [h c hc]; rfl
  unfold cutAtBlank?
  dsimp only
  rw [Text.onChars, String.toList_ofList, Text.trim_of_isTrimmed (Text.isTrimmed_of_forall h), hall]

/-- A verb and a route with a blank between them are cut apart. Blanks behind the
    route are lost, which its pattern does not show. -/
theorem cutAtBlank?_request {verb : Verb} {word route : String} (hword : verb.IsNamedBy word)
    (hroute : Text.trim route.toList ≠ []) :
    ∃ rest, cutAtBlank? (word ++ " " ++ route) = some (word, rest) ∧
      routePattern rest = routePattern route := by
  rcases Text.exists_blanks_trim route.toList with ⟨front, behind, hcut, hfront, hbehind⟩
  have hplain := Text.isTrimmed_trim route.toList
  generalize Text.trim route.toList = plain at hroute hcut hplain
  have htext : word ++ " " ++ route =
      String.ofList ([] ++ (word.toList ++ ' ' :: (front ++ plain)) ++ behind) := by
    rw [← String.toList_inj]
    simp [hcut]
  have hletters : ∀ c ∈ word.toList, Unicode.isBlank c = false :=
    fun c hc => Verb.isBlank_of_isNamedBy hword hc
  -- With the blanks behind it gone, the text begins with the verb and ends with the route.
  have htrimmed : Text.IsTrimmed (word.toList ++ ' ' :: (front ++ plain)) := by
    constructor
    · rw [List.head?_append_of_ne_nil _ (Verb.ne_nil_of_isNamedBy hword), Option.any_eq_false]
      exact fun c hc => hletters c (List.mem_of_head? hc)
    · rw [← List.cons_append, ← List.append_assoc, List.getLast?_append_of_ne_nil _ hroute]
      exact hplain.last
  refine ⟨String.ofList (front ++ plain), ?_, ?_⟩
  · rw [htext, cutAtBlank?_of_trim (Text.trim_between (List.forall_mem_nil _) hbehind htrimmed)
      hletters, String.ofList_toList]
  · -- The blanks that are lost are none of the pattern.
    have hnone : ∀ c ∈ [], IsFiller c := List.forall_mem_nil _
    have hfront : ∀ c ∈ front, IsFiller c := fun c hc => Or.inr (hfront c hc)
    have hbehind : ∀ c ∈ behind, IsFiller c := fun c hc => Or.inr (hbehind c hc)
    rw [routePattern_eq, routePattern_eq, String.toList_ofList, hcut,
      plainSegments_between hfront hbehind, ← List.append_nil (front ++ plain),
      plainSegments_between hfront hnone]

/-! ## The name of a file -/

/-- The stem of the file name for a verb and a route: the segments joined by
    underscores, one more underscore, and the verb. -/
def endpointName (segments : List (List Char)) (word : String) : String :=
  String.ofList (List.intercalate ['_'] segments ++ '_' :: word.toList)

/-- The object is an endpoint, and its file is named after a verb and a route, in
    whatever folder it lies. -/
structure WorkspaceObject.IsEndpointFor (object : WorkspaceObject) (verb : Verb)
    (segments : List (List Char)) : Prop where
  /-- It is an endpoint. -/
  kind : object.kind = .apiEndpoint
  /-- The file name is that of the route and the verb, with an extension. -/
  fileName : ∃ word extension : String, verb.IsNamedBy word ∧ '.' ∉ extension.toList ∧
    Text.fileName object.path = endpointName segments word ++ "." ++ extension

/-- Segments put together are not empty. -/
theorem intercalate_ne_nil {segments : List (List Char)} (h : segments ≠ [])
    (hsegments : ∀ segment ∈ segments, segment ≠ []) : List.intercalate ['_'] segments ≠ [] := by
  match segments with
  | [] => exact absurd rfl h
  | [segment] =>
      rw [List.intercalate_singleton]
      exact hsegments segment (.head _)
  | segment :: other :: others =>
      rw [List.intercalate_cons_cons, List.append_assoc]
      exact List.append_ne_nil_of_left_ne_nil (hsegments segment (.head _)) _

/-- There is no blank in segments put together if there is none in any of them. -/
theorem isBlank_of_mem_intercalate {segments : List (List Char)}
    (h : ∀ segment ∈ segments, ∀ c ∈ segment, Unicode.isBlank c = false) :
    ∀ c ∈ List.intercalate ['_'] segments, Unicode.isBlank c = false := by
  induction segments with
  | nil => exact List.forall_mem_nil _
  | cons segment segments ih =>
      have hothers := ih fun other hother => h other (.tail _ hother)
      cases segments with
      | nil =>
          rw [List.intercalate_singleton]
          exact h segment (.head _)
      | cons other others =>
          intro c hc
          rw [List.intercalate_cons_cons, List.mem_append, List.mem_append,
            List.mem_singleton] at hc
          -- Rfl) | hc | a character is of the first segment, an underscore, or of the
          -- others.
          rcases hc with (hc | rfl) | hc
          · exact h segment (.head _) c hc
          · decide
          · exact hothers c hc

section Named

variable {verb : Verb} {segments : List (List Char)} {word : String}

/-- The last underscore of the name is the one in front of the verb. -/
theorem isSpelledBy_endpointName (hword : verb.IsNamedBy word)
    (hsegments : List.intercalate ['_'] segments ≠ []) :
    Endpoint.IsSpelledBy (endpointName segments word)
      ⟨verb, Unicode.lowerText (String.ofList (List.intercalate ['_'] segments))⟩ := by
  refine ⟨_, word.toList, String.toList_ofList, Verb.underscore_notMem_of_isNamedBy hword,
    hsegments, ?_, rfl⟩
  rw [String.ofList_toList, Verb.ofText?_of_isNamedBy hword]

/-- A file for a verb and segments spells their endpoint. -/
theorem WorkspaceObject.IsEndpointFor.isSpelledBy {object : WorkspaceObject}
    (h : object.IsEndpointFor verb segments) (hsegments : List.intercalate ['_'] segments ≠ []) :
    Endpoint.IsSpelledBy object.stem
      ⟨verb, Unicode.lowerText (String.ofList (List.intercalate ['_'] segments))⟩ := by
  rcases h.fileName with ⟨word, extension, hword, hdot, hname⟩
  have hstem : (endpointName segments word).toList ≠ [] := by
    rw [endpointName, String.toList_ofList]
    exact List.append_ne_nil_of_left_ne_nil hsegments _
  rw [stem, Text.fileStem_of_fileName hstem hdot hname]
  exact isSpelledBy_endpointName hword hsegments

end Named

namespace Index

theorem withEndpoint_congr (index : Index) {verb : Verb} {word other : String}
    (hword : verb.IsNamedBy word) (hother : verb.IsNamedBy other) (pattern : String) :
    index.withEndpoint word pattern = index.withEndpoint other pattern := by
  rw [withEndpoint, withEndpoint, Verb.ofText?_of_isNamedBy hword, Verb.ofText?_of_isNamedBy hother]

/-- A verb and a route in a text mean the endpoints that answer the verb on the
    route. -/
theorem endpointsOf_request (index : Index) {verb : Verb} {word route : String}
    (hword : verb.IsNamedBy word) (hroute : Text.trim route.toList ≠ []) :
    index.endpointsOf (word ++ " " ++ route) = index.withEndpoint word (routePattern route) := by
  rcases cutAtBlank?_request hword hroute with ⟨rest, hcut, hpattern⟩
  rw [endpointsOf, hcut, Option.bind_some]
  dsimp only
  rw [Verb.ofText?_of_isNamedBy hword, Option.map_some, hpattern]
  exact withEndpoint_congr index verb.isNamedBy_name hword _

/-- The name of a file means the endpoints that answer the verb on the route, if
    it has no blanks. -/
theorem endpointsOf_endpointName (index : Index) {verb : Verb} {segments : List (List Char)}
    {word : String} (hword : verb.IsNamedBy word)
    (hsegments : List.intercalate ['_'] segments ≠ [])
    (hblanks : ∀ segment ∈ segments, ∀ c ∈ segment, Unicode.isBlank c = false) :
    index.endpointsOf (endpointName segments word) = index.withEndpoint word
      (Unicode.lowerText (String.ofList (List.intercalate ['_'] segments))) := by
  have hletters : ∀ c ∈ (endpointName segments word).toList, Unicode.isBlank c = false := by
    rw [endpointName, String.toList_ofList]
    intro c hc
    rcases List.mem_append.mp hc with hc | hc
    · exact isBlank_of_mem_intercalate hblanks c hc
    · rcases List.mem_cons.mp hc with rfl | hc
      · decide
      · exact Verb.isBlank_of_isNamedBy hword hc
  -- A name without blanks is no request, so it is read as the name of a file.
  have htrim :
      Text.onChars Text.trim (endpointName segments word) = endpointName segments word := by
    rw [Text.onChars, Text.trim_of_isTrimmed (Text.isTrimmed_of_forall hletters),
      String.ofList_toList]
  rw [endpointsOf, cutAtBlank?_of_forall hletters, htrim,
    Endpoint.ofFileStem?_eq_some_iff.mpr (isSpelledBy_endpointName hword hsegments)]
  exact withEndpoint_congr index verb.isNamedBy_name hword _

variable {inventory : List WorkspaceObject}

-- By verb and route the index finds what answers them.
theorem resolveEndpoint_ofInventory (inventory : List WorkspaceObject) (verb route : String) :
    (ofInventory inventory).resolveEndpoint verb route =
      ((latestEntries inventory).filter fun object =>
        object.Answers verb (routePattern route)).map (Match.ofObject .endpoint) := by
  rw [resolveEndpoint, withEndpoint_ofInventory]

/-! ## Every spelling of a route -/

/-- An endpoint whose file is named after a route is found on every spelling of
    that route. A text with the verb and the route in it means the same endpoints,
    and so does the name of the file, if no segment has a blank in it. -/
theorem resolveEndpoint_spelling {object : WorkspaceObject} {verb : Verb}
    {segments : List (List Char)} {route asked : String}
    (hobject : object ∈ latestEntries inventory)
    (hfile : object.IsEndpointFor verb segments)
    (hsegments : ∀ segment ∈ segments, IsRouteSegment segment)
    (hroute : IsRouteOf segments route.toList) (hasked : verb.IsNamedBy asked) :
    let index := ofInventory inventory
    let answers := index.resolveEndpoint asked route
    let meant text := (index.candidates text .endpoint).map (Match.ofObject .endpoint)
    Match.ofObject .endpoint object ∈ answers ∧
      ∀ word, verb.IsNamedBy word → meant (word ++ " " ++ route) = answers ∧
        ((∀ segment ∈ segments, ∀ c ∈ segment, Unicode.isBlank c = false) →
          meant (endpointName segments word) = answers) := by
  intro index answers meant
  -- A route has a segment, so the pattern is not empty.
  have hjoined : List.intercalate ['_'] segments ≠ [] :=
    intercalate_ne_nil hroute.ne_nil fun segment hsegment => (hsegments segment hsegment).ne_nil
  have hpattern := routePattern_of_isRouteOf hroute hsegments
  have hnonblank : Text.trim route.toList ≠ [] := by
    intro hnil
    have hnone := plainSegments_of_fillers fun c hc =>
      Or.inr (Text.isBlank_of_trim_eq_nil hnil c hc)
    exact hroute.ne_nil ((plainSegments_of_isRouteOf hroute hsegments).symm.trans hnone)
  -- All three entry points ask for the same verb and the same pattern.
  have hanswers : answers =
      (index.withEndpoint asked (routePattern route)).map (Match.ofObject .endpoint) := rfl
  have hmeant (text : String) :
      meant text = (index.endpointsOf text).map (Match.ofObject .endpoint) := rfl
  refine ⟨?_, fun word hword => ⟨?_, fun hblanks => ?_⟩⟩
  · have hobject' : object.Answers asked (routePattern route) := by
      refine ⟨hfile.kind, verb, Verb.ofText?_of_isNamedBy hasked, ?_⟩
      rw [hpattern, Unicode.lowerText_lowerText]
      exact hfile.isSpelledBy hjoined
    rw [hanswers, withEndpoint_ofInventory]
    exact List.mem_map_of_mem (List.mem_filter.mpr ⟨hobject, decide_eq_true hobject'⟩)
  · rw [hmeant, hanswers, endpointsOf_request index hword hnonblank,
      withEndpoint_congr index hword hasked]
  · rw [hmeant, hanswers, endpointsOf_endpointName index hword hjoined hblanks, hpattern,
      withEndpoint_congr index hword hasked]

/-- A parameter may be written in either way, and a verb in letters of either case. -/
theorem resolveEndpoint_spelling_item :
    let item : WorkspaceObject := ⟨1, "apis/v1/Brands_item.id_Get.xs", .apiEndpoint, ""⟩
    let load : WorkspaceObject := ⟨2, "lib/Brands_item.id_Get.xs", .function, ""⟩
    let segments := ["Brands".toList, "item.id".toList]
    let route := "//\x7bBrands\x7d / :item.id/ "
    let index := ofInventory [load, item]
    let meant text := (index.candidates text .endpoint).map (Match.ofObject .endpoint)
    item ∈ latestEntries [load, item] ∧ item.IsEndpointFor .get segments ∧
      (∀ segment ∈ segments, IsRouteSegment segment) ∧ IsRouteOf segments route.toList ∧
      Verb.get.IsNamedBy "GET" ∧ Verb.get.IsNamedBy "get" ∧
      Match.ofObject .endpoint item ∈ index.resolveEndpoint "GET" route ∧
      meant ("get" ++ " " ++ route) = index.resolveEndpoint "GET" route ∧
      meant (endpointName segments "get") = index.resolveEndpoint "GET" route := by
  intro item load segments route index meant
  have hitem : item ∈ latestEntries [load, item] := by decide +kernel
  have hasked : Verb.get.IsNamedBy "GET" := by decide +kernel
  have hword : Verb.get.IsNamedBy "get" := by decide +kernel
  have hfile : item.IsEndpointFor .get segments :=
    ⟨rfl, "Get", "xs", by decide +kernel, by decide, by decide +kernel⟩
  have hsegments : ∀ segment ∈ segments, IsRouteSegment segment := by
    rw [List.forall_mem_cons, List.forall_mem_singleton]
    exact ⟨⟨by decide, List.all_iff_forall_prop.mp (by decide), by decide, by decide⟩,
      ⟨by decide, List.all_iff_forall_prop.mp (by decide), by decide, by decide⟩⟩
  have hfillers : ∀ {cs : List Char}, cs.all (IsFiller ·) = true → ∀ c ∈ cs, IsFiller c :=
    List.all_iff_forall_prop.mp
  have hlast : IsRouteOf ["item.id".toList] " :item.id/ ".toList :=
    @IsRouteOf.last "item.id".toList _ [' '] ['/', ' '] (hfillers (by decide)) .colon
      (hfillers (by decide))
  have htext : route.toList = ['/', '/'] ++ ('{' :: "Brands".toList ++ ['}']) ++ [' '] ++
      '/' :: " :item.id/ ".toList := by
    decide +kernel
  have hroute : IsRouteOf segments route.toList := by
    rw [htext]
    exact .cons (hfillers (by decide)) .braced (hfillers (by decide)) hlast
  have hfound := resolveEndpoint_spelling hitem hfile hsegments hroute hasked
  refine ⟨hitem, hfile, hsegments, hroute, hasked, hword, hfound.1, (hfound.2 "get" hword).1, ?_⟩
  have hblanks : segments.all (·.all (!Unicode.isBlank ·)) = true := by decide
  refine (hfound.2 "get" hword).2 fun segment hsegment c hc => ?_
  have hblank := List.all_eq_true.mp (List.all_eq_true.mp hblanks segment hsegment) c hc
  rwa [Bool.not_eq_true'] at hblank

/-! ## Free text -/

theorem endpointsOf_trim (index : Index) (text : String) :
    index.endpointsOf (Text.onChars Text.trim text) = index.endpointsOf text := by
  have hplain : IsPlain (Text.onChars Text.trim text) := isPlain_trim text
  rw [endpointsOf, endpointsOf, cutAtBlank?, cutAtBlank?, hplain]

/-- The first way that finds anything gives the answer. -/
theorem firstMatches_cons (index : Index) (text : String) (way : MatchKind)
    (ways : List MatchKind) :
    index.firstMatches text (way :: ways) =
      if index.candidates text way = [] then index.firstMatches text ways
      else (index.candidates text way).map (Match.ofObject way) := by
  rw [firstMatches]
  cases index.candidates text way with
  | nil => rfl
  | cons object objects => rfl

/-- A verb and a route in free text mean what answers them, unless an object is
    named like the text. An object with the text for its path or its name comes
    first, and if the text has the key of a file name, then the files with this
    key are found instead. -/
theorem resolve_verbAndRoute {verb : Verb} {word route : String} (hword : verb.IsNamedBy word)
    (hroute : route.toList.head? = some '/')
    (hfound : (ofInventory inventory).resolveEndpoint word route ≠ [])
    (hfree : ∀ object ∈ latestEntries inventory,
      object.path ≠ Text.onChars Text.trim (word ++ " " ++ route) ∧
        object.stem ≠ Text.onChars Text.trim (word ++ " " ++ route)) :
    let index := ofInventory inventory
    let alike := (latestEntries inventory).filter fun object =>
      Text.nameKey object.stem = Text.nameKey (word ++ " " ++ route)
    index.resolve (word ++ " " ++ route) =
      if alike = [] then index.resolveEndpoint word route
      else alike.map (Match.ofObject .sanitized) := by
  intro index alike
  generalize htext : word ++ " " ++ route = text at hfree
  have hplain := isPlain_trim text
  have hkey : Text.nameKey text ≠ "" := by
    rcases List.exists_mem_of_ne_nil _ (Verb.ne_nil_of_isNamedBy hword) with ⟨c, hc⟩
    refine Text.nameKey_ne_empty (c := c) ?_ (Verb.isKeyChar_of_isNamedBy hword hc)
    rw [← htext, String.toList_append, String.toList_append]
    exact List.mem_append_left _ (List.mem_append_left _ hc)
  -- No file has the text for its path or its name.
  have hexact : index.candidates (Text.onChars Text.trim text) .exact = [] := by
    rw [candidates_ofInventory inventory hplain, List.filter_eq_nil_iff]
    exact fun object hobject hpath => (hfree object hobject).1 (of_decide_eq_true hpath)
  have hstem : index.candidates (Text.onChars Text.trim text) .basename = [] := by
    rw [candidates_ofInventory inventory hplain, List.filter_eq_nil_iff]
    exact fun object hobject hname => (hfree object hobject).2 (of_decide_eq_true hname)
  -- Before the request comes what sounds like it.
  have halike : index.candidates (Text.onChars Text.trim text) .sanitized = alike := by
    rw [candidates_ofInventory inventory hplain]
    refine List.filter_congr fun object _ => decide_eq_decide.mpr ?_
    rw [MatchKind.Finds, Text.nameKey_trim, htext, and_iff_right hkey]
  have hasked : index.candidates (Text.onChars Text.trim text) .endpoint =
      index.withEndpoint word (routePattern route) := by
    rw [candidates, endpointsOf_trim, ← htext, endpointsOf_request index hword]
    intro hnil
    exact absurd (Text.isBlank_of_trim_eq_nil hnil '/' (List.mem_of_head? hroute)) (by decide)
  have hnonempty : Text.onChars Text.trim text ≠ "" := by
    intro hempty
    rw [← Text.nameKey_trim, hempty] at hkey
    exact hkey rfl
  have hanswered : index.withEndpoint word (routePattern route) ≠ [] := by
    intro hnil
    rw [resolveEndpoint, hnil] at hfound
    exact hfound rfl
  rw [resolve, if_neg hnonempty, MatchKind.all, firstMatches_cons, if_pos hexact,
    firstMatches_cons, if_pos hstem, firstMatches_cons, halike, firstMatches_cons, hasked,
    if_neg hanswered, resolveEndpoint]

/-- Of two files for the verb and the route both are found, and a function that is named for
    another verb is not. -/
theorem resolve_verbAndRoute_brands :
    let brands : WorkspaceObject := ⟨1, "apis/brands_GET.xs", .apiEndpoint, ""⟩
    let other : WorkspaceObject := ⟨2, "v1/Brands_get.xs", .apiEndpoint, ""⟩
    let sounding : WorkspaceObject := ⟨3, "functions/post_brands.xs", .function, ""⟩
    let inventory := [brands, other, sounding]
    Verb.get.IsNamedBy "Get" ∧ "/brands/ ".toList.head? = some '/' ∧
      (ofInventory inventory).resolveEndpoint "Get" "/brands/ " ≠ [] ∧
      (∀ object ∈ latestEntries inventory,
        object.path ≠ Text.onChars Text.trim ("Get" ++ " " ++ "/brands/ ") ∧
          object.stem ≠ Text.onChars Text.trim ("Get" ++ " " ++ "/brands/ ")) ∧
      (ofInventory inventory).resolve ("Get" ++ " " ++ "/brands/ ") =
        [Match.ofObject .endpoint brands, Match.ofObject .endpoint other] := by
  intro brands other sounding inventory
  have hword : Verb.get.IsNamedBy "Get" := by decide +kernel
  have hroute : "/brands/ ".toList.head? = some '/' := by decide
  have hanswers : (ofInventory inventory).resolveEndpoint "Get" "/brands/ " =
      [Match.ofObject .endpoint brands, Match.ofObject .endpoint other] :=
    (resolveEndpoint_ofInventory _ _ _).trans (by decide +kernel)
  have hfound : (ofInventory inventory).resolveEndpoint "Get" "/brands/ " ≠ [] := by
    rw [hanswers]
    exact List.cons_ne_nil _ _
  have hfree : ∀ object ∈ latestEntries inventory,
      object.path ≠ Text.onChars Text.trim ("Get" ++ " " ++ "/brands/ ") ∧
        object.stem ≠ Text.onChars Text.trim ("Get" ++ " " ++ "/brands/ ") := by
    decide +kernel
  refine ⟨hword, hroute, hfound, hfree, ?_⟩
  refine (resolve_verbAndRoute hword hroute hfound hfree).trans ?_
  rw [if_pos (by decide +kernel), hanswers]

/-- A function that sounds like the request comes first, and so does a file whose path is
    the request without the blank at its end. -/
theorem resolve_likeRequest :
    let brands : WorkspaceObject := ⟨1, "apis/brands_GET.xs", .apiEndpoint, ""⟩
    let sounding : WorkspaceObject := ⟨2, "functions/get_brands.xs", .function, ""⟩
    let named : WorkspaceObject := ⟨3, "GET /brands", .function, ""⟩
    ((ofInventory [brands, sounding]).resolveEndpoint "GET" "/brands" =
        [Match.ofObject .endpoint brands] ∧
      (∀ object ∈ [brands, sounding],
        object.path ≠ "GET /brands" ∧ object.stem ≠ "GET /brands") ∧
      (ofInventory [brands, sounding]).resolve "GET /brands" =
        [Match.ofObject .sanitized sounding]) ∧
    (ofInventory [brands, named]).resolveEndpoint "GET" "/brands " =
        [Match.ofObject .endpoint brands] ∧
      (∀ object ∈ [brands, named],
        object.path ≠ "GET /brands " ∧ object.stem ≠ "GET /brands ") ∧
      (ofInventory [brands, named]).resolve "GET /brands " = [Match.ofObject .exact named] := by
  intro brands sounding named
  refine ⟨⟨?_, ?_, ?_⟩, ?_, ?_, ?_⟩
  · exact (resolveEndpoint_ofInventory _ _ _).trans (by decide +kernel)
  · decide +kernel
  · exact (resolve_eq _ _).trans (by decide +kernel)
  · exact (resolveEndpoint_ofInventory _ _ _).trans (by decide +kernel)
  · decide +kernel
  · exact (resolve_eq _ _).trans (by decide +kernel)

end Index

end StackScript
