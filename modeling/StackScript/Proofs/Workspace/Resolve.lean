import StackScript.Proofs.Text.Trim
import StackScript.Proofs.Workspace.Index

/-!
# What Free Text Means

There are five ways to take a free text for the name of an object, and
`MatchKind.Finds` says of each which objects it finds. The way that comes first
of those that find anything gives the answer, and the answer is everything that
it finds: a text is never taken in two ways, and of two objects that it means in
one way neither is preferred.

A way of looking asks the index for a key that it reads from the text, so there
are two things to be shown for each: that the index answers like a scan, which
it does for every key, and that an object has this key just in case the text
means it. The key of an endpoint takes most of the work. The text is trimmed
again and the pattern put in lower case again on the way to the index, and
neither changes anything.

## Main definitions

* `MatchKind.Finds`: What a text means, taken in one way.
* `firstWay?`: The first way in which a text means anything.
* `foundAmong`: What a text means among some objects.
* `winner`: The way in which files were found.

## Theorems

* `endpointsOf_ofInventory`: The endpoints that a text means.
* `candidates_ofInventory`: The objects that a text means, in each way.
* `firstMatches_eq`: The first of some ways that finds anything.
* `winner_foundAmong`: The way in which a text means some objects.
* `resolve_ofInventory`: The files that free text means.
-/

namespace StackScript

namespace MatchKind

/-- A text, taken in this way, means the object. -/
def Finds (text : String) (object : WorkspaceObject) : MatchKind → Prop
  | exact => object.path = text
  | basename => object.stem = text
  | sanitized => Text.nameKey text ≠ "" ∧ Text.nameKey object.stem = Text.nameKey text
  | endpoint => object.kind = .apiEndpoint ∧
      ∃ asked ∈ Endpoint.ofText? text, asked.IsSpelledBy object.stem
  | path => '/' ∈ text.toList ∧ Text.keySegments text ≠ [] ∧
      Text.keySegments text <:+ object.segmentKeys

instance (text : String) (object : WorkspaceObject) (way : MatchKind) :
    Decidable (way.Finds text object) :=
  match way with
  | exact => inferInstanceAs (Decidable (_ = _))
  | basename => inferInstanceAs (Decidable (_ = _))
  | sanitized => inferInstanceAs (Decidable (_ ∧ _))
  | endpoint => inferInstanceAs (Decidable (_ ∧ _))
  | path => inferInstanceAs (Decidable (_ ∧ _))

end MatchKind

/-- The first way in which a text means any of the objects. -/
def firstWay? (text : String) (objects : List WorkspaceObject) (ways : List MatchKind) :
    Option MatchKind :=
  ways.find? fun way => objects.any fun object => way.Finds text object

/-- What a text means among some objects: all that the first way which finds
    anything finds. -/
def foundAmong (text : String) (objects : List WorkspaceObject) : List Match :=
  match firstWay? text objects MatchKind.all with
  | some way => (objects.filter fun object => way.Finds text object).map (Match.ofObject way)
  | none => []

/-- The way in which some files were found. -/
def winner (found : List Match) : Option MatchKind :=
  found.head?.map Match.found

/-- A way that comes first finds something. -/
theorem filter_ne_nil_of_firstWay? {text : String} {objects : List WorkspaceObject}
    {ways : List MatchKind} {way : MatchKind} (h : firstWay? text objects ways = some way) :
    (objects.filter fun object => way.Finds text object) ≠ [] := by
  have hany : (objects.any fun object => way.Finds text object) = true :=
    List.find?_some (p := fun way : MatchKind => objects.any fun object => way.Finds text object) h
  rcases List.any_eq_true.mp hany with ⟨object, hobject, hfinds⟩
  exact List.ne_nil_of_mem (List.mem_filter.mpr ⟨hobject, hfinds⟩)

/-- All files are found in the first way in which the text means any object. -/
theorem winner_foundAmong (text : String) (objects : List WorkspaceObject) :
    winner (foundAmong text objects) = firstWay? text objects MatchKind.all := by
  unfold foundAmong
  cases hway : firstWay? text objects MatchKind.all with
  | none => rfl
  | some way =>
      dsimp only
      cases hfound : objects.filter fun object => way.Finds text object with
      | nil => exact absurd hfound (filter_ne_nil_of_firstWay? hway)
      | cons first found => rfl

/-- The text has no blanks around it. -/
def IsPlain (text : String) : Prop :=
  Text.onChars Text.trim text = text

theorem isPlain_trim (text : String) : IsPlain (Text.onChars Text.trim text) := by
  rw [IsPlain, Text.onChars, Text.onChars, String.toList_ofList, Text.trim_trim]

namespace Index

/-- A plain text asks for the endpoint that it spells. -/
theorem endpointsOf_eq (index : Index) {text : String} (h : IsPlain text) :
    index.endpointsOf text =
      (Endpoint.ofText? text).elim [] fun asked =>
        index.withEndpoint asked.verb.name asked.pattern := by
  unfold endpointsOf Endpoint.ofText? Endpoint.ofRequest?
  dsimp only
  rw [h]
  cases cutAtBlank? text with
  | none => cases Endpoint.ofFileStem? text <;> rfl
  | some cut =>
      rcases cut with ⟨word, route⟩
      rw [Option.bind_some, Option.bind_some]
      dsimp only
      -- Only a verb in front of the blank makes it a request.
      cases Verb.ofText? word with
      | none => cases Endpoint.ofFileStem? text <;> rfl
      | some verb => rfl

variable (inventory : List WorkspaceObject)

/-- The endpoints that a text means, each of which has the key that is read from
    the text. -/
theorem endpointsOf_ofInventory {text : String} (h : IsPlain text) :
    (ofInventory inventory).endpointsOf text =
      (latestEntries inventory).filter fun object => MatchKind.endpoint.Finds text object := by
  rw [endpointsOf_eq _ h]
  cases hasked : Endpoint.ofText? text with
  | none => simp [MatchKind.Finds, hasked]
  | some asked =>
      rw [Option.elim_some, withEndpoint_ofInventory]
      simp only [WorkspaceObject.Answers, MatchKind.Finds, Verb.ofText?_name, hasked,
        Endpoint.lowerText_of_ofText? hasked, Option.mem_def, Option.some.injEq, exists_eq_left']

/-- What a way of looking finds is what the text means, taken in this way. -/
theorem candidates_ofInventory {text : String} (h : IsPlain text) (way : MatchKind) :
    (ofInventory inventory).candidates text way =
      (latestEntries inventory).filter fun object => way.Finds text object := by
  -- Each way asks for one key, and a text without this key asks for nothing.
  cases way with
  | exact =>
      rw [candidates, get?_ofInventory]
      exact (filter_name_eq_toList (nodup_paths_latestEntries inventory) text).symm
  | basename =>
      rw [candidates, withStem_ofInventory]
      exact List.filter_congr fun object _ => decide_eq_decide.mpr Iff.rfl
  | sanitized =>
      rw [candidates]
      by_cases hkey : Text.nameKey text = ""
      · simp [MatchKind.Finds, hkey]
      · rw [if_neg hkey, withKey_ofInventory _ hkey]
        simp [MatchKind.Finds, hkey]
  | endpoint =>
      rw [candidates, endpointsOf_ofInventory _ h]
  | path =>
      rw [candidates]
      by_cases hslash : '/' ∈ text.toList
      · rw [if_pos (List.contains_iff_mem.mpr hslash)]
        by_cases hsegments : Text.keySegments text = []
        · simp [MatchKind.Finds, hsegments, withFolders]
        · rw [withFolders_ofInventory _ hsegments]
          simp [MatchKind.Finds, hslash, hsegments]
      · rw [if_neg (mt List.contains_iff_mem.mp hslash)]
        simp [MatchKind.Finds, hslash]

/-- A way that finds nothing is passed over. -/
theorem firstWay?_cons (text : String) (objects : List WorkspaceObject) (way : MatchKind)
    (ways : List MatchKind) :
    firstWay? text objects (way :: ways) =
      if (objects.filter fun object => way.Finds text object) = [] then
        firstWay? text objects ways
      else
        some way := by
  rw [firstWay?]
  by_cases hany : (objects.any fun object => way.Finds text object) = true
  · rw [List.find?_cons_of_pos (by exact hany), if_neg]
    intro hnil
    rcases List.any_eq_true.mp hany with ⟨object, hobject, hfinds⟩
    exact List.filter_eq_nil_iff.mp hnil object hobject hfinds
  · rw [List.find?_cons_of_neg (by exact hany), if_pos, firstWay?]
    rw [List.filter_eq_nil_iff]
    exact fun object hobject hfinds => hany (List.any_eq_true.mpr ⟨object, hobject, hfinds⟩)

/-- The ways are tried one after the other, and the first that finds anything is the last
    that is tried. -/
theorem firstMatches_eq {text : String} (h : IsPlain text) (ways : List MatchKind) :
    (ofInventory inventory).firstMatches text ways =
      match firstWay? text (latestEntries inventory) ways with
      | some way => ((latestEntries inventory).filter fun object => way.Finds text object).map
          (Match.ofObject way)
      | none => [] := by
  induction ways with
  -- Without a way left there is nothing to find.
  | nil => rfl
  | cons way ways ih =>
      rw [firstMatches, candidates_ofInventory inventory h, firstWay?_cons]
      cases hmeant : (latestEntries inventory).filter fun object => way.Finds text object with
      | nil =>
          rw [if_pos rfl]
          exact ih
      | cons object objects =>
          rw [if_neg (List.cons_ne_nil object objects)]
          dsimp only
          rw [hmeant]

/-- What a text means is what it means among the latest entries. -/
theorem resolve_eq (text : String) :
    (ofInventory inventory).resolve text =
      if Text.onChars Text.trim text = "" then []
      else foundAmong (Text.onChars Text.trim text) (latestEntries inventory) := by
  rw [resolve, foundAmong, ← firstMatches_eq _ (isPlain_trim text)]

theorem map_path_ofObject (way : MatchKind) (objects : List WorkspaceObject) :
    (objects.map (Match.ofObject way)).map Match.path = objects.map WorkspaceObject.path := by
  rw [List.map_map]
  rfl

/-- No file is found twice, in whatever way. -/
theorem nodup_firstMatches {text : String} (h : IsPlain text) (ways : List MatchKind) :
    (((ofInventory inventory).firstMatches text ways).map Match.path).Nodup := by
  rw [firstMatches_eq _ h]
  cases firstWay? text (latestEntries inventory) ways with
  | none => exact List.nodup_nil
  | some way =>
      dsimp only
      rw [map_path_ofObject]
      exact (nodup_paths_latestEntries inventory).sublist (List.filter_sublist.map _)

/-- The files that free text means are those of all objects that it means in the
    first way in which it means any. They come in the order of the inventory, and
    none comes twice. -/
theorem resolve_ofInventory {text : String} (h : Text.onChars Text.trim text ≠ "") :
    let plain := Text.onChars Text.trim text
    let objects := latestEntries inventory
    ((ofInventory inventory).resolve text =
      match firstWay? plain objects [.exact, .basename, .sanitized, .endpoint, .path] with
      | some way => (objects.filter fun object => way.Finds plain object).map fun object =>
          ⟨object.path, object.stem, object.kind, way⟩
      | none => []) ∧
    (((ofInventory inventory).resolve text).map Match.path).Nodup := by
  have hresolve : (ofInventory inventory).resolve text =
      (ofInventory inventory).firstMatches (Text.onChars Text.trim text) MatchKind.all := by
    rw [resolve]
    exact if_neg h
  rw [hresolve]
  exact ⟨firstMatches_eq _ (isPlain_trim text) _, nodup_firstMatches _ (isPlain_trim text) _⟩

-- Two files answer the request, of which one is listed twice and was no endpoint
-- at first.
theorem resolve_request :
    Text.onChars Text.trim " get /Brands/ " ≠ "" ∧
      (ofInventory [⟨1, "apis/brands_GET.xs", .function, "old"⟩,
          ⟨2, "v1/brands_get.xs", .apiEndpoint, ""⟩,
          ⟨3, "apis/brands_GET.xs", .apiEndpoint, "new"⟩]).resolve " get /Brands/ " =
        [⟨"apis/brands_GET.xs", "brands_GET", .apiEndpoint, .endpoint⟩,
          ⟨"v1/brands_get.xs", "brands_get", .apiEndpoint, .endpoint⟩] :=
  ⟨by decide, (resolve_ofInventory _ (by decide)).1.trans (by decide +kernel)⟩

end Index

end StackScript
