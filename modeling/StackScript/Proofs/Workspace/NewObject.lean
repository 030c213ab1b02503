import StackScript.Proofs.Workspace.Reference
import StackScript.Proofs.Workspace.Resolve

/-!
# A New Object in an Inventory

Files are added to a workspace all the time, and the scripts that are there
already should not come to mean something else. A new object is one whose path
the inventory does not have; it may be put at any place. Whatever is looked up,
the answer of the index is a filter of its objects, and these gain the new one
and nothing else. So `Gains` is carried through the inventory, the latest
entries and the answers, and what remains is to see what one value more does to
each kind of answer.

A reference means the only candidate of its kind. A second candidate does not
take the place of the first but leaves the reference without any, and this is
why no reference is moved from one file to another.

Free text means all that the first successful way finds. A new object can make
an earlier way succeed, and is then all that this way finds; or the way stays,
and then the new object can only be added to what was found before.

## Main definitions

* `Gains`: A list with one value more.
* `Index.pathOf?`: The file of the object of a kind that a name means.
* `KeepsTargets`: What a new object does to the references of a kind.
* `rank`: The place of a way in the order in which they are tried.
* `GrowsBy`: What a new object does to the files that free text means.

## Theorems

* `gains_latestEntries`: The latest entries gain the new object.
* `pathOf?_gains`: The file that a name means.
* `newObject_keepsTargets`: No reference is moved to another file.
* `rank_firstWay?_le`: Among more objects no way comes later.
* `newObject_growsBy`: Free text means no less in the same way.
-/

namespace StackScript

/-! ## One value more -/

section Gains

variable {α β : Type} {value : α} {values others : List α}

/-- The second list is the first with one value more, somewhere. -/
def Gains (value : α) (values others : List α) : Prop :=
  ∃ front behind, values = front ++ behind ∧ others = front ++ value :: behind

theorem Gains.subset (h : Gains value values others) : values ⊆ others := by
  rcases h with ⟨front, behind, rfl, rfl⟩
  exact (List.Sublist.append_left (List.sublist_cons_self value behind) front).subset

theorem Gains.sublist (h : Gains value values others) : values.Sublist others := by
  rcases h with ⟨front, behind, rfl, rfl⟩
  exact (List.Sublist.refl front).append (List.sublist_cons_self value behind)

theorem Gains.length (h : Gains value values others) : others.length = values.length + 1 := by
  rcases h with ⟨front, behind, rfl, rfl⟩
  rw [List.length_append, List.length_append, List.length_cons, Nat.add_assoc]

theorem Gains.eq_singleton (h : Gains value [] others) : others = [value] := by
  rcases h with ⟨front, behind, hnil, rfl⟩
  rcases List.append_eq_nil_iff.mp hnil.symm with ⟨rfl, rfl⟩
  rfl

theorem Gains.map (h : Gains value values others) (f : α → β) :
    Gains (f value) (values.map f) (others.map f) := by
  rcases h with ⟨front, behind, rfl, rfl⟩
  exact ⟨front.map f, behind.map f, List.map_append, List.map_append⟩

/-- A filter that lets the value through gains it. -/
theorem Gains.filter_of_pos (h : Gains value values others) {p : α → Bool} (hp : p value = true) :
    Gains value (values.filter p) (others.filter p) := by
  rcases h with ⟨front, behind, rfl, rfl⟩
  refine ⟨front.filter p, behind.filter p, List.filter_append .., ?_⟩
  rw [List.filter_append, List.filter_cons_of_pos hp]

/-- A filter that keeps the value out gains nothing. -/
theorem Gains.filter_of_neg (h : Gains value values others) {p : α → Bool} (hp : ¬ p value = true) :
    others.filter p = values.filter p := by
  rcases h with ⟨front, behind, rfl, rfl⟩
  rw [List.filter_append, List.filter_cons_of_neg hp, List.filter_append]

theorem Gains.filterMap (h : Gains value values others) {f g : α → Option β} {result : β}
    (hvalue : g value = some result) (hothers : ∀ other ∈ values, g other = f other) :
    Gains result (values.filterMap f) (others.filterMap g) := by
  rcases h with ⟨front, behind, rfl, rfl⟩
  refine ⟨front.filterMap f, behind.filterMap f, List.filterMap_append .., ?_⟩
  rw [List.filterMap_append, List.filterMap_cons_some hvalue,
    List.filterMap_congr fun other hother => hothers other (List.mem_append_left behind hother),
    List.filterMap_congr fun other hother => hothers other (List.mem_append_right front hother)]

/-- A value that is new comes first where it stands. -/
theorem Gains.eraseDups [BEq α] [LawfulBEq α] (h : Gains value values others)
    (hnew : value ∉ values) : Gains value values.eraseDups others.eraseDups := by
  rcases h with ⟨front, behind, rfl, rfl⟩
  rw [List.mem_append, not_or] at hnew
  refine ⟨front.eraseDups, (behind.removeAll front).eraseDups, List.eraseDups_append, ?_⟩
  have hfront : (value :: behind).removeAll front = value :: behind.removeAll front :=
    List.filter_cons_of_pos (by simpa using hnew.1)
  have hbehind : (behind.removeAll front).filter (fun other => !other == value) =
      behind.removeAll front := by
    rw [List.filter_eq_self]
    intro other hother
    have hne : other ≠ value := fun heq => hnew.2 (heq ▸ (List.mem_filter.mp hother).1)
    simpa using hne
  rw [List.eraseDups_append, hfront, List.eraseDups_cons, hbehind]

end Gains

/-! ## The latest entries -/

section Latest

variable {front behind : List WorkspaceObject} {object : WorkspaceObject}

/-- Another path means what it meant. -/
theorem latest?_new_of_ne {path : String} (h : object.path ≠ path) :
    latest? (front ++ object :: behind) path = latest? (front ++ behind) path := by
  rw [latest?, latest?, List.reverse_append, List.reverse_cons, List.append_assoc,
    List.singleton_append, List.find?_append, List.find?_cons_of_neg (by simpa using h),
    List.reverse_append, List.find?_append]

theorem latest?_new_self (h : object.path ∉ behind.map WorkspaceObject.path) :
    latest? (front ++ object :: behind) object.path = some object := by
  have hbehind : behind.reverse.find? (fun other => other.path = object.path) = none := by
    rw [List.find?_eq_none]
    exact fun other hother hsame =>
      name_ne_of_notMem h (List.mem_reverse.mp hother) (of_decide_eq_true hsame)
  rw [latest?, List.reverse_append, List.reverse_cons, List.append_assoc, List.singleton_append,
    List.find?_append, hbehind, List.find?_cons_of_pos (by simp)]
  rfl

/-- The latest entries gain an object whose path is new. -/
theorem gains_latestEntries (h : object.path ∉ (front ++ behind).map WorkspaceObject.path) :
    Gains object (latestEntries (front ++ behind)) (latestEntries (front ++ object :: behind)) := by
  have hbehind : object.path ∉ behind.map WorkspaceObject.path := by
    rw [List.map_append, List.mem_append, not_or] at h
    exact h.2
  have hpaths : Gains object.path ((front ++ behind).map WorkspaceObject.path)
      ((front ++ object :: behind).map WorkspaceObject.path) :=
    Gains.map ⟨front, behind, rfl, rfl⟩ _
  refine (hpaths.eraseDups h).filterMap (latest?_new_self hbehind) fun path hpath => ?_
  exact latest?_new_of_ne fun heq => h (heq ▸ List.mem_eraseDups.mp hpath)

end Latest

/-! ## References -/

/-- The file of the object of a kind that a name means. -/
def Index.pathOf? (index : Index) (kind : ObjectKind) (name : String) : Option String :=
  (index.resolveNamed name kind).object?.map WorkspaceObject.path

/-- Two candidates or more are no object. -/
theorem object?_ofCandidates_of_length {candidates : List WorkspaceObject}
    (h : 2 ≤ candidates.length) : (Resolution.ofCandidates candidates).object? = none := by
  match candidates with
  | [] => cases h
  | [_] => exact absurd h (by simp)
  | _ :: _ :: _ => rfl

/-- With a candidate more, a single candidate is lost, and a first one is found. -/
theorem object?_ofCandidates_gains {object : WorkspaceObject}
    {candidates others : List WorkspaceObject} (h : Gains object candidates others) :
    candidates = [] ∧ (Resolution.ofCandidates others).object? = some object ∨
      candidates ≠ [] ∧ (Resolution.ofCandidates others).object? = none := by
  have hlength := h.length
  cases candidates with
  | nil =>
      rw [h.eq_singleton]
      exact Or.inl ⟨rfl, rfl⟩
  | cons candidate candidates =>
      refine Or.inr ⟨List.cons_ne_nil _ _, object?_ofCandidates_of_length ?_⟩
      rw [hlength, List.length_cons]
      omega

namespace Index

variable {front behind : List WorkspaceObject} {object : WorkspaceObject}

/-- A reference means the only candidate of its kind. -/
theorem pathOf?_ofInventory (inventory : List WorkspaceObject) (kind : ObjectKind)
    (name : String) :
    (ofInventory inventory).pathOf? kind name =
      (Resolution.ofCandidates ((latestEntries inventory).filter fun object =>
        object.kind = kind && object.Bears name)).object?.map WorkspaceObject.path := by
  rw [pathOf?, resolveNamed_ofInventory]

/-- A new object changes what a name of its kind means if it bears the name: a
    name without a file comes to mean it, and any other name is left without. -/
theorem pathOf?_gains (h : object.path ∉ (front ++ behind).map WorkspaceObject.path)
    (kind : ObjectKind) (name : String) :
    let before := (ofInventory (front ++ behind)).pathOf? kind name
    let after := (ofInventory (front ++ object :: behind)).pathOf? kind name
    if object.kind = kind ∧ object.Bears name then
      before = none ∧ after = some object.path ∨ after = none
    else
      after = before := by
  have hgains := gains_latestEntries h
  dsimp only
  rw [pathOf?_ofInventory, pathOf?_ofInventory]
  split
  · -- The new object is a candidate, so the name means it alone or nothing.
    next hbears =>
    rcases object?_ofCandidates_gains (hgains.filter_of_pos (p := fun object =>
        object.kind = kind && object.Bears name) (by simpa using hbears)) with
      ⟨hnil, hfound⟩ | ⟨-, hlost⟩
    · rw [hnil, hfound]
      exact Or.inl ⟨rfl, rfl⟩
    · rw [hlost]
      exact Or.inr rfl
  · next hbears => rw [hgains.filter_of_neg (by simpa using hbears)]

end Index

/-- What becomes of the files that names of a kind mean when an object is new:
    names of another kind mean what they meant, and no name is moved from one
    file to another. -/
structure KeepsTargets (object : WorkspaceObject) (kind : ObjectKind)
    (before after : String → Option String) : Prop where
  /-- An object of another kind changes nothing. -/
  unchanged : object.kind ≠ kind → ∀ name, after name = before name
  /-- An object of the kind is found where there was none, or leaves a name
      without the file that it had. -/
  gained_or_lost : object.kind = kind → ∀ name, after name = before name ∨
    (before name = none ∧ after name = some object.path) ∨
      (∃ path, before name = some path) ∧ after name = none
  /-- A name that still has a file has the same. -/
  never_moved : ∀ name path other, before name = some path → after name = some other → other = path

open Index in
/-- A new object gives a meaning to a name, takes one away or leaves it, but moves none. -/
theorem keepsTargets_pathOf? {front behind : List WorkspaceObject} {object : WorkspaceObject}
    (h : object.path ∉ (front ++ behind).map WorkspaceObject.path) (kind : ObjectKind) :
    KeepsTargets object kind ((ofInventory (front ++ behind)).pathOf? kind)
      ((ofInventory (front ++ object :: behind)).pathOf? kind) where
  unchanged hkind name := by
    have hname := pathOf?_gains h kind name
    rwa [if_neg fun hbears => hkind hbears.1] at hname
  gained_or_lost _ name := by
    have hname := pathOf?_gains h kind name
    dsimp only at hname
    split at hname
    · rcases hname with hgained | hlost
      · exact Or.inr (Or.inl hgained)
      · -- A name that meant something is lost, as it has two candidates now.
        cases hbefore : (ofInventory (front ++ behind)).pathOf? kind name with
        | none => exact Or.inl hlost
        | some path => exact Or.inr (Or.inr ⟨⟨path, rfl⟩, hlost⟩)
    · exact Or.inl hname
  never_moved name path other hbefore hafter := by
    have hname := pathOf?_gains h kind name
    dsimp only at hname
    rw [hbefore, hafter] at hname
    split at hname
    · rcases hname with ⟨hnone, -⟩ | hnone
      · cases hnone
      · cases hnone
    · exact Option.some.inj hname

/-- A new object moves no reference from one file to another: it is found where
    nothing was, or makes a name ambiguous, and does neither to references of
    another kind. -/
theorem newObject_keepsTargets (front behind : List WorkspaceObject) (object : WorkspaceObject)
    (h : object.path ∉ (front ++ behind).map WorkspaceObject.path) :
    let before := Index.ofInventory (front ++ behind)
    let after := Index.ofInventory (front ++ object :: behind)
    KeepsTargets object .table before.tablePath? after.tablePath? ∧
      KeepsTargets object .function before.functionPath? after.functionPath? :=
  ⟨keepsTargets_pathOf? h .table, keepsTargets_pathOf? h .function⟩

/-- A second table of the name makes it ambiguous, and a function of the name stays what it
    was. -/
theorem newObject_secondTable :
    let users : WorkspaceObject := ⟨1, "db/users.xs", .table, ""⟩
    let load : WorkspaceObject := ⟨2, "lib/users.xs", .function, ""⟩
    let archived : WorkspaceObject := ⟨3, "db/old/Users.xs", .table, ""⟩
    let before := Index.ofInventory [users, load]
    let after := Index.ofInventory [users, archived, load]
    archived.path ∉ [users, load].map WorkspaceObject.path ∧
      before.tablePath? "users" = some "db/users.xs" ∧ after.tablePath? "users" = none ∧
        before.functionPath? "users" = some "lib/users.xs" ∧
          after.functionPath? "users" = some "lib/users.xs" := by
  intro users load archived before after
  have hnew : archived.path ∉ [users, load].map WorkspaceObject.path := by decide
  have hkeeps := newObject_keepsTargets [users] [load] archived hnew
  have htable : before.tablePath? "users" = some "db/users.xs" :=
    (Index.pathOf?_ofInventory _ .table "users").trans (by decide +kernel)
  have hfunction : before.functionPath? "users" = some "lib/users.xs" :=
    (Index.pathOf?_ofInventory _ .function "users").trans (by decide +kernel)
  refine ⟨hnew, htable, ?_, hfunction, ?_⟩
  · exact (Index.pathOf?_ofInventory _ .table "users").trans (by decide +kernel)
  · exact (hkeeps.2.unchanged (by decide) "users").trans hfunction

/-! ## Free text -/

/-- The place of a way in the order in which they are tried. No way at all comes
    last. -/
def rank : Option MatchKind → Nat
  | some way => MatchKind.all.idxOf way
  | none => MatchKind.all.length

/-- What is found first stands where the search ends. -/
theorem rank_find? (p : MatchKind → Bool) :
    rank (MatchKind.all.find? p) = MatchKind.all.findIdx p := by
  have hnodup : MatchKind.all.Nodup := by decide
  rw [List.find?_eq_getElem?_findIdx]
  by_cases hlt : MatchKind.all.findIdx p < MatchKind.all.length
  · rw [List.getElem?_eq_getElem hlt]
    exact hnodup.idxOf_getElem _ hlt
  · rw [List.getElem?_eq_none_iff.mpr (Nat.le_of_not_lt hlt)]
    exact Nat.le_antisymm (Nat.le_of_not_lt hlt) List.findIdx_le_length

/-- Every way comes before none at all. -/
theorem eq_none_of_rank {way : Option MatchKind} (h : rank none ≤ rank way) : way = none := by
  cases way with
  | none => rfl
  | some way =>
      have hmem : way ∈ MatchKind.all := by cases way <;> decide
      exact absurd (List.idxOf_lt_length_of_mem hmem) (Nat.not_lt.mpr h)

/-- With more objects no way comes later than it did. -/
theorem rank_firstWay?_le {objects others : List WorkspaceObject} (h : objects ⊆ others)
    (text : String) :
    rank (firstWay? text others MatchKind.all) ≤ rank (firstWay? text objects MatchKind.all) := by
  rw [firstWay?, firstWay?, rank_find?, rank_find?]
  refine List.findIdx_le_findIdx fun way _ hway => ?_
  rcases List.any_eq_true.mp hway with ⟨object, hobject, hfinds⟩
  exact List.any_eq_true.mpr ⟨object, h hobject, hfinds⟩

/-- The first way in which a text means anything is found again among fewer objects, if it
    still finds any of them. -/
theorem firstWay?_of_subset {text : String} {objects others : List WorkspaceObject}
    {ways : List MatchKind} {way : MatchKind} (h : objects ⊆ others)
    (hway : firstWay? text others ways = some way)
    (hfinds : (objects.any fun object => way.Finds text object) = true) :
    firstWay? text objects ways = some way := by
  rcases List.find?_eq_some_iff_append.mp hway with ⟨-, earlier, later, rfl, hearlier⟩
  refine List.find?_eq_some_iff_append.mpr ⟨hfinds, earlier, later, rfl, fun other hother => ?_⟩
  have hnone := hearlier other hother
  rw [Bool.not_eq_true', List.any_eq_false] at hnone ⊢
  exact fun object hobject => hnone object (h hobject)

/-- What becomes of the files that a text means when an object is new. -/
structure GrowsBy (object : WorkspaceObject) (before after : List Match) : Prop where
  /-- They are found in the same way or in an earlier one. -/
  earlier : rank (winner after) ≤ rank (winner before)
  /-- In the same way no file is lost, -/
  sublist : winner after = winner before → before.Sublist after
  /-- and the new object is all that can be found besides. -/
  gains : winner after = winner before →
    after = before ∨ ∃ way, Gains (Match.ofObject way object) before after
  /-- In an earlier way the new object is all that is found. -/
  alone : winner after ≠ winner before → ∃ way, after = [Match.ofObject way object]

/-- What is found may stay the same. -/
theorem GrowsBy.refl (object : WorkspaceObject) (found : List Match) :
    GrowsBy object found found where
  earlier := Nat.le_refl _
  sublist _ := List.Sublist.refl _
  gains _ := Or.inl rfl
  alone h := absurd rfl h

section Found

variable {text : String} {object : WorkspaceObject} {objects others : List WorkspaceObject}

/-- As long as the way stays, the new object is added or is not found. -/
theorem foundAmong_gains (h : Gains object objects others)
    (hsame : firstWay? text others MatchKind.all = firstWay? text objects MatchKind.all) :
    foundAmong text others = foundAmong text objects ∨
      ∃ way, Gains (Match.ofObject way object) (foundAmong text objects)
        (foundAmong text others) := by
  unfold foundAmong
  rw [hsame]
  cases firstWay? text objects MatchKind.all with
  | none => exact Or.inl rfl
  | some way =>
      dsimp only
      by_cases hfinds : way.Finds text object
      · exact Or.inr ⟨way, (h.filter_of_pos (decide_eq_true hfinds)).map _⟩
      · rw [h.filter_of_neg (by simpa using hfinds)]
        exact Or.inl rfl

/-- Another way can only come first because it finds the new object, and it finds no other,
    or it had come first already. -/
theorem foundAmong_alone (h : Gains object objects others)
    (hother : firstWay? text others MatchKind.all ≠ firstWay? text objects MatchKind.all) :
    ∃ way, foundAmong text others = [Match.ofObject way object] := by
  unfold foundAmong
  cases hway : firstWay? text others MatchKind.all with
  | none =>
      have hearlier := rank_firstWay?_le h.subset text
      rw [hway] at hearlier hother
      exact absurd (eq_none_of_rank hearlier) (Ne.symm hother)
  | some way =>
      -- Had the way found something before, it would have been the first before.
      have hnone : objects.filter (fun object => way.Finds text object) = [] := by
        rw [List.filter_eq_nil_iff]
        intro old hold hfinds
        refine hother (hway.trans (firstWay?_of_subset h.subset hway ?_).symm)
        exact List.any_eq_true.mpr ⟨old, hold, hfinds⟩
      -- It finds something now, so it finds the new object.
      have hfinds : way.Finds text object := by
        by_contra hnot
        refine filter_ne_nil_of_firstWay? hway ?_
        rw [h.filter_of_neg (by simpa using hnot), hnone]
      have halone := h.filter_of_pos (p := fun object => way.Finds text object)
        (decide_eq_true hfinds)
      rw [hnone] at halone
      dsimp only
      rw [halone.eq_singleton]
      exact ⟨way, rfl⟩

/-- What is found grows by the new object at most, or is the new object alone. -/
theorem growsBy_foundAmong (h : Gains object objects others) :
    GrowsBy object (foundAmong text objects) (foundAmong text others) where
  earlier := by
    rw [winner_foundAmong, winner_foundAmong]
    exact rank_firstWay?_le h.subset text
  sublist hsame := by
    rw [winner_foundAmong, winner_foundAmong] at hsame
    rcases foundAmong_gains h hsame with heq | ⟨way, hgains⟩
    · rw [heq]
    · exact hgains.sublist
  gains hsame := by
    rw [winner_foundAmong, winner_foundAmong] at hsame
    exact foundAmong_gains h hsame
  alone hother := by
    rw [winner_foundAmong, winner_foundAmong] at hother
    exact foundAmong_alone h hother

end Found

/-- With a new object a text means no less than before, in the same way or in an
    earlier one. -/
theorem newObject_growsBy (front behind : List WorkspaceObject) (object : WorkspaceObject)
    (h : object.path ∉ (front ++ behind).map WorkspaceObject.path) (text : String) :
    GrowsBy object ((Index.ofInventory (front ++ behind)).resolve text)
      ((Index.ofInventory (front ++ object :: behind)).resolve text) := by
  rw [Index.resolve_eq, Index.resolve_eq]
  split
  · exact .refl object []
  · exact growsBy_foundAmong (gains_latestEntries h)

/-- A second endpoint is added to the first, and a table that is named like the request
    takes it away from both. -/
theorem newObject_request :
    let old : WorkspaceObject := ⟨1, "apis/brands_GET.xs", .apiEndpoint, ""⟩
    let second : WorkspaceObject := ⟨2, "apis/v1/brands_get.xs", .apiEndpoint, ""⟩
    let named : WorkspaceObject := ⟨3, "db/get_brands.xs", .table, ""⟩
    second.path ∉ [old].map WorkspaceObject.path ∧
      named.path ∉ [old].map WorkspaceObject.path ∧
      (Index.ofInventory [old]).resolve "GET /brands" = [Match.ofObject .endpoint old] ∧
      [Match.ofObject .endpoint old].Sublist
        ((Index.ofInventory [second, old]).resolve "GET /brands") ∧
      winner ((Index.ofInventory [second, old]).resolve "GET /brands") = some .endpoint ∧
      ∃ way,
        (Index.ofInventory [old, named]).resolve "GET /brands" = [Match.ofObject way named] := by
  intro old second named
  have hsecond : second.path ∉ [old].map WorkspaceObject.path := by decide
  have hnamed : named.path ∉ [old].map WorkspaceObject.path := by decide
  have hold : (Index.ofInventory [old]).resolve "GET /brands" = [Match.ofObject .endpoint old] :=
    (Index.resolve_eq _ _).trans (by decide +kernel)
  have hway :
      winner ((Index.ofInventory [second, old]).resolve "GET /brands") = some .endpoint := by
    rw [Index.resolve_eq]
    decide +kernel
  have hother : winner ((Index.ofInventory [old, named]).resolve "GET /brands") ≠
      some .endpoint := by
    rw [Index.resolve_eq]
    decide +kernel
  have hadded := newObject_growsBy [] [old] second hsecond "GET /brands"
  have htaken := newObject_growsBy [old] [] named hnamed "GET /brands"
  rw [List.append_nil, hold] at htaken
  rw [List.nil_append, hold] at hadded
  exact ⟨hsecond, hnamed, hold, hadded.sublist hway, hway, htaken.alone hother⟩

end StackScript
