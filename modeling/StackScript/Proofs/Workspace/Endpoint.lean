import Mathlib.Data.List.TakeWhile
import StackScript.Proofs.Unicode.LowerCase
import StackScript.Workspace.Resolve

/-!
# What Spells an Endpoint

The name of a file spells an endpoint if what stands behind its last underscore
is a verb and something stands in front of it. `Endpoint.IsSpelledBy` says this
of the whole name, while the reader of file names works backwards from its end.

Free text spells an endpoint in one of two ways, as a request or as the name of
a file, and the request comes first: a text with a verb in front is never taken
for a name.

Patterns are in lower case, and an index puts the pattern that is asked for in
lower case once more. This makes no difference to a pattern that was read from a
name or from a route.

## Main definitions

* `Endpoint.IsSpelledBy`: The stem of a file name spells an endpoint.
* `Endpoint.ofRequest?`: The endpoint that a verb and a route in a text mean.
* `Endpoint.ofText?`: The endpoint that free text means.

## Theorems

* `ofFileStem?_eq_some_iff`: The reader of file names finds what they spell.
* `lowerText_of_ofText?`: The pattern that a text means is in lower case.
-/

namespace StackScript

namespace Text

/-- A word without the mark is all that is taken in front of the mark. -/
theorem takeWhile_mark {mark : Char} {word : List Char} (h : mark ∉ word) (before : List Char) :
    (word ++ mark :: before).takeWhile (· ≠ mark) = word := by
  rw [List.takeWhile_append_of_pos, List.takeWhile_cons_of_neg (by simp), List.append_nil]
  intro c hc
  exact decide_eq_true fun heq => h (heq ▸ hc)

theorem dropWhile_mark {mark : Char} {word : List Char} (h : mark ∉ word) (before : List Char) :
    (word ++ mark :: before).dropWhile (· ≠ mark) = mark :: before := by
  rw [List.dropWhile_append_of_pos, List.dropWhile_cons_of_neg (by simp)]
  intro c hc
  exact decide_eq_true fun heq => h (heq ▸ hc)

/-- Whatever the mark is found in is a word without it, the mark and the rest. -/
theorem exists_mark_of_dropWhile {mark c : Char} {cs before : List Char}
    (h : cs.dropWhile (· ≠ mark) = c :: before) :
    c = mark ∧ mark ∉ cs.takeWhile (· ≠ mark) ∧ cs = cs.takeWhile (· ≠ mark) ++ mark :: before := by
  have hc : c = mark := by
    have hhead := List.head?_dropWhile_not (fun c => decide (c ≠ mark)) cs
    rw [h] at hhead
    simpa using hhead
  subst hc
  refine ⟨rfl, ?_, ?_⟩
  · intro hmem
    have hne := List.mem_takeWhile_imp hmem
    exact of_decide_eq_true hne rfl
  · rw [← h, List.takeWhile_append_dropWhile]

end Text

/-- The name of a verb means that verb. -/
theorem Verb.ofText?_name (verb : Verb) : Verb.ofText? verb.name = some verb := by
  cases verb <;> decide +kernel

namespace Endpoint

/-- The stem of a file name is a pattern, an underscore and a verb, the verb in
    letters of either case. No underscore is part of the verb. -/
def IsSpelledBy (stem : String) (endpoint : Endpoint) : Prop :=
  ∃ pattern word : List Char, stem.toList = pattern ++ '_' :: word ∧ '_' ∉ word ∧ pattern ≠ [] ∧
    Verb.ofText? (String.ofList word) = some endpoint.verb ∧
      endpoint.pattern = Unicode.lowerText (String.ofList pattern)

/-- The reader of file names finds the endpoint that a name spells, and no
    other. -/
theorem ofFileStem?_eq_some_iff {stem : String} {endpoint : Endpoint} :
    ofFileStem? stem = some endpoint ↔ endpoint.IsSpelledBy stem := by
  constructor
  · intro h
    unfold ofFileStem? at h
    dsimp only at h
    split at h
    · cases h
    · cases h
    · next c before hne hdrop =>
      rcases Text.exists_mark_of_dropWhile hdrop with ⟨-, hword, hcut⟩
      rcases Option.map_eq_some_iff.mp h with ⟨verb, hverb, rfl⟩
      refine ⟨before.reverse, _, ?_, ?_, ?_, hverb, rfl⟩
      · have hstem := congrArg List.reverse hcut
        rw [List.reverse_reverse, List.reverse_append, List.reverse_cons,
          List.append_assoc] at hstem
        exact hstem
      · rwa [List.mem_reverse]
      · exact fun hnil => hne (List.reverse_eq_nil_iff.mp hnil)
  · rintro ⟨pattern, word, hstem, hword, hpattern, hverb, hlower⟩
    -- From behind, the word of the verb comes first, up to the last underscore.
    have hbackwards : stem.toList.reverse = word.reverse ++ '_' :: pattern.reverse := by
      rw [hstem, List.reverse_append, List.reverse_cons, List.append_assoc]
      rfl
    have hword' : '_' ∉ word.reverse := by rwa [List.mem_reverse]
    unfold ofFileStem?
    dsimp only
    rw [hbackwards, Text.takeWhile_mark hword', Text.dropWhile_mark hword']
    cases hreverse : pattern.reverse with
    | nil => exact absurd (List.reverse_eq_nil_iff.mp hreverse) hpattern
    | cons c cs =>
        dsimp only
        rw [List.reverse_reverse, hverb, Option.map_some, ← hreverse, List.reverse_reverse,
          ← hlower]

instance (stem : String) (endpoint : Endpoint) : Decidable (endpoint.IsSpelledBy stem) :=
  decidable_of_iff _ ofFileStem?_eq_some_iff

/-- The endpoint that a text means which begins with a verb and a blank. -/
def ofRequest? (text : String) : Option Endpoint :=
  (cutAtBlank? text).bind fun (word, route) =>
    (Verb.ofText? word).map fun verb => ⟨verb, routePattern route⟩

/-- The endpoint that free text means: as a verb with a route, or else as the
    stem of a file name. -/
def ofText? (text : String) : Option Endpoint :=
  (ofRequest? text).or (ofFileStem? text)

/-- A pattern is in lower case already, whatever it was read from. -/
theorem lowerText_of_ofFileStem? {stem : String} {endpoint : Endpoint}
    (h : ofFileStem? stem = some endpoint) :
    Unicode.lowerText endpoint.pattern = endpoint.pattern := by
  rcases ofFileStem?_eq_some_iff.mp h with ⟨pattern, word, -, -, -, -, hlower⟩
  rw [hlower, Unicode.lowerText_lowerText]

theorem lowerText_of_ofRequest? {text : String} {endpoint : Endpoint}
    (h : ofRequest? text = some endpoint) :
    Unicode.lowerText endpoint.pattern = endpoint.pattern := by
  rcases Option.bind_eq_some_iff.mp h with ⟨⟨word, route⟩, -, hverb⟩
  rcases Option.map_eq_some_iff.mp hverb with ⟨verb, -, rfl⟩
  exact Unicode.lowerText_lowerText _

/-- The pattern that a text means is in lower case already. -/
theorem lowerText_of_ofText? {text : String} {endpoint : Endpoint}
    (h : ofText? text = some endpoint) :
    Unicode.lowerText endpoint.pattern = endpoint.pattern := by
  rcases Option.or_eq_some_iff.mp h with h | ⟨-, h⟩
  · exact lowerText_of_ofRequest? h
  · exact lowerText_of_ofFileStem? h

end Endpoint

end StackScript
