import StackScript.Proofs.Text.Trim
import StackScript.Scheme

/-!
# The Names of a Scheme

A scheme that somebody asks for has to be recognised from what was typed. It has its tag
and its keyword, and an endpoint has that word too; a person may write these in letters
of either case and with blanks around them.

The reader of names works the other way round: it takes the blanks off, lowers the
letters that are left and looks the result up. The order of the first two steps matters
only if lowering could make a blank of a letter or a letter of a blank, and no blank has
a case.

## Main definitions

* `Scheme.words`, `Scheme.IsNamedBy`: The names of a scheme.

## Theorems

* `ofWord?_eq_some_iff`: A word is looked up.
* `ofName?_eq_some_iff`: A name is read as the scheme that has it.
-/

namespace StackScript

/-- No blank is a letter. -/
theorem toLower_of_isBlank {c : Char} (h : Unicode.isBlank c) : c.toLower = c := by
  refine dif_neg ?_
  rintro ⟨hfirst, hlast⟩
  have hfirst : 65 ≤ c.toNat := hfirst
  have hlast : c.toNat ≤ 90 := hlast
  rcases (Unicode.CodeRanges.contains_iff _ _).mp h with ⟨range, hrange, hrange1, hrange2⟩
  have hapart : ∀ range ∈ Unicode.blankRanges, range.2 < 65 ∨ 90 < range.1 := by decide
  have := hapart range hrange
  omega

namespace Scheme

/-- The words for a scheme. -/
def words (scheme : Scheme) : List String :=
  [scheme.tag, scheme.keyword] ++ if scheme = .api then ["endpoint"] else []

/-- The name is a word for the scheme, in letters of either case and with blanks
    around it. -/
def IsNamedBy (scheme : Scheme) (name : String) : Prop :=
  ∃ front spelled behind, name.toList = front ++ spelled ++ behind ∧
    (∀ c ∈ front, Unicode.isBlank c) ∧ (∀ c ∈ behind, Unicode.isBlank c) ∧
    String.ofList (spelled.map Char.toLower) ∈ scheme.words

/-- No blank is in any of the words. -/
theorem isBlank_of_mem_words {scheme : Scheme} {word : String} (h : word ∈ scheme.words) :
    ∀ c ∈ word.toList, Unicode.isBlank c = false := by
  have hletters : ∀ word ∈ scheme.words, word.toList.all (!Unicode.isBlank ·) = true := by
    cases scheme <;> decide
  intro c hc
  simpa using List.all_eq_true.mp (hletters word h) c hc

/-- A word in small letters is read as the scheme that it is for. -/
theorem ofWord?_eq_some_iff {word : String} {scheme : Scheme} :
    (if word = "endpoint" then some api else (ofTag? word).or (ofKeyword? word)) = some scheme ↔
      word ∈ scheme.words := by
  constructor
  · intro h
    split at h
    · next hword =>
        rw [hword, ← Option.some.inj h]
        decide
    · -- A word that is found among the tags or the keywords is one of the scheme.
      rcases Option.or_eq_some_iff.mp h with htag | ⟨-, hkeyword⟩
      · have hword : scheme.tag = word := by simpa using List.find?_some htag
        rw [← hword]
        exact .head _
      · have hword : scheme.keyword = word := by simpa using List.find?_some hkeyword
        rw [← hword]
        exact .tail _ (.head _)
  · revert word
    cases scheme <;> decide

/-- A name is read as the scheme that has it. -/
theorem ofName?_eq_some_iff {name : String} {scheme : Scheme} :
    ofName? name = some scheme ↔ scheme.IsNamedBy name := by
  have hplain : (Text.onChars Text.trim name).toLower =
      String.ofList ((Text.trim name.toList).map Char.toLower) := by
    change String.map Char.toLower _ = _
    rw [← String.toList_inj, String.toList_map, Text.onChars, String.toList_ofList,
      String.toList_ofList]
  rw [ofName?, ofWord?_eq_some_iff, hplain]
  constructor
  · intro h
    rcases Text.exists_blanks_trim name.toList with ⟨front, behind, hname, hfront, hbehind⟩
    exact ⟨front, _, behind, hname, hfront, hbehind, h⟩
  · rintro ⟨front, spelled, behind, hname, hfront, hbehind, hspelled⟩
    -- The word has no blank in it, and lowering would leave a blank as it is.
    have hletters : ∀ c ∈ spelled, Unicode.isBlank c = false := by
      intro c hc
      refine Bool.eq_false_iff.mpr fun hblank => ?_
      have hlower := isBlank_of_mem_words hspelled c.toLower
        (by rw [String.toList_ofList]; exact List.mem_map_of_mem hc)
      rw [toLower_of_isBlank hblank, hblank] at hlower
      cases hlower
    rwa [hname, Text.trim_between hfront hbehind (Text.isTrimmed_of_forall hletters)]

-- No scheme is found if there is none to be found.
theorem ofName?_eq_none_iff {name : String} :
    ofName? name = none ↔ ∀ scheme : Scheme, ¬ scheme.IsNamedBy name := by
  simp only [Option.eq_none_iff_forall_ne_some, ne_eq, ofName?_eq_some_iff]

end Scheme

end StackScript
