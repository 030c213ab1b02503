import StackScript.Proofs.Indexed.Document
import StackScript.Proofs.Indexed.Partition

/-!
# The Header of a Script

What `Proofs.Script.Header` says about the words of a header is carried over to the text
of a script here: by the indices of its tokens for the range of the body, and by the words
that the text begins with for the header itself.

Both results differ from what one would wish for, and each is followed by a script that
shows it. The body does not begin at the first opening brace, if a verb is announced in
front of it and left out. And a header without a name does not go without one, if it has
attributes.

## Main definitions

* `wordsBetween`: The words between the keyword and a token.
* `IsObjectBrace`, `firstObjectBrace`: An opening brace that is not taken for the verb.

## Theorems

* `openingOf_span`: The opening brace of the object by its index.
* `bodyRange_objectBrace`, `bodyRange_missingVerb`: Where the body of an object is.
* `header_headerLine`, `header_missingName`: What the header of an object says.
-/

namespace StackScript

/-! ## The body -/

section Body

variable {tokens : List Token} {keyword i : Nat}

/-- The words behind the token at `keyword` and in front of the one at `i`, the nearest
    first. -/
def wordsBetween (tokens : List Token) (keyword i : Nat) : List Token :=
  (((tokens.take i).drop (keyword + 1)).reverse).filter Token.isSignificant

/-- An opening brace behind the keyword that is not taken for the verb. -/
def IsObjectBrace (tokens : List Token) (keyword i : Nat) : Prop :=
  keyword < i ∧ kindAt tokens i = some .lBrace ∧ isVerb (wordsBetween tokens keyword i) = false

instance : Decidable (IsObjectBrace tokens keyword i) :=
  inferInstanceAs (Decidable (_ ∧ _ ∧ _))

/-- The first of these braces. -/
def firstObjectBrace (tokens : List Token) (keyword : Nat) : Option Occurrence :=
  (span tokens (keyword + 1) tokens.length).find? fun place =>
    place.token.kind = .lBrace && !isVerb (wordsBetween tokens keyword place.index)

/-- A word more is one more in front of the next place, a comment is not. -/
theorem wordsBetween_succ {token : Token} (hlt : keyword < i) (hget : tokens[i]? = some token) :
    wordsBetween tokens keyword (i + 1) =
      if token.isSignificant then token :: wordsBetween tokens keyword i
      else wordsBetween tokens keyword i := by
  have hlength := (List.getElem?_eq_some_iff.mp hget).1
  have htake : keyword + 1 ≤ (tokens.take i).length := by
    rw [List.length_take]
    omega
  rw [wordsBetween, List.take_add_one, hget, Option.toList_some,
    List.drop_append_of_le_length htake, List.reverse_append, List.reverse_singleton,
    List.singleton_append, List.filter_cons]
  rfl

theorem isObjectBrace_iff {place : Occurrence} (hlt : keyword < place.index)
    (hmem : place ∈ occurrences tokens) :
    IsObjectBrace tokens keyword place.index ↔ (place.token.kind = .lBrace &&
      !isVerb (wordsBetween tokens keyword place.index)) = true := by
  rw [IsObjectBrace, kindAt, (standing_of_mem hmem).1]
  simp [hlt]

/-- The opening brace of the object is the first one that is not taken for the verb. -/
theorem openingOf_span (hlt : keyword < i) :
    openingOf (wordsBetween tokens keyword i) (significant (span tokens i tokens.length)) =
      (span tokens i tokens.length).find? fun place => place.token.kind = .lBrace &&
        !isVerb (wordsBetween tokens keyword place.index) := by
  induction hn : tokens.length - i generalizing i with
  | zero =>
      rw [span_of_le _ (Nat.le_of_sub_eq_zero hn)]
      rfl
  | succ n ih =>
      rcases @exists_place tokens i tokens.length (by omega) (Nat.le_refl _) with
        ⟨place, rfl, hmem, hspan⟩
      have hbehind := ih (Nat.lt_succ_of_lt hlt) (by omega)
      rw [wordsBetween_succ hlt (standing_of_mem hmem).1] at hbehind
      rw [hspan, List.find?_cons, ← hbehind]
      -- A word is looked at, and is in front of what comes next; a comment is neither.
      by_cases hword : place.isSignificant
      · have hword' : place.token.isSignificant = true := hword
        rw [significant_cons_of_pos hword, openingOf, if_pos hword']
        split
        · next hbrace => rw [hbrace]
        · next hbrace => rw [Bool.eq_false_iff.mpr hbrace]
      · have hword' : ¬ place.token.isSignificant = true := hword
        have hkind : place.token.kind ≠ .lBrace := by
          rw [kind_of_comment hword']
          exact TokenKind.noConfusion
        rw [significant, List.filter_cons_of_neg hword, if_neg hword', decide_eq_false hkind,
          Bool.false_and]
        rfl

/-- The search looks at every index behind the keyword. -/
theorem not_isObjectBrace_of_none (h : firstObjectBrace tokens keyword = none) (i : Nat) :
    ¬ IsObjectBrace tokens keyword i := by
  intro hbrace
  have hlt := lt_of_kindAt hbrace.2.1
  rcases exists_mem_span hbrace.1 hlt hlt with ⟨place, hmem, rfl, -⟩
  exact List.find?_eq_none.mp h place hmem
    ((isObjectBrace_iff hbrace.1 (span_subset _ _ _ hmem)).mp hbrace)

theorem isObjectBrace_of_some {opening : Occurrence}
    (h : firstObjectBrace tokens keyword = some opening) :
    IsObjectBrace tokens keyword opening.index ∧
      ∀ j < opening.index, ¬ IsObjectBrace tokens keyword j := by
  rcases List.find?_eq_some_iff_append.mp h with ⟨hopening, front, behind, hspan, hfront⟩
  have hmem : opening ∈ span tokens (keyword + 1) tokens.length := by
    rw [hspan]
    exact List.mem_append_right _ (.head _)
  refine ⟨(isObjectBrace_iff (index_of_mem_span hmem).1 (span_subset _ _ _ hmem)).mpr hopening,
    fun j hlt hbrace => ?_⟩
  -- A brace in front of it would have been found before.
  rcases exists_mem_span hbrace.1 hlt (lt_of_kindAt hbrace.2.1) with ⟨place, hplace, rfl, -⟩
  have hfound := (isObjectBrace_iff hbrace.1 (span_subset _ _ _ hplace)).mp hbrace
  rw [← (span_split hspan).2.2.1] at hplace
  have hpassed := hfront place hplace
  rw [hfound] at hpassed
  cases hpassed

/-- The body of an object by the opening brace that is found. -/
theorem bodyRange_eq {scheme : Scheme} (h : detectKeyword tokens = some (scheme, keyword)) :
    (outline tokens ((detectKeyword tokens).map (·.2))).bodyRange =
      match firstObjectBrace tokens keyword with
      | none => (tokens.length, tokens.length)
      | some opening =>
          (opening.index + 1, (blockEnd tokens opening.index).getD tokens.length) := by
  have hindex : (detectKeyword tokens).map (·.2) = some keyword := by rw [h]; rfl
  rcases exists_place (lt_of_detectKeyword hindex) (Nat.le_refl _) with
    ⟨place, rfl, hmem, -⟩
  have hbetween : wordsBetween tokens place.index (place.index + 1) = [] := by
    rw [wordsBetween, List.drop_eq_nil_of_le (List.length_take_le _ _)]
    rfl
  -- Nothing has been read behind the keyword, so no verb is announced there.
  have hstart : IsReadUpTo place.header []
    (significant (span tokens (place.index + 1) tokens.length)) := ⟨rfl, rfl, fun _ _ _ _ => rfl⟩
  have hopening := readHeader_opening _ _ _ hstart
  rw [← hbetween, openingOf_span (Nat.lt_succ_self _)] at hopening
  rcases hread : readHeader place.header
    (significant (span tokens (place.index + 1) tokens.length)) with ⟨read, opening?⟩
  rw [hread] at hopening
  rw [hindex, Indexed.outline_some hmem hread, firstObjectBrace, ← hopening]
  cases opening? <;> rfl

end Body

/-- The body of an object begins behind the first opening brace that is not taken for the
    verb, and goes on to the end of the block. Without such a brace there is no body. -/
theorem bodyRange_objectBrace {text : String} {scheme : Scheme} {keyword : Nat}
    (h : detectKeyword (tokenize text) = some (scheme, keyword)) :
    (∀ i, IsObjectBrace (tokenize text) keyword i →
      (∀ j < i, ¬ IsObjectBrace (tokenize text) keyword j) →
        (outline (tokenize text) ((detectKeyword (tokenize text)).map (·.2))).bodyRange =
          (i + 1, (blockEnd (tokenize text) i).getD (tokenize text).length)) ∧
    ((∀ i, ¬ IsObjectBrace (tokenize text) keyword i) →
      (outline (tokenize text) ((detectKeyword (tokenize text)).map (·.2))).bodyRange =
        ((tokenize text).length, (tokenize text).length)) := by
  rw [bodyRange_eq h]
  cases hfound : firstObjectBrace (tokenize text) keyword with
  | none =>
      exact ⟨fun i hbrace => absurd hbrace (not_isObjectBrace_of_none hfound i), fun _ => rfl⟩
  | some opening =>
      rcases isObjectBrace_of_some hfound with ⟨hopening, hbefore⟩
      refine ⟨fun i hbrace hfirst => ?_, fun hnone => absurd hopening (hnone _)⟩
      -- Of two first braces neither is in front of the other.
      obtain rfl : opening.index = i :=
        Nat.le_antisymm (Nat.le_of_not_lt fun hlt => hbefore i hlt hbrace)
          (Nat.le_of_not_lt fun hlt => hfirst _ hlt hopening)
      rfl

/-- A brace in the place of the verb is passed over, and the block behind it is the body. -/
theorem bodyRange_verbBrace :
    detectKeyword (tokenize "query q verb= \x7b\n  input \x7b\n    int a\n  \x7d\n\x7d") =
        some (.api, 0) ∧
      (outline (tokenize "query q verb= \x7b\n  input \x7b\n    int a\n  \x7d\n\x7d")
        (some 0)).bodyRange = (7, 9) := by
  have hkeyword : detectKeyword
      (tokenize "query q verb= \x7b\n  input \x7b\n    int a\n  \x7d\n\x7d") =
        some (.api, 0) := by decide +kernel
  have hrange := (bodyRange_objectBrace hkeyword).1 6 (by decide +kernel) (by decide +kernel)
  rw [hkeyword] at hrange
  exact ⟨hkeyword, hrange.trans (by decide +kernel)⟩

/-- Where a verb is announced and left out, the body of an object does not begin behind
    the first opening brace. -/
theorem bodyRange_missingVerb :
    ¬ ∀ (text : String) (scheme : Scheme) (keyword i : Nat),
      detectKeyword (tokenize text) = some (scheme, keyword) → keyword < i →
        kindAt (tokenize text) i = some .lBrace →
          (∀ j < i, keyword < j → kindAt (tokenize text) j ≠ some .lBrace) →
            (outline (tokenize text) (some keyword)).bodyRange =
              (i + 1, (blockEnd (tokenize text) i).getD (tokenize text).length) := by
  intro h
  have hfirst := h "query q verb= \x7b\n  input \x7b\n    int a\n  \x7d\n\x7d" .api 0 4
    (by decide +kernel) (by decide) (by decide +kernel) (by decide +kernel)
  exact absurd hfirst (by decide +kernel)

/-! ## The header -/

/-- The header of a script is read from the words behind its first word. -/
theorem header_outline {tokens : List Token} {first : Occurrence} {words : List Occurrence}
    (hwords : significant (occurrences tokens) = first :: words)
    (hdeclares : first.token.declares?.isSome) :
    (outline tokens ((detectKeyword tokens).map (·.2))).header =
      some (readHeader first.header words).1 := by
  rcases exists_first_word hwords with ⟨l, r, hscript, hl, hfirst, rfl⟩
  rcases Option.isSome_iff_exists.mp hdeclares with ⟨scheme, hscheme⟩
  have hkeyword : (detectKeyword tokens).map (·.2) = some first.index := by
    rw [detectKeyword_some hscript hl hfirst, hscheme]
    rfl
  have hmem : first ∈ occurrences tokens := hscript ▸ List.mem_append_right _ (.head _)
  -- The header is read from the places behind the keyword, which are the rest of the
  -- script.
  have hspan : span tokens (first.index + 1) tokens.length = r := by
    rw [← drop_occurrences, (drop_index hscript).2]
  rcases hread : readHeader first.header (significant r) with ⟨read, opening?⟩
  rw [hkeyword, Indexed.outline_some hmem (hspan ▸ hread)]
  cases opening? <;> rfl

/-- The header of an object says what its line says: the name is the one behind the
    keyword, and the verb is that of the last attribute `verb`. Only a line that has
    attributes but no name is read as another one, whose name is the key of the first
    attribute. -/
theorem header_headerLine {text : String} {line : HeaderLine} {opening : Token}
    {behind : List Token} (h : (tokenize text).filter Token.isSignificant =
      line.keyword :: (line.words ++ opening :: behind))
    (hopen : opening.kind = .lBrace) (asked : Option String) :
    (parseWith asked text).header = some line.read.header ∧
      (line.name.isSome ∨ line.attributes = [] → line.read = line) := by
  refine ⟨?_, HeaderLine.read_of_name⟩
  rw [← map_token_words] at h
  rcases List.map_eq_cons_iff.mp h with ⟨first, words, hwords, hfirst, hbehind⟩
  have hheader := header_outline hwords (hfirst ▸ line.declares)
  rw [Occurrence.header, hfirst, line.readHeader_words hbehind hopen] at hheader
  exact hheader

/-- Of two verbs the second counts, here in single quotes and small letters. -/
theorem header_twoVerbs :
    (parse "query \"brands/\x7bid\x7d\" verb=get verb='put' \x7b").header =
      some ⟨"query", some "brands/\x7bid\x7d", some "PUT", ⟨1, 1⟩⟩ := by
  -- The words of the text, with their places.
  let line : HeaderLine := {
    keyword := ⟨.ident, "query", ⟨1, 1⟩, 0⟩
    name := some ⟨.string, "\"brands/\x7bid\x7d\"", ⟨1, 7⟩, 6⟩
    attributes := [
      ⟨⟨.ident, "verb", ⟨1, 21⟩, 20⟩, ⟨.eq, "=", ⟨1, 25⟩, 24⟩, ⟨.ident, "get", ⟨1, 26⟩, 25⟩,
        rfl, rfl, rfl⟩,
      ⟨⟨.ident, "verb", ⟨1, 30⟩, 29⟩, ⟨.eq, "=", ⟨1, 34⟩, 33⟩, ⟨.string, "'put'", ⟨1, 35⟩, 34⟩,
        rfl, rfl, rfl⟩]
    declares := by decide
    isName_name := by decide }
  have h := @header_headerLine "query \"brands/\x7bid\x7d\" verb=get verb='put' \x7b" line
    ⟨.lBrace, "\x7b", ⟨1, 41⟩, 40⟩ [] (by decide +kernel) rfl none
  rw [h.2 (.inl rfl)] at h
  exact h.1.trans (by decide +kernel)

/-- A line without a name is not read as it is written, if it has attributes. -/
theorem header_missingName :
    ¬ ∀ (text : String) (line : HeaderLine) (opening : Token) (behind : List Token),
      (tokenize text).filter Token.isSignificant =
          line.keyword :: (line.words ++ opening :: behind) →
        opening.kind = .lBrace → (parse text).header = some line.header := by
  intro h
  have hverb := h "query verb=GET \x7b\n\x7d" {
    keyword := ⟨.ident, "query", ⟨1, 1⟩, 0⟩
    name := none
    attributes := [⟨⟨.ident, "verb", ⟨1, 7⟩, 6⟩, ⟨.eq, "=", ⟨1, 11⟩, 10⟩,
      ⟨.ident, "GET", ⟨1, 12⟩, 11⟩, rfl, rfl, rfl⟩]
    declares := by decide
    isName_name := by decide }
    ⟨.lBrace, "\x7b", ⟨1, 16⟩, 15⟩ [⟨.rBrace, "\x7d", ⟨2, 1⟩, 17⟩] (by decide +kernel) rfl
  exact absurd hverb (by decide +kernel)

end StackScript
