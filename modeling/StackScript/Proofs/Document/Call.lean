import StackScript.Proofs.Document.Place
import StackScript.Proofs.Indexed.Call
import StackScript.Proofs.Indexed.Section

/-!
# The Calls of a Script

Which names of a script are calls is a matter of three notions of a block: the stack of
the reader for calls, the count of braces from an opening brace, and the sections of the
outline. `Proofs.Indexed.Call` has put the second in the place of the first, so here the
calls are described with no reader at all: by the words around a name and by the blocks
that reach over it, `callsByPlace`.

The third notion comes last. The block of a section is a block of the script, and what
stands in front of its brace is its name with a label at most. So a section `input` or
`schema` is what the reader takes for declarations, and no function is called in it,
`not_isFunctionAt_of_section`.

## Main definitions

* `FilterPlace`, `DeclarationPlace`: What the words in front of a name or of a brace say.
* `IsFilterAt`, `IsFunctionAt`: The names that are calls.
* `CallsByPlace`: The calls of a script.

## Theorems

* `mem_readCalls_filter`, `mem_readCalls_function`: The calls are those names.
* `declarationPlace_mark`: The brace of a section stands behind its name.
* `callsByPlace`: The calls of every script.
-/

namespace StackScript

/-! ## The words around a name -/

/-- A name behind these words, the nearest first, is a filter: it stands behind a pipe or
    behind `filters =`. -/
def FilterPlace (before : List Token) : Prop :=
  (∃ pipe outer, before = pipe :: outer ∧ pipe.kind = .pipe) ∨
    ∃ sign name outer, before = sign :: name :: outer ∧ sign.kind = .eq ∧
      name.kind = .ident ∧ name.text = "filters"

/-- A brace behind these words, the nearest first, opens declarations: it stands behind
    `input` or `schema`, with one label between them or none. -/
def DeclarationPlace (before : List Token) : Prop :=
  ∃ name outer, (before = name :: outer ∨
      ∃ label, before = label :: name :: outer ∧ label.kind = .string) ∧
    name.kind = .ident ∧ (name.text = "input" ∨ name.text = "schema")

/-- The test of the words in front says what `FilterPlace` says. -/
theorem expectsFilter_iff (before : List Token) : expectsFilter before ↔ FilterPlace before := by
  unfold FilterPlace
  cases before with
  | nil => simp [expectsFilter]
  | cons token before =>
      cases before with
      | nil => simp [expectsFilter]
      | cons name outer => simp [expectsFilter, Token.isIdent]

/-- Declarations are in the sections `input` and `schema`. -/
theorem declaresIn_iff (name : String) :
    Scheme.declaresIn name ↔ name = "input" ∨ name = "schema" := by
  simp only [Scheme.declaresIn, Scheme.all, Scheme.grammar, List.any_cons, List.any_nil,
    Option.some.injEq, Bool.or_eq_true, decide_eq_true_eq, reduceCtorEq, or_false]
  grind

-- So does the test for a section of declarations, with a label or without.
theorem opensDeclarations_iff (before : List Token) :
    opensDeclarations before ↔ DeclarationPlace before := by
  constructor
  · intro h
    cases before with
    | nil => cases h
    | cons token before =>
        rw [opensDeclarations] at h
        split at h
        · next hlabel =>
          cases before with
          | nil => cases h
          | cons name outer =>
              simp only [List.head?_cons, Option.any_some, Bool.and_eq_true, decide_eq_true_eq,
                declaresIn_iff] at h
              exact ⟨name, outer, .inr ⟨token, rfl, hlabel⟩, h⟩
        · simp only [Option.any_some, Bool.and_eq_true, decide_eq_true_eq, declaresIn_iff] at h
          exact ⟨token, before, .inl rfl, h⟩
  · rintro ⟨name, outer, rfl | ⟨label, rfl, hlabel⟩, hkind, htext⟩
    · simp [opensDeclarations, hkind, declaresIn_iff, htext]
    · simp [opensDeclarations, hlabel, hkind, declaresIn_iff, htext]

/-- A filter is one wherever it stands, so nothing else is asked for. -/
theorem called?_eq_filter (declaring : Bool) (before : List Token) (word : Token)
    (after : List Token) :
    called? declaring before word after = some .filter ↔ FilterPlace before := by
  rw [← expectsFilter_iff, called?]
  split
  · next h => simp [h]
  · next h => split <;> simp [h]

/-- A function has to be no filter, to stand outside of declarations, and to look like a
    call. -/
theorem called?_eq_function (declaring : Bool) (before : List Token) (word : Token)
    (after : List Token) : called? declaring before word after = some .function ↔
      ¬ FilterPlace before ∧ ¬ declaring ∧ isFunctionCall before word after := by
  rw [← expectsFilter_iff, called?]
  split
  · next h => simp [h]
  · next h =>
    split
    · next h' => simpa [h] using h'
    · next h' => simpa [h] using h'

/-! ## The calls -/

/-- The name at an index is a filter. -/
structure IsFilterAt (tokens : List Token) (i : Nat) (word : Token) : Prop where
  /-- The name stands there. -/
  get : tokens[i]? = some word
  ident : word.kind = .ident
  /-- It stands where a filter does. -/
  place : FilterPlace (wordsBefore tokens i)

/-- The name at an index is a function that is called. -/
structure IsFunctionAt (tokens : List Token) (i : Nat) (word : Token) : Prop where
  /-- The name stands there. -/
  get : tokens[i]? = some word
  ident : word.kind = .ident
  /-- It is no filter. -/
  place : ¬ FilterPlace (wordsBefore tokens i)
  /-- The words around it make it a call. -/
  call : isFunctionCall (wordsBefore tokens i) word (wordsFrom tokens (i + 1))
  /-- No block of declarations reaches over it. -/
  outside : ∀ opening, Encloses tokens opening i → ¬ DeclarationPlace (wordsBefore tokens opening)

section Calls

variable {tokens : List Token} {i : Nat}

/-- The call at an index is that of the word there, and its kind is what the words around
    the name say. -/
theorem callAt_eq_some_iff {call : Call} : callAt tokens i = some call ↔
    ∃ word, tokens[i]? = some word ∧ word.kind = .ident ∧
      called? (isDeclaring tokens i) (wordsBefore tokens i) word (wordsFrom tokens (i + 1)) =
        some call.kind ∧ call.name = word.text ∧ call.position = word.position := by
  rw [callAt]
  cases hget : tokens[i]? with
  | none => simp
  | some word =>
      dsimp only
      split
      · next hkind =>
        rw [Option.map_eq_some_iff]
        constructor
        · rintro ⟨kind, hkind', rfl⟩
          exact ⟨word, rfl, hkind, hkind', rfl, rfl⟩
        · rintro ⟨word, hsame, -, hkind', hname, hposition⟩
          rw [Option.some.injEq] at hsame
          exact ⟨call.kind, hsame ▸ hkind', by rw [hsame, ← hname, ← hposition]⟩
      · next hkind =>
        -- A word of another kind is no call, whatever stands around it.
        refine iff_of_false (fun h => by cases h) ?_
        rintro ⟨word, hsame, hident, -⟩
        rw [Option.some.injEq] at hsame
        exact hkind (hsame ▸ hident)

/-- Declarations are around a token that is no closing brace if a block of declarations
    reaches over it. -/
theorem isDeclaring_iff {word : Token} (hget : tokens[i]? = some word)
    (hkind : word.kind ≠ .rBrace) : isDeclaring tokens i ↔
      ∃ opening, Encloses tokens opening i ∧ DeclarationPlace (wordsBefore tokens opening) := by
  rw [isDeclaring, decide_eq_true_eq, head?_declares]
  refine exists_congr fun opening => ?_
  rw [mem_openBraces_iff_encloses hget hkind, opensDeclarations_iff]

/-- Every call is the call at some index. -/
theorem mem_readCalls {call : Call} : call ∈ readCalls tokens ↔ ∃ i, callAt tokens i = some call := by
  rw [readCalls_eq, List.mem_filterMap]
  refine exists_congr fun i => and_iff_right_of_imp fun h => ?_
  rcases callAt_eq_some_iff.mp h with ⟨word, hget, -⟩
  exact List.mem_range.mpr (List.getElem?_eq_some_iff.mp hget).1

/-- The filters of a script are the names that stand where a filter does. -/
theorem mem_readCalls_filter {name : String} {position : Position} :
    ⟨name, position, .filter⟩ ∈ readCalls tokens ↔
      ∃ i word, IsFilterAt tokens i word ∧ name = word.text ∧ position = word.position := by
  rw [mem_readCalls]
  refine exists_congr fun i => callAt_eq_some_iff.trans (exists_congr fun word => ?_)
  rw [called?_eq_filter]
  constructor
  · rintro ⟨hget, hkind, hplace, hsame⟩
    exact ⟨⟨hget, hkind, hplace⟩, hsame⟩
  · rintro ⟨⟨hget, hkind, hplace⟩, hsame⟩
    exact ⟨hget, hkind, hplace, hsame⟩

/-- The functions that a script calls are the names in front of arguments that begin a
    statement outside of declarations. -/
theorem mem_readCalls_function {name : String} {position : Position} :
    ⟨name, position, .function⟩ ∈ readCalls tokens ↔
      ∃ i word, IsFunctionAt tokens i word ∧ name = word.text ∧ position = word.position := by
  rw [mem_readCalls]
  refine exists_congr fun i => callAt_eq_some_iff.trans (exists_congr fun word => ?_)
  rw [called?_eq_function]
  constructor
  · rintro ⟨hget, hkind, ⟨hplace, hdeclaring, hcall⟩, hsame⟩
    have hbrace : word.kind ≠ .rBrace := by
      rw [hkind]
      exact TokenKind.noConfusion
    refine ⟨⟨hget, hkind, hplace, hcall, fun opening hencloses hopens => ?_⟩, hsame⟩
    -- A block of declarations around the name is what the stack of the reader tells of.
    exact hdeclaring ((isDeclaring_iff hget hbrace).mpr ⟨opening, hencloses, hopens⟩)
  · rintro ⟨⟨hget, hkind, hplace, hcall, houtside⟩, hsame⟩
    have hbrace : word.kind ≠ .rBrace := by
      rw [hkind]
      exact TokenKind.noConfusion
    refine ⟨hget, hkind, ⟨hplace, fun hdeclaring => ?_, hcall⟩, hsame⟩
    rcases (isDeclaring_iff hget hbrace).mp hdeclaring with ⟨opening, hencloses, hopens⟩
    exact houtside opening hencloses hopens

end Calls

/-! ## Sections of declarations -/

section Sections

variable {tokens : List Token} {start stop : Nat}

/-- The words in front of an index are those of a range that ends there, and those in
    front of the range. -/
theorem wordsBefore_span (tokens : List Token) (h : start ≤ stop) :
    wordsBefore tokens stop =
      ((significant (span tokens start stop)).map Occurrence.token).reverse ++
        wordsBefore tokens start := by
  have htake : tokens.take stop = tokens.take start ++ (span tokens start stop).map
      Occurrence.token := by
    rw [map_token_span]
    conv =>
      lhs
      rw [← List.take_append_drop start (tokens.take stop), List.take_take, Nat.min_eq_left h]
  rw [wordsBefore, htake, List.reverse_append, List.filter_append, List.filter_reverse,
    map_token_significant, wordsBefore]

/-- The opening brace of a section stands behind its name, with a label at most between
    them. -/
theorem declarationPlace_mark {statement : Statement}
    (hmem : statement ∈ statements (span tokens start stop)) {part : Part}
    {label behind : List Occurrence} {mark : Occurrence}
    (h : part.IsMarked statement label mark behind)
    (hname : part.heading.name = "input" ∨ part.heading.name = "schema") :
    DeclarationPlace (wordsBefore tokens mark.index) := by
  have hplaces : statement.places = (statement.first :: label) ++ mark :: behind :=
    congrArg (statement.first :: ·) h.others
  have hfront := (span_split ((places_eq_span hmem).1.symm.trans hplaces)).2.2.1
  have hwords := wordsBefore_span tokens (Nat.le_of_lt (h.index_mark hmem).2.1)
  rw [← hfront, significant_cons_of_pos (first_isWord hmem).1] at hwords
  rw [h.name] at hname
  rw [hwords]
  -- In front of the mark stands the name, or the name with one label.
  rcases h.label with hnil | ⟨word, hsingle, hstring⟩
  · rw [hnil]
    exact ⟨statement.first.token, _, .inl rfl, h.kind_name, hname⟩
  · rw [hsingle]
    exact ⟨statement.first.token, _, .inr ⟨word.token, rfl, hstring⟩, h.kind_name, hname⟩

/-- No function is called in a section of declarations. -/
theorem not_isFunctionAt_of_section {keyword : Option Nat} {heading : Section}
    (hmem : heading ∈ (outline tokens keyword).sections)
    (hname : heading.name = "input" ∨ heading.name = "schema") {opening : Nat}
    (hopen : heading.openIndex = some opening) {i : Nat} (hlt : opening < i)
    (hclose : ∀ close, heading.closeIndex = some close → i < close) (word : Token) :
    ¬ IsFunctionAt tokens i word := by
  intro hcall
  rcases closeIndex_outline hmem hopen with ⟨hkind, hend, -⟩
  rcases exists_readFrom tokens keyword with ⟨start, stop, hread⟩
  rcases (mem_sections hread).mp hmem with ⟨statement, hstatement, part, hpart, rfl⟩
  rcases exists_mark hpart with ⟨label, mark, behind, hmarked⟩
  have hopens := declarationPlace_mark hstatement hmarked hname
  rcases hmarked.marked with hhas | hassigned
  · rw [hhas.openIndex, Option.some.injEq] at hopen
    rw [hopen] at hopens
    -- The brace of the section encloses the name, and it opens declarations.
    refine hcall.outside opening ⟨hkind, hlt, fun close hblock => hclose close ?_⟩ hopens
    rw [hend, hblock]
  · rw [hassigned.openIndex] at hopen
    cases hopen

end Sections

/-! ## The calls of every script -/

/-- The calls of a script, by the places of its names. -/
structure CallsByPlace (text : String) : Prop where
  /-- The filters are the names that stand where a filter does. -/
  filters : ∀ name position, ⟨name, position, .filter⟩ ∈ readCalls (tokenize text) ↔
    ∃ i word, IsFilterAt (tokenize text) i word ∧ name = word.text ∧ position = word.position
  /-- The functions are the other names that make a call, outside of declarations. -/
  functions : ∀ name position, ⟨name, position, .function⟩ ∈ readCalls (tokenize text) ↔
    ∃ i word, IsFunctionAt (tokenize text) i word ∧ name = word.text ∧ position = word.position
  /-- They are listed in the order of the script, and none twice. -/
  rising : (readCalls (tokenize text)).Pairwise fun a b => a.position < b.position
  /-- No function is called in a section `input` or `schema`. -/
  sections : ∀ heading ∈ (parse text).blocks,
    heading.name = "input" ∨ heading.name = "schema" →
      ∀ opening, heading.openIndex = some opening → ∀ i word,
        (tokenize text)[i]? = some word → opening < i →
          (∀ close, heading.closeIndex = some close → i < close) →
            ∀ name, ⟨name, word.position, .function⟩ ∉ readCalls (tokenize text)

/-- Tokens in one place are one. -/
theorem index_unique {text : String} {i j : Nat} {a b : Token}
    (ha : (tokenize text)[i]? = some a) (hb : (tokenize text)[j]? = some b)
    (h : a.position = b.position) : i = j := by
  have hrising : ∀ i j (hi : i < (tokenize text).length) (hj : j < (tokenize text).length),
      i < j → (tokenize text)[i].position < (tokenize text)[j].position :=
    fun i j hi hj hlt => (List.pairwise_iff_getElem.mp
      (tokenizeAt_pairwise Place.start text.toList) i j hi hj hlt).2
  rcases List.getElem?_eq_some_iff.mp ha with ⟨hi, rfl⟩
  rcases List.getElem?_eq_some_iff.mp hb with ⟨hj, rfl⟩
  -- The positions of tokens rise, so only one index has a given position.
  rcases Nat.lt_trichotomy i j with hlt | heq | hlt
  · have hbefore := hrising i j hi hj hlt
    rw [h] at hbefore
    exact absurd hbefore (Position.lt_irrefl _)
  · exact heq
  · have hbefore := hrising j i hj hi hlt
    rw [h] at hbefore
    exact absurd hbefore (Position.lt_irrefl _)

/-- The calls of a script are its names by their places. -/
theorem callsByPlace (text : String) : CallsByPlace text where
  filters _ _ := mem_readCalls_filter
  functions _ _ := mem_readCalls_function
  rising := by
    have hpositions : ((tokenize text).map Token.position).Pairwise fun a b => a < b :=
      List.pairwise_map.mpr ((tokenizeAt_pairwise Place.start text.toList).imp And.right)
    exact List.pairwise_map.mp (hpositions.sublist (readCalls_positions_sublist _))
  sections heading hmem hname opening hopen i word hget hlt hclose name hcall := by
    rcases mem_readCalls_function.mp hcall with ⟨j, other, hfunction, -, hposition⟩
    rw [← index_unique hget hfunction.get hposition] at hfunction
    exact not_isFunctionAt_of_section hmem hname hopen hlt hclose other hfunction

end StackScript
