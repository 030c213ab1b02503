import StackScript.Proofs.Indexed.Statement
import StackScript.Proofs.Indexed.Text
import StackScript.Proofs.Script.Header

/-!
# The Outline by Index

The header of a script is searched for its opening brace from word to word, and
so is a statement for what makes it a section. Each search begins behind the
word that the one before has found.

A section asks for the partner of its opening brace in the whole script, while
the library looks for it inside of the statement. In a section of the outline
both are the same brace.

## Main definitions

* `Indexed.header`, `Indexed.sectionOf?`: The header and the sections of a script.
* `Indexed.Outline`, `Indexed.outline`: The outline of a script by its indices.

## Theorems

* `header_eq`: The program reads the header of the library.
* `outline_eq`: The program finds the outline of the library.
-/

namespace StackScript

namespace Indexed

/-- The index of the word behind an equals sign, if that is the next word. -/
def valueBehind (tokens : List Token) (i stop : Nat) : Checked (Option Nat) := do
  match ← nextSignificant tokens i stop with
  | none => return none
  | some sign =>
      let token ← tokens[sign]?
      if token.kind = .eq then nextSignificant tokens (sign + 1) stop else return none

/-- Reading a header from `i` on: the second part of the answer is the index of
    the opening brace of the body. -/
def header (tokens : List Token) (declared : Header) (i : Nat) :
    Checked (Header × Option Nat) := do
  match ← nextSignificant tokens i tokens.length with
  | none => return (declared, none)
  | some index =>
      let token ← tokens[index]?
      if i ≤ index ∧ index < tokens.length then
        if token.kind = .lBrace then
          return (declared, some index)
        else if declared.name = none && (token.kind = .ident || token.kind = .string) then
          let name ← unquote token.text
          header tokens { declared with name := some name } (index + 1)
        else if token.isIdent "verb" then
          match ← valueBehind tokens (index + 1) tokens.length with
          | none => header tokens declared (index + 1)
          | some value =>
              let word ← tokens[value]?
              let verb ← unquote word.text
              if index < value then
                header tokens { declared with verb := some verb.toUpper } (value + 1)
              else
                none
        else
          header tokens declared (index + 1)
      else
        none
termination_by tokens.length - i

/-- The quoted label at the front of some words, and the words behind it. -/
def labelOf (tokens : List Token) : List Nat → Checked (Option String × List Nat)
  | [] => return (none, [])
  | index :: words => do
      let token ← tokens[index]?
      if token.kind = .string then
        let label ← unquote token.text
        return (some label, words)
      else
        return (none, index :: words)

/-- The section of the given name with the words behind the name, if they make
    one. -/
def sectionNamed (tokens : List Token) (name : Token) (words : List Nat) :
    Checked (Option Section) := do
  match ← labelOf tokens words with
  | (_, []) => return none
  | (label, index :: _) =>
      let token ← tokens[index]?
      if token.kind = .lBrace then
        let close := blockEnd tokens index
        return some ⟨name.text, label, name.position, some index, close, close.isSome⟩
      else if token.kind = .eq && label = none then
        return some ⟨name.text, none, name.position, none, none, true⟩
      else
        return none

/-- The section that a statement is, if it is one. -/
def sectionOf? (tokens : List Token) (bounds : Bounds) : Checked (Option Section) := do
  match ← significantOf tokens bounds with
  | [] => return none
  | first :: words =>
      let name ← tokens[first]?
      if name.kind = .ident then sectionNamed tokens name words else return none

/-- The sections among the statements from `start` on and below `stop`. -/
def sections (tokens : List Token) (start stop : Nat) : Checked (List Section) := do
  let among ← statements tokens start stop
  let found ← among.mapM (sectionOf? tokens)
  return found.filterMap id

/-- The outline of a script by its indices. -/
structure Outline where
  /-- The header line. -/
  header : Option Header
  /-- The indices of the body, from the first to the one behind the last. -/
  bodyRange : Nat × Nat
  /-- The sections of the body. -/
  sections : List Section

/-- The outline of a script whose keyword has the given index. -/
def outline (tokens : List Token) : Option Nat → Checked Outline
  | none => do
      let found ← sections tokens 0 tokens.length
      return ⟨none, (0, tokens.length), found⟩
  | some index => do
      let keyword ← tokens[index]?
      let (read, opening?) ←
        header tokens ⟨keyword.text, none, none, keyword.position⟩ (index + 1)
      let body := match opening? with
        | none => (tokens.length, tokens.length)
        | some opening => (opening + 1, (blockEnd tokens opening).getD tokens.length)
      let found ← sections tokens body.1 body.2
      return ⟨some read, body, found⟩

/-! ## The header -/

variable {tokens : List Token}

/-- The word behind an equals sign is the second next. -/
theorem valueBehind_cases (tokens : List Token) (i stop : Nat) :
    valueBehind tokens i stop = some none ∧ (∀ sign value words,
        significant (span tokens i stop) = sign :: value :: words → sign.token.kind ≠ .eq) ∨
      ∃ sign value, valueBehind tokens i stop = some (some value.index) ∧
        sign.token.kind = .eq ∧ value ∈ occurrences tokens ∧ i < value.index ∧
        value.index < stop ∧ significant (span tokens i stop) =
          sign :: value :: significant (span tokens (value.index + 1) stop) := by
  rcases nextSignificant_cases tokens i stop with
    ⟨hnext, hwords⟩ | ⟨sign, hnext, hmem, hle, hlt, hwords⟩
  · refine Or.inl ⟨by rw [valueBehind, hnext]; rfl, fun sign value words h => ?_⟩
    rw [hwords] at h
    cases h
  · -- A value needs a sign in front of it, and both need a word to be there.
    by_cases hsign : sign.token.kind = .eq
    · have hvalue : valueBehind tokens i stop = nextSignificant tokens (sign.index + 1) stop := by
        simp only [valueBehind, hnext, Checked.bind_some, (standing_of_mem hmem).1, if_pos hsign]
      rw [hvalue, hwords]
      rcases nextSignificant_cases tokens (sign.index + 1) stop with
        ⟨hnext', hwords'⟩ | ⟨value, hnext', hmem', hle', hlt', hwords'⟩
      · refine Or.inl ⟨hnext', fun sign' value words h => ?_⟩
        rw [hwords'] at h
        cases h
      · rw [hwords']
        exact Or.inr ⟨sign, value, hnext', hsign, hmem', by omega, hlt', rfl⟩
    · refine Or.inl ⟨?_, fun sign' value words h => ?_⟩
      · simp only [valueBehind, hnext, Checked.bind_some, (standing_of_mem hmem).1,
          if_neg hsign, Option.pure_def]
      · rw [hwords, List.cons.injEq] at h
        exact h.1 ▸ hsign

/-- The header is read alike, and both readers stop at the same brace. -/
theorem header_eq (declared : Header) (i : Nat) :
    header tokens declared i =
      some ((readHeader declared (significant (span tokens i tokens.length))).1,
        (readHeader declared (significant (span tokens i tokens.length))).2.map
          Occurrence.index) := by
  induction hn : tokens.length - i using Nat.strongRecOn generalizing i declared with
  | ind n ih =>
    rcases nextSignificant_cases tokens i tokens.length with
      ⟨hnext, hwords⟩ | ⟨word, hnext, hmem, hle, hlt, hwords⟩
    · rw [header, hnext, hwords]
      rfl
    have hbehind := fun declared => ih (tokens.length - (word.index + 1)) (by omega) declared _ rfl
    rw [header, hnext, hwords]
    simp only [Checked.bind_some, (standing_of_mem hmem).1, if_pos (And.intro hle hlt)]
    -- The four things that a word can be: the brace, the name, the key of the verb, or
    -- nothing of these.
    by_cases hbrace : word.token.kind = .lBrace
    · rw [readHeader.eq_def]
      simp only [if_pos hbrace]
      rfl
    by_cases hname : declared.name = none && (word.token.kind = .ident || word.token.kind = .string)
    · rw [readHeader.eq_def]
      simp only [if_neg hbrace, if_pos hname, unquote_eq]
      exact hbehind _
    by_cases hverb : word.token.isIdent "verb"
    · simp only [if_neg hbrace, if_neg hname, if_pos hverb]
      rcases valueBehind_cases tokens (word.index + 1) tokens.length with
        ⟨hvalue, hshort⟩ | ⟨sign, value, hvalue, hsign, hmem', hlt', hle', hwords'⟩
      · rw [hvalue, readHeader_pass hbrace hname fun _ => hshort]
        exact hbehind _
      · rw [hvalue, hwords', readHeader.eq_def]
        simp only [if_neg hbrace, if_neg hname, if_pos hverb, if_pos hsign, Checked.bind_some,
          (standing_of_mem hmem').1, unquote_eq, if_pos (Nat.lt_of_succ_lt hlt')]
        -- The cursor goes on behind the value, which is two words further on.
        exact ih _ (by omega) _ _ rfl
    · rw [readHeader.eq_def]
      simp only [if_neg hbrace, if_neg hname, if_neg hverb]
      exact hbehind _

end Indexed

/-! ## The sections -/

/-- A statement begins with a word that is no semicolon. -/
theorem first_isWord {comments places : List Occurrence} {statement : Statement}
    (h : statement ∈ statementsAfter comments places) :
    statement.first.isSignificant ∧ statement.first.token.kind ≠ .semicolon := by
  fun_induction statementsAfter comments places with
  | case1 => cases h
  | case2 comments place rest _ ih => exact ih h
  | case3 comments place rest _ _ ih => exact ih h
  | case4 comments place rest hword hsemicolon others ih =>
      rcases List.mem_cons.mp h with rfl | h
      · exact ⟨by simpa using hword, hsemicolon⟩
      · exact ih h

/-- The section with the partner of its opening brace in the whole script. -/
def Section.closedIn (tokens : List Token) (heading : Section) : Section :=
  match heading.openIndex with
  | none => heading
  | some start =>
      { heading with
        closeIndex := blockEnd tokens start
        terminated := (blockEnd tokens start).isSome }

/-- A section of the outline is closed by the partner in the script already. -/
theorem closedIn_outline {tokens : List Token} {keyword : Option Nat} {heading : Section}
    (h : heading ∈ (outline tokens keyword).sections) : heading.closedIn tokens = heading := by
  unfold Section.closedIn
  split
  · rfl
  · next start hopen =>
    rcases closeIndex_outline h hopen with ⟨-, hclose, hterminated⟩
    rw [← hterminated, ← hclose]

namespace Indexed

-- A label is a string right behind the name.
theorem labelOf_cons {word : Occurrence} (h : word ∈ occurrences tokens)
    (words : List Occurrence) :
    labelOf tokens ((word :: words).map Occurrence.index) =
      some (if word.token.kind = .string then
          (some (Text.unquote word.token.text), words.map Occurrence.index)
        else
          (none, (word :: words).map Occurrence.index)) := by
  rw [List.map_cons, labelOf, (standing_of_mem h).1, Checked.bind_some, unquote_eq]
  split <;> rfl

/-- What makes a section of a name: a block, or an assignment without a label. -/
theorem partOf_closedIn (tokens : List Token) (name : Token) (label : Option String)
    (word : Occurrence) (words : List Occurrence) :
    (partOf name label (word :: words)).map (fun part => part.heading.closedIn tokens) =
      if word.token.kind = .lBrace then
        some ⟨name.text, label, name.position, some word.index, blockEnd tokens word.index,
          (blockEnd tokens word.index).isSome⟩
      else if word.token.kind = .eq && label = none then
        some ⟨name.text, none, name.position, none, none, true⟩
      else
        none := by
  rw [partOf.eq_def]
  dsimp only
  -- A section has a block or a value, and the one with a label has a block.
  by_cases hl : word.token.kind = .lBrace
  · rw [hl]
    rfl
  by_cases he : word.token.kind = .eq
  · rw [he]
    cases label <;> rfl
  · rw [if_neg hl]
    split
    · contradiction
    · contradiction
    · simp [he]

/-- The section that the words behind a name make. -/
theorem sectionNamed_cons (name : Token) {word : Occurrence} {behind : List Occurrence}
    (h : word :: behind ⊆ occurrences tokens) :
    sectionNamed tokens name ((word :: behind).map Occurrence.index) =
      some (Option.map (fun part => part.heading.closedIn tokens)
        (if word.token.kind = .string then
          partOf name (some (Text.unquote word.token.text)) behind
        else
          partOf name none (word :: behind))) := by
  -- Behind the name and the label one word decides what the section is.
  have hheading : ∀ (label : Option String) (next : Occurrence) (rest : List Occurrence),
      next ∈ occurrences tokens → labelOf tokens ((word :: behind).map Occurrence.index) =
          some (label, (next :: rest).map Occurrence.index) →
        sectionNamed tokens name ((word :: behind).map Occurrence.index) =
          some ((partOf name label (next :: rest)).map fun part =>
            part.heading.closedIn tokens) := by
    intro label next rest hmem hlabel
    rw [sectionNamed, hlabel, partOf_closedIn]
    simp only [List.map_cons, Checked.bind_some, (standing_of_mem hmem).1, Option.pure_def]
    split
    · rfl
    · split <;> rfl
  have hlabel := labelOf_cons (h (.head _)) behind
  by_cases hkind : word.token.kind = .string
  · rw [if_pos hkind] at hlabel ⊢
    cases behind with
    | nil =>
        rw [sectionNamed, hlabel]
        rfl
    | cons next rest => exact hheading _ next rest (h (.tail _ (.head _))) hlabel
  · rw [if_neg hkind] at hlabel ⊢
    exact hheading none word behind (h (.head _)) hlabel

/-- The section that a statement is, by its words. -/
theorem sectionOf?_eq {start stop : Nat} {statement : Statement}
    (h : statement ∈ StackScript.statements (span tokens start stop)) :
    sectionOf? tokens statement.bounds =
      some (statement.part?.map fun part => part.heading.closedIn tokens) := by
  have hwords : statement.significant = statement.first :: significant statement.others :=
    significant_cons_of_pos (first_isWord h).1 _
  have hmem : statement.first :: significant statement.others ⊆ occurrences tokens := by
    intro word hword
    rw [← hwords, Statement.significant, (places_eq_span h).1] at hword
    exact span_subset _ _ _ (List.mem_filter.mp hword).1
  -- The section does not depend on the comments in its statement.
  have hplain : (statement.part?.map fun part => part.heading.closedIn tokens) =
      statement.plain.part?.map fun part => part.heading.closedIn tokens := by
    rw [part?_plain, Option.map_map]
    rfl
  rw [hplain, sectionOf?, significantOf_eq h, hwords]
  simp only [List.map_cons, Checked.bind_some, (standing_of_mem (hmem (.head _))).1]
  unfold Statement.part? Statement.plain
  dsimp only
  split
  · rw [skipComments_significant]
    cases hothers : significant statement.others with
    | nil => rfl
    | cons word behind =>
        rw [hothers] at hmem
        rw [sectionNamed_cons _ fun other hother => hmem (.tail _ hother)]
        rcases exists_first_word hothers with ⟨_, rest, -, -, -, rfl⟩
        dsimp only
        rw [skipComments_significant]
  · rfl

/-- Every statement is asked for the section that it is. -/
theorem sections_eq (tokens : List Token) (start stop : Nat) :
    sections tokens start stop =
      some ((partsOf (span tokens start stop)).map fun part => part.heading.closedIn tokens) := by
  have hfound : ((StackScript.statements (span tokens start stop)).map Statement.bounds).mapM
      (sectionOf? tokens) = some ((StackScript.statements (span tokens start stop)).map
        fun statement => statement.part?.map fun part => part.heading.closedIn tokens) := by
    rw [List.mapM_map]
    exact Checked.mapM_eq fun statement h => sectionOf?_eq h
  rw [sections, statements_eq, Checked.bind_some, hfound, partsOf, List.map_filterMap,
    Checked.bind_some, List.filterMap_map]
  rfl

/-- The outline of a script with a header ends where the count of the braces
    comes to. -/
theorem outline_some {keyword : Occurrence} (hmem : keyword ∈ occurrences tokens)
    {read : Header} {opening? : Option Occurrence}
    (hread : readHeader keyword.header
      (significant (span tokens (keyword.index + 1) tokens.length)) = (read, opening?)) :
    StackScript.outline tokens (some keyword.index) = match opening? with
      | none => ⟨some read, (tokens.length, tokens.length), []⟩
      | some opening =>
          ⟨some read, (opening.index + 1, (blockEnd tokens opening.index).getD tokens.length),
            partsOf (span tokens (opening.index + 1)
              ((blockEnd tokens opening.index).getD tokens.length))⟩ := by
  -- The keyword is found again at its own index.
  have hlookup : ((some keyword.index).bind fun index =>
      ((occurrences tokens).drop index).head?) = some keyword := by
    rcases List.append_of_mem hmem with ⟨l, r, hplaces⟩
    rw [Option.bind_some, (drop_index hplaces).1, List.head?_cons]
  rw [Occurrence.header, ← drop_occurrences] at hread
  unfold StackScript.outline
  dsimp only
  rw [hlookup]
  dsimp only
  rw [hread]
  cases opening? with
  | none => rfl
  | some opening =>
      rcases exists_brace_of_readHeader hread with ⟨hbrace, front, rest, hwords⟩
      -- The brace is a word of the script, so its block ends at its partner.
      have hopening : opening ∈ occurrences tokens := by
        have hword : opening ∈ significant ((occurrences tokens).drop (keyword.index + 1)) := by
          rw [hwords]
          exact List.mem_append_right _ (.head _)
        exact List.mem_of_mem_drop (List.mem_filter.mp hword).1
      have hlt := (List.getElem?_eq_some_iff.mp (standing_of_mem hopening).1).1
      have hbody := (untilClose_span hopening hbrace hlt rfl).1
      rw [span_min, ← drop_occurrences] at hbody
      rcases List.append_of_mem hopening with ⟨l, r, hplaces⟩
      have hclose := (closeIndex_eq_blockEnd hplaces hbrace).2
      rw [← (drop_index hplaces).2] at hclose
      dsimp only
      rw [hbody, hclose]

/-- The outline without the tokens of its sections. -/
def ofOutline (outline : StackScript.Outline) : Outline :=
  ⟨outline.header, outline.bodyRange, outline.sections⟩

/-- The program finds the outline of a script. -/
theorem outline_eq (keyword : Option Nat)
    (h : ∀ index, keyword = some index → index < tokens.length) :
    outline tokens keyword = some (ofOutline (StackScript.outline tokens keyword)) := by
  -- A section of the outline has its partner inside of its statement, if it has one.
  have hsections : ∀ start stop,
      (StackScript.outline tokens keyword).parts = partsOf (span tokens start stop) →
        sections tokens start stop = some (StackScript.outline tokens keyword).sections := by
    intro start stop hparts
    rw [sections_eq, ← hparts, StackScript.Outline.sections]
    refine congrArg some (List.map_congr_left fun part hpart => ?_)
    exact closedIn_outline (List.mem_map_of_mem hpart)
  cases keyword with
  | none =>
      have hall : span tokens 0 tokens.length = occurrences tokens :=
        (drop_occurrences tokens 0).symm
      rw [outline, hsections 0 tokens.length (by rw [hall]; rfl)]
      rfl
  | some index =>
      rcases exists_place (h index rfl) (Nat.le_refl _) with ⟨keyword, rfl, hmem, -⟩
      have hheader := @header_eq tokens keyword.header (keyword.index + 1)
      -- The body begins behind the brace that the header ends at, or is empty if there is
      -- none.
      rcases hread : readHeader keyword.header
        (significant (span tokens (keyword.index + 1) tokens.length)) with ⟨read, opening?⟩
      rw [hread] at hheader
      rw [Occurrence.header] at hheader
      have houtline := outline_some hmem hread
      rw [outline, (standing_of_mem hmem).1, Checked.bind_some, hheader, Checked.bind_some]
      cases opening? with
      | none =>
          have hempty : partsOf (span tokens tokens.length tokens.length) = [] := by
            rw [span_of_le _ (Nat.le_refl _), partsOf, StackScript.statements, statementsAfter]
            rfl
          simp only [Option.map_none]
          rw [hsections _ _ (by rw [houtline, hempty]), houtline]
          rfl
      | some opening =>
          simp only [Option.map_some]
          rw [hsections _ _ (by rw [houtline]), houtline]
          rfl

end Indexed

end StackScript
