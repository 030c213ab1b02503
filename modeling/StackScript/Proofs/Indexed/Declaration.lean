import StackScript.Proofs.Indexed.Attribute
import StackScript.Proofs.Indexed.Statement

/-!
# Declarations by Index

A declaration is read with a cursor over the words of its statement, up to the
name and on to the attributes. Its description is read off the tokens in front
of the statement, which are counted down to.

## Main definitions

* `Indexed.description`: What the comments in front of a token say.
* `Indexed.declaration?`: The declaration that a statement is, if it is one.
* `Indexed.declarations`: The declarations of a section.

## Theorems

* `description_eq`: The program reads the description of the library.
* `declaration?_eq`: The program reads the same declaration from a statement.
* `declarations_eq`: The program reads the declarations of a section.
-/

namespace StackScript

namespace Indexed

/-! ## Descriptions -/

/-- No token in front of the index is on the given line. -/
def isFirstOf (tokens : List Token) (line i : Nat) : Checked Bool :=
  if 0 < i then do
    let above ← checkedSub i 1
    let other ← tokens[above]?
    return other.position.line ≠ line
  else
    return true

/-- The run of comments in front of the index that ends on the line above `line`,
    the nearest first. -/
def commentsAbove (tokens : List Token) (line i : Nat) : Checked (List Token) :=
  if 0 < i then do
    let above ← checkedSub i 1
    let comment ← tokens[above]?
    if comment.kind = .comment && comment.position.line + 1 = line then
      if ← isFirstOf tokens comment.position.line above then
        if above < i then
          let others ← commentsAbove tokens comment.position.line above
          return comment :: others
        else
          none
      else
        return []
    else
      return []
  else
    return []
termination_by i

/-- What the comments in front of the token at an index say. -/
def description (tokens : List Token) (i : Nat) : Checked (Option String) :=
  match tokens[i]? with
  | none => return none
  | some token => do
      let comments ← commentsAbove tokens token.position.line i
      match (comments.reverse.map Token.remark).filter (· ≠ []) with
      | [] => return none
      | remarks => return some (String.ofList (List.intercalate [' '] remarks))

/-! ## Declarations -/

/-- The sign is passed over if the cursor is at it; the first part of the answer
    says whether it is. -/
def skipKind (tokens : List Token) (kind : TokenKind) (words : List Nat) :
    Checked (Bool × List Nat) := do
  if ← isAt tokens kind words.head? then return (true, words.drop 1) else return (false, words)

/-- The brackets of a list type are passed over if the cursor is at them. -/
def skipListMark (tokens : List Token) (words : List Nat) : Checked (Bool × List Nat) := do
  if ← isAt tokens .lBracket words.head? then
    if ← isAt tokens .rBracket (words.drop 1).head? then
      return (true, words.drop 2)
    else
      return (false, words)
  else
    return (false, words)

/-- The declared name that a word is, if it is one. -/
def declaredName (word : Token) : Checked (Option String) :=
  if word.kind = .ident || word.kind = .string then do
    let name ← unquote word.text
    return if name = "" then none else some name
  else
    return none

/-- The declaration that a statement is, with the declared name. -/
def declaration? (tokens : List Token) (bounds : Bounds) :
    Checked (Option (String × Declaration)) := do
  match ← significantOf tokens bounds with
  | [] => return none
  | first :: afterType =>
      let type ← tokens[first]?
      if type.kind = .ident && !type.text.toList.contains '.' then
        let (isList, afterMark) ← skipListMark tokens afterType
        let (nullable, atName) ← skipKind tokens .question afterMark
        match atName with
        | [] => return none
        | second :: afterName =>
            let word ← tokens[second]?
            match ← declaredName word with
            | none => return none
            | some name =>
                let (optional, words) ← skipKind tokens .question afterName
                let remark ← description tokens bounds.start
                let known ←
                  attributes tokens bounds.stop (type.text = "enum") ⟨none, none⟩ words
                return some (name,
                  { type := type.text ++ if isList then "[]" else ""
                    nullable := nullable
                    optional := optional
                    filters := known.filters
                    enumValues := known.enumValues
                    description := remark
                    position := type.position })
      else
        return none

/-- One more statement is read. -/
def readStatement (tokens : List Token) (block : String) (report : DeclarationReport)
    (bounds : Bounds) : Checked DeclarationReport := do
  match ← declaration? tokens bounds with
  | none =>
      let first ← tokens[bounds.start]?
      if first.kind = .rBrace then
        return report
      else
        let problem := Diagnostic.ofProblem (.unrecognizedDeclaration block) first.position
        return { report with problems := report.problems ++ [problem] }
  | some (name, declaration) =>
      let empty :=
        if declaration.lacksValues then
          [Diagnostic.ofProblem (.enumWithoutValues name) declaration.position]
        else
          []
      let again :=
        if report.table.contains name then
          [Diagnostic.ofProblem (.duplicateDeclaration name) declaration.position]
        else
          []
      return ⟨report.table.insert name declaration, report.problems ++ empty ++ again⟩

/-- The declarations of the section from `start` on and below `stop`, behind those
    already known. -/
def declarations (tokens : List Token) (start stop : Nat) (block : String)
    (known : OrderedTable Declaration) : Checked DeclarationReport := do
  let found ← statements tokens start stop
  found.foldlM (readStatement tokens block) ⟨known, []⟩

/-! ## Reading descriptions -/

variable {tokens : List Token}

/-- The token in front is the last of those that come before. -/
theorem isFirstOf_eq (line : Nat) {i : Nat} (hi : i ≤ tokens.length) :
    isFirstOf tokens line i =
      some ((tokens.take i).reverse.head?.all fun other => other.position.line ≠ line) := by
  cases i with
  | zero => rfl
  | succ i =>
      rw [isFirstOf, if_pos (Nat.succ_pos i), checkedSub_succ, Checked.bind_some,
        List.getElem?_eq_getElem hi, reverse_take_succ hi]
      rfl

/-- Counting down the indices is going through the tokens in front, the nearest first. -/
theorem commentsAbove_eq (line : Nat) {i : Nat} (hi : i ≤ tokens.length) :
    commentsAbove tokens line i =
      some (StackScript.commentsAbove line (tokens.take i).reverse) := by
  induction i generalizing line with
  | zero =>
      rw [commentsAbove]
      rfl
  | succ i ih =>
      rw [commentsAbove, if_pos (Nat.succ_pos i), checkedSub_succ, Checked.bind_some,
        List.getElem?_eq_getElem hi, Checked.bind_some, isFirstOf_eq _ (Nat.le_of_lt hi),
        ih _ (Nat.le_of_lt hi), reverse_take_succ hi, StackScript.commentsAbove]
      simp only [Checked.bind_some, if_pos (Nat.lt_succ_self i)]
      cases decide (tokens[i].kind = .comment) && decide (tokens[i].position.line + 1 = line) with
      | false => rfl
      | true =>
        cases ((tokens.take i).reverse.head?.all fun other =>
            decide (other.position.line ≠ tokens[i].position.line)) <;> rfl

/-- A description is made from the comments above. -/
theorem description_eq {place : Occurrence} (h : place ∈ occurrences tokens) :
    description tokens place.index = some place.description := by
  have hlt := (List.getElem?_eq_some_iff.mp (standing_of_mem h).1).1
  rw [description, (standing_of_mem h).1, Occurrence.description, (standing_of_mem h).2]
  simp only [commentsAbove_eq _ (Nat.le_of_lt hlt), Checked.bind_some]
  generalize List.filter _ _ = remarks
  cases remarks <;> rfl

end Indexed

/-! ## Reading declarations -/

/-- At most one word is passed over. -/
theorem skipKind_suffix (kind : TokenKind) (places : List Occurrence) :
    (skipKind kind places).2 <:+ places := by
  fun_cases skipKind kind places with
  | case1 => exact List.suffix_refl _
  | case2 place rest => exact List.suffix_cons place rest
  | case3 => exact List.suffix_refl _

theorem skipListMark_suffix (places : List Occurrence) :
    (skipListMark places).2 <:+ places := by
  fun_cases skipListMark places with
  | case1 left right rest => exact (List.suffix_cons right rest).trans (List.suffix_cons left _)
  | case2 => exact List.suffix_refl _
  | case3 => exact List.suffix_refl _

namespace Indexed

variable {tokens : List Token}

/-- The word at the cursor is the first of those that are left. -/
theorem skipKind_eq {places : List Occurrence} (kind : TokenKind)
    (h : places ⊆ occurrences tokens) :
    skipKind tokens kind (places.map Occurrence.index) =
      some ((StackScript.skipKind kind places).1,
        (StackScript.skipKind kind places).2.map Occurrence.index) := by
  rw [skipKind, isAt_head kind h, Checked.bind_some]
  cases places with
  | nil => rfl
  | cons place places =>
      rw [StackScript.skipKind]
      by_cases hkind : place.token.kind = kind
      · rw [if_pos hkind, if_pos (by exact decide_eq_true hkind)]
        rfl
      · rw [if_neg hkind, if_neg (by simpa [startsWith] using hkind)]
        rfl

/-- A list is marked by two brackets, so both words have to be there. -/
theorem skipListMark_eq {places : List Occurrence} (h : places ⊆ occurrences tokens) :
    skipListMark tokens (places.map Occurrence.index) =
      some ((StackScript.skipListMark places).1,
        (StackScript.skipListMark places).2.map Occurrence.index) := by
  match places with
  | [] => rfl
  | [left] =>
      rw [skipListMark, isAt_head _ h, Checked.bind_some]
      split <;> rfl
  | left :: right :: rest =>
      have hbehind : isAt tokens .rBracket
          (((left :: right :: rest).map Occurrence.index).drop 1).head? =
            some (startsWith .rBracket (right :: rest)) :=
        isAt_head _ fun place hplace => h (.tail _ hplace)
      rw [skipListMark, isAt_head _ h, hbehind, StackScript.skipListMark]
      simp only [Checked.bind_some, startsWith, List.head?_cons, Option.any_some]
      cases decide (left.token.kind = .lBracket) <;>
        cases decide (right.token.kind = .rBracket) <;> rfl

/-- The name may be in quotes, which no check fails to take off. -/
theorem declaredName_eq (word : Token) :
    declaredName word =
      some (if (word.kind = .ident || word.kind = .string) && Text.unquote word.text ≠ "" then
        some (Text.unquote word.text) else none) := by
  rw [declaredName, unquote_eq]
  by_cases hkind : (word.kind = .ident || word.kind = .string) = true
  · rw [if_pos hkind, hkind, Bool.true_and]
    by_cases hname : Text.unquote word.text = "" <;> simp [hname]
  · rw [if_neg hkind, Bool.eq_false_iff.mpr hkind, Bool.false_and]
    rfl

/-- A statement is read as a declaration alike: type, marks, name and attributes, with the
    cursor on the same word throughout. -/
theorem declaration?_eq {start stop : Nat} {statement : Statement}
    (h : statement ∈ StackScript.statements (span tokens start stop)) :
    declaration? tokens statement.bounds = some statement.declaration? := by
  rcases places_eq_span h with ⟨hplaces, -, hlength⟩
  have hfirst : statement.first ∈ occurrences tokens := by
    refine span_subset tokens statement.start statement.stop ?_
    rw [← hplaces]
    exact .head _
  -- The description is that of the first word of the statement.
  have hdescription : description tokens statement.bounds.start =
      some statement.first.description := description_eq hfirst
  rw [declaration?, significantOf_eq h, Statement.declaration?]
  have hwords : statement.significant =
      significant (span tokens statement.start statement.stop) := by
    rw [Statement.significant, hplaces]
  have hsuffix : statement.significant <:+
      significant (span tokens statement.start statement.stop) := hwords ▸ List.suffix_refl _
  cases hs : statement.significant with
  | nil => rfl
  | cons typeWord afterType =>
      rw [hs] at hsuffix
      rw [List.map_cons, Checked.bind_some]
      simp only [(standing_of_mem (word_cons hsuffix).1).1, Checked.bind_some]
      -- The first word has to be a type, a name without dots.
      by_cases htype : (typeWord.token.kind = .ident &&
          !typeWord.token.text.toList.contains '.') = true
      · rw [if_pos htype, if_pos htype]
        have hafter := (List.suffix_cons typeWord afterType).trans hsuffix
        have hlist := skipListMark_eq (subset_words hafter)
        have hbehind := (skipListMark_suffix afterType).trans hafter
        -- Each mark leaves the cursor on a suffix of the words.
        generalize StackScript.skipListMark afterType = mark at hlist hbehind ⊢
        rcases mark with ⟨isList, afterMark⟩
        have hnullable := skipKind_eq .question (subset_words hbehind)
        have hatName := (skipKind_suffix .question afterMark).trans hbehind
        simp only [hlist, Checked.bind_some, hnullable]
        generalize StackScript.skipKind .question afterMark = sign at hatName ⊢
        rcases sign with ⟨nullable, _ | ⟨nameWord, afterName⟩⟩
        · rfl
        · have hname := (List.suffix_cons nameWord afterName).trans hatName
          have hoptional := skipKind_eq .question (subset_words hname)
          have hwords := (skipKind_suffix .question afterName).trans hname
          have hknown : attributes tokens statement.bounds.stop _ _ _ = some _ :=
            attributes_eq (typeWord.token.text = "enum") ⟨none, none⟩ hlength hwords
          simp only [List.map_cons, (standing_of_mem (word_cons hatName).1).1, Checked.bind_some,
            declaredName_eq]
          -- The name behind the marks decides whether there is a declaration.
          by_cases hword : ((nameWord.token.kind = .ident || nameWord.token.kind = .string) &&
              Text.unquote nameWord.token.text ≠ "") = true
          · simp only [if_pos hword, hoptional, hdescription, hknown, Checked.bind_some,
              Option.pure_def]
          · simp only [if_neg hword, Option.pure_def]
      · rw [if_neg htype, if_neg htype]
        rfl

/-- A statement adds to the table and to the problems what it does in the library. -/
theorem readStatement_eq (block : String) (report : DeclarationReport) {start stop : Nat}
    {statement : Statement} (h : statement ∈ StackScript.statements (span tokens start stop)) :
    readStatement tokens block report statement.bounds = some (report.read block statement) := by
  have hfirst : tokens[statement.bounds.start]? = some statement.first.token := by
    refine (standing_of_mem (span_subset tokens statement.start statement.stop ?_)).1
    rw [← (places_eq_span h).1]
    exact .head _
  rw [readStatement, declaration?_eq h, DeclarationReport.read]
  cases statement.declaration? with
  | none =>
      simp only [Checked.bind_some, hfirst]
      split <;> rfl
  | some found => rfl

/-- The program reads the declarations of a section. -/
theorem declarations_eq (tokens : List Token) (start stop : Nat) (block : String)
    (known : OrderedTable Declaration) :
    declarations tokens start stop block known =
      some (readDeclarations block known (span tokens start stop)) := by
  rw [declarations, statements_eq, Checked.bind_some, List.foldlM_map]
  exact Checked.foldlM_eq (fun statement h report => readStatement_eq block report h) _

end Indexed

end StackScript
