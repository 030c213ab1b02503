import StackScript.Proofs.Indexed.Scan
import StackScript.Proofs.Indexed.Text
import StackScript.Proofs.Script.Argument
import StackScript.Proofs.Script.Reference
import StackScript.Proofs.Token.Tiling

/-!
# References by Index

The four readers for references go through all tokens and look around from each:
back for what a name follows, ahead for its argument. The library splits the
words of a script at each word instead, into those before and those behind.

The reader for calls keeps the calls it has met, so as to list none twice. As
every token has a place of its own, it never meets one again.

## Main definitions

* `wordsBefore`, `wordsFrom`: The words of a script around an index.
* `Indexed.Apart`: The calls met so far do not come again.
* `Indexed.calls`, `Indexed.variableRefs`, `Indexed.tables`, `Indexed.runs`: The
  references of a script.

## Theorems

* `calls_eq`, `variableRefs_eq`, `tables_eq`, `runs_eq`: The program reads the
  references of a script.
-/

namespace StackScript

namespace Indexed

/-! ## Calls -/

/-- The brace at an index opens a section of declarations, with or without a label. -/
def opensDeclarations (tokens : List Token) (opening : Nat) : Checked Bool := do
  match ← prevSignificant tokens opening with
  | none => return false
  | some last =>
      let token ← tokens[last]?
      if token.kind = .string then
        match ← prevSignificant tokens last with
        | none => return false
        | some name =>
            let word ← tokens[name]?
            return word.kind = .ident && Scheme.declaresIn word.text
      else
        return token.kind = .ident && Scheme.declaresIn token.text

/-- A name at an index is a filter. -/
def expectsFilter (tokens : List Token) (i : Nat) : Checked Bool := do
  match ← prevSignificant tokens i with
  | none => return false
  | some last =>
      let token ← tokens[last]?
      if token.kind = .pipe then
        return true
      else if token.kind = .eq then
        match ← prevSignificant tokens last with
        | none => return false
        | some name =>
            let word ← tokens[name]?
            return word.isIdent "filters"
      else
        return false

/-- The word at an index begins a statement. -/
def beginsStatement (tokens : List Token) (word : Token) (i : Nat) : Checked Bool := do
  match ← prevSignificant tokens i with
  | none => return true
  | some last =>
      let token ← tokens[last]?
      return token.position.line < word.position.line ||
        (token.kind = .lBrace || token.kind = .rBrace || token.kind = .semicolon)

/-- What follows the word at an index makes it a call. -/
def takesArguments (tokens : List Token) (word : Token) (i : Nat) : Checked Bool := do
  match ← nextSignificant tokens (i + 1) tokens.length with
  | none => return false
  | some next =>
      let token ← tokens[next]?
      return token.kind = .lBrace ||
        (token.kind = .lParen || token.kind.isArgument) &&
          token.position.line = word.position.line

/-- The word at an index calls a function. -/
def isFunctionCall (tokens : List Token) (i : Nat) : Checked Bool := do
  let word ← tokens[i]?
  if nonCallWords.contains word.text || (Scheme.ofKeyword? word.text).isSome ||
      Scheme.knowsSection word.text then
    return false
  else if ← beginsStatement tokens word i then
    takesArguments tokens word i
  else
    return false

/-- What the name at an index calls, if it calls something. -/
def calledAt (tokens : List Token) (declaring : Bool) (i : Nat) : Checked (Option CallKind) := do
  if ← expectsFilter tokens i then
    return some .filter
  else if declaring then
    return none
  else
    return if ← isFunctionCall tokens i then some .function else none

/-- The calls from the index `i` on, with the open blocks and the calls that have
    been met. -/
def callsFrom (tokens : List Token) (blocks : List Bool) (met : List (String × Position))
    (i : Nat) : Checked (List Call) :=
  if i < tokens.length then do
    let token ← tokens[i]?
    let declaring : Bool := blocks.head? = some true
    match token.kind with
    | .lBrace =>
        let opens ← if declaring then pure true else opensDeclarations tokens i
        callsFrom tokens (opens :: blocks) met (i + 1)
    | .rBrace => callsFrom tokens blocks.tail met (i + 1)
    | .ident =>
        match ← calledAt tokens declaring i with
        | none => callsFrom tokens blocks met (i + 1)
        | some kind =>
            if met.contains (token.text, token.position) then
              callsFrom tokens blocks met (i + 1)
            else
              let others ← callsFrom tokens blocks ((token.text, token.position) :: met) (i + 1)
              return ⟨token.text, token.position, kind⟩ :: others
    | _ => callsFrom tokens blocks met (i + 1)
  else
    return []
termination_by tokens.length - i

/-- The calls of a script, in order. -/
def calls (tokens : List Token) : Checked (List Call) :=
  callsFrom tokens [] [] 0

/-! ## Variables, tables and functions -/

/-- What a reader makes of each token from the index `i` on. -/
def collectFrom {α : Type} (tokens : List Token) (read : Token → Nat → Checked (Option α))
    (i : Nat) : Checked (List α) :=
  if i < tokens.length then do
    let token ← tokens[i]?
    let found ← read token i
    let others ← collectFrom tokens read (i + 1)
    return found.toList ++ others
  else
    return []
termination_by tokens.length - i

/-- The variables that a script mentions, in order. -/
def variableRefs (tokens : List Token) : Checked (List VariableRef) :=
  collectFrom tokens (fun token _ =>
    return if token.kind = .variable then some ⟨token.text, token.position⟩ else none) 0

/-- The word behind the one at the index `call`, if it has one of the given kinds and
    stands on the same line. -/
def sameLineArgument (tokens : List Token) (kinds : List TokenKind) (call : Nat) :
    Checked (Option Token) := do
  match ← nextSignificant tokens (call + 1) tokens.length with
  | none => return none
  | some next =>
      let argument ← tokens[next]?
      let word ← tokens[call]?
      return if argument.position.line = word.position.line && kinds.contains argument.kind then
        some argument else none

/-- What the argument of the word at an index names. -/
def namedArgument (tokens : List Token) (kinds : List TokenKind) (call : Nat) :
    Checked (Option String) := do
  match ← sameLineArgument tokens kinds call with
  | none => return none
  | some argument =>
      let text ← unquote argument.text
      let name := Text.onChars Text.trim text
      return if name = "" then none else some name

/-- The table that the word at an index works on. -/
def tableAt (tokens : List Token) (word : Token) (i : Nat) : Checked (Option TableRef) := do
  match databaseOperation? word with
  | none => return none
  | some operation =>
      let table? ← namedArgument tokens [.ident, .string] i
      return table?.map fun table => ⟨operation, table, word.position⟩

/-- The function that the word at an index runs. -/
def runAt (tokens : List Token) (word : Token) (i : Nat) : Checked (Option RunRef) :=
  if word.isIdent "function.run" then do
    let name? ← namedArgument tokens [.string] i
    return name?.map fun name => ⟨name, word.position⟩
  else
    return none

/-- The tables that a script works on, in order. -/
def tables (tokens : List Token) : Checked (List TableRef) :=
  collectFrom tokens (tableAt tokens) 0

/-- The functions that a script runs, in order. -/
def runs (tokens : List Token) : Checked (List RunRef) :=
  collectFrom tokens (runAt tokens) 0

end Indexed

/-! ## The words around an index -/

/-- The words from an index on. -/
def wordsFrom (tokens : List Token) (i : Nat) : List Token :=
  (tokens.drop i).filter Token.isSignificant

section Words

variable {tokens : List Token} {i : Nat}

theorem wordsFrom_of_length_le (h : tokens.length ≤ i) : wordsFrom tokens i = [] := by
  rw [wordsFrom, List.drop_eq_nil_of_le h]
  rfl

-- A token is the first of the words from its index on, if it is a word.
theorem wordsFrom_of_lt (h : i < tokens.length) :
    wordsFrom tokens i =
      if tokens[i].isSignificant then tokens[i] :: wordsFrom tokens (i + 1)
      else wordsFrom tokens (i + 1) := by
  rw [wordsFrom, List.drop_eq_getElem_cons h, List.filter_cons]
  rfl

theorem wordsBefore_succ (h : i < tokens.length) :
    wordsBefore tokens (i + 1) =
      if tokens[i].isSignificant then tokens[i] :: wordsBefore tokens i
      else wordsBefore tokens i := by
  rw [wordsBefore, reverse_take_succ h, List.filter_cons]
  rfl

end Words

namespace Indexed

/-- Either no word follows, or the index of the next one is found. -/
theorem nextWord_cases (tokens : List Token) (i : Nat) :
    nextSignificant tokens i tokens.length = some none ∧ wordsFrom tokens i = [] ∨
      ∃ j word, nextSignificant tokens i tokens.length = some (some j) ∧
        tokens[j]? = some word ∧ wordsFrom tokens i = word :: wordsFrom tokens (j + 1) := by
  have hwords : ∀ i, wordsFrom tokens i =
      (significant (span tokens i tokens.length)).map Occurrence.token := by
    intro i
    rw [wordsFrom, map_token_significant, map_token_span, List.take_length]
  rcases nextSignificant_cases tokens i tokens.length with
    ⟨hnext, hnone⟩ | ⟨word, hnext, hmem, -, -, hsome⟩
  · exact Or.inl ⟨hnext, by rw [hwords, hnone]; rfl⟩
  · exact Or.inr ⟨word.index, word.token, hnext, (standing_of_mem hmem).1,
      by rw [hwords, hwords, hsome]; rfl⟩

/-! ## Reading calls -/

variable (tokens : List Token)

/-- Whether a brace opens a block of declarations is told by the words in front. -/
theorem opensDeclarations_eq (i : Nat) :
    opensDeclarations tokens i =
      some (StackScript.opensDeclarations (wordsBefore tokens i)) := by
  rcases prevSignificant_cases tokens i with ⟨hprev, hwords⟩ | ⟨j, last, hprev, hget, hwords⟩
  · rw [opensDeclarations, hprev, hwords]
    rfl
  · rw [opensDeclarations, hprev, hwords]
    simp only [Checked.bind_some, hget, StackScript.opensDeclarations]
    -- Behind a label the program looks one word further back.
    by_cases hlabel : last.kind = .string
    · rw [if_pos hlabel, if_pos hlabel]
      rcases prevSignificant_cases tokens j with
        ⟨hprev', hwords'⟩ | ⟨k, name, hprev', hget', hwords'⟩
      · rw [hprev', hwords']
        rfl
      · rw [hprev', hwords']
        simp only [Checked.bind_some, hget']
        rfl
    · rw [if_neg hlabel, if_neg hlabel]
      rfl

theorem expectsFilter_eq (i : Nat) :
    expectsFilter tokens i = some (StackScript.expectsFilter (wordsBefore tokens i)) := by
  rcases prevSignificant_cases tokens i with ⟨hprev, hwords⟩ | ⟨j, last, hprev, hget, hwords⟩
  · rw [expectsFilter, hprev, hwords]
    rfl
  · rw [expectsFilter, hprev, hwords]
    simp only [Checked.bind_some, hget, StackScript.expectsFilter]
    -- A pipe is enough, and a sign needs the name `filters` in front of it.
    by_cases hpipe : last.kind = .pipe
    · simp [hpipe]
    by_cases hsign : last.kind = .eq
    · rcases prevSignificant_cases tokens j with
        ⟨hprev', hwords'⟩ | ⟨k, name, hprev', hget', hwords'⟩
      · simp [hsign, hprev', hwords']
      · simp [hsign, hprev', hwords', hget']
    · simp [hpipe, hsign]

/-- A function is told by its name and by the words on both sides. -/
theorem isFunctionCall_eq {i : Nat} {word : Token} (h : tokens[i]? = some word) :
    isFunctionCall tokens i =
      some (StackScript.isFunctionCall (wordsBefore tokens i) word (wordsFrom tokens (i + 1))) := by
  -- One word back, and one word ahead.
  have hbegins : beginsStatement tokens word i =
      some (StackScript.beginsStatement word (wordsBefore tokens i)) := by
    rcases prevSignificant_cases tokens i with ⟨hprev, hwords⟩ | ⟨j, last, hprev, hget, hwords⟩
    · rw [beginsStatement, hprev, hwords]
      rfl
    · rw [beginsStatement, hprev, hwords]
      simp only [Checked.bind_some, hget]
      rfl
  have htakes : takesArguments tokens word i =
      some (StackScript.takesArguments word (wordsFrom tokens (i + 1))) := by
    rcases nextWord_cases tokens (i + 1) with ⟨hnext, hwords⟩ | ⟨j, next, hnext, hget, hwords⟩
    · rw [takesArguments, hnext, hwords]
      rfl
    · rw [takesArguments, hnext, hwords]
      simp only [Checked.bind_some, hget]
      rfl
  rw [isFunctionCall, h]
  simp only [Checked.bind_some, hbegins, htakes, StackScript.isFunctionCall]
  cases nonCallWords.contains word.text <;> cases Scheme.ofKeyword? word.text <;>
    cases Scheme.knowsSection word.text <;>
    cases StackScript.beginsStatement word (wordsBefore tokens i) <;> rfl

end Indexed

/-- What a name between other words calls, if it calls something. -/
def called? (declaring : Bool) (before : List Token) (word : Token) (after : List Token) :
    Option CallKind :=
  if expectsFilter before then
    some .filter
  else if !declaring && isFunctionCall before word after then
    some .function
  else
    none

/-- A name is called or not, and the stack stays as it is. -/
theorem callsAfter_ident (blocks : List Bool) (before : List Token) {word : Token}
    (h : word.kind = .ident) (after : List Token) :
    callsAfter blocks before (word :: after) =
      match called? (blocks.head? = some true) before word after with
      | none => callsAfter blocks (word :: before) after
      | some kind =>
          ⟨word.text, word.position, kind⟩ :: callsAfter blocks (word :: before) after := by
  rw [callsAfter.eq_def, called?]
  simp only [h]
  split
  · rfl
  · split <;> rfl

namespace Indexed

variable (tokens : List Token)

/-- Filters come first, and functions are none where names are declared. -/
theorem calledAt_eq (declaring : Bool) {i : Nat} {word : Token} (h : tokens[i]? = some word) :
    calledAt tokens declaring i =
      some (called? declaring (wordsBefore tokens i) word (wordsFrom tokens (i + 1))) := by
  rw [calledAt, expectsFilter_eq, isFunctionCall_eq tokens h, called?]
  simp only [Checked.bind_some]
  cases StackScript.expectsFilter (wordsBefore tokens i) <;> cases declaring <;> rfl

/-- The calls met so far stand at other places than the tokens from an index on. -/
def Apart (tokens : List Token) (met : List (String × Position)) (i : Nat) : Prop :=
  ∀ entry ∈ met, ∀ token ∈ tokens.drop i, entry.2 ≠ token.position

theorem apart_nil (tokens : List Token) (i : Nat) : Apart tokens [] i :=
  fun _ h => absurd h List.not_mem_nil

section Apart

variable {tokens : List Token} {met : List (String × Position)} {i : Nat}

-- What is behind the next index is behind this one.
theorem Apart.succ (h : Apart tokens met i) : Apart tokens met (i + 1) :=
  fun entry hentry token htoken =>
    h entry hentry token ((List.drop_subset_drop_left tokens (Nat.le_succ i)) htoken)

-- So a name here is not among those that have been met.
theorem Apart.contains_eq_false (h : Apart tokens met i) {word : Token}
    (hget : tokens[i]? = some word) : met.contains (word.text, word.position) = false := by
  have hhead : word ∈ tokens.drop i := List.mem_of_getElem? (i := 0) (by simpa using hget)
  rw [Bool.eq_false_iff, ne_eq, List.contains_iff_mem]
  exact fun hmem => h _ hmem word hhead rfl

/-- A token stands in front of all later ones, so a call of it has another place. -/
theorem Apart.cons (h : Apart tokens met i)
    (hrising : tokens.Pairwise fun a b => a.position < b.position) {word : Token}
    (hget : tokens[i]? = some word) :
    Apart tokens ((word.text, word.position) :: met) (i + 1) := by
  intro entry hentry token htoken
  rcases List.mem_cons.mp hentry with rfl | hentry
  · -- Positions rise, so no later token stands where this one does.
    intro heq
    rcases List.getElem?_eq_some_iff.mp hget with ⟨hlt, rfl⟩
    have hfrom := hrising.sublist (List.drop_sublist i tokens)
    rw [List.drop_eq_getElem_cons hlt, List.pairwise_cons] at hfrom
    have hbefore := hfrom.1 token htoken
    rw [← heq] at hbefore
    exact Position.lt_irrefl _ hbefore
  · exact h.succ entry hentry token htoken

end Apart

/-- From any index on the program lists the calls of the words there, if it has
    met none of them. -/
theorem callsFrom_eq (hrising : tokens.Pairwise fun a b => a.position < b.position)
    (blocks : List Bool) (met : List (String × Position)) (i : Nat)
    (hmet : Apart tokens met i) :
    callsFrom tokens blocks met i =
      some (callsAfter blocks (wordsBefore tokens i) (wordsFrom tokens i)) := by
  induction hn : tokens.length - i using Nat.strongRecOn generalizing blocks met i with
  | ind n ih =>
    rw [callsFrom]
    by_cases hlt : i < tokens.length
    · have hothers : ∀ blocks met, Apart tokens met (i + 1) →
          callsFrom tokens blocks met (i + 1) =
            some (callsAfter blocks (wordsBefore tokens (i + 1)) (wordsFrom tokens (i + 1))) :=
        fun blocks met hmet => ih (tokens.length - (i + 1)) (by omega) blocks met _ hmet rfl
      rw [wordsBefore_succ hlt] at hothers
      rw [if_pos hlt, wordsFrom_of_lt hlt, List.getElem?_eq_getElem hlt, Checked.bind_some]
      have hget := List.getElem?_eq_getElem hlt
      generalize tokens[i] = word at *
      by_cases hword : word.isSignificant
      · rw [if_pos hword] at hothers ⊢
        cases hkind : word.kind
        -- A name is the only token that may be listed.
        case ident =>
          rw [callsAfter_ident _ _ hkind]
          simp only [calledAt_eq tokens _ hget, Checked.bind_some, hmet.contains_eq_false hget]
          cases called? (decide (blocks.head? = some true)) (wordsBefore tokens i) word
            (wordsFrom tokens (i + 1)) with
          | none => exact hothers _ _ hmet.succ
          | some kind =>
              simp only [Bool.false_eq_true, if_false, hothers _ _ (hmet.cons hrising hget)]
              rfl
        -- An opening brace is pushed, with what the words in front say.
        case lBrace =>
          rw [callsAfter.eq_def, opensDeclarations_eq]
          simp only [hkind]
          cases decide (blocks.head? = some true) <;> exact hothers _ _ hmet.succ
        all_goals
          rw [callsAfter.eq_def]
          simp only [hkind]
          exact hothers _ _ hmet.succ
      · -- A comment is passed over by both readers.
        rw [if_neg hword] at hothers ⊢
        rw [kind_of_comment hword]
        exact hothers blocks met hmet.succ
    · rw [if_neg hlt, wordsFrom_of_length_le (Nat.le_of_not_lt hlt)]
      rfl

-- The reader starts with an empty stack, and has met nothing.
theorem calls_eq (hrising : tokens.Pairwise fun a b => a.position < b.position) :
    calls tokens = some (readCalls tokens) :=
  callsFrom_eq tokens hrising [] [] 0 (apart_nil tokens 0)

/-! ## Reading variables, tables and functions -/

/-- A reader that looks at each token gives what it gives for the words. -/
theorem collectFrom_eq {α : Type} {read : Token → Nat → Checked (Option α)}
    (reader : Token → List Token → Option α)
    (h : ∀ (i : Nat) (word : Token), tokens[i]? = some word →
      read word i = some (if word.isSignificant then reader word (wordsFrom tokens (i + 1))
        else none)) (i : Nat) :
    collectFrom tokens read i = some (readWords reader (wordsFrom tokens i)) := by
  fun_induction collectFrom tokens read i with
  | case1 i hlt ih =>
      have hget := List.getElem?_eq_getElem hlt
      rw [hget, wordsFrom_of_lt hlt, Checked.bind_some, h i _ hget, ih]
      by_cases hword : tokens[i].isSignificant
      · simp only [if_pos hword, Checked.bind_some, readWords]
        cases reader tokens[i] (wordsFrom tokens (i + 1)) <;> rfl
      · simp only [if_neg hword, Checked.bind_some]
        rfl
  | case2 i hlt =>
      rw [wordsFrom_of_length_le (Nat.le_of_not_lt hlt)]
      rfl

/-- A named argument is the next word, if it is on the same line and has a text. -/
theorem namedArgument_eq (kinds : List TokenKind) {i : Nat} {word : Token}
    (h : tokens[i]? = some word) :
    namedArgument tokens kinds i =
      some (StackScript.namedArgument kinds word (wordsFrom tokens (i + 1))) := by
  rcases nextWord_cases tokens (i + 1) with ⟨hnext, hwords⟩ | ⟨j, next, hnext, hget, hwords⟩
  · rw [namedArgument, sameLineArgument, hnext, hwords]
    rfl
  · rw [namedArgument, sameLineArgument, hnext, hwords, StackScript.namedArgument]
    simp only [Checked.bind_some, hget, h, Option.pure_def]
    by_cases harg : (next.position.line = word.position.line && kinds.contains next.kind) = true
    · simp only [harg, if_true, Checked.bind_some, unquote_eq, Bool.true_and]
      by_cases hname : Text.onChars Text.trim (Text.unquote next.text) = "" <;> simp [hname]
    · simp only [Bool.eq_false_iff.mpr harg, Bool.false_eq_true, if_false,
        Bool.false_and]

/-- The operation is in the word, the table is its argument. -/
theorem tables_eq : tables tokens = some (readTables tokens) := by
  refine collectFrom_eq tokens tableRef? (fun i word h => ?_) 0
  rw [tableAt, namedArgument_eq tokens _ h, tableRef?]
  by_cases hword : word.isSignificant
  · rw [if_pos hword]
    cases databaseOperation? word with
    | none => rfl
    | some operation =>
        simp only [Checked.bind_some]
        cases StackScript.namedArgument _ word (wordsFrom tokens (i + 1)) <;> rfl
  · have hname : word.kind ≠ .ident := by
      rw [kind_of_comment hword]
      exact TokenKind.noConfusion
    rw [if_neg hword, databaseOperation?_of_kind_ne hname]
    rfl

/-- The function that is run is an argument as well. -/
theorem runs_eq : runs tokens = some (readRuns tokens) := by
  refine collectFrom_eq tokens runRef? (fun i word h => ?_) 0
  rw [runAt, namedArgument_eq tokens _ h, runRef?]
  by_cases hword : word.isSignificant
  · rw [if_pos hword]
    split <;> rfl
  · have hname : word.isIdent "function.run" = false := by
      simp [Token.isIdent, kind_of_comment hword]
    rw [if_neg hword, hname]
    rfl

/-- A variable is a word of its kind. -/
theorem variableRefs_eq : variableRefs tokens = some (readVariables tokens) := by
  -- The library filters where the program collects.
  have hread : ∀ words, readWords (fun word _ => if word.kind = .variable then
      some (VariableRef.mk word.text word.position) else none) words = readVariables words := by
    intro words
    induction words with
    | nil => rfl
    | cons word words ih =>
        rw [readWords, ih, readVariables, readVariables]
        by_cases hkind : word.kind = .variable <;> simp [hkind]
  rw [← readVariables_filter, ← hread]
  refine collectFrom_eq tokens _ (fun i word h => ?_) 0
  by_cases hword : word.isSignificant
  · rw [if_pos hword]
    rfl
  · rw [if_neg hword, kind_of_comment hword]
    rfl

end Indexed

end StackScript
