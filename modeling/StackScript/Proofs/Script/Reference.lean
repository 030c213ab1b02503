import StackScript.Proofs.Token.Shift
import StackScript.Script.Reference

/-!
# References of the Same Words

Each of the four readers of references goes over the words of a script and
looks at kinds, texts and whether two words are on one line. What it finds in
the same words elsewhere is therefore the same, at the new places.

Comments are no words to any of them: three readers drop them before they
start, and the fourth looks for variables only.

## Main definitions

* `Call.down`, `VariableRef.down`, `TableRef.down`, `RunRef.down`: A reference
  some lines further down.

## Theorems

* `TokenShift.readCalls_map`, `TokenShift.readVariables_map`,
  `TokenShift.readTables_map`, `TokenShift.readRuns_map`: The references of the
  same words elsewhere.
* `readCalls_filter`, `readVariables_filter`, `readTables_filter`,
  `readRuns_filter`: The references of a script without its comments.
-/

namespace StackScript

/-- The call some lines further down. -/
def Call.down (lines : Nat) (call : Call) : Call :=
  { call with position := call.position.down lines }

/-- The mention some lines further down. -/
def VariableRef.down (lines : Nat) (ref : VariableRef) : VariableRef :=
  { ref with position := ref.position.down lines }

/-- The operation some lines further down. -/
def TableRef.down (lines : Nat) (ref : TableRef) : TableRef :=
  { ref with position := ref.position.down lines }

/-- The run some lines further down. -/
def RunRef.down (lines : Nat) (ref : RunRef) : RunRef :=
  { ref with position := ref.position.down lines }

namespace TokenShift

variable (shift : TokenShift)

/-! ## What is looked at -/

-- Two words are on one line in the one text if they are in the other.
theorem sameLine_token (a b : Token) :
    (shift.token a).position.line = (shift.token b).position.line ↔
      a.position.line = b.position.line := by
  simp

-- A test that does not see the place keeps the same tokens.
theorem filter_map_of_kind {p : Token → Bool} (h : ∀ word, p (shift.token word) = p word)
    (tokens : List Token) :
    (tokens.map shift.token).filter p = (tokens.filter p).map shift.token := by
  have hsame : p ∘ shift.token = p := funext h
  rw [List.filter_map, hsame]

/-- Whether a block declares is told by the words in front of it. -/
theorem opensDeclarations_map (before : List Token) :
    opensDeclarations (before.map shift.token) = opensDeclarations before := by
  rcases before with _ | ⟨token, _ | ⟨word, before⟩⟩
  · rfl
  · simp only [List.map_cons, List.map_nil, opensDeclarations, kind_token]
    split <;> simp
  · simp only [List.map_cons, opensDeclarations, kind_token]
    split <;> simp

theorem expectsFilter_map (before : List Token) :
    expectsFilter (before.map shift.token) = expectsFilter before := by
  rcases before with _ | ⟨token, _ | ⟨word, before⟩⟩
  · rfl
  · simp [expectsFilter]
  · simp [expectsFilter]

/-- A statement begins on a new line in both scripts or in neither. -/
theorem beginsStatement_map (word : Token) (before : List Token) :
    beginsStatement (shift.token word) (before.map shift.token) =
      beginsStatement word before := by
  cases before with
  | nil => rfl
  | cons last before => simp [beginsStatement]

/-- The arguments begin on the line of the name. -/
theorem takesArguments_map (word : Token) (after : List Token) :
    takesArguments (shift.token word) (after.map shift.token) = takesArguments word after := by
  cases after with
  | nil => rfl
  | cons next after => simp [takesArguments]

theorem isFunctionCall_map (before : List Token) (word : Token) (after : List Token) :
    isFunctionCall (before.map shift.token) (shift.token word) (after.map shift.token) =
      isFunctionCall before word after := by
  rw [isFunctionCall, isFunctionCall, text_token, beginsStatement_map, takesArguments_map]

/-! ## The readers -/

/-- Calls are found at the same words, with the same blocks open around them. -/
theorem callsAfter_map (blocks : List Bool) (before tokens : List Token) :
    callsAfter blocks (before.map shift.token) (tokens.map shift.token) =
      (callsAfter blocks before tokens).map (Call.down shift.lines) := by
  induction tokens generalizing blocks before with
  | nil => rfl
  | cons word after ih =>
      -- What is open when the next word comes is what both readers share.
      have hnext : ∀ inside, callsAfter inside (shift.token word :: before.map shift.token)
          (after.map shift.token) =
            (callsAfter inside (word :: before) after).map (Call.down shift.lines) :=
        fun inside => ih inside (word :: before)
      rw [List.map_cons, callsAfter, callsAfter]
      simp only [kind_token, text_token, position_token, opensDeclarations_map, expectsFilter_map,
        isFunctionCall_map, hnext]
      split
      · rfl
      · rfl
      · split
        · rfl
        · split <;> rfl
      · rfl

-- The reader of calls starts outside of all blocks.
theorem readCalls_map (tokens : List Token) :
    readCalls (tokens.map shift.token) = (readCalls tokens).map (Call.down shift.lines) := by
  rw [readCalls, shift.filter_map_of_kind shift.isSignificant_token]
  exact shift.callsAfter_map [] [] _

/-- A variable is found by its kind. -/
theorem readVariables_map (tokens : List Token) :
    readVariables (tokens.map shift.token) =
      (readVariables tokens).map (VariableRef.down shift.lines) := by
  unfold readVariables
  rw [shift.filter_map_of_kind (by simp), List.map_map, List.map_map]
  congr 1
  funext token
  simp [VariableRef.down]

/-- An argument is looked for on the line of the word. -/
theorem namedArgument_map (kinds : List TokenKind) (word : Token) (after : List Token) :
    namedArgument kinds (shift.token word) (after.map shift.token) =
      namedArgument kinds word after := by
  cases after with
  | nil => rfl
  | cons next after =>
      simp only [List.map_cons, namedArgument, text_token, kind_token, shift.sameLine_token]

/-- An operation is known by its words. -/
theorem tableRef?_map (word : Token) (after : List Token) :
    tableRef? (shift.token word) (after.map shift.token) =
      (tableRef? word after).map (TableRef.down shift.lines) := by
  have hoperation : databaseOperation? (shift.token word) = databaseOperation? word := by
    simp only [databaseOperation?, text_token, kind_token]
  unfold tableRef?
  rw [hoperation, namedArgument_map, position_token]
  cases databaseOperation? word with
  | none => rfl
  | some operation => cases namedArgument [.ident, .string] word after <;> rfl

/-- A call of a stored function is known by its words as well. -/
theorem runRef?_map (word : Token) (after : List Token) :
    runRef? (shift.token word) (after.map shift.token) =
      (runRef? word after).map (RunRef.down shift.lines) := by
  unfold runRef?
  rw [isIdent_token, namedArgument_map, position_token]
  split
  · rw [Option.map_map]
    rfl
  · rfl

/-- If each word is read alike, then so are all words. -/
theorem readWords_map {α : Type} {read : Token → List Token → Option α} {f : α → α}
    (h : ∀ word after, read (shift.token word) (after.map shift.token) = (read word after).map f)
    (tokens : List Token) :
    readWords read (tokens.map shift.token) = (readWords read tokens).map f := by
  induction tokens with
  | nil => rfl
  | cons word after ih =>
      rw [List.map_cons, readWords, readWords, h, ih]
      cases read word after <;> rfl

theorem readTables_map (tokens : List Token) :
    readTables (tokens.map shift.token) = (readTables tokens).map (TableRef.down shift.lines) := by
  rw [readTables, shift.filter_map_of_kind shift.isSignificant_token]
  exact shift.readWords_map shift.tableRef?_map _

theorem readRuns_map (tokens : List Token) :
    readRuns (tokens.map shift.token) = (readRuns tokens).map (RunRef.down shift.lines) := by
  rw [readRuns, shift.filter_map_of_kind shift.isSignificant_token]
  exact shift.readWords_map shift.runRef?_map _

end TokenShift

/-! ## Comments -/

/-- Comments have a kind of their own, so tokens of another kind are all there without them. -/
theorem filter_kind_isSignificant {kind : TokenKind} (hkind : kind ≠ .comment)
    (tokens : List Token) :
    (tokens.filter Token.isSignificant).filter (fun token => token.kind = kind) =
      tokens.filter fun token => token.kind = kind := by
  rw [List.filter_filter]
  refine List.filter_congr fun token _ => ?_
  by_cases h : token.kind = kind
  · rw [decide_eq_true h, Token.isSignificant, h]
    cases kind with
    | comment => exact absurd rfl hkind
    | _ => rfl
  · rw [decide_eq_false h, Bool.false_and]

theorem filter_isSignificant_twice (tokens : List Token) :
    (tokens.filter Token.isSignificant).filter Token.isSignificant =
      tokens.filter Token.isSignificant := by
  rw [List.filter_filter]
  simp only [Bool.and_self]

-- The readers of calls, tables and runs drop comments first.
theorem readCalls_filter (tokens : List Token) :
    readCalls (tokens.filter Token.isSignificant) = readCalls tokens := by
  rw [readCalls, readCalls, filter_isSignificant_twice]

theorem readTables_filter (tokens : List Token) :
    readTables (tokens.filter Token.isSignificant) = readTables tokens := by
  rw [readTables, readTables, filter_isSignificant_twice]

theorem readRuns_filter (tokens : List Token) :
    readRuns (tokens.filter Token.isSignificant) = readRuns tokens := by
  rw [readRuns, readRuns, filter_isSignificant_twice]

theorem readVariables_filter (tokens : List Token) :
    readVariables (tokens.filter Token.isSignificant) = readVariables tokens := by
  rw [readVariables, readVariables, filter_kind_isSignificant TokenKind.noConfusion]

end StackScript
