import StackScript.Proofs.Script.Reference
import StackScript.Proofs.Token.Line

/-!
# References Line by Line

The tables that a script works on, the functions that it runs and the variables
that it mentions are looked for with no regard to its blocks. A brace that is
missing, a section that is not known or a quote that is never closed can
therefore cost a reference only on its own line.

A reader of names looks at a word and at the one behind it, which may be many
lines further down. It takes that one only from its own line. Since words of
different lines are on different lines whatever the text is, the reader may be
stopped at any line feed and started anew behind it.

Calls are not read like this: whether a name is called depends on the block that
it stands in.

## Main definitions

* `ReadsByLine`: A reader of references that takes each line for itself.

## Theorems

* `readWords_append`: Words of which none looks at what is behind the others.
* `readsByLine_of_append`: A reader that can be stopped takes each line for itself.
* `references_readByLine`: Tables, runs and variables are read line by line.
-/

namespace StackScript

/-! ## Readers that are stopped -/

/-- If no word of the first list looks at the second one, the lists are read one
    after the other. -/
theorem readWords_append {α : Type} {read : Token → List Token → Option α}
    {tokens below : List Token}
    (h : ∀ word ∈ tokens, ∀ after, read word (after ++ below) = read word after) :
    readWords read (tokens ++ below) = readWords read tokens ++ readWords read below := by
  induction tokens with
  | nil => rfl
  | cons word tokens ih =>
      have hrest := ih fun other hmem => h other (.tail _ hmem)
      rw [List.cons_append, readWords, readWords, h word (.head _), hrest]
      cases read word tokens <;> rfl

/-- The argument of a word is never taken from a line below. -/
theorem namedArgument_append (kinds : List TokenKind) {word : Token} {below : List Token}
    (h : ∀ other ∈ below, word.position.line < other.position.line) (after : List Token) :
    namedArgument kinds word (after ++ below) = namedArgument kinds word after := by
  rcases after with _ | ⟨next, after⟩
  · rcases below with _ | ⟨other, below⟩
    · rfl
    · have hline : other.position.line ≠ word.position.line := Nat.ne_of_gt (h other (.head _))
      rw [List.nil_append, namedArgument, namedArgument]
      simp only [hline, decide_false, Bool.false_and, Bool.false_eq_true, if_false]
  · rfl

/-- A table is read from the words of one line, so words further down make no difference. -/
theorem tableRef?_append {word : Token} {below : List Token}
    (h : ∀ other ∈ below, word.position.line < other.position.line) (after : List Token) :
    tableRef? word (after ++ below) = tableRef? word after := by
  unfold tableRef?
  rw [namedArgument_append _ h]

theorem runRef?_append {word : Token} {below : List Token}
    (h : ∀ other ∈ below, word.position.line < other.position.line) (after : List Token) :
    runRef? word (after ++ below) = runRef? word after := by
  unfold runRef?
  rw [namedArgument_append _ h]

section Below

variable {tokens below : List Token}

-- Comments are dropped on both sides, which leaves the lines as they are.
theorem significant_above
    (h : ∀ token ∈ tokens, ∀ other ∈ below, token.position.line < other.position.line) :
    ∀ token ∈ tokens.filter Token.isSignificant, ∀ other ∈ below.filter Token.isSignificant,
      token.position.line < other.position.line :=
  fun token htoken other hother =>
    h token (List.mem_filter.mp htoken).1 other (List.mem_filter.mp hother).1

/-- If all words of a list are on lines above those of another, the tables of both are those
    of the one and then those of the other. -/
theorem readTables_append
    (h : ∀ token ∈ tokens, ∀ other ∈ below, token.position.line < other.position.line) :
    readTables (tokens ++ below) = readTables tokens ++ readTables below := by
  unfold readTables
  rw [List.filter_append]
  exact readWords_append fun word hword => tableRef?_append (significant_above h word hword)

theorem readRuns_append
    (h : ∀ token ∈ tokens, ∀ other ∈ below, token.position.line < other.position.line) :
    readRuns (tokens ++ below) = readRuns tokens ++ readRuns below := by
  unfold readRuns
  rw [List.filter_append]
  exact readWords_append fun word hword => runRef?_append (significant_above h word hword)

-- A variable is a single word, so this needs no lines.
theorem readVariables_append (tokens below : List Token) :
    readVariables (tokens ++ below) = readVariables tokens ++ readVariables below := by
  unfold readVariables
  rw [List.filter_append, List.map_append]

end Below

/-! ## Lines of a text -/

/-- The reader of references takes each line for itself. `down` puts a reference
    some lines further down. -/
structure ReadsByLine {α : Type} (read : List Token → List α) (down : Nat → α → α) : Prop where
  /-- The references of two texts, one below the other. -/
  append : ∀ a b : String, read (tokenize (a ++ "\n" ++ b)) =
    read (tokenize a) ++ (read (tokenize b)).map (down (1 + a.toList.count '\n'))
  /-- The references of a text are those of its lines, each read as a text of its
      own and put where the line is. -/
  lines : ∀ text : String, read (tokenize text) =
    (text.toList.splitOn '\n').zipIdx.flatMap fun line =>
      (read (tokenize (String.ofList line.1))).map (down line.2)

/-- If a reader can be stopped behind a text, and finds in the same words elsewhere
    the same references, it takes each line for itself. -/
theorem readsByLine_of_append {α : Type} {read : List Token → List α} {down : Nat → α → α}
    (happend : ∀ a b : String, read (tokenize (a ++ "\n" ++ b)) =
      read (tokenize a) ++ (read (tokenize b)).map (down (1 + a.toList.count '\n')))
    (hzero : down 0 = id) (hsucc : ∀ i, down 1 ∘ down i = down (i + 1)) :
    ReadsByLine read down := by
  refine ⟨happend, fun text => ?_⟩
  rw [← text.ofList_toList, String.toList_ofList]
  induction text.toList using induction_lines with
  | last line hline =>
      rw [List.splitOn_eq_singleton hline, List.zipIdx_singleton, List.flatMap_singleton, hzero,
        List.map_id]
  | above line below hline ih =>
      have hchars : String.ofList (line ++ '\n' :: below) =
          String.ofList line ++ "\n" ++ String.ofList below := by
        rw [← List.singleton_append, ← List.append_assoc, String.ofList_append,
          String.ofList_append]
      have hcount : line.count '\n' = 0 := List.count_eq_zero.mpr hline
      -- The first line has no line feed in it, so the rest goes one line down.
      rw [hchars, happend, String.toList_ofList, hcount, ih,
        List.splitOn_append_cons_self_of_not_mem hline, List.zipIdx_cons', List.flatMap_cons,
        hzero, List.map_id, List.map_flatMap, List.flatMap_map]
      simp only [List.map_map, hsucc, Prod.map_fst, Prod.map_snd, id]

/-- Tables, runs and variables are read line by line. -/
theorem references_readByLine :
    ReadsByLine readTables TableRef.down ∧ ReadsByLine readRuns RunRef.down ∧
      ReadsByLine readVariables VariableRef.down := by
  refine ⟨readsByLine_of_append (fun a b => ?_) rfl fun _ => rfl,
    readsByLine_of_append (fun a b => ?_) rfl fun _ => rfl,
    readsByLine_of_append (fun a b => ?_) rfl fun _ => rfl⟩
  · rw [tokenize_behind, readTables_append fun _ h _ => line_lt_of_mem_behind h,
      TokenShift.readTables_map]
    rfl
  · rw [tokenize_behind, readRuns_append fun _ h _ => line_lt_of_mem_behind h,
      TokenShift.readRuns_map]
    rfl
  · rw [tokenize_behind, readVariables_append, TokenShift.readVariables_map]
    rfl

end StackScript
