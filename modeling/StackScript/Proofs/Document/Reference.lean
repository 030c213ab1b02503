import StackScript.Proofs.Document.Place
import StackScript.Proofs.Script.Argument
import StackScript.Proofs.Token.Operation

/-!
# References of a Text

A reference to a table or to a function that is run says where it stands and what it names, and
the two are sound whatever the text is: it stands at a token of its own, in the order of the
text, and its name is trimmed and not empty.

The operation on a table is another matter. It is what is behind the mark in a word, no reader
looks at it again, and the reader of words lets a name end with a dot. So `db. users` works on a table
by an operation without a name, and `db.get. users` by one with a dot at its end. Which
operations there are is therefore a question about words, and answered by a language,
`mem_operations_iff`. Of its words those are complete names that stand in a word without a dot
at its end and without two in a row, `TableRef.IsSoundIn.complete`.

## Main definitions

* `TableRef.IsSoundIn`, `RunRef.IsSoundIn`: What is known of a reference.
* `ReadsReferences`: What is known of the references of a text.

## Theorems

* `references_areSound`: The references of a text.
* `readTables_noOperation`: An operation without a name.
* `mem_operations_iff`: The operations that are found in texts.
-/

namespace StackScript

/-! ## The references of a text -/

/-- The reference is a sound one of the text. -/
structure TableRef.IsSoundIn (ref : TableRef) (text : String) : Prop where
  /-- It stands at a name, which is the mark with the operation behind it. -/
  place : ∃ word ∈ tokenize text, word.kind = .ident ∧ word.text = "db." ++ ref.operation ∧
    word.position = ref.position
  /-- The table has a name. -/
  table : Text.IsTrimmedName ref.table
  /-- The operation is one of those that are read behind the mark. -/
  operation : ref.operation.toList ∈ Rule.operations
  /-- It is a complete name, unless two dots stand in a row in the word or one at its end. -/
  complete : ref.operation.toList ∈ Rule.completeNames ↔
    ¬ Rule.HasDoubleDot ("db." ++ ref.operation).toList ∧
      ("db." ++ ref.operation).toList.getLast? ≠ some '.'

/-- The run is a sound one of the text. -/
structure RunRef.IsSoundIn (ref : RunRef) (text : String) : Prop where
  /-- It stands at the name `function.run`. -/
  place : ∃ word ∈ tokenize text, word.kind = .ident ∧ word.text = "function.run" ∧
    word.position = ref.position
  /-- The function has a name. -/
  name : Text.IsTrimmedName ref.name

/-- What is known of the references of a text. -/
structure ReadsReferences (text : String) : Prop where
  /-- The tables are those that a word names together with the next one. -/
  mem_tables : ∀ ref, ref ∈ readTables (tokenize text) ↔
    ∃ word argument, IsNext (tokenize text) word argument ∧ ref.IsSaidBy word argument
  /-- So are the runs. -/
  mem_runs : ∀ ref, ref ∈ readRuns (tokenize text) ↔
    ∃ word argument, IsNext (tokenize text) word argument ∧ ref.IsSaidBy word argument
  /-- Each table is further on in the text than the ones before it. -/
  tables_rise : (readTables (tokenize text)).Pairwise fun a b => a.position < b.position
  /-- So is each run. -/
  runs_rise : (readRuns (tokenize text)).Pairwise fun a b => a.position < b.position
  /-- All tables are sound. -/
  tables_sound : ∀ ref ∈ readTables (tokenize text), ref.IsSoundIn text
  /-- All runs are sound. -/
  runs_sound : ∀ ref ∈ readRuns (tokenize text), ref.IsSoundIn text

variable {text : String}

-- References that stand at tokens of their own come in the order of these.
theorem pairwise_of_positions_sublist {α : Type} {refs : List α} {position : α → Position}
    (h : (refs.map position).Sublist ((tokenize text).map Token.position)) :
    refs.Pairwise fun a b => position a < position b := by
  have hrising := (tokenizeAt_pairwise Place.start text.toList).imp And.right
  exact List.pairwise_map.mp ((List.pairwise_map.mpr hrising).sublist h)

/-- A table is read from two words, which are words of the text. -/
theorem isSoundIn_of_mem_readTables {ref : TableRef} (h : ref ∈ readTables (tokenize text)) :
    ref.IsSoundIn text := by
  rcases mem_readTables.mp h with ⟨word, argument, hnext, hsaid⟩
  have hname : "db.".toList ++ ref.operation.toList ∈ Rule.readNames := by
    rw [← String.toList_append, ← hsaid.text]
    exact mem_readNames_of_mem_tokenize hnext.mem hsaid.kind
  refine ⟨⟨word, hnext.mem, hsaid.kind, hsaid.text, hsaid.position⟩, hsaid.table.isTrimmedName,
    Rule.mark_append_mem_readNames_iff.mp hname, ?_⟩
  rw [String.toList_append, ← Rule.mark_append_mem_completeNames_iff]
  exact Rule.mem_completeNames_iff hname

theorem isSoundIn_of_mem_readRuns {ref : RunRef} (h : ref ∈ readRuns (tokenize text)) :
    ref.IsSoundIn text := by
  rcases mem_readRuns.mp h with ⟨word, argument, hnext, hsaid⟩
  exact ⟨⟨word, hnext.mem, hsaid.kind, hsaid.text, hsaid.position⟩, hsaid.name.isTrimmedName⟩

/-- The references of a text are sound and come in its order, and none is passed over. -/
theorem references_areSound (text : String) : ReadsReferences text where
  mem_tables _ := mem_readTables
  mem_runs _ := mem_readRuns
  tables_rise := pairwise_of_positions_sublist (readTables_positions_sublist _)
  runs_rise := pairwise_of_positions_sublist (readRuns_positions_sublist _)
  tables_sound _ := isSoundIn_of_mem_readTables
  runs_sound _ := isSoundIn_of_mem_readRuns

/-- The operation of this table has no name at all. -/
theorem readTables_noOperation :
    ¬ ∀ ref ∈ readTables (tokenize "db. users"), ref.operation.toList ∈ Rule.completeNames := by
  have hread : readTables (tokenize "db. users") = [⟨"", "users", Position.start⟩] := by
    decide +kernel
  intro h
  rw [hread] at h
  exact Rule.nil_notMem_completeNames (h _ List.mem_cons_self)

/-! ## The operations there are -/

/-- Whatever is in the language is read as an operation if the name of a table follows. -/
theorem mem_readTables_of_operation {operation : String}
    (h : operation.toList ∈ Rule.operations) :
    ⟨operation, "t", Position.start⟩ ∈ readTables (tokenize ("db." ++ operation ++ " t")) := by
  -- The mark and the operation are one word, and the table is the next one.
  have hword : Reads .ident ("db.".toList ++ operation.toList) " t".toList :=
    Rule.reads_operation h (by rintro c ⟨⟩; rfl)
  have hargument : ∀ place, tokenizeAt place " t".toList =
      [⟨.ident, "t", (place.after [' ']).position, (place.after [' ']).offset⟩] := by
    intro place
    have hname : Reads .ident ['t'] [] := ⟨'t', [], rfl, by decide, rfl⟩
    change tokenizeAt place (' ' :: (['t'] ++ [])) = _
    rw [tokenizeAt_space place rfl, tokenizeAt_reads hname, tokenizeAt]
  have htable : Text.onChars Text.trim (Text.unquote "t") = "t" := by decide +kernel
  rw [tokenize, String.toList_append, String.toList_append, tokenizeAt_reads hword, hargument,
    mem_readTables]
  refine ⟨_, _, ⟨[], [], rfl⟩, rfl, ?_, rfl, List.mem_cons_self, ?_, htable, by simp⟩
  · rw [String.ofList_append, String.ofList_toList, String.ofList_toList]
  · -- Both words are on one line, since neither the name nor the space has a line feed.
    exact (Position.line_after_of_notMem _ (by decide)).trans
      (Position.line_after_of_notMem _ hword.newline_notMem)

/-- The operations that are found in texts. -/
theorem mem_operations_iff {operation : String} :
    operation.toList ∈ Rule.operations ↔
      ∃ text, ∃ ref ∈ readTables (tokenize text), ref.operation = operation := by
  constructor
  · exact fun h => ⟨_, _, mem_readTables_of_operation h, rfl⟩
  · rintro ⟨text, ref, href, rfl⟩
    exact (isSoundIn_of_mem_readTables href).operation

end StackScript
