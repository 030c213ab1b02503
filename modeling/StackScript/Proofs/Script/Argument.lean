import StackScript.Proofs.Text.Trim
import StackScript.Script.Reference

/-!
# Words and Their Arguments

The reader of tables and the reader of runs look at a word and at the one behind it, and what
they find is what the two say: the word gives the operation and the place, the argument gives
the name. So there is one statement for each reader, and it goes both ways. Whatever is found
is said by two neighbours, and nothing that two neighbours say is passed over.

The name is what the argument stands for, be it a literal with escapes in it or a bare name. It
is trimmed first and dropped if nothing is left, so there is no name with blanks around it,
whatever is written in the quotes.

## Main definitions

* `IsNext`: The next word, comments aside.
* `Token.Names`: What an argument names.
* `TableRef.IsSaidBy`, `RunRef.IsSaidBy`: A reference is what two words say.

## Theorems

* `namedArgument_eq_some_iff`, `databaseOperation?_eq_some_iff`: The two parts of a reference.
* `tableRef?_eq_some_iff`, `runRef?_eq_some_iff`: The reference at a word.
* `mem_readWords`: What a reader finds it finds at a word.
* `mem_readTables`, `mem_readRuns`: The references of a script.
-/

namespace StackScript

/-! ## Arguments -/

/-- The second word is the next one behind the first, comments aside. -/
def IsNext (tokens : List Token) (word next : Token) : Prop :=
  [word, next] <:+: tokens.filter Token.isSignificant

/-- The text is not empty and has no blanks around it. -/
structure Text.IsTrimmedName (name : String) : Prop where
  nonempty : name ≠ ""
  trimmed : IsTrimmed name.toList

/-- The token, as the argument of a word, names something. -/
structure Token.Names (argument : Token) (kinds : List TokenKind) (word : Token) (name : String) :
    Prop where
  /-- It is of one of the kinds. -/
  kind : argument.kind ∈ kinds
  /-- It is on the line of the word. -/
  line : argument.position.line = word.position.line
  /-- What it stands for is the name, but for blanks around it. -/
  text : Text.onChars Text.trim (Text.unquote argument.text) = name
  /-- There is a name. -/
  nonempty : name ≠ ""

/-- The reference is what a word says of its argument. -/
structure TableRef.IsSaidBy (ref : TableRef) (word argument : Token) : Prop where
  kind : word.kind = .ident
  text : word.text = "db." ++ ref.operation
  position : word.position = ref.position
  table : argument.Names [.ident, .string] word ref.table

/-- The run is what a word says of its argument. -/
structure RunRef.IsSaidBy (ref : RunRef) (word argument : Token) : Prop where
  kind : word.kind = .ident
  text : word.text = "function.run"
  position : word.position = ref.position
  name : argument.Names [.string] word ref.name

variable {tokens : List Token} {word argument : Token} {after : List Token}

-- Neighbours among the words are words of the script.
theorem IsNext.mem (h : IsNext tokens word argument) : word ∈ tokens :=
  (List.mem_filter.mp (h.subset List.mem_cons_self)).1

/-- The name is trimmed when it is taken. -/
theorem Token.Names.isTrimmedName {kinds : List TokenKind} {name : String}
    (h : argument.Names kinds word name) : Text.IsTrimmedName name where
  nonempty := h.nonempty
  trimmed := by
    rw [← h.text, Text.onChars, String.toList_ofList]
    exact Text.isTrimmed_trim _

/-- A name is found if the next word is one that gives it. -/
theorem namedArgument_eq_some_iff {kinds : List TokenKind} {name : String} :
    namedArgument kinds word after = some name ↔
      ∃ argument more, after = argument :: more ∧ argument.Names kinds word name := by
  cases after with
  | nil =>
      refine iff_of_false (fun h => nomatch h) ?_
      rintro ⟨argument, more, hnil, -⟩
      cases hnil
  | cons argument more =>
      constructor
      · intro h
        simp only [namedArgument] at h
        split at h
        · next hall =>
          -- The reader asks for the kind, for the line and for a name that is not empty.
          simp only [Bool.and_eq_true, decide_eq_true_eq, List.contains_iff_mem] at hall
          have hname := Option.some.inj h
          exact ⟨argument, more, rfl, hall.1.2, hall.1.1, hname, hname ▸ hall.2⟩
        · cases h
      · rintro ⟨next, rest, hcons, hnames⟩
        cases hcons
        rw [namedArgument]
        simp [hnames.text, hnames.line, hnames.kind, hnames.nonempty]

/-! ## One word -/

/-- The operation is what is behind the mark. -/
theorem databaseOperation?_eq_some_iff {operation : String} :
    databaseOperation? word = some operation ↔
      word.kind = .ident ∧ word.text = "db." ++ operation := by
  rw [← String.toList_inj, String.toList_append]
  unfold databaseOperation?
  split
  · next rest htext =>
    rw [htext]
    change _ ↔ _ ∧ 'd' :: 'b' :: '.' :: rest = 'd' :: 'b' :: '.' :: operation.toList
    simp [← String.toList_inj]
  · next hother =>
    exact iff_of_false (fun h => nomatch h) fun h => hother operation.toList h.2

theorem databaseOperation?_of_kind_ne (h : word.kind ≠ .ident) :
    databaseOperation? word = none := by
  rw [Option.eq_none_iff_forall_ne_some]
  exact fun operation hoperation => h (databaseOperation?_eq_some_iff.mp hoperation).1

/-- A word gives a table exactly if it and the word behind it say so. -/
theorem tableRef?_eq_some_iff {ref : TableRef} :
    tableRef? word after = some ref ↔
      ∃ argument more, after = argument :: more ∧ ref.IsSaidBy word argument := by
  constructor
  · intro h
    rcases Option.bind_eq_some_iff.mp h with ⟨operation, hoperation, h⟩
    rcases Option.bind_eq_some_iff.mp h with ⟨table, htable, h⟩
    cases h
    rcases databaseOperation?_eq_some_iff.mp hoperation with ⟨hkind, htext⟩
    rcases namedArgument_eq_some_iff.mp htable with ⟨argument, more, hafter, hnames⟩
    exact ⟨argument, more, hafter, hkind, htext, rfl, hnames⟩
  · rintro ⟨argument, more, hafter, hsaid⟩
    have hoperation := databaseOperation?_eq_some_iff.mpr ⟨hsaid.kind, hsaid.text⟩
    have htable := namedArgument_eq_some_iff.mpr ⟨argument, more, hafter, hsaid.table⟩
    rw [tableRef?, hoperation, Option.bind_eq_bind, Option.bind_some, htable, hsaid.position]
    rfl

theorem runRef?_eq_some_iff {ref : RunRef} :
    runRef? word after = some ref ↔
      ∃ argument more, after = argument :: more ∧ ref.IsSaidBy word argument := by
  have hword : word.isIdent "function.run" ↔ word.kind = .ident ∧ word.text = "function.run" := by
    simp [Token.isIdent]
  constructor
  · intro h
    unfold runRef? at h
    split at h
    · next hrun =>
      rcases Option.map_eq_some_iff.mp h with ⟨name, hname, rfl⟩
      rcases namedArgument_eq_some_iff.mp hname with ⟨argument, more, hafter, hnames⟩
      exact ⟨argument, more, hafter, (hword.mp hrun).1, (hword.mp hrun).2, rfl, hnames⟩
    · cases h
  · rintro ⟨argument, more, hafter, hsaid⟩
    have hname := namedArgument_eq_some_iff.mpr ⟨argument, more, hafter, hsaid.name⟩
    rw [runRef?, if_pos (hword.mpr ⟨hsaid.kind, hsaid.text⟩), hname, hsaid.position]
    rfl

/-! ## Readers -/

/-- What is found is found at the first word or behind it. -/
theorem mem_readWords_cons {α : Type} {read : Token → List Token → Option α} {found : α} :
    found ∈ readWords read (word :: after) ↔
      read word after = some found ∨ found ∈ readWords read after := by
  rw [readWords]
  cases read word after with
  | none => simp
  | some other => simp [eq_comm]

/-- What a reader finds it finds at a word, with the words behind it. -/
theorem mem_readWords {α : Type} {read : Token → List Token → Option α} {found : α}
    {words : List Token} :
    found ∈ readWords read words ↔
      ∃ before word after, words = before ++ word :: after ∧ read word after = some found := by
  induction words with
  | nil =>
      refine iff_of_false List.not_mem_nil ?_
      rintro ⟨before, word, after, hnil, -⟩
      exact List.append_ne_nil_of_right_ne_nil before (List.cons_ne_nil word after) hnil.symm
  | cons first words ih =>
      rw [mem_readWords_cons, ih]
      constructor
      · rintro (hread | ⟨before, word, after, rfl, hread⟩)
        · exact ⟨[], first, words, rfl, hread⟩
        · exact ⟨first :: before, word, after, rfl, hread⟩
      · -- The word is the first one, or it stands behind it.
        rintro ⟨before, word, after, hsplit, hread⟩
        cases before with
        | nil =>
            cases hsplit
            exact Or.inl hread
        | cons other before =>
            cases hsplit
            exact Or.inr ⟨before, word, after, rfl, hread⟩

/-- A reader that looks at a word and at its argument finds what two neighbours say. -/
theorem mem_readWords_next {α : Type} {read : Token → List Token → Option α} {found : α}
    {said : Token → Token → Prop}
    (h : ∀ word after, read word after = some found ↔
      ∃ argument more, after = argument :: more ∧ said word argument) :
    found ∈ readWords read (tokens.filter Token.isSignificant) ↔
      ∃ word argument, IsNext tokens word argument ∧ said word argument := by
  rw [mem_readWords]
  constructor
  · rintro ⟨before, word, after, hsplit, hread⟩
    rcases (h word after).mp hread with ⟨argument, more, rfl, hsaid⟩
    exact ⟨word, argument, ⟨before, more, by rw [hsplit]; simp⟩, hsaid⟩
  · rintro ⟨word, argument, ⟨before, more, hsplit⟩, hsaid⟩
    refine ⟨before, word, argument :: more, by rw [← hsplit]; simp, ?_⟩
    exact (h word _).mpr ⟨argument, more, rfl, hsaid⟩

/-- The tables of a script are what its words say of their arguments. -/
theorem mem_readTables {ref : TableRef} :
    ref ∈ readTables tokens ↔
      ∃ word argument, IsNext tokens word argument ∧ ref.IsSaidBy word argument :=
  mem_readWords_next fun _ _ => tableRef?_eq_some_iff

/-- The runs of a script are what its words say of their arguments. -/
theorem mem_readRuns {ref : RunRef} :
    ref ∈ readRuns tokens ↔
      ∃ word argument, IsNext tokens word argument ∧ ref.IsSaidBy word argument :=
  mem_readWords_next fun _ _ => runRef?_eq_some_iff

end StackScript
