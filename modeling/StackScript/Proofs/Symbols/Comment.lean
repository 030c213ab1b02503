import StackScript.Proofs.Script.Comment
import StackScript.Proofs.Symbols.Recast

/-!
# Symbols without Comments

Declarations are read from the statements of a section and bindings from its
words. Both readers drop the comments of what they are given, and statements
are the same with and without comments, so the symbols of a section are those
of its words. The description is no exception here: it is taken from what
stands before a word, and not from the list that is read.

## Theorems

* `readDeclarations_significant`: The declarations of a section by its words.
* `readSymbols_plain`: The symbols of a script by the words of its sections.
-/

namespace StackScript

/-- A declaration is read from words. -/
theorem declaration?_plain (statement : Statement) :
    statement.plain.declaration? = statement.declaration? := by
  have hwords : statement.plain.significant = statement.significant := by
    unfold Statement.significant Statement.places Statement.plain
    by_cases h : statement.first.isSignificant
    · rw [significant_cons_of_pos h, significant_cons_of_pos h, significant_significant]
    · rw [significant_cons_of_neg h, significant_cons_of_neg h, significant_significant]
  unfold Statement.declaration?
  rw [hwords]
  rfl

-- It makes no difference to the report whether comments stand among the words.
theorem read_plain (block : String) (report : DeclarationReport) (statement : Statement) :
    report.read block statement.plain = report.read block statement := by
  unfold DeclarationReport.read
  rw [declaration?_plain]
  rfl

/-- The declarations of a section are those of its words. -/
theorem readDeclarations_significant (block : String) (known : OrderedTable Declaration)
    {body : List Occurrence} (h : LineOrdered body) :
    readDeclarations block known (significant body) = readDeclarations block known body := by
  unfold readDeclarations statements
  rw [statementsAfter_significant h [], List.foldl_map]
  congr 1
  funext report statement
  exact read_plain block report statement

/-- A section without its comments declares and binds the same. -/
theorem readPart_plain (grammar : Grammar) (report : SymbolReport) {part : Part}
    (h : ∀ body, part.body = some body → LineOrdered body) :
    report.read grammar part.plain = report.read grammar part := by
  rcases part with ⟨heading, _ | body⟩
  · rfl
  · have hordered := h body rfl
    unfold SymbolReport.read Part.plain
    simp only [Option.map_some, readDeclarations_significant _ _ hordered, significant_significant]

/-- The symbols of a script are those of the words of its sections. -/
theorem readSymbols_plain (grammar : Grammar) {parts : List Part}
    (h : ∀ part ∈ parts, ∀ body, part.body = some body → LineOrdered body) :
    readSymbols grammar (parts.map Part.plain) = readSymbols grammar parts := by
  -- The report in hand is any, so the sections go one by one.
  have hfold : ∀ (among : List Part) (report : SymbolReport),
      (∀ part ∈ among, ∀ body, part.body = some body → LineOrdered body) →
        (among.map Part.plain).foldl (SymbolReport.read grammar) report =
          among.foldl (SymbolReport.read grammar) report := by
    intro among
    induction among with
    | nil => exact fun _ _ => rfl
    | cons part among ih =>
        intro report hbodies
        rw [List.map_cons, List.foldl_cons, List.foldl_cons,
          readPart_plain grammar report (hbodies part List.mem_cons_self)]
        exact ih _ fun other hother => hbodies other (List.mem_cons_of_mem _ hother)
  exact hfold parts _ h

/-- The blocks of the sections are in the order of the script. -/
theorem lineOrdered_body {tokens : List Token} (h : LineOrdered (occurrences tokens))
    (keyword : Option Nat) :
    ∀ part ∈ (outline tokens keyword).parts, ∀ body, part.body = some body →
      LineOrdered body := by
  intro part hpart body hbody
  have hblock : part.heading.hasBlock := by
    rw [body_outline hpart, hbody]
    rfl
  rcases hasBlock_outline hpart hblock with ⟨l, opening, q, hscript, hhas⟩
  rw [hhas.body, Option.some.injEq] at hbody
  rw [← hbody]
  refine h.sublist ((untilClose_body_front 0 q).sublist.trans ?_)
  rw [hscript]
  exact (List.sublist_cons_self _ _).trans (List.sublist_append_right _ _)

end StackScript
