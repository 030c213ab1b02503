import StackScript.Proofs.Document.Problem
import StackScript.Proofs.Script.Outline
import StackScript.Proofs.Token.Tiling

/-!
# Open Blocks in a Document

A section says of itself whether its block is left open, and the diagnostics
name every opening brace without a partner. The section knows it from cutting
its statement, the diagnostics from a stack over the whole script, and both are
shown to the same person.

A diagnostic has no index. It names its brace by the position alone, so two
facts about positions come first: the tokens of a text have different ones,
and none of them is moved when it is reported.

## Main definitions

* `Position.IsCounted`: Line and column count from one.

## Theorems

* `positionAt_inj`: A position tells the index of a token.
* `reported_iff_blockEnd`: An opening brace is reported if it has no end.
* `brace_readers_agree`: Both readers agree, and so do sections and diagnostics.
-/

namespace StackScript

/-- Line and column count from one. -/
def Position.IsCounted (p : Position) : Prop :=
  1 ≤ p.line ∧ 1 ≤ p.column

theorem Position.isCounted_start : start.IsCounted :=
  ⟨Nat.le_refl 1, Nat.le_refl 1⟩

/-- No character moves a position back. -/
theorem Position.IsCounted.after {p : Position} (h : p.IsCounted) (cs : List Char) :
    (p.after cs).IsCounted := by
  induction cs generalizing p with
  | nil => exact h
  | cons c cs ih =>
      refine ih ?_
      by_cases hc : c = '\n'
      · rw [hc, afterChar_newline]
        exact ⟨Nat.le_succ_of_le h.1, Nat.le_refl 1⟩
      · rw [afterChar_of_ne p hc]
        exact ⟨h.1, Nat.le_succ_of_le h.2⟩

theorem ofProblem_position (problem : Problem) {p : Position} (h : p.IsCounted) :
    (Diagnostic.ofProblem problem p).position = p := by
  unfold Diagnostic.ofProblem Diagnostic.free
  rw [Nat.max_eq_left h.1, Nat.max_eq_left h.2]

-- A token stands where the characters in front of it lead to from the start.
theorem isCounted_of_mem_tokenize {text : String} {token : Token} (h : token ∈ tokenize text) :
    token.position.IsCounted := by
  rcases exists_word_of_mem h with ⟨before, c, behind, -, -, rfl⟩
  exact Position.isCounted_start.after before

/-- An index without a token stands for the start. -/
theorem isCounted_positionAt (text : String) (index : Nat) :
    (positionAt (tokenize text) index).IsCounted := by
  unfold positionAt
  split
  · next token hget => exact isCounted_of_mem_tokenize (List.mem_of_getElem? hget)
  · exact Position.isCounted_start

/-- A position tells the index of a token. -/
theorem positionAt_inj {text : String} {i j : Nat} (hi : i < (tokenize text).length)
    (hj : j < (tokenize text).length)
    (h : positionAt (tokenize text) i = positionAt (tokenize text) j) : i = j := by
  have hrising := List.pairwise_iff_getElem.mp (tokenizeAt_pairwise Place.start text.toList)
  have hless : ∀ {a b} (ha : a < (tokenize text).length) (hb : b < (tokenize text).length),
      a < b → positionAt (tokenize text) a < positionAt (tokenize text) b := by
    intro a b ha hb hlt
    unfold positionAt
    rw [List.getElem?_eq_getElem ha, List.getElem?_eq_getElem hb]
    exact (hrising a b ha hb hlt).2
  rcases Nat.lt_trichotomy i j with hlt | heq | hlt
  · exact absurd (h ▸ hless hi hj hlt) (Position.lt_irrefl _)
  · exact heq
  · exact absurd (h ▸ hless hj hi hlt) (Position.lt_irrefl _)

/-- An opening brace of a document is reported if and only if it has no end. -/
theorem reported_iff_blockEnd (asked : Option String) (text : String) {start : Nat}
    (hopen : kindAt (tokenize text) start = some .lBrace) :
    (∃ diagnostic ∈ (parseWith asked text).diagnostics, diagnostic.code = some "X001" ∧
      diagnostic.position = positionAt (tokenize text) start) ↔
        blockEnd (tokenize text) start = none := by
  rw [← (bracesAgree (tokenize text)).unterminated start hopen]
  constructor
  · rintro ⟨diagnostic, hmem, hcode, hposition⟩
    rcases List.mem_map.mp (mem_braceProblems hmem hcode) with ⟨issue, hissue, rfl⟩
    cases issue with
    | unterminated i =>
        -- Two opening braces at one position are one brace, since tokens stand apart.
        have hi := kindAt_of_mem_openings ((unterminated_mem_checkBraces _ i).mp hissue)
        rw [ofProblem_position _ (isCounted_positionAt text i)] at hposition
        rwa [← positionAt_inj (lt_of_kindAt hi) (lt_of_kindAt hopen) hposition]
    | unmatched j => cases Problem.code_eq_unterminatedBlock (Option.some.inj hcode)
  · intro hissue
    refine ⟨Diagnostic.ofProblem .unterminatedBlock (positionAt (tokenize text) start), ?_, rfl,
      ofProblem_position _ (isCounted_positionAt text start)⟩
    have hbrace : Diagnostic.ofProblem .unterminatedBlock (positionAt (tokenize text) start) ∈
        braceProblems (tokenize text) := List.mem_map.mpr ⟨_, hissue, rfl⟩
    unfold parseWith
    dsimp only
    simp only [List.mem_append, hbrace, true_or, or_true]

/-- The two readers of braces agree on every list of tokens. So in every
    document a section with a block is left open if and only if its opening
    brace is reported. -/
theorem brace_readers_agree :
    (∀ tokens, BracesAgree tokens) ∧
      ∀ asked text, ∀ block ∈ (parseWith asked text).blocks, ∀ start,
        block.openIndex = some start →
          kindAt (parseWith asked text).tokens start = some .lBrace ∧
            (block.terminated = false ↔
              ∃ diagnostic ∈ (parseWith asked text).diagnostics,
                diagnostic.code = some "X001" ∧
                  diagnostic.position = positionAt (parseWith asked text).tokens start) := by
  refine ⟨bracesAgree, ?_⟩
  intro asked text block hblock start hopen
  rcases closeIndex_outline hblock hopen with ⟨hkind, -, hterminated⟩
  refine ⟨hkind, ?_⟩
  rw [hterminated, Option.isSome_eq_false_iff, Option.isNone_iff_eq_none]
  exact (reported_iff_blockEnd asked text hkind).symm

end StackScript
