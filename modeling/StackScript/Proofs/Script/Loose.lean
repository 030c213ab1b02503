import StackScript.Proofs.Script.Brace
import StackScript.Script.Occurrence

/-!
# Loose Braces in Order

The reader of braces keeps two lists, and what it reports is sorted by index.
Sorting turns out to be no more than turning the lists around. A closing brace
is loose only while nothing is open, so all loose closing braces stand in front
of all opening braces that stay open, `LooseBraces.InOrder`.

With the order known, indices can be forgotten. What is shown of a loose brace
is its position, and the positions can be read along the script without
counting tokens, `loosePositions`. Such a reader does not notice whether there
are comments between the braces, whereas every index behind a comment changes
with it.

## Main definitions

* `LooseBraces.InOrder`: The loose braces of a reader are in order.
* `loosePositions`: The positions of the loose braces.

## Theorems

* `checkBraces_eq`: The reports are the two lists, turned around.
* `checkBraces_pairwise`: The reports come in order.
* `passAll_positions`: The positions of the braces that a reader holds.
* `loosePositions_filter`: Comments make no difference to the braces.
-/

namespace StackScript

/-- The braces that a reader holds are in order, the last first, and it has
    passed them all. -/
def LooseBraces.InOrder (loose : LooseBraces) (index : Nat) : Prop :=
  (loose.openings ++ loose.closings).Pairwise (· > ·) ∧
    ∀ i ∈ loose.openings ++ loose.closings, i < index

namespace LooseBraces

/-- One token keeps the lists in order. -/
theorem InOrder.pass {loose : LooseBraces} {index : Nat} (h : loose.InOrder index)
    (kind : TokenKind) : (loose.pass kind index).InOrder (index + 1) := by
  rcases h with ⟨horder, hpassed⟩
  unfold LooseBraces.pass
  split
  · -- The opening brace stands behind everything held so far.
    refine ⟨?_, fun i hi => ?_⟩
    · exact List.Pairwise.cons hpassed horder
    · rcases List.mem_cons.mp hi with rfl | hi
      · exact Nat.lt_succ_self _
      · exact Nat.lt_succ_of_lt (hpassed i hi)
  · next heq =>
    -- Nothing is open, so the closing brace comes first as well.
    rw [heq, List.nil_append] at horder hpassed
    rw [InOrder, heq, List.nil_append]
    refine ⟨List.Pairwise.cons hpassed horder, fun i hi => ?_⟩
    rcases List.mem_cons.mp hi with rfl | hi
    · exact Nat.lt_succ_self _
    · exact Nat.lt_succ_of_lt (hpassed i hi)
  · next heq =>
    rw [heq, List.cons_append] at horder hpassed
    refine ⟨List.Pairwise.of_cons horder, fun i hi => ?_⟩
    exact Nat.lt_succ_of_lt (hpassed i (List.mem_cons_of_mem _ hi))
  · exact ⟨horder, fun i hi => Nat.lt_succ_of_lt (hpassed i hi)⟩

theorem InOrder.passAll {loose : LooseBraces} {index : Nat} (h : loose.InOrder index)
    (tokens : List Token) : (loose.passAll index tokens).InOrder (index + tokens.length) := by
  induction tokens generalizing loose index with
  | nil => exact h
  | cons token tokens ih =>
      rw [List.length_cons, Nat.add_comm tokens.length, ← Nat.add_assoc]
      exact ih (h.pass token.kind)

end LooseBraces

/-- Where indices rise, an index tells its brace. -/
theorem eq_of_index_eq {issues : List BraceIssue} {a b : BraceIssue}
    (h : issues.Pairwise fun a b => a.index < b.index) (ha : a ∈ issues) (hb : b ∈ issues)
    (heq : a.index = b.index) : a = b := by
  induction h with
  | nil => cases ha
  | cons hhead _ ih =>
      -- Two different reports are one behind the other, so their indices differ.
      rcases List.mem_cons.mp ha with ha | ha
      · rcases List.mem_cons.mp hb with hb | hb
        · rw [ha, hb]
        · have hless := hhead b hb
          rw [← ha] at hless
          omega
      · rcases List.mem_cons.mp hb with hb | hb
        · have hless := hhead a ha
          rw [← hb] at hless
          omega
        · exact ih ha hb

/-- The loose braces of a script in its order. -/
theorem looseBraces_pairwise (tokens : List Token) :
    ((LooseBraces.passAll ⟨[], []⟩ 0 tokens).closings.reverse.map BraceIssue.unmatched ++
      (LooseBraces.passAll ⟨[], []⟩ 0 tokens).openings.reverse.map
        BraceIssue.unterminated).Pairwise fun a b => a.index < b.index := by
  have horder : (LooseBraces.passAll ⟨[], []⟩ 0 tokens).InOrder (0 + tokens.length) :=
    LooseBraces.InOrder.passAll ⟨List.Pairwise.nil, fun i hi => by cases hi⟩ tokens
  rcases hloose : LooseBraces.passAll ⟨[], []⟩ 0 tokens with ⟨openings, closings⟩
  rw [hloose] at horder
  -- Turned around, the two lists of the reader are one rising list.
  have hindices : (closings.reverse.map BraceIssue.unmatched ++
      openings.reverse.map BraceIssue.unterminated).map BraceIssue.index =
        (openings ++ closings).reverse := by
    rw [List.map_append, List.map_map, List.map_map, List.reverse_append]
    congr 1
    · exact List.map_id' _
    · exact List.map_id' _
  rw [← List.pairwise_map (f := BraceIssue.index), hindices, List.pairwise_reverse]
  exact horder.1

/-- The reports are the two lists of the reader, turned around: first all
    closing braces, then all opening ones. -/
theorem checkBraces_eq (tokens : List Token) :
    checkBraces tokens =
      (LooseBraces.passAll ⟨[], []⟩ 0 tokens).closings.reverse.map BraceIssue.unmatched ++
        (LooseBraces.passAll ⟨[], []⟩ 0 tokens).openings.reverse.map BraceIssue.unterminated := by
  have hrising := looseBraces_pairwise tokens
  unfold checkBraces
  dsimp only
  rcases hloose : LooseBraces.passAll ⟨[], []⟩ 0 tokens with ⟨openings, closings⟩
  rw [hloose] at hrising
  have hperm : (closings.map BraceIssue.unmatched ++
      openings.map BraceIssue.unterminated).Perm
        (closings.reverse.map BraceIssue.unmatched ++
          openings.reverse.map BraceIssue.unterminated) :=
    ((List.reverse_perm closings).symm.map _).append ((List.reverse_perm openings).symm.map _)
  -- Sorting gives an order, and by index there is only one.
  have hsorted : ((closings.map BraceIssue.unmatched ++
      openings.map BraceIssue.unterminated).mergeSort fun a b => a.index ≤ b.index).Pairwise
        fun a b => decide (a.index ≤ b.index) := by
    refine List.pairwise_mergeSort ?_ ?_ _
    · intro a b c hab hbc
      rw [decide_eq_true_eq] at hab hbc ⊢
      exact Nat.le_trans hab hbc
    · intro a b
      rw [Bool.or_eq_true, decide_eq_true_eq, decide_eq_true_eq]
      exact Nat.le_total a.index b.index
  refine List.Perm.eq_of_pairwise ?_ hsorted
    (hrising.imp fun h => decide_eq_true (Nat.le_of_lt h)) ((List.mergeSort_perm _ _).trans hperm)
  intro a b ha hb hab hba
  rw [decide_eq_true_eq] at hab hba
  exact eq_of_index_eq hrising (hperm.mem_iff.mp (List.mem_mergeSort.mp ha)) hb
    (Nat.le_antisymm hab hba)

/-- The reports come in the order of the script. -/
theorem checkBraces_pairwise (tokens : List Token) :
    (checkBraces tokens).Pairwise fun a b => a.index < b.index := by
  rw [checkBraces_eq]
  exact looseBraces_pairwise tokens

/-! ## Positions -/

/-- The reader of braces passes a token and holds positions instead of
    indices: those of the opening braces and those of the closing ones. -/
def passPosition (loose : List Position × List Position) (token : Token) :
    List Position × List Position :=
  match token.kind, loose.1 with
  | .lBrace, openings => (token.position :: openings, loose.2)
  | .rBrace, [] => (loose.1, token.position :: loose.2)
  | .rBrace, _ :: outer => (outer, loose.2)
  | _, _ => loose

/-- The positions of the loose braces of a script, opening and closing, the
    last first. -/
def loosePositions (tokens : List Token) : List Position × List Position :=
  tokens.foldl passPosition ([], [])

/-- Braces only are looked at. -/
theorem passPosition_of_ne (loose : List Position × List Position) {token : Token}
    (hl : token.kind ≠ .lBrace) (hr : token.kind ≠ .rBrace) : passPosition loose token = loose := by
  unfold passPosition
  split
  · contradiction
  · contradiction
  · contradiction
  · rfl

/-- A reader holds the positions of the braces that it holds. -/
theorem passAll_positions {tokens : List Token} {index : Nat} {position : Nat → Position}
    (hposition : ∀ i token, tokens[i]? = some token → position (index + i) = token.position)
    (loose : LooseBraces) :
    ((loose.passAll index tokens).openings.map position,
        (loose.passAll index tokens).closings.map position) =
      tokens.foldl passPosition (loose.openings.map position, loose.closings.map position) := by
  induction tokens generalizing loose index with
  | nil => rfl
  | cons token tokens ih =>
      have hbehind : ∀ i other, tokens[i]? = some other →
          position (index + 1 + i) = other.position := by
        intro i other hget
        rw [Nat.add_assoc, Nat.add_comm 1]
        exact hposition (i + 1) other hget
      have hhere : position index = token.position := hposition 0 token rfl
      -- A brace is put on the list by its position, and taken from it.
      have hstep : ((loose.pass token.kind index).openings.map position,
          (loose.pass token.kind index).closings.map position) =
            passPosition (loose.openings.map position, loose.closings.map position) token := by
        rcases loose with ⟨openings, closings⟩
        by_cases hl : token.kind = .lBrace
        · unfold LooseBraces.pass passPosition
          rw [hl, List.map_cons, hhere]
        by_cases hr : token.kind = .rBrace
        · unfold LooseBraces.pass passPosition
          rw [hr]
          cases openings with
          | nil => rw [List.map_cons, hhere]; rfl
          | cons i openings => rfl
        · rw [pass_of_ne _ _ hl hr, passPosition_of_ne _ hl hr]
      rw [LooseBraces.passAll, ih hbehind, hstep, List.foldl_cons]

/-- Comments make no difference to the braces. -/
theorem loosePositions_filter (tokens : List Token) :
    loosePositions (tokens.filter Token.isSignificant) = loosePositions tokens := by
  unfold loosePositions
  rw [List.foldl_filter]
  congr 1
  funext loose token
  split
  · rfl
  · next hcomment =>
    have hkind : token.kind = .comment := by
      simpa [Token.isSignificant, TokenKind.isTrivia] using hcomment
    rw [passPosition_of_ne loose (by rw [hkind]; exact TokenKind.noConfusion)
      (by rw [hkind]; exact TokenKind.noConfusion)]

end StackScript
