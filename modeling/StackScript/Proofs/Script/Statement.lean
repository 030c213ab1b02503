import StackScript.Proofs.Script.Block
import StackScript.Script.Statement

/-!
# Statements and Blocks

A statement does not end inside of a block that was opened on its own level, so
a block that begins in a statement is all there, `untilClose_restOfStatement`.
The statements of a list are read one after the other: each takes its tokens
from the front of what the one before has left, `statementsAfter_mem`.

## Theorems

* `restOfStatement_deep`: Inside of a block every token is taken.
* `untilClose_restOfStatement`: A block is not shortened by its statement.
* `restOfStatement_taken`: A token is the last of a statement, or the statement goes on.
* `restOfStatement_opening`: A statement up to the first block in it.
* `statementsAfter_mem`: Where the tokens of a statement come from.
-/

namespace StackScript

theorem kind_eq_comment {place : Occurrence} (h : ¬ place.isSignificant) :
    place.token.kind = .comment := by
  simpa [Occurrence.isSignificant, Token.isSignificant, TokenKind.isTrivia] using h

theorem kind_ne_comment {place : Occurrence} (h : place.isSignificant) :
    place.token.kind ≠ .comment := by
  intro hcomment
  rw [Occurrence.isSignificant, Token.isSignificant, hcomment] at h
  cases h

namespace Extent

/-- No block is open in a statement that has taken no opening brace on its level. -/
theorem take_depth_zero {extent : Extent} {token : Token} (h : extent.depth = 0)
    (hl : token.kind ≠ .lBrace) : (extent.take token).depth = 0 := by
  unfold take
  rw [h]
  dsimp only
  split <;> first | rfl | contradiction

/-- An opening brace opens a block, on every level. -/
theorem take_lBrace {token : Token} (extent : Extent) (h : token.kind = .lBrace) :
    (extent.take token).depth = extent.depth + 1 := by
  rcases extent with ⟨line, nesting, depth⟩
  unfold take
  rw [h]
  cases depth with
  | zero => rfl
  | succ depth => rfl

-- A closing brace closes a block that is open.
theorem take_rBrace {extent : Extent} {token : Token} {depth : Nat}
    (hdepth : extent.depth = depth + 1) (h : token.kind = .rBrace) :
    (extent.take token).depth = depth := by
  unfold take
  rw [h, hdepth]

/-- Inside of a block nothing but braces counts. -/
theorem take_deep {extent : Extent} {token : Token} {depth : Nat}
    (hdepth : extent.depth = depth + 1) (hl : token.kind ≠ .lBrace) (hr : token.kind ≠ .rBrace) :
    extent.take token = extent := by
  unfold take
  rw [hdepth]
  dsimp only
  split <;> first | rfl | contradiction

/-- Brackets inside of a block are not the statement's own. -/
theorem nesting_take_deep {extent : Extent} {depth : Nat} (hdepth : extent.depth = depth + 1)
    (token : Token) : (extent.take token).nesting = extent.nesting := by
  unfold take
  rw [hdepth]
  dsimp only
  split <;> first | rfl | contradiction

/-- Only a statement on its own level ends. -/
theorem depth_of_endsBefore {extent : Extent} {token : Token} (h : extent.endsBefore token) :
    extent.depth = 0 := by
  rw [endsBefore, isLevel] at h
  simp only [Bool.or_eq_true, Bool.and_eq_true, decide_eq_true_eq] at h
  exact h.elim (fun h => h.1.1) And.left

theorem depth_of_endsWith {extent : Extent} {token : Token} (h : extent.endsWith token) :
    extent.depth = 0 ∧ token.kind = .semicolon := by
  rw [endsWith, isLevel] at h
  simp only [Bool.and_eq_true, decide_eq_true_eq] at h
  exact ⟨h.1.1, h.2⟩

-- Only a semicolon ends a statement that takes it.
theorem endsWith_of_ne (extent : Extent) {token : Token} (h : token.kind ≠ .semicolon) :
    extent.endsWith token = false := by
  rw [endsWith, decide_eq_false h, Bool.and_false]

end Extent

/-- Inside of a block every token is taken. -/
theorem restOfStatement_deep {extent : Extent} {depth : Nat} (h : extent.depth = depth + 1)
    (place : Occurrence) (places : List Occurrence) :
    (restOfStatement extent (place :: places)).1 =
      place :: (restOfStatement (extent.take place.token) places).1 := by
  -- Inside of a block neither the end of a line nor a semicolon counts.
  have hlevel : extent.isLevel = false := by
    rw [Extent.isLevel, h]
    rfl
  have hbefore : extent.endsBefore place.token = false := by
    rw [Extent.endsBefore, hlevel, h]
    rfl
  have hwith : extent.endsWith place.token = false := by
    rw [Extent.endsWith, hlevel]
    rfl
  rw [restOfStatement, hbefore, hwith]
  rfl

/-- A block is not shortened by the statement in which it begins. -/
theorem untilClose_restOfStatement {extent : Extent} {depth : Nat}
    (h : extent.depth = depth + 1) (places : List Occurrence) :
    (untilClose depth (restOfStatement extent places).1).SameGroup (untilClose depth places) := by
  induction places generalizing extent depth with
  | nil => exact Block.SameGroup.refl _
  | cons place places ih =>
      rw [restOfStatement_deep h]
      -- The statement is one deeper than the search, so it does not end before the block
      -- does.
      by_cases hl : place.token.kind = .lBrace
      · rw [untilClose_lBrace _ _ hl, untilClose_lBrace _ _ hl]
        exact (ih (by rw [Extent.take_lBrace extent hl, h])).cons place
      by_cases hr : place.token.kind = .rBrace
      · cases depth with
        | zero =>
            rw [untilClose_rBrace_zero _ hr, untilClose_rBrace_zero _ hr]
            exact ⟨rfl, rfl⟩
        | succ depth =>
            rw [untilClose_rBrace _ _ hr, untilClose_rBrace _ _ hr]
            exact (ih (Extent.take_rBrace h hr)).cons place
      · rw [untilClose_of_ne _ _ hl hr, untilClose_of_ne _ _ hl hr, Extent.take_deep h hl hr]
        exact (ih h).cons place

/-- The first token that a statement takes is the next one. Either it is a semicolon and the
    statement ends with it, or the statement goes on behind it. -/
theorem restOfStatement_taken {extent : Extent} {places taken : List Occurrence}
    {head : Occurrence} (h : (restOfStatement extent places).1 = head :: taken) :
    ∃ rest, places = head :: rest ∧
      (taken = [] ∧ head.token.kind = .semicolon ∨
        taken = (restOfStatement (extent.take head.token) rest).1) := by
  cases places with
  | nil => cases h
  | cons place places =>
      rw [restOfStatement] at h
      by_cases hbefore : extent.endsBefore place.token
      · rw [if_pos hbefore] at h
        cases h
      rw [if_neg hbefore] at h
      by_cases hwith : extent.endsWith place.token
      · rw [if_pos hwith, List.cons.injEq] at h
        rcases h with ⟨rfl, rfl⟩
        exact ⟨places, rfl, Or.inl ⟨rfl, (Extent.depth_of_endsWith hwith).2⟩⟩
      · rw [if_neg hwith, List.cons.injEq] at h
        rcases h with ⟨rfl, rfl⟩
        exact ⟨places, rfl, Or.inr rfl⟩

/-- A statement up to the first block in it: the block is taken as a whole, if
    it is taken at all. -/
theorem restOfStatement_opening {extent : Extent} {places m r : List Occurrence}
    {opening : Occurrence} (hdepth : extent.depth = 0)
    (h : (restOfStatement extent places).1 = m ++ opening :: r)
    (hm : ∀ place ∈ m, place.token.kind ≠ .lBrace) (hopen : opening.token.kind = .lBrace) :
    ∃ q, places = m ++ opening :: q ∧ (untilClose 0 r).SameGroup (untilClose 0 q) := by
  induction m generalizing extent places with
  | nil =>
      rcases restOfStatement_taken h with ⟨q, rfl, ⟨-, hsemicolon⟩ | rfl⟩
      · rw [hopen] at hsemicolon
        cases hsemicolon
      -- From the brace on, the statement is inside of the block.
      · refine ⟨q, rfl, untilClose_restOfStatement ?_ q⟩
        rw [Extent.take_lBrace extent hopen, hdepth]
  | cons head m ih =>
      rcases restOfStatement_taken h with ⟨places, rfl, ⟨hnone, -⟩ | hrest⟩
      · exact absurd hnone (List.append_ne_nil_of_right_ne_nil m (List.cons_ne_nil _ _))
      -- A token in front of the brace leaves the statement on its level.
      · have hshallow := Extent.take_depth_zero hdepth (hm head List.mem_cons_self)
        rcases ih hshallow hrest.symm fun other hother => hm other (List.mem_cons_of_mem _ hother)
          with ⟨q, rfl, hsame⟩
        exact ⟨q, rfl, hsame⟩

/-- Where the tokens of a statement come from: its first token stands in the
    list, and it has taken the others behind that. -/
theorem statementsAfter_mem {comments places : List Occurrence} {statement : Statement}
    (h : statement ∈ statementsAfter comments places) :
    ∃ l q, places = l ++ statement.first :: q ∧
      statement.others = (restOfStatement (Extent.ofFirst statement.first.token) q).1 := by
  fun_induction statementsAfter comments places with
  | case1 => cases h
  | case2 comments place rest _ ih =>
      rcases ih h with ⟨l, q, rfl, hothers⟩
      exact ⟨place :: l, q, rfl, hothers⟩
  | case3 comments place rest _ _ ih =>
      rcases ih h with ⟨l, q, rfl, hothers⟩
      exact ⟨place :: l, q, rfl, hothers⟩
  | case4 comments place rest _ _ others ih =>
      rcases List.mem_cons.mp h with rfl | h
      · exact ⟨[], rest, rfl, rfl⟩
      · rcases ih h with ⟨l, q, hleft, hothers⟩
        -- What the first statement took and what it left are all of its tokens.
        have hall := restOfStatement_append (Extent.ofFirst place.token) rest
        refine ⟨place :: others.1 ++ l, q, ?_, hothers⟩
        rw [List.append_assoc, ← hleft, List.cons_append]
        exact congrArg (place :: ·) hall.symm

end StackScript
