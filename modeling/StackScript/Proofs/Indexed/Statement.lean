import StackScript.Proofs.Indexed.Scan

/-!
# Statements by Index

The program that splits a block into statements does not walk through the blocks
inside of it. At an opening brace it asks for the partner and goes on behind
that, if the partner is within its bounds, and else it stops at the bound. So
its index moves in leaps, while the statements of the library take one token
after the other and count the blocks that are open. `restOfStatement_untilClose`
says that they come out of a block in the same state.

## Main definitions

* `Bounds`: A statement by its indices.
* `Indexed.statementEnd`, `Indexed.statements`: The statements of a range.

## Theorems

* `statementEnd_eq`: A statement ends where the program says.
* `statements_eq`: The program finds the statements of the range.
* `significantOf_eq`: The program finds the words of a statement.
-/

namespace StackScript

namespace Indexed

/-- A statement by its indices. -/
structure Bounds where
  /-- The index of the first token. -/
  start : Nat
  /-- The index behind the last token. -/
  stop : Nat
  /-- The indices of the comments in front of the statement. -/
  comments : List Nat

/-- The brackets and parentheses open behind a token; one too many closes none. -/
def nestingBehind (nesting : Nat) : TokenKind → Nat
  | .lBracket | .lParen => nesting + 1
  | .rBracket | .rParen => nesting - 1
  | _ => nesting

/-- The index behind the statement that begins at `start`, which has come to the
    given line and to the index `i`. -/
def statementEnd (tokens : List Token) (start stop line nesting i : Nat) : Checked Nat :=
  if i < stop then do
    let token ← tokens[i]?
    if start < i && nesting = 0 && line < token.position.line then
      return i
    else if token.kind = .lBrace then
      match blockEnd tokens i with
      | none => return stop
      | some close =>
          if close < stop then do
            let brace ← tokens[close]?
            if i ≤ close then
              statementEnd tokens start stop brace.position.line nesting (close + 1)
            else
              none
          else
            return stop
    else if token.kind = .semicolon && nesting = 0 then
      return i + 1
    else if token.kind = .rBrace && start < i then
      return i
    else
      statementEnd tokens start stop token.position.line (nestingBehind nesting token.kind) (i + 1)
  else
    return i
termination_by stop - i

/-- The statements from `i` on and below `stop`, behind comments already read. -/
def statementsFrom (tokens : List Token) (stop : Nat) (comments : List Nat) (i : Nat) :
    Checked (List Bounds) :=
  if i < stop then do
    let token ← tokens[i]?
    if !token.isSignificant then
      statementsFrom tokens stop (comments ++ [i]) (i + 1)
    else if token.kind = .semicolon then
      statementsFrom tokens stop comments (i + 1)
    else
      let next ← statementEnd tokens i stop token.position.line 0 i
      if i < next then
        let others ← statementsFrom tokens stop [] next
        return ⟨i, next, comments⟩ :: others
      else
        none
  else
    return []
termination_by stop - i

/-- The statements from `start` on and below `stop`. -/
def statements (tokens : List Token) (start stop : Nat) : Checked (List Bounds) :=
  statementsFrom tokens (min stop tokens.length) [] start

/-- The indices from `i` on and below `stop` whose tokens are no comments. -/
def significantFrom (tokens : List Token) (i stop : Nat) : Checked (List Nat) :=
  if i < stop then do
    let token ← tokens[i]?
    let others ← significantFrom tokens (i + 1) stop
    return if token.isSignificant then i :: others else others
  else
    return []
termination_by stop - i

/-- The indices of the words of a statement. -/
def significantOf (tokens : List Token) (bounds : Bounds) : Checked (List Nat) :=
  significantFrom tokens bounds.start (min bounds.stop tokens.length)

end Indexed

/-! ## Blocks in a statement -/

namespace Extent

-- A closing brace ends a block, and the statement is on its line then.
theorem line_take_rBrace {extent : Extent} {depth : Nat} (h : extent.depth = depth + 1)
    {token : Token} (hr : token.kind = .rBrace) :
    extent.take token = ⟨token.position.line, extent.nesting, depth⟩ := by
  unfold take
  rw [h, hr]

end Extent

/-- A statement takes the block that it is in, and goes on behind the closing
    brace, on the line of that brace. -/
theorem restOfStatement_untilClose {extent : Extent} {depth : Nat}
    (h : extent.depth = depth + 1) (places : List Occurrence) :
    (restOfStatement extent places).1 = (untilClose depth places).body ++
      match (untilClose depth places).ending with
      | none => []
      | some (close, rest) =>
          close :: (restOfStatement ⟨close.token.position.line, extent.nesting, 0⟩ rest).1 := by
  induction places generalizing extent depth with
  | nil => rfl
  | cons place places ih =>
      -- Inside of a block every token is taken, so the two readers go on together.
      rw [restOfStatement_deep h]
      by_cases hl : place.token.kind = .lBrace
      · rw [untilClose_lBrace _ _ hl, ih (by rw [Extent.take_lBrace extent hl, h]),
          Extent.nesting_take_deep h]
        rfl
      by_cases hr : place.token.kind = .rBrace
      · cases depth with
        -- The block ends here, and the statement goes on on its own level.
        | zero =>
            rw [untilClose_rBrace_zero _ hr, Extent.line_take_rBrace h hr]
            rfl
        | succ depth =>
            rw [untilClose_rBrace _ _ hr, ih (Extent.take_rBrace h hr),
              Extent.nesting_take_deep h]
            rfl
      · rw [untilClose_of_ne _ _ hl hr, Extent.take_deep h hl hr, ih h]
        rfl

/-- What a statement takes of a range, and what it leaves, are ranges. -/
theorem restOfStatement_span (extent : Extent) (tokens : List Token) {i stop n : Nat}
    (hi : i ≤ stop) (hn : n = (restOfStatement extent (span tokens i stop)).1.length) :
    i + n ≤ stop ∧ (restOfStatement extent (span tokens i stop)).1 = span tokens i (i + n) ∧
      (restOfStatement extent (span tokens i stop)).2 = span tokens (i + n) stop := by
  have happend := restOfStatement_append extent (span tokens i stop)
  have hlength := congrArg List.length happend
  rw [List.length_append, length_span, ← hn] at hlength
  have hle : i + n ≤ stop := by omega
  have htake := congrArg (List.take n) happend
  have hdrop := congrArg (List.drop n) happend
  rw [take_span, Nat.min_eq_left hle, List.take_left' hn.symm] at htake
  rw [drop_span, List.drop_left' hn.symm] at hdrop
  exact ⟨hle, htake, hdrop⟩

/-! ## The end of a statement -/

namespace Indexed

-- On its own level a statement counts lines and brackets.
theorem take_level {token : Token} (line nesting : Nat) (hl : token.kind ≠ .lBrace) :
    Extent.take ⟨line, nesting, 0⟩ token =
      ⟨token.position.line, nestingBehind nesting token.kind, 0⟩ := by
  unfold Extent.take nestingBehind
  cases hkind : token.kind <;> first | rfl | contradiction

section StatementEnd

variable {tokens : List Token} {start stop : Nat}

/-- The statement takes the token at `i` and goes on. -/
theorem statementEnd_taken (hstop : stop ≤ tokens.length) {place : Occurrence}
    (hmem : place ∈ occurrences tokens) (hlt : place.index < stop)
    {line nesting : Nat}
    (hbehind : ∀ i, place.index < i → i ≤ stop → ∀ line nesting,
      statementEnd tokens start stop line nesting i =
        some (i + (restOfStatement ⟨line, nesting, 0⟩ (span tokens i stop)).1.length))
    (hbefore : (decide (start < place.index) && decide (nesting = 0) &&
      decide (line < place.token.position.line)) = false)
    (hwith : (decide (place.token.kind = .semicolon) && decide (nesting = 0)) = false)
    (hbrace : (decide (place.token.kind = .rBrace) && decide (start < place.index)) = false) :
    statementEnd tokens start stop line nesting place.index =
      some (place.index + 1 + (restOfStatement (Extent.take ⟨line, nesting, 0⟩ place.token)
        (span tokens (place.index + 1) stop)).1.length) := by
  rw [statementEnd, if_pos hlt, (standing_of_mem hmem).1, Checked.bind_some,
    hbefore, hwith, hbrace]
  simp only [Bool.false_eq_true, if_false]
  by_cases hl : place.token.kind = .lBrace
  · have hnesting : (Extent.take ⟨line, nesting, 0⟩ place.token).nesting = nesting := by
      unfold Extent.take
      rw [hl]
    -- A block without a partner inside of the bounds is taken up to the bound.
    have hopened : (∀ close, blockEnd tokens place.index = some close → stop ≤ close) →
        stop = place.index + 1 + (restOfStatement (Extent.take ⟨line, nesting, 0⟩ place.token)
          (span tokens (place.index + 1) stop)).1.length := by
      intro h
      rw [restOfStatement_untilClose (Extent.take_lBrace _ hl),
        untilClose_span_of_le hmem hl hlt h, List.append_nil, length_span]
      omega
    rw [if_pos hl]
    cases hend : blockEnd tokens place.index with
    | none => exact congrArg some (hopened fun close h => by rw [hend] at h; cases h)
    | some close =>
        dsimp only
        by_cases hclose : close < stop
        · -- The program leaps behind the partner, and the statement takes all the tokens up
          -- to there.
          rcases untilClose_span_of_lt hmem hl hend hclose with ⟨brace, rfl, hbrace', hblock⟩
          rw [if_pos hclose, (standing_of_mem hbrace').1, Checked.bind_some,
            if_pos (Nat.le_of_lt (lt_blockEnd hmem hl hend)),
            hbehind (brace.index + 1) (Nat.lt_succ_of_lt (lt_blockEnd hmem hl hend)) hclose,
            restOfStatement_untilClose (Extent.take_lBrace _ hl), hblock, hnesting,
            List.length_append, List.length_cons, length_span]
          have hlt' := lt_blockEnd hmem hl hend
          congr 1
          omega
        · rw [if_neg hclose]
          refine congrArg some (hopened fun other h => ?_)
          rw [hend, Option.some.injEq] at h
          exact h ▸ Nat.le_of_not_lt hclose
  · rw [if_neg hl, hbehind _ (Nat.lt_succ_self _) hlt, take_level _ _ hl]

/-- Behind its first token a statement ends where the program says. -/
theorem statementEnd_eq (hstop : stop ≤ tokens.length) {i : Nat} (hi : start < i) (hle : i ≤ stop)
    (line nesting : Nat) :
    statementEnd tokens start stop line nesting i =
      some (i + (restOfStatement ⟨line, nesting, 0⟩ (span tokens i stop)).1.length) := by
  induction hn : stop - i using Nat.strongRecOn generalizing i line nesting with
  | ind n ih =>
    rcases Nat.lt_or_eq_of_le hle with hlt | rfl
    · rcases exists_place hlt hstop with ⟨place, rfl, hmem, hspan⟩
      have hbefore : (Extent.mk line nesting 0).endsBefore place.token =
          (decide (nesting = 0) && decide (line < place.token.position.line) ||
            decide (place.token.kind = .rBrace)) := by
        simp [Extent.endsBefore, Extent.isLevel]
      have hwith : (Extent.mk line nesting 0).endsWith place.token =
          (decide (nesting = 0) && decide (place.token.kind = .semicolon)) := by
        simp [Extent.endsWith, Extent.isLevel]
      rw [hspan, restOfStatement, hbefore, hwith]
      -- The three ways to end: on another line, at a closing brace, with a semicolon.
      by_cases hover : nesting = 0 ∧ line < place.token.position.line
      · rw [statementEnd, if_pos hlt, (standing_of_mem hmem).1]
        simp [hi, hover]
      by_cases hr : place.token.kind = .rBrace
      · rw [statementEnd, if_pos hlt, (standing_of_mem hmem).1]
        simp [hi, hover, hr]
      by_cases hs : place.token.kind = .semicolon ∧ nesting = 0
      · have hline : ¬ line < place.token.position.line := fun h => hover ⟨hs.2, h⟩
        rw [statementEnd, if_pos hlt, (standing_of_mem hmem).1]
        simp [hi, hs, hline]
      · have hbehind : ∀ i, place.index < i → i ≤ stop → ∀ line nesting,
            statementEnd tokens start stop line nesting i =
              some (i + (restOfStatement ⟨line, nesting, 0⟩ (span tokens i stop)).1.length) :=
          fun i hlt' hle' line nesting =>
            ih (stop - i) (by omega) (Nat.lt_trans hi hlt') hle' line nesting rfl
        rw [statementEnd_taken hstop hmem hlt hbehind (by simpa [hi] using hover)
          (by simpa using hs) (by simp [hr])]
        rw [if_neg (by simpa [hr] using hover), if_neg (by simpa [and_comm] using hs),
          List.length_cons, Nat.add_assoc, Nat.add_comm 1]
    · rw [statementEnd, if_neg (Nat.lt_irrefl i), span_of_le tokens (Nat.le_refl i)]
      rfl

/-- A statement ends where the program says. -/
theorem statementEnd_first (hstop : stop ≤ tokens.length) {place : Occurrence}
    (hmem : place ∈ occurrences tokens) (hlt : place.index < stop)
    (hsemicolon : place.token.kind ≠ .semicolon) :
    statementEnd tokens place.index stop place.token.position.line 0 place.index =
      some (place.index + 1 + (restOfStatement (Extent.ofFirst place.token)
        (span tokens (place.index + 1) stop)).1.length) :=
  statementEnd_taken hstop hmem hlt
    (fun _ hi hle line nesting => statementEnd_eq hstop hi hle line nesting)
    (by simp) (by simp [hsemicolon]) (by simp)

end StatementEnd

end Indexed

/-! ## Statements -/

/-- The statement by its indices. -/
def Statement.bounds (statement : Statement) : Indexed.Bounds :=
  ⟨statement.start, statement.stop, statement.comments.map Occurrence.index⟩

namespace Indexed

variable {tokens : List Token}

/-- The program finds the statements of the library, with their bounds and their comments. -/
theorem statementsFrom_eq {stop : Nat} (hstop : stop ≤ tokens.length)
    (comments : List Occurrence) (i : Nat) :
    statementsFrom tokens stop (comments.map Occurrence.index) i =
      some ((statementsAfter comments (span tokens i stop)).map Statement.bounds) := by
  induction hn : stop - i using Nat.strongRecOn generalizing i comments with
  | ind n ih =>
    by_cases hlt : i < stop
    · rcases exists_place hlt hstop with ⟨place, rfl, hmem, hspan⟩
      rw [statementsFrom, if_pos hlt, (standing_of_mem hmem).1, hspan, statementsAfter,
        Checked.bind_some]
      by_cases hsignificant : place.isSignificant
      · have hsignificant' : place.token.isSignificant = true := hsignificant
        simp only [hsignificant, hsignificant', Bool.not_true, Bool.false_eq_true, if_false]
        by_cases hsemicolon : place.token.kind = .semicolon
        · rw [if_pos hsemicolon, if_pos hsemicolon]
          exact ih _ (by omega) comments _ rfl
        · have hend := statementEnd_first hstop hmem hlt hsemicolon
          generalize hlength : (restOfStatement (Extent.ofFirst place.token)
            (span tokens (place.index + 1) stop)).1.length = taken at hend
          rcases restOfStatement_span (i := place.index + 1) _ tokens hlt hlength.symm with
            ⟨hle, -, hleft⟩
          have hothers := ih (stop - (place.index + 1 + taken)) (by omega) [] _ rfl
          -- The statement reaches from the place to where the next one begins.
          have hbounds : Statement.bounds ⟨comments, place, (restOfStatement
              (Extent.ofFirst place.token) (span tokens (place.index + 1) stop)).1⟩ =
                ⟨place.index, place.index + 1 + taken, comments.map Occurrence.index⟩ := by
            rw [Statement.bounds, Statement.stop, Statement.places, List.length_cons, hlength,
              Nat.add_comm taken, ← Nat.add_assoc]
            rfl
          rw [List.map_nil] at hothers
          rw [if_neg hsemicolon, if_neg hsemicolon, hend, Checked.bind_some,
            if_pos (by omega), hothers, hleft, Checked.bind_some, List.map_cons, hbounds]
          rfl
      · have hcomment : place.token.isSignificant = false := Bool.eq_false_iff.mpr hsignificant
        simp only [hsignificant, hcomment, Bool.not_false, if_true]
        have hcomments := ih _ (by omega) (comments ++ [place]) (place.index + 1) rfl
        rwa [List.map_append] at hcomments
    · rw [statementsFrom, if_neg hlt, span_of_le tokens (Nat.le_of_not_lt hlt), statementsAfter]
      rfl

theorem statements_eq (tokens : List Token) (start stop : Nat) :
    statements tokens start stop =
      some ((StackScript.statements (span tokens start stop)).map Statement.bounds) := by
  rw [statements, ← span_min]
  exact statementsFrom_eq (Nat.min_le_right _ _) [] start

/-- Words are collected as they come. -/
theorem significantFrom_eq (i : Nat) {stop : Nat} (hstop : stop ≤ tokens.length) :
    significantFrom tokens i stop =
      some ((significant (span tokens i stop)).map Occurrence.index) := by
  fun_induction significantFrom tokens i stop with
  | case1 i hlt ih =>
      rcases exists_place hlt hstop with ⟨place, rfl, hmem, hspan⟩
      rw [(standing_of_mem hmem).1, hspan, Checked.bind_some, ih]
      by_cases hword : place.isSignificant
      · rw [significant_cons_of_pos hword]
        exact congrArg some (if_pos hword)
      · rw [significant_cons_of_neg hword]
        exact congrArg some (if_neg hword)
  | case2 i hlt =>
      rw [span_of_le tokens (Nat.le_of_not_lt hlt)]
      rfl

end Indexed

/-- The tokens of a statement are those between its indices. -/
theorem places_eq_span {tokens : List Token} {start stop : Nat} {statement : Statement}
    (h : statement ∈ statements (span tokens start stop)) :
    statement.places = span tokens statement.start statement.stop ∧ statement.stop ≤ stop ∧
      statement.stop ≤ tokens.length := by
  rcases statementsAfter_mem h with ⟨l, q, hspan, hothers⟩
  have hfirst := congrArg (List.drop l.length) hspan
  rcases span_split hspan with ⟨hindex, hlt, -, rfl⟩
  rcases restOfStatement_span (i := statement.first.index + 1) _ tokens hlt
    (congrArg List.length hothers) with ⟨hle, htaken, -⟩
  rw [← hothers] at htaken
  rw [drop_span, List.drop_left, ← hindex] at hfirst
  have hstop : statement.stop = statement.first.index + 1 + statement.others.length := by
    rw [Statement.stop, Statement.places, List.length_cons, Statement.start]
    omega
  -- The statement takes its places one after the other from its first one on.
  have hplaces : statement.places = span tokens statement.start statement.stop := by
    have htake := congrArg (List.take (statement.others.length + 1)) hfirst
    rw [take_span, List.take_succ_cons, take_span, Nat.min_eq_left (by omega),
      Nat.min_eq_left hle, ← htaken] at htake
    rw [Statement.places, ← htake, Statement.start, hstop, Nat.add_assoc, Nat.add_comm 1]
  refine ⟨hplaces, hstop ▸ hle, ?_⟩
  have hlength := congrArg List.length hplaces
  rw [Statement.places, List.length_cons, length_span, Statement.start] at hlength
  omega

namespace Indexed

/-- The words of a statement are those between its bounds. -/
theorem significantOf_eq {tokens : List Token} {start stop : Nat} {statement : Statement}
    (h : statement ∈ StackScript.statements (span tokens start stop)) :
    significantOf tokens statement.bounds =
      some (statement.significant.map Occurrence.index) := by
  rcases places_eq_span h with ⟨hplaces, -, hlength⟩
  rw [significantOf, significantFrom_eq _ (Nat.min_le_right _ _), span_min,
    Statement.significant, hplaces]
  rfl

end Indexed

end StackScript
