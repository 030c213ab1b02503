import StackScript.Proofs.Token.Shift
import StackScript.Proofs.Token.Tiling

/-!
# A Text without Its Comments

`withoutComments` takes the bytes of the comments out of a text and leaves the
line feeds behind them. What is left has the tokens that are no comments, where
they were: same line, same column, only the byte offsets are others.

A comment runs to the end of its line, and that is why nothing moves. In front
of the comment the text is as it was. Behind it comes a line feed or the end of
the text, so for the words in front of it the line just ends earlier, which
`lexeme_take` and `lexeme_append_newline` allow; and the column that a reader
has come to is forgotten at the line feed.

The text is cut by byte offsets, as anybody would do who has the tokens only.
The induction wants to cut it along the walk, so the two ways are reconciled
first: `uncommented` cuts by offsets, and `uncommented_space`,
`uncommented_word` and `uncommented_comment` say that it goes along the walk.

## Main definitions

* `withoutTokens`: The characters that lie in none of some tokens.
* `withoutComments`: A text without its comments.
* `AtLineEnd`: A line feed comes next, or nothing.
* `Place.KeepsUp`: Where the two walks are while they go along the text.
* `Token.CanPrecede`: What the lines of two tokens have to do with each other.

## Theorems

* `lexeme_comment`: A comment runs to the end of its line.
* `uncommented_split`: What is left agrees with the text up to a line feed.
* `tokenizeAt_lines`: The lines of the tokens of a text.
* `tokenize_withoutComments`: The tokens of a text without its comments.
-/

namespace StackScript

/-- The byte `i` lies in the token. -/
def Token.covers (token : Token) (i : Nat) : Bool :=
  token.offset ≤ i && i < token.stop

/-- The token is a comment. -/
def Token.isComment (token : Token) : Bool :=
  token.kind = .comment

/-- The characters that lie in none of the tokens, where the first character is
    `offset` bytes behind the start of the text. -/
def withoutTokens (tokens : List Token) (offset : Nat) : List Char → List Char
  | [] => []
  | c :: cs =>
      let rest := withoutTokens tokens (offset + c.utf8Size) cs
      if tokens.any fun token => token.covers offset then rest else c :: rest

/-- The text without the bytes of its comments. -/
def withoutComments (text : String) : String :=
  String.ofList (withoutTokens ((tokenize text).filter Token.isComment) 0 text.toList)

/-! ## Cutting by offsets -/

/-- A text is cut piece by piece. -/
theorem withoutTokens_append (tokens : List Token) (offset : Nat) (cs ds : List Char) :
    withoutTokens tokens offset (cs ++ ds) =
      withoutTokens tokens offset cs ++ withoutTokens tokens (offset + byteLength cs) ds := by
  induction cs generalizing offset with
  | nil => rfl
  | cons c cs ih =>
      rw [List.cons_append, withoutTokens, withoutTokens, ih, byteLength_cons, Nat.add_assoc]
      split <;> rfl

/-- What lies in one of the tokens goes away as a whole. -/
theorem withoutTokens_inside {tokens : List Token} {token : Token} {offset : Nat} {cs : List Char}
    (hmem : token ∈ tokens) (hle : token.offset ≤ offset)
    (hstop : offset + byteLength cs ≤ token.stop) : withoutTokens tokens offset cs = [] := by
  induction cs generalizing offset with
  | nil => rfl
  | cons c cs ih =>
      rw [byteLength_cons] at hstop
      have hpos := c.utf8Size_pos
      have hcovers : tokens.any fun token => token.covers offset := by
        refine List.any_eq_true.mpr ⟨token, hmem, ?_⟩
        simp only [Token.covers, Bool.and_eq_true, decide_eq_true_eq]
        omega
      rw [withoutTokens, if_pos hcovers]
      exact ih (by omega) (by omega)

/-- What lies between the tokens stays as it is. -/
theorem withoutTokens_outside {tokens : List Token} {offset : Nat} {cs : List Char}
    (h : ∀ token ∈ tokens, token.stop ≤ offset ∨ offset + byteLength cs ≤ token.offset) :
    withoutTokens tokens offset cs = cs := by
  induction cs generalizing offset with
  | nil => rfl
  | cons c cs ih =>
      have hpos := c.utf8Size_pos
      -- A token that covers this byte would reach into the text.
      have hcovers : ¬ tokens.any fun token => token.covers offset := by
        intro hany
        rcases List.any_eq_true.mp hany with ⟨token, hmem, hcovers⟩
        have hout := h token hmem
        rw [byteLength_cons] at hout
        simp only [Token.covers, Bool.and_eq_true, decide_eq_true_eq] at hcovers
        omega
      rw [withoutTokens, if_neg hcovers, ih]
      intro token hmem
      have hout := h token hmem
      rw [byteLength_cons] at hout
      omega

/-- A token in front of the characters takes none of them away. -/
theorem withoutTokens_cons {token : Token} {tokens : List Token} {offset : Nat}
    (h : token.stop ≤ offset) (cs : List Char) :
    withoutTokens (token :: tokens) offset cs = withoutTokens tokens offset cs := by
  induction cs generalizing offset with
  | nil => rfl
  | cons c cs ih =>
      have hcovers : token.covers offset = false := by
        simp only [Token.covers, Bool.and_eq_false_iff, decide_eq_false_iff_not]
        omega
      rw [withoutTokens, withoutTokens, ih (by omega), List.any_cons, hcovers, Bool.false_or]

/-! ## Cutting along the walk -/

/-- The rest of a text without the comments in it. -/
def uncommented (place : Place) (cs : List Char) : List Char :=
  withoutTokens ((tokenizeAt place cs).filter Token.isComment) place.offset cs

theorem uncommented_nil (place : Place) : uncommented place [] = [] :=
  rfl

/-- Spaces stay. -/
theorem uncommented_space (place : Place) {c : Char} (h : Lexeme.isSpace c) (cs : List Char) :
    uncommented place (c :: cs) = c :: uncommented (place.after [c]) cs := by
  have hsplit : c :: cs = [c] ++ cs := rfl
  rw [uncommented, tokenizeAt_space place h, hsplit, withoutTokens_append, withoutTokens_outside]
  · rfl
  · intro token hmem
    exact Or.inr (le_offset_of_mem (List.mem_filter.mp hmem).1)

theorem isComment_wordAt (place : Place) (c : Char) (cs : List Char) :
    (wordAt place c cs).isComment = decide ((lexeme c cs).1 = .comment) := rfl

/-- A word is cut or kept, and the rest is read on, whatever the word is. -/
theorem uncommented_cut (place : Place) {c : Char} (h : ¬ Lexeme.isSpace c) (cs : List Char) :
    uncommented place (c :: cs) =
      withoutTokens ((tokenizeAt place (c :: cs)).filter Token.isComment) place.offset
          (wordTaken c cs) ++
        uncommented (place.after (wordTaken c cs)) (cs.drop ((lexeme c cs).2 - 1)) := by
  -- The word itself ends where the rest begins, so it takes nothing out of the rest.
  have hbehind : withoutTokens ((tokenizeAt place (c :: cs)).filter Token.isComment)
      (place.offset + byteLength (wordTaken c cs)) (cs.drop ((lexeme c cs).2 - 1)) =
        uncommented (place.after (wordTaken c cs)) (cs.drop ((lexeme c cs).2 - 1)) := by
    rw [tokenizeAt_word place h, List.filter_cons]
    split
    · refine withoutTokens_cons ?_ _
      rw [wordAt_stop]
      exact Nat.le_refl _
    · rfl
  rw [← hbehind, ← withoutTokens_append, wordTaken_append_drop]
  rfl

/-- Other words stay. -/
theorem uncommented_word (place : Place) {c : Char} (h : ¬ Lexeme.isSpace c) {cs : List Char}
    (hword : (lexeme c cs).1 ≠ .comment) :
    uncommented place (c :: cs) =
      wordTaken c cs ++
        uncommented (place.after (wordTaken c cs)) (cs.drop ((lexeme c cs).2 - 1)) := by
  rw [uncommented_cut place h, withoutTokens_outside]
  intro token hmem
  have hneg : ¬ (wordAt place c cs).isComment := by
    rw [isComment_wordAt, decide_eq_true_eq]
    exact hword
  rw [tokenizeAt_word place h, List.filter_cons_of_neg hneg] at hmem
  exact Or.inr (le_offset_of_mem (List.mem_filter.mp hmem).1)

theorem uncommented_comment (place : Place) {c : Char} (h : ¬ Lexeme.isSpace c) {cs : List Char}
    (hword : (lexeme c cs).1 = .comment) :
    uncommented place (c :: cs) =
      uncommented (place.after (wordTaken c cs)) (cs.drop ((lexeme c cs).2 - 1)) := by
  have hmem : wordAt place c cs ∈ (tokenizeAt place (c :: cs)).filter Token.isComment := by
    rw [tokenizeAt_word place h]
    refine List.mem_filter.mpr ⟨List.mem_cons_self, ?_⟩
    rw [isComment_wordAt, decide_eq_true_eq]
    exact hword
  have hstart : (wordAt place c cs).offset ≤ place.offset := Nat.le_refl _
  have hstop : place.offset + byteLength (wordTaken c cs) ≤ (wordAt place c cs).stop := by
    rw [wordAt_stop]
    exact Nat.le_refl _
  rw [uncommented_cut place h, withoutTokens_inside hmem hstart hstop, List.nil_append]

/-! ## What is left -/

/-- A single sign is no comment. -/
theorem signKind_ne_comment (c : Char) : Lexeme.signKind c ≠ .comment := by
  unfold Lexeme.signKind Lexeme.punctuation
  split <;> first | exact TokenKind.noConfusion | skip
  rw [Option.getD_none]
  split <;> exact TokenKind.noConfusion

/-- No word but one that begins with two slashes is a comment. -/
theorem comment_cases {c : Char} {cs : List Char} (h : (lexeme c cs).1 = .comment) :
    ∃ ds, c = '/' ∧ cs = '/' :: ds := by
  -- The other readings give words of another kind.
  cases Lexeme.reading c cs with
  | comment ds => exact ⟨ds, rfl, rfl⟩
  | name hstart =>
      rw [lexeme_nameStart hstart] at h
      cases h
  | number hdigit =>
      rw [lexeme_digit hdigit] at h
      cases h
  | variableName cs hd =>
      rw [lexeme_dollar hd] at h
      cases h
  | quoted hquote =>
      rw [lexeme_quote hquote] at h
      dsimp only at h
      split at h <;> cases h
  | longOperator _ hlexeme =>
      rw [hlexeme] at h
      cases h
  | sign _ _ hlexeme =>
      rw [hlexeme] at h
      exact absurd h (signKind_ne_comment c)

/-- A comment runs to the end of its line. -/
theorem lexeme_comment {c : Char} {cs : List Char} (h : (lexeme c cs).1 = .comment) :
    (lexeme c cs).2 - 1 = Lexeme.lineLength cs := by
  rcases comment_cases h with ⟨ds, rfl, rfl⟩
  rw [lexeme_slashes]
  rfl

/-- Behind the end of a line comes a line feed or nothing. -/
theorem drop_lineLength (cs : List Char) :
    cs.drop (Lexeme.lineLength cs) = [] ∨ ∃ ds, cs.drop (Lexeme.lineLength cs) = '\n' :: ds := by
  induction cs with
  | nil => exact Or.inl rfl
  | cons c cs ih =>
      rw [Lexeme.lineLength_cons]
      split
      · next h => exact Or.inr ⟨cs, by rw [h]; rfl⟩
      · exact ih

/-- The text is at the end of a line. -/
def AtLineEnd (cs : List Char) : Prop :=
  cs = [] ∨ ∃ ds, cs = '\n' :: ds

/-- A line feed stays where it is. -/
theorem AtLineEnd.uncommented {cs : List Char} (h : AtLineEnd cs) (place : Place) :
    AtLineEnd (uncommented place cs) := by
  rcases h with rfl | ⟨ds, rfl⟩
  · exact Or.inl rfl
  · exact Or.inr ⟨_, uncommented_space place rfl ds⟩

/-- What is left agrees with the text up to the end of a line. -/
theorem uncommented_split (place : Place) (cs : List Char) :
    ∃ front behind behind', cs = front ++ behind ∧ uncommented place cs = front ++ behind' ∧
      AtLineEnd behind' := by
  fun_induction tokenizeAt place cs with
  | case1 place => exact ⟨[], [], [], rfl, rfl, Or.inl rfl⟩
  | case2 place c rest hspace ih =>
      rcases ih with ⟨front, behind, behind', hrest, hleft, hend⟩
      refine ⟨c :: front, behind, behind', ?_, ?_, hend⟩
      · rw [hrest, List.cons_append]
      · rw [uncommented_space place hspace, hleft, List.cons_append]
  | case3 place c rest hspace word taken ih =>
      by_cases hword : word.1 = .comment
      · -- The comment goes away, and the line feed behind it is what comes next.
        refine ⟨[], c :: rest, _, rfl, uncommented_comment place hspace hword, ?_⟩
        refine AtLineEnd.uncommented ?_ _
        rw [lexeme_comment hword]
        exact drop_lineLength rest
      · rcases ih with ⟨front, behind, behind', hrest, hleft, hend⟩
        refine ⟨taken ++ front, behind, behind', ?_, ?_, hend⟩
        · rw [List.append_assoc, ← hrest]
          exact (wordTaken_append_drop c rest).symm
        · rw [uncommented_word place hspace hword, List.append_assoc, ← hleft]
          rfl

/-- A word is read in what is left as in the text. -/
theorem lexeme_uncommented (place : Place) (c : Char) (cs : List Char) :
    lexeme c (cs.take ((lexeme c cs).2 - 1) ++
      uncommented place (cs.drop ((lexeme c cs).2 - 1))) = lexeme c cs := by
  rcases uncommented_split place (cs.drop ((lexeme c cs).2 - 1)) with
    ⟨front, behind, behind', hrest, hleft, hend⟩
  -- The word would end at the line feed as it ends without the rest.
  have hline : lexeme c (cs.take ((lexeme c cs).2 - 1) ++ front ++ behind') =
      lexeme c (cs.take ((lexeme c cs).2 - 1) ++ front) := by
    rcases hend with rfl | ⟨ds, rfl⟩
    · rw [List.append_nil]
    · rw [lexeme_append_newline]
  have hfront : cs.take ((lexeme c cs).2 - 1) ++ front <+: cs := by
    refine ⟨behind, ?_⟩
    rw [List.append_assoc, ← hrest, List.take_append_drop]
  -- The front part holds the word, as comments are behind it.
  have hlong : (lexeme c cs).2 ≤ (cs.take ((lexeme c cs).2 - 1) ++ front).length + 1 := by
    have hfits := lexeme_le_length c cs
    rw [List.length_append, List.length_take]
    omega
  have hcut := lexeme_take hlong
  rw [← List.prefix_iff_eq_take.mp hfront] at hcut
  rw [hleft, ← List.append_assoc, hline, hcut]

/-- The walk over what is left takes the word and goes on behind it. -/
theorem tokenizeAt_uncommented_word (place place' : Place) {c : Char}
    (h : ¬ Lexeme.isSpace c) {cs : List Char} (hword : (lexeme c cs).1 ≠ .comment) :
    tokenizeAt place' (uncommented place (c :: cs)) =
      wordAt place' c cs ::
        tokenizeAt (place'.after (wordTaken c cs))
          (uncommented (place.after (wordTaken c cs)) (cs.drop ((lexeme c cs).2 - 1))) := by
  -- The word is read the same in front of what is left.
  have hread := lexeme_uncommented (place.after (wordTaken c cs)) c cs
  have hlength : (cs.take ((lexeme c cs).2 - 1)).length = (lexeme c cs).2 - 1 :=
    List.length_take_of_le (lexeme_le_length c cs)
  have htaken : wordTaken c (cs.take ((lexeme c cs).2 - 1) ++
      uncommented (place.after (wordTaken c cs)) (cs.drop ((lexeme c cs).2 - 1))) =
        wordTaken c cs := by
    rw [wordTaken, hread, List.take_left' hlength]
    rfl
  have hat : wordAt place' c (cs.take ((lexeme c cs).2 - 1) ++
      uncommented (place.after (wordTaken c cs)) (cs.drop ((lexeme c cs).2 - 1))) =
        wordAt place' c cs := by
    rw [wordAt, hread, htaken]
    rfl
  rw [uncommented_word place h hword]
  change tokenizeAt place' (c :: (cs.take ((lexeme c cs).2 - 1) ++ _)) = _
  rw [tokenizeAt_word place' h, hat, htaken, hread, List.drop_left' hlength]

theorem isSignificant_wordAt (place : Place) (c : Char) (cs : List Char) :
    (wordAt place c cs).isSignificant ↔ (lexeme c cs).1 ≠ .comment := by
  rw [Token.isSignificant, wordAt, TokenKind.isTrivia]
  simp

/-- The walk over a text and the walk over what is left of it are at the same
    position, except at the end of a line, where the one has passed a
    comment. -/
def Place.KeepsUp (place' place : Place) (cs : List Char) : Prop :=
  place'.position = place.position ∨
    place'.position.line = place.position.line ∧ AtLineEnd cs

namespace Place.KeepsUp

variable {place place' : Place} {c : Char} {cs : List Char}

/-- The only space at the end of a line is the line feed, and it forgets the column. -/
theorem afterChar (h : place'.KeepsUp place (c :: cs)) :
    (place'.after [c]).position = (place.after [c]).position := by
  change place'.position.afterChar c = place.position.afterChar c
  rcases h with heq | ⟨hline, hnil | ⟨ds, hcons⟩⟩
  · rw [heq]
  · cases hnil
  · rw [(List.cons.inj hcons).1, Position.afterChar_newline, Position.afterChar_newline, hline]

/-- In front of a word no comment has been passed. -/
theorem position_eq (h : place'.KeepsUp place (c :: cs)) (hword : ¬ Lexeme.isSpace c) :
    place'.position = place.position := by
  rcases h with heq | ⟨-, hnil | ⟨ds, hcons⟩⟩
  · exact heq
  · cases hnil
  · rw [(List.cons.inj hcons).1] at hword
    exact absurd rfl hword

/-- Behind a comment the line is the same, and it is at its end. -/
theorem comment (h : place'.KeepsUp place (c :: cs)) (hspace : ¬ Lexeme.isSpace c)
    (hword : (lexeme c cs).1 = .comment) :
    place'.KeepsUp (place.after (wordTaken c cs)) (cs.drop ((lexeme c cs).2 - 1)) := by
  refine Or.inr ⟨?_, ?_⟩
  · change _ = (place.position.after (wordTaken c cs)).line
    rw [Position.after_line, List.count_eq_zero.mpr (newline_notMem_wordTaken hspace cs),
      h.position_eq hspace]
    rfl
  · rw [lexeme_comment hword]
    exact drop_lineLength cs

end Place.KeepsUp

/-- The walk over what is left finds the tokens that are no comments. -/
theorem tokenizeAt_uncommented {place place' : Place} {cs : List Char}
    (h : place'.KeepsUp place cs) :
    (tokenizeAt place' (uncommented place cs)).map Token.unplaced =
      ((tokenizeAt place cs).filter Token.isSignificant).map Token.unplaced := by
  fun_induction tokenizeAt place cs generalizing place' with
  | case1 place =>
      rw [uncommented_nil, tokenizeAt]
      rfl
  | case2 place c rest hspace ih =>
      rw [uncommented_space place hspace, tokenizeAt_space place' hspace]
      exact ih (Or.inl h.afterChar)
  | case3 place c rest hspace word taken =>
      rename_i ih
      change _ = ((wordAt place c rest :: _).filter Token.isSignificant).map Token.unplaced
      by_cases hword : word.1 = .comment
      · have hdrop : ¬ (wordAt place c rest).isSignificant := by
          rw [isSignificant_wordAt]
          exact fun hother => hother hword
        rw [uncommented_comment place hspace hword, List.filter_cons_of_neg hdrop]
        exact ih (h.comment hspace hword)
      · have hkeep := (isSignificant_wordAt place c rest).mpr hword
        -- A word stands where it stood, since no comment is in front of it on its line.
        have heq := h.position_eq hspace
        have hnext : (place'.after taken).position = (place.after taken).position := by
          change place'.position.after taken = place.position.after taken
          rw [heq]
        have hsame : (wordAt place' c rest).unplaced = (wordAt place c rest).unplaced := by
          unfold wordAt
          rw [heq]
          rfl
        rw [tokenizeAt_uncommented_word place place' hspace hword, List.filter_cons_of_pos hkeep,
          List.map_cons, List.map_cons, hsame]
        exact congrArg _ (ih (Or.inl hnext))

/-- The second token may stand behind the first: it is on the same line or
    further down, and behind a comment it is further down. -/
def Token.CanPrecede (a b : Token) : Prop :=
  a.position.line ≤ b.position.line ∧ (a.kind = .comment → a.position.line < b.position.line)

/-- Lines go up, and behind a comment comes another line. -/
theorem tokenizeAt_lines (place : Place) (cs : List Char) :
    (tokenizeAt place cs).Pairwise Token.CanPrecede := by
  fun_induction tokenizeAt place cs with
  | case1 => exact List.Pairwise.nil
  | case2 place c rest hspace ih => exact ih
  | case3 place c rest hspace word taken ih =>
      refine List.Pairwise.cons (fun token h => ?_) ih
      rcases exists_word_of_mem h with ⟨before, d, behind, hsplit, hd, rfl⟩
      have hreached : place.position.line ≤ (place.after taken).position.line :=
        Position.line_le_after _ _
      refine ⟨Nat.le_trans hreached (Position.line_le_after _ _), fun hword => ?_⟩
      -- What follows a comment begins with the line feed behind it.
      have hend := drop_lineLength rest
      rw [← lexeme_comment hword] at hend
      change (place.position.line) < ((place.after taken).position.after before).line
      rw [Position.after_line]
      have hnewline : 0 < before.count '\n' := by
        rw [List.count_pos_iff]
        rcases hend with hnil | ⟨ds, hcons⟩
        · rw [hnil] at hsplit
          exact absurd hsplit.symm (List.append_ne_nil_of_right_ne_nil _ (List.cons_ne_nil _ _))
        · rw [hcons] at hsplit
          cases before with
          | nil =>
              rw [List.nil_append, List.cons.injEq] at hsplit
              rw [← hsplit.1] at hd
              exact absurd rfl hd
          | cons e before =>
              rw [List.cons_append, List.cons.injEq] at hsplit
              rw [hsplit.1]
              exact List.mem_cons_self
      omega

/-- Without its comments a text has the tokens that are no comments, at the same
    lines and columns. -/
theorem tokenize_withoutComments (text : String) :
    (tokenize (withoutComments text)).map Token.unplaced =
      ((tokenize text).filter Token.isSignificant).map Token.unplaced := by
  unfold tokenize withoutComments
  rw [String.toList_ofList]
  exact tokenizeAt_uncommented (Or.inl rfl)

end StackScript
