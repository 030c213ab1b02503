import StackScript.Proofs.Token.Line

/-!
# Words End at Spaces

A space ends a word as the end of the text would, unless the word is a comment
or a text in quotes, which take spaces in. A comment takes the rest of its line
whatever that is; a text in quotes that has been closed takes nothing more. So
a text of which no word is a comment or an error may be followed by a space and
any other text, and its words stay as they are.

A line feed ends every word without exception, see `lexeme_append_newline`.

## Main definitions

* `StopsAtSpace`: A counter that counts nothing behind a space.

## Theorems

* `lexeme_append_space`: A word in front of a space.
* `tokenizeAt_append_space`: The words of a text in front of a space.
-/

namespace StackScript

namespace Lexeme

/-- A function that counts characters from the front of a text and comes to an
    end at a space. -/
def StopsAtSpace (count : List Char → Nat) : Prop :=
  ∀ s, isSpace s → ∀ cs ds, count (cs ++ s :: ds) = count cs

/-- A predicate on characters that no space satisfies does not satisfy the head of a text
    that begins with one. -/
theorem any_head?_append {p : Char → Bool} {s : Char} (h : p s = false) (cs ds : List Char) :
    (cs ++ s :: ds).head?.any p = cs.head?.any p := by
  cases cs with
  | nil => exact h
  | cons c cs => rfl

theorem space_cases {s : Char} (h : isSpace s) :
    s = ' ' ∨ s = '\t' ∨ s = '\r' ∨ s = '\n' ∨ s = '\x0c' := by
  simpa only [isSpace, Bool.or_eq_true, decide_eq_true_eq, or_assoc] using h

-- None of them is in a name or in a number.
theorem isNameChar_of_isSpace {s : Char} (h : isSpace s) : isNameChar s = false := by
  rcases space_cases h with rfl | rfl | rfl | rfl | rfl <;> rfl

theorem isDigit_of_isSpace {s : Char} (h : isSpace s) : s.isDigit = false := by
  rcases space_cases h with rfl | rfl | rfl | rfl | rfl <;> rfl

theorem stopsAtSpace_countWhile {p : Char → Bool} (h : ∀ s, isSpace s → p s = false) :
    StopsAtSpace (countWhile p) := by
  intro s hs cs ds
  induction cs with
  | nil =>
      rw [List.nil_append, countWhile_cons, if_neg (by rw [h s hs]; exact Bool.false_ne_true)]
      rfl
  | cons c cs ih => rw [List.cons_append, countWhile_cons, countWhile_cons, ih]

/-- Two counters one after the other come to an end at a space. -/
theorem StopsAtSpace.seq {f g : List Char → Nat} (hf : StopsAtSpace f) (hg : StopsAtSpace g)
    (hlength : ∀ cs, f cs ≤ cs.length) : StopsAtSpace fun cs => f cs + g (cs.drop (f cs)) := by
  intro s hs cs ds
  dsimp only
  rw [hf s hs, List.drop_append_of_le_length (hlength cs), hg s hs]

theorem NameState.step_space (state : NameState) {s : Char} (h : isSpace s) :
    state.step s = none := by
  rcases space_cases h with rfl | rfl | rfl | rfl | rfl <;> cases state <;> rfl

theorem stopsAtSpace_nameTailLength (state : NameState) : StopsAtSpace (nameTailLength state) := by
  intro s hs cs ds
  induction cs generalizing state with
  | nil =>
      simp only [List.nil_append, nameTailLength, state.step_space hs]
  | cons c cs ih =>
      rw [List.cons_append, nameTailLength, nameTailLength]
      cases state.step c with
      | none => rfl
      | some next => exact congrArg (· + 1) (ih next)

/-! ## Numbers -/

-- The parts of a number stop one after the other.
theorem stopsAtSpace_digits : StopsAtSpace (countWhile Char.isDigit) :=
  stopsAtSpace_countWhile fun _ => isDigit_of_isSpace

theorem stopsAtSpace_fractionLength : StopsAtSpace fractionLength := by
  intro s hs cs ds
  rcases cs with _ | ⟨c, cs⟩
  · exact fractionLength_of_ne (by rintro rfl; cases hs) ds
  · rw [List.cons_append]
    by_cases hc : c = '.'
    · rw [hc, fractionLength_dot, fractionLength_dot, stopsAtSpace_digits s hs]
    · rw [fractionLength_of_ne hc, fractionLength_of_ne hc]

theorem signLength_append_space {s : Char} (h : isSpace s) (cs ds : List Char) :
    signLength (cs ++ s :: ds) = signLength cs := by
  cases cs with
  | nil => rcases space_cases h with rfl | rfl | rfl | rfl | rfl <;> rfl
  | cons c cs => rfl

theorem stopsAtSpace_exponentLength : StopsAtSpace exponentLength := by
  intro s hs cs ds
  rcases cs with _ | ⟨c, cs⟩
  · rcases space_cases hs with rfl | rfl | rfl | rfl | rfl <;> rfl
  · have hsign : signLength cs ≤ cs.length :=
      Nat.le_trans (isLocal_signLength.le_line cs) (countWhile_le_length _ cs)
    have hdigits : countWhile Char.isDigit
        ((cs ++ s :: ds).drop (signLength (cs ++ s :: ds))) =
          countWhile Char.isDigit (cs.drop (signLength cs)) := by
      rw [signLength_append_space hs, List.drop_append_of_le_length hsign, stopsAtSpace_digits s hs]
    rw [List.cons_append, exponentLength_cons, exponentLength_cons, exponentTailLength,
      exponentTailLength, hdigits, signLength_append_space hs]

theorem stopsAtSpace_numberLength : StopsAtSpace numberLength := by
  have hlength : ∀ {count}, IsLocal count → ∀ cs : List Char, count cs ≤ cs.length :=
    fun hlocal cs => Nat.le_trans (hlocal.le_line cs) (countWhile_le_length _ cs)
  have h := stopsAtSpace_digits.seq
    (stopsAtSpace_fractionLength.seq stopsAtSpace_exponentLength (hlength isLocal_fractionLength))
    (hlength isLocal_digits)
  rwa [← funext numberLength_eq] at h

/-! ## Quoted texts -/

/-- A text in quotes that has been closed is the same whatever follows. -/
theorem quotedLength_append {quote : Char} {cs : List Char}
    (h : (quotedLength quote cs).closed = true) (ds : List Char) :
    quotedLength quote (cs ++ ds) = quotedLength quote cs := by
  fun_induction quotedLength quote cs with
  | case1 => cases h
  | case2 => cases h
  | case3 c cs hc ih =>
      rw [List.cons_append, List.cons_append, quotedLength, if_neg hc, ih h]
  | case4 => cases h
  | case5 cs _ hc =>
      simp only [Bool.or_eq_true, decide_eq_true_eq, not_or] at hc
      rw [List.cons_append, quotedLength_of_ne quote hc.2, if_neg hc.1, if_pos rfl]
  | case6 c cs _ hc hquote ih =>
      simp only [Bool.or_eq_true, decide_eq_true_eq, not_or] at hc
      rw [List.cons_append, quotedLength_of_ne quote hc.2, if_neg hc.1, if_neg hquote, ih h]

end Lexeme

open Lexeme

/-- A word that is neither a comment nor an error ends in front of a space. -/
theorem lexeme_append_space {c s : Char} {cs : List Char} (hspace : isSpace s)
    (hcomment : (lexeme c cs).1 ≠ .comment) (herror : (lexeme c cs).1 ≠ .error) (ds : List Char) :
    lexeme c (cs ++ s :: ds) = lexeme c cs := by
  -- A space passes no test of the second character, so each test has the outcome it had.
  have hhead : ∀ p : Char → Bool, p s = false →
      (cs ++ s :: ds).head?.any p = cs.head?.any p := fun p h => any_head?_append h cs ds
  have hslash : decide (s = '/') = false := by
    rcases space_cases hspace with rfl | rfl | rfl | rfl | rfl <;> rfl
  have hstart : isNameStart s = false := by
    rcases space_cases hspace with rfl | rfl | rfl | rfl | rfl <;> rfl
  have hlong : longOperators.contains (c, s) = false := by
    rcases space_cases hspace with rfl | rfl | rfl | rfl | rfl <;> simp [longOperators]
  unfold lexeme at hcomment herror ⊢
  simp only [head?_eq_some_iff_any, startsLongOperator_eq_any, Bool.decide_eq_true]
    at hcomment herror ⊢
  rw [hhead _ hslash, hhead _ hstart, hhead _ hlong]
  by_cases hc : c = '/' && cs.head?.any (· = '/')
  · rw [if_pos hc] at hcomment
    exact absurd rfl hcomment
  rw [if_neg hc] at herror ⊢
  rw [if_neg hc]
  by_cases hname : isNameStart c
  · rw [if_pos hname, if_pos hname, nameLength, nameLength, stopsAtSpace_nameTailLength _ s hspace]
  rw [if_neg hname] at herror ⊢
  rw [if_neg hname]
  by_cases hdigit : c.isDigit
  · rw [if_pos hdigit, if_pos hdigit, ← List.cons_append, stopsAtSpace_numberLength s hspace]
  rw [if_neg hdigit] at herror ⊢
  rw [if_neg hdigit]
  by_cases hvariable : c = '$' && cs.head?.any isNameStart
  · rw [if_pos hvariable, if_pos hvariable, variableLength, variableLength,
      stopsAtSpace_countWhile (fun _ => isNameChar_of_isSpace) s hspace]
  rw [if_neg hvariable] at herror ⊢
  rw [if_neg hvariable]
  by_cases hquote : c = '"' || c = '\''
  · rw [if_pos hquote] at herror
    -- A text that is not closed would be an error.
    have hclosed : (quotedLength c cs).closed = true :=
      Decidable.byContradiction fun hopen => herror (if_neg hopen)
    rw [if_pos hquote, if_pos hquote, quotedLength_append hclosed]
  · rw [if_neg hquote, if_neg hquote]

/-- A walk through words that are neither comments nor errors comes to a space
    behind them as it would come to the end of the text. -/
theorem tokenizeAt_append_space {place : Place} {cs : List Char} {s : Char} (hspace : isSpace s)
    (h : ∀ token ∈ tokenizeAt place cs, token.kind ≠ .comment ∧ token.kind ≠ .error)
    (ds : List Char) :
    tokenizeAt place (cs ++ s :: ds) =
      tokenizeAt place cs ++ tokenizeAt (place.after (cs ++ [s])) ds := by
  have hword : ∀ c rest, (lexeme c rest).1 ≠ .comment ∧ (lexeme c rest).1 ≠ .error →
      lexeme c (rest ++ s :: ds) = lexeme c rest :=
    fun c rest hkind => lexeme_append_space hspace hkind.1 hkind.2 ds
  rw [tokenizeAt_append (p := fun kind => kind ≠ .comment ∧ kind ≠ .error) hword h,
    tokenizeAt_space _ hspace, ← Place.after_append]

end StackScript
