import StackScript.Token.Lexeme

/-!
# How Far a Word Looks

Two facts about `lexeme` carry everything that is proved about reading words.

A word ends on its line: `lexeme_le_line` bounds its length by what is left of
the line. That it contains no line feed and that it takes no more than there is
are the same fact seen from the two ends.

A word does not depend on what stands behind it: `lexeme_take` says that the
text may be cut anywhere behind the word. Each kind of word is read by a
function that counts, and each of them looks one or two characters too far
before it gives up, so the cut has to leave a failed attempt a failure. A
number is the case to look at: `1.` and `1e+` are cut in the middle of an
attempt.

Together they say that a line feed is as good as the end of the text, which is
`lexeme_append_newline`.

## Main definitions

* `lineLength`: The characters left on a line.
* `IsLocal`: A count that stays on the line and does not mind a cut behind it.
* `Goes`: The reading of a name goes on over some characters.
* `exponentTailLength`: What an exponent counts behind its mark.
* `Reading`: How a word is read, by its first characters.

## Theorems

* `reading`: Every word is read in one of the ways.
* `countWhile_take`, `countWhile_drop`: Counting in a text that has been cut.
* `lexeme_le_line`: A word ends on its line.
* `lexeme_take`: A text may be cut behind its first word.
* `lexeme_append_newline`: A line feed is as good as the end of the text.
-/

namespace StackScript

namespace Lexeme

/-- The characters left on a line. -/
def lineLength (cs : List Char) : Nat :=
  countWhile (· ≠ '\n') cs

/-! ## Counting -/

/-- Counting stops at the first character that does not count. -/
theorem countWhile_cons (p : Char → Bool) (c : Char) (cs : List Char) :
    countWhile p (c :: cs) = if p c then countWhile p cs + 1 else 0 := by
  unfold countWhile
  rw [List.takeWhile_cons]
  split <;> rfl

/-- What one test lets pass, a weaker test lets pass as well. -/
theorem countWhile_le_of_imp {p q : Char → Bool} (h : ∀ c, p c → q c) (cs : List Char) :
    countWhile p cs ≤ countWhile q cs := by
  induction cs with
  | nil => exact Nat.le_refl 0
  | cons c cs ih =>
      rw [countWhile_cons, countWhile_cons]
      by_cases hp : p c
      · rw [if_pos hp, if_pos (h c hp)]
        omega
      · rw [if_neg hp]
        exact Nat.zero_le _

/-- A cut behind the count does not change it, a cut in front of it is the new
    count. -/
theorem countWhile_take (p : Char → Bool) (n : Nat) (cs : List Char) :
    countWhile p (cs.take n) = min n (countWhile p cs) := by
  induction cs generalizing n with
  | nil =>
      rw [List.take_nil]
      exact (Nat.min_zero n).symm
  | cons c cs ih =>
      cases n with
      | zero => exact (Nat.zero_min _).symm
      | succ n =>
          rw [List.take_succ_cons, countWhile_cons, countWhile_cons]
          by_cases hp : p c
          · rw [if_pos hp, if_pos hp, ih]
            omega
          · rw [if_neg hp, if_neg hp, Nat.min_zero]

/-- What has been counted may be dropped and counted apart. -/
theorem countWhile_drop (p : Char → Bool) {n : Nat} {cs : List Char}
    (h : n ≤ countWhile p cs) : countWhile p cs = n + countWhile p (cs.drop n) := by
  induction cs generalizing n with
  | nil =>
      have hn : n = 0 := Nat.le_zero.mp h
      rw [hn]
      rfl
  | cons c cs ih =>
      cases n with
      | zero => rw [List.drop_zero, Nat.zero_add]
      | succ n =>
          rw [countWhile_cons] at h ⊢
          -- The count is at least as large as what is dropped.
          by_cases hp : p c
          · rw [if_pos hp] at h ⊢
            rw [List.drop_succ_cons, ih (Nat.le_of_succ_le_succ h)]
            omega
          · rw [if_neg hp] at h
            omega

theorem countWhile_le_length (p : Char → Bool) (cs : List Char) :
    countWhile p cs ≤ cs.length :=
  (List.takeWhile_sublist p).length_le

/-! ## The line -/

/-- The line ends at the line feed. -/
theorem lineLength_cons (c : Char) (cs : List Char) :
    lineLength (c :: cs) = if c = '\n' then 0 else lineLength cs + 1 := by
  unfold lineLength
  rw [countWhile_cons]
  by_cases h : c = '\n'
  · rw [h]
    rfl
  · rw [if_neg h, if_pos (by simpa using h)]

theorem lineLength_drop {n : Nat} {cs : List Char} (h : n ≤ lineLength cs) :
    lineLength cs = n + lineLength (cs.drop n) :=
  countWhile_drop _ h

/-- A count of characters that are no line feeds stays on the line. -/
theorem countWhile_le_line {p : Char → Bool} (h : p '\n' = false) (cs : List Char) :
    countWhile p cs ≤ lineLength cs := by
  refine countWhile_le_of_imp (fun c hc => ?_) cs
  rw [decide_eq_true_iff]
  rintro rfl
  rw [h] at hc
  exact Bool.false_ne_true hc

/-- What is left of the line has none. -/
theorem newline_notMem_take {n : Nat} {cs : List Char} (h : n ≤ lineLength cs) :
    '\n' ∉ cs.take n := by
  induction cs generalizing n with
  | nil =>
      rw [List.take_nil]
      exact List.not_mem_nil
  | cons c cs ih =>
      cases n with
      | zero => exact List.not_mem_nil
      | succ n =>
          rw [lineLength_cons] at h
          -- A line feed in front would leave nothing to take.
          by_cases hc : c = '\n'
          · rw [if_pos hc] at h
            omega
          · rw [if_neg hc] at h
            rw [List.take_succ_cons, List.mem_cons]
            rintro (heq | hmem)
            · exact hc heq.symm
            · exact ih (Nat.le_of_succ_le_succ h) hmem

/-! ## Counters -/

/-- A function that counts characters from the front of a text, stays on the
    line, and does not mind a cut behind what it has counted. -/
structure IsLocal (count : List Char → Nat) : Prop where
  /-- The count stays on the line. -/
  le_line : ∀ cs, count cs ≤ lineLength cs
  /-- A cut behind the count does not change it. -/
  take : ∀ n cs, count cs ≤ n → count (cs.take n) = count cs

/-- A line feed is no character of a word. -/
theorem isLocal_countWhile {p : Char → Bool} (h : p '\n' = false) : IsLocal (countWhile p) where
  le_line := countWhile_le_line h
  take n cs hn := by
    rw [countWhile_take]
    omega

/-- Two counters one after the other make a counter. -/
theorem IsLocal.seq {f g : List Char → Nat} (hf : IsLocal f) (hg : IsLocal g) :
    IsLocal fun cs => f cs + g (cs.drop (f cs)) where
  le_line cs := by
    rw [lineLength_drop (hf.le_line cs)]
    exact Nat.add_le_add_left (hg.le_line _) _
  take n cs hn := by
    have hfn : f cs ≤ n := by omega
    rw [hf.take n cs hfn, List.drop_take, hg.take _ _ (by omega)]

theorem NameState.step_newline (state : NameState) : state.step '\n' = none := by
  cases state <;> rfl

theorem nameTailLength_le_line (state : NameState) (cs : List Char) :
    nameTailLength state cs ≤ lineLength cs := by
  induction cs generalizing state with
  | nil => exact Nat.le_refl 0
  | cons c cs ih =>
      rw [nameTailLength]
      cases hstep : state.step c with
      | none => exact Nat.zero_le _
      | some next =>
          have hc : c ≠ '\n' := by
            rintro rfl
            rw [NameState.step_newline] at hstep
            cases hstep
          rw [lineLength_cons, if_neg hc]
          exact Nat.succ_le_succ (ih next)

/-- The end of a name is not changed by what is cut off behind it. -/
theorem nameTailLength_take {state : NameState} {n : Nat} {cs : List Char}
    (h : nameTailLength state cs ≤ n) :
    nameTailLength state (cs.take n) = nameTailLength state cs := by
  induction cs generalizing state n with
  | nil => rw [List.take_nil]
  | cons c cs ih =>
      cases n with
      | zero => exact (Nat.le_zero.mp h).symm
      | succ n =>
          rw [nameTailLength] at h
          rw [List.take_succ_cons, nameTailLength, nameTailLength]
          cases hstep : state.step c with
          | none => rfl
          | some next =>
              rw [hstep] at h
              exact congrArg (· + 1) (ih (Nat.le_of_succ_le_succ h))

/-- The reading of a name goes on over some characters from one state to another. -/
def Goes (state : NameState) (cs : List Char) (next : NameState) : Prop :=
  ∀ rest, nameTailLength state (cs ++ rest) = cs.length + nameTailLength next rest

-- The reader of names goes from state to state.
theorem goes_nil (state : NameState) : Goes state [] state :=
  fun _ => (Nat.zero_add _).symm

theorem Goes.cons {state between next : NameState} {c : Char} {cs : List Char}
    (hstep : state.step c = some between) (h : Goes between cs next) :
    Goes state (c :: cs) next := by
  intro rest
  rw [List.cons_append, nameTailLength, hstep]
  dsimp only
  rw [h rest, List.length_cons]
  omega

theorem Goes.append {state between next : NameState} {cs ds : List Char}
    (hcs : Goes state cs between) (hds : Goes between ds next) : Goes state (cs ++ ds) next := by
  intro rest
  rw [List.append_assoc, hcs, hds, List.length_append, Nat.add_assoc]

/-- Inside of a segment it stays in its state. -/
theorem goes_chars {cs : List Char} (h : ∀ c ∈ cs, isNameChar c) :
    Goes .segment cs .segment := by
  induction cs with
  | nil => exact goes_nil _
  | cons c cs ih =>
      rw [List.forall_mem_cons] at h
      exact (ih h.2).cons (if_pos h.1)

/-! ## Numbers -/

theorem isLocal_digits : IsLocal (countWhile Char.isDigit) :=
  isLocal_countWhile rfl

/-- A fraction begins with a dot and has a digit. -/
theorem fractionLength_of_ne {c : Char} (h : c ≠ '.') (cs : List Char) :
    fractionLength (c :: cs) = 0 := by
  unfold fractionLength
  split
  · next heq => exact absurd (List.cons.inj heq).1 h
  · rfl

theorem fractionLength_dot (cs : List Char) :
    fractionLength ('.' :: cs) =
      if countWhile Char.isDigit cs = 0 then 0 else countWhile Char.isDigit cs + 1 := by
  rw [fractionLength]
  split
  · next h => rw [if_pos h]
  · next n h => rw [h, if_neg (Nat.succ_ne_zero n)]

/-- A point without digits behind it counts for nothing, and a cut leaves it without digits. -/
theorem isLocal_fractionLength : IsLocal fractionLength where
  le_line cs := by
    cases cs with
    | nil => exact Nat.le_refl 0
    | cons c cs =>
        -- The dot may be all that is left by the cut, and then there is no fraction.
        by_cases hc : c = '.'
        · rw [hc, fractionLength_dot, lineLength_cons, if_neg (by decide : '.' ≠ '\n')]
          have hdigits := isLocal_digits.le_line cs
          split <;> omega
        · rw [fractionLength_of_ne hc]
          exact Nat.zero_le _
  take n cs hn := by
    cases cs with
    | nil => rw [List.take_nil]
    | cons c cs =>
        cases n with
        | zero => exact (Nat.le_zero.mp hn).symm
        | succ n =>
            rw [List.take_succ_cons]
            by_cases hc : c = '.'
            · rw [hc, fractionLength_dot] at hn
              rw [hc, fractionLength_dot, fractionLength_dot, countWhile_take]
              split at hn
              · next h => rw [h, Nat.min_zero]
              · next h => rw [Nat.min_eq_right (Nat.le_of_succ_le_succ hn)]
            · rw [fractionLength_of_ne hc, fractionLength_of_ne hc]

/-- A sign is one character. -/
theorem isLocal_signLength : IsLocal signLength where
  le_line cs := by
    cases cs with
    | nil => exact Nat.le_refl 0
    | cons c cs =>
        rw [signLength, lineLength_cons]
        by_cases hc : c = '\n'
        · rw [hc]
          exact Nat.le_refl 0
        · rw [if_neg hc]
          split <;> omega
  take n cs hn := by
    cases cs with
    | nil => rw [List.take_nil]
    | cons c cs =>
        cases n with
        | zero => exact (Nat.le_zero.mp hn).symm
        | succ n => rfl

/-- What an exponent counts behind its mark. -/
def exponentTailLength (cs : List Char) : Nat :=
  signLength cs + countWhile Char.isDigit (cs.drop (signLength cs))

theorem isLocal_exponentTailLength : IsLocal exponentTailLength :=
  isLocal_signLength.seq isLocal_digits

theorem exponentLength_cons (c : Char) (cs : List Char) :
    exponentLength (c :: cs) =
      if (c = 'e' || c = 'E') ∧ countWhile Char.isDigit (cs.drop (signLength cs)) ≠ 0 then
        exponentTailLength cs + 1
      else 0 := by
  rw [exponentLength, exponentTailLength]
  by_cases hc : c = 'e' || c = 'E'
  · rw [if_pos (by simpa using hc)]
    split
    · next h => rw [if_neg (by simp only [h]; simp)]
    · next n h =>
        rw [if_pos ⟨hc, by omega⟩, h]
        omega
  · rw [if_neg (by simpa using hc), if_neg (fun h => hc h.1)]

/-- Where no digits stand behind the sign, a cut brings none about. -/
theorem exponentDigits_take {cs : List Char}
    (h : countWhile Char.isDigit (cs.drop (signLength cs)) = 0) (n : Nat) :
    countWhile Char.isDigit ((cs.take n).drop (signLength (cs.take n))) = 0 := by
  cases n with
  | zero => rfl
  | succ n =>
      have hsign : signLength cs ≤ n + 1 := by
        cases cs with
        | nil => exact Nat.zero_le _
        | cons d ds =>
            rw [signLength]
            split <;> omega
      rw [isLocal_signLength.take _ _ hsign, List.drop_take, countWhile_take, h, Nat.min_zero]

/-- A mark without digits behind it and its sign counts for nothing, and a cut leaves it
    without digits. -/
theorem isLocal_exponentLength : IsLocal exponentLength where
  le_line cs := by
    cases cs with
    | nil => exact Nat.le_refl 0
    | cons c cs =>
        rw [exponentLength_cons, lineLength_cons]
        split
        · next h =>
          have hc : c ≠ '\n' := by
            rintro rfl
            exact absurd h.1 (by decide)
          rw [if_neg hc]
          exact Nat.succ_le_succ (isLocal_exponentTailLength.le_line cs)
        · exact Nat.zero_le _
  take n cs hn := by
    cases cs with
    | nil => rw [List.take_nil]
    | cons c cs =>
        cases n with
        | zero => exact (Nat.le_zero.mp hn).symm
        | succ n =>
            rw [List.take_succ_cons, exponentLength_cons c cs]
            rw [exponentLength_cons] at hn
            -- An exponent without digits is none, and cutting gives it no digits.
            by_cases h : (c = 'e' || c = 'E') ∧
                countWhile Char.isDigit (cs.drop (signLength cs)) ≠ 0
            · rw [if_pos h] at hn ⊢
              have htail : exponentTailLength cs ≤ n := Nat.le_of_succ_le_succ hn
              have hsign : signLength cs ≤ n := Nat.le_trans (Nat.le_add_right _ _) htail
              have hdigits : countWhile Char.isDigit (cs.drop (signLength cs)) ≤
                  n - signLength cs := by
                rw [exponentTailLength] at htail
                omega
              rw [exponentLength_cons, isLocal_exponentTailLength.take n cs htail,
                isLocal_signLength.take n cs hsign, List.drop_take,
                isLocal_digits.take _ _ hdigits, if_pos h]
            · rw [if_neg h, exponentLength_cons, if_neg]
              rintro ⟨hc, hcut⟩
              exact h ⟨hc, fun hdigits => hcut (exponentDigits_take hdigits n)⟩

/-- A number is counted part by part, each behind the one before. -/
theorem numberLength_eq (cs : List Char) :
    numberLength cs = countWhile Char.isDigit cs +
      (fractionLength (cs.drop (countWhile Char.isDigit cs)) +
        exponentLength ((cs.drop (countWhile Char.isDigit cs)).drop
          (fractionLength (cs.drop (countWhile Char.isDigit cs))))) := by
  rw [numberLength, List.drop_drop, Nat.add_assoc]

/-- A number is local as its parts are. -/
theorem isLocal_numberLength : IsLocal numberLength := by
  have h := isLocal_digits.seq (isLocal_fractionLength.seq isLocal_exponentLength)
  rwa [← funext numberLength_eq] at h

/-! ## Quoted texts -/

/-- Only a backslash takes another character along. -/
theorem quotedLength_of_ne (quote : Char) {c : Char} (h : c ≠ '\\') (cs : List Char) :
    quotedLength quote (c :: cs) =
      if c = '\n' then ⟨false, 0⟩
      else if c = quote then ⟨true, 1⟩
      else (quotedLength quote cs).shift 1 := by
  rw [quotedLength]
  · simp only [h, decide_false, Bool.or_false, decide_eq_true_eq]
  · rintro d ds rfl
    exact absurd rfl h

/-- A text in quotes ends on its line, closed or not. -/
theorem quotedLength_le_line (quote : Char) (cs : List Char) :
    (quotedLength quote cs).length ≤ lineLength cs := by
  fun_induction quotedLength quote cs with
  | case1 => exact Nat.le_refl 0
  | case2 => exact Nat.zero_le _
  | case3 c cs h ih =>
      rw [lineLength_cons, lineLength_cons, if_neg (by decide : '\\' ≠ '\n'), if_neg h]
      exact Nat.add_le_add_right ih 2
  | case4 => exact Nat.zero_le _
  | case5 cs _ h =>
      rw [lineLength_cons, if_neg (by simp at h; exact h.1)]
      exact Nat.succ_le_succ (Nat.zero_le _)
  | case6 c cs _ h _ ih =>
      rw [lineLength_cons, if_neg (by simp at h; exact h.1)]
      exact Nat.succ_le_succ ih

/-- A text that is not closed ends at a line feed, at a backslash in front of one or at the
    end, and a cut there ends it as well. -/
theorem quotedLength_take {quote : Char} {n : Nat} {cs : List Char}
    (h : (quotedLength quote cs).length ≤ n) :
    quotedLength quote (cs.take n) = quotedLength quote cs := by
  fun_induction quotedLength quote cs generalizing n with
  | case1 => rw [List.take_nil, quotedLength]
  | case2 cs =>
      match n with
      | 0 => rfl
      | 1 => rfl
      | n + 2 => rfl
  -- A pair is taken as a whole, and the cut is behind it.
  | case3 c cs hc ih =>
      rcases Nat.exists_eq_add_of_le' (Nat.le_of_add_left_le h) with ⟨m, rfl⟩
      rw [List.take_succ_cons, List.take_succ_cons, quotedLength, if_neg hc,
        ih (Nat.le_of_add_le_add_right h)]
  | case4 c cs hend hc =>
      cases n with
      | zero => rfl
      | succ n =>
          rw [List.take_succ_cons]
          by_cases hslash : c = '\\'
          · -- A backslash that takes nothing with it stands at the very end.
            cases cs with
            | nil =>
                rw [List.take_nil, hslash]
                rfl
            | cons d ds => exact (hend d ds hslash rfl).elim
          · have hfeed : c = '\n' := by simpa [hslash] using hc
            rw [quotedLength_of_ne quote hslash, if_pos hfeed]
  | case5 cs _ hc =>
      rcases Nat.exists_eq_add_of_le' h with ⟨m, rfl⟩
      simp only [Bool.or_eq_true, decide_eq_true_eq, not_or] at hc
      rw [List.take_succ_cons, quotedLength_of_ne quote hc.2, if_neg hc.1, if_pos rfl]
  | case6 c cs _ hc hquote ih =>
      rcases Nat.exists_eq_add_of_le' (Nat.le_of_add_left_le h) with ⟨m, rfl⟩
      simp only [Bool.or_eq_true, decide_eq_true_eq, not_or] at hc
      rw [List.take_succ_cons, quotedLength_of_ne quote hc.2, if_neg hc.1, if_neg hquote,
        ih (Nat.le_of_add_le_add_right h)]

end Lexeme

open Lexeme

/-! ## The first characters -/

-- One equation for each thing that a word can begin with.
theorem lexeme_slashes (cs : List Char) :
    lexeme '/' ('/' :: cs) = (.comment, countWhile (· ≠ '\n') ('/' :: cs) + 1) :=
  if_pos rfl

/-- The first character says which counter is used. -/
theorem lexeme_nameStart {c : Char} (h : isNameStart c) (cs : List Char) :
    lexeme c cs = (.ident, nameLength cs) := by
  have hslash : c ≠ '/' := by
    rintro rfl
    cases h
  rw [lexeme, if_neg (by simp [hslash]), if_pos h]

/-- Digits stand in front of all letters. -/
theorem not_isNameStart_of_isDigit {c : Char} (h : c.isDigit) : ¬ isNameStart c := by
  have hdigit : c.val ≤ 57 := of_decide_eq_true (Bool.and_eq_true_iff.mp h).2
  have hbelow : ∀ first : UInt32, 57 < first → ¬ c.val ≥ first := fun first hfirst hge =>
    absurd (UInt32.le_trans hge hdigit) (UInt32.not_le.mpr hfirst)
  intro hstart
  rcases Bool.or_eq_true_iff.mp hstart with halpha | hunderscore
  · rcases Bool.or_eq_true_iff.mp halpha with hupper | hlower
    · exact hbelow 65 (by decide) (of_decide_eq_true hupper).1
    · exact hbelow 97 (by decide) (of_decide_eq_true (Bool.and_eq_true_iff.mp hlower).1)
  · rw [of_decide_eq_true hunderscore] at hdigit
    exact absurd hdigit (by decide)

theorem lexeme_digit {c : Char} (h : c.isDigit) (cs : List Char) :
    lexeme c cs = (.number, numberLength (c :: cs)) := by
  have hslash : c ≠ '/' := by
    rintro rfl
    cases h
  rw [lexeme, if_neg (by simp [hslash]), if_neg (not_isNameStart_of_isDigit h), if_pos h]

theorem lexeme_dollar {d : Char} (h : isNameStart d) (cs : List Char) :
    lexeme '$' (d :: cs) = (.variable, variableLength (d :: cs) + 1) := by
  rw [lexeme, if_neg (by simp), if_neg (by decide), if_neg (by decide), if_pos (by simpa using h)]

theorem lexeme_quote {c : Char} (h : c = '"' ∨ c = '\'') (cs : List Char) :
    lexeme c cs = (if (quotedLength c cs).closed then .string else .error,
      (quotedLength c cs).length + 1) := by
  rcases h with rfl | rfl
  · rw [lexeme, if_neg (by simp), if_neg (by decide), if_neg (by decide), if_neg (by simp),
      if_pos (by decide)]
  · rw [lexeme, if_neg (by simp), if_neg (by decide), if_neg (by decide), if_neg (by simp),
      if_pos (by decide)]

/-- How a word is read, by its first characters. -/
inductive Lexeme.Reading : Char → List Char → Prop where
  | comment (cs : List Char) : Reading '/' ('/' :: cs)
  | name {c : Char} {cs : List Char} (h : isNameStart c) : Reading c cs
  | number {c : Char} {cs : List Char} (h : c.isDigit) : Reading c cs
  | variableName {d : Char} (cs : List Char) (h : isNameStart d) : Reading '$' (d :: cs)
  | quoted {c : Char} {cs : List Char} (h : c = '"' ∨ c = '\'') : Reading c cs
  | longOperator {c : Char} {cs : List Char} (h : startsLongOperator c cs)
      (hlexeme : lexeme c cs = (.operator, 2)) : Reading c cs
  | sign {c : Char} {cs : List Char} (h : ¬ startsLongOperator c cs)
      (hquote : ¬ (c = '"' ∨ c = '\'')) (hlexeme : lexeme c cs = (signKind c, 1)) : Reading c cs

/-- Every word is read in one of these ways. -/
theorem Lexeme.reading (c : Char) (cs : List Char) : Reading c cs := by
  by_cases hcomment : c = '/' && cs.head? = some '/'
  · simp only [Bool.and_eq_true, decide_eq_true_eq, List.head?_eq_some_iff] at hcomment
    rcases hcomment with ⟨rfl, ds, rfl⟩
    exact .comment ds
  -- The tests come in the order in which the reader makes them.
  by_cases hstart : isNameStart c
  · exact .name hstart
  by_cases hdigit : c.isDigit
  · exact .number hdigit
  by_cases hvariable : c = '$' && cs.head?.any isNameStart
  · cases cs with
    | nil => simp at hvariable
    | cons d ds =>
        have hparts : c = '$' ∧ isNameStart d := by simpa using hvariable
        rw [hparts.1]
        exact .variableName ds hparts.2
  by_cases hquote : c = '"' || c = '\''
  · exact .quoted (by simpa using hquote)
  by_cases hlong : startsLongOperator c cs
  · refine .longOperator hlong ?_
    rw [lexeme, if_neg hcomment, if_neg hstart, if_neg hdigit, if_neg hvariable, if_neg hquote,
      if_pos hlong]
  · refine .sign hlong (by simpa using hquote) ?_
    rw [lexeme, if_neg hcomment, if_neg hstart, if_neg hdigit, if_neg hvariable, if_neg hquote,
      if_neg hlong]

/-! ## Words -/

/-- A word ends on its line. -/
theorem lexeme_le_line (c : Char) (cs : List Char) : (lexeme c cs).2 ≤ lineLength cs + 1 := by
  -- Each counter stays on the line, and so does a sign of one character or two.
  cases reading c cs with
  | comment cs =>
      rw [lexeme_slashes]
      exact Nat.le_refl _
  | name h =>
      rw [lexeme_nameStart h]
      exact Nat.succ_le_succ (nameTailLength_le_line _ cs)
  | number h =>
      have hc : c ≠ '\n' := by
        rintro rfl
        exact absurd h (by decide)
      have hline := isLocal_numberLength.le_line (c :: cs)
      rw [lexeme_digit h]
      rwa [lineLength_cons, if_neg hc] at hline
  | variableName cs h =>
      rw [lexeme_dollar h]
      exact Nat.succ_le_succ (countWhile_le_line rfl _)
  | quoted h =>
      rw [lexeme_quote h]
      exact Nat.succ_le_succ (quotedLength_le_line c cs)
  | longOperator h hlexeme =>
      cases cs with
      | nil => exact absurd h Bool.false_ne_true
      | cons d ds =>
          have hd : d ≠ '\n' := by
            rintro rfl
            simp [startsLongOperator, longOperators] at h
          rw [hlexeme, lineLength_cons, if_neg hd]
          omega
  | sign _ _ hlexeme =>
      rw [hlexeme]
      exact Nat.succ_le_succ (Nat.zero_le _)

/-- A word takes no more than there is. -/
theorem lexeme_le_length (c : Char) (cs : List Char) : (lexeme c cs).2 - 1 ≤ cs.length := by
  have hline := lexeme_le_line c cs
  have hlength := countWhile_le_length (· ≠ '\n') cs
  rw [lineLength] at hline
  omega

/-- What holds of the first character of a text that has been cut held before the cut. -/
theorem any_head?_of_take {p : Char → Bool} {n : Nat} {cs : List Char}
    (h : (cs.take n).head?.any p) : cs.head?.any p := by
  cases n with
  | zero => exact absurd h Bool.false_ne_true
  | succ n => rwa [List.head?_take, if_neg (Nat.succ_ne_zero n)] at h

theorem and_any_head?_of_take {b : Bool} {p : Char → Bool} {n : Nat} {cs : List Char}
    (h : b && (cs.take n).head?.any p) : b && cs.head?.any p := by
  rw [Bool.and_eq_true_iff] at h ⊢
  exact ⟨h.1, any_head?_of_take h.2⟩

/-- Where the first character is counted, a cut behind the count leaves it, and so it leaves
    every test that looks at no more than that character. -/
theorem countWhile_take_of_head {p q : Char → Bool} {n : Nat} {cs : List Char}
    (hqp : ∀ c, q c → p c) (hfirst : cs.head?.any q) (h : countWhile p cs ≤ n) :
    (cs.take n).head? = cs.head? ∧ countWhile p (cs.take n) = countWhile p cs := by
  cases cs with
  | nil => exact absurd hfirst Bool.false_ne_true
  | cons c cs =>
      have hc : p c := hqp c hfirst
      have hn : n ≠ 0 := by
        rw [countWhile_cons, if_pos hc] at h
        omega
      constructor
      · rw [List.head?_take, if_neg hn]
      · rw [countWhile_take, Nat.min_eq_right h]

/-- What begins a name may go on with it. -/
theorem isNameChar_of_isNameStart {c : Char} (h : isNameStart c) : isNameChar c := by
  simp only [isNameStart, isNameChar, Char.isAlphanum, Bool.or_eq_true] at h ⊢
  rcases h with h | h
  · exact Or.inl (Or.inl h)
  · exact Or.inr h

-- The tests of the second character in one form.
theorem head?_eq_some_iff_any (d : Char) (cs : List Char) :
    cs.head? = some d ↔ cs.head?.any (· = d) := by
  cases cs <;> simp

theorem startsLongOperator_eq_any (c : Char) (cs : List Char) :
    startsLongOperator c cs = cs.head?.any fun d => longOperators.contains (c, d) := by
  cases cs <;> rfl

/-- A text may be cut anywhere behind its first word. The kinds are tried one
    after the other, and a kind that does not fit looks at one character at
    most, which the cut leaves alone or takes away. -/
theorem lexeme_take {c : Char} {cs : List Char} {n : Nat} (h : (lexeme c cs).2 ≤ n + 1) :
    lexeme c (cs.take n) = lexeme c cs := by
  unfold lexeme at h ⊢
  -- Every test now reads the first character behind `c`, or nothing.
  simp only [head?_eq_some_iff_any, startsLongOperator_eq_any, Bool.decide_eq_true] at h ⊢
  by_cases hcomment : c = '/' && cs.head?.any (· = '/')
  · rw [if_pos hcomment] at h ⊢
    have hfirst := (Bool.and_eq_true_iff.mp hcomment).2
    have hslash : ∀ d : Char, decide (d = '/') → decide (d ≠ '\n') := by
      intro d hd
      rw [of_decide_eq_true hd]
      rfl
    -- The second slash is part of the word, so the cut is behind it.
    have hcut := countWhile_take_of_head hslash hfirst (Nat.le_of_succ_le_succ h)
    rw [hcut.1, if_pos hcomment, hcut.2]
  rw [if_neg hcomment] at h ⊢
  rw [if_neg (fun hcut => hcomment (and_any_head?_of_take hcut))]
  by_cases hname : isNameStart c
  · rw [if_pos hname] at h ⊢
    rw [if_pos hname, nameLength, nameTailLength_take (Nat.le_of_succ_le_succ h)]
    rfl
  rw [if_neg hname] at h ⊢
  rw [if_neg hname]
  by_cases hdigit : c.isDigit
  · rw [if_pos hdigit] at h ⊢
    rw [if_pos hdigit, ← List.take_succ_cons, isLocal_numberLength.take _ _ h]
  rw [if_neg hdigit] at h ⊢
  rw [if_neg hdigit]
  by_cases hvariable : c = '$' && cs.head?.any isNameStart
  · rw [if_pos hvariable] at h ⊢
    have hfirst := (Bool.and_eq_true_iff.mp hvariable).2
    have hcut := countWhile_take_of_head (fun _ => isNameChar_of_isNameStart) hfirst
      (Nat.le_of_succ_le_succ h)
    rw [hcut.1, if_pos hvariable, variableLength, variableLength, hcut.2]
  rw [if_neg hvariable] at h ⊢
  rw [if_neg (fun hcut => hvariable (and_any_head?_of_take hcut))]
  by_cases hquote : c = '"' || c = '\''
  · rw [if_pos hquote] at h ⊢
    rw [if_pos hquote, quotedLength_take (Nat.le_of_succ_le_succ h)]
  rw [if_neg hquote] at h ⊢
  rw [if_neg hquote]
  by_cases hlong : cs.head?.any fun d => longOperators.contains (c, d)
  · rw [if_pos hlong] at h ⊢
    have hn : n ≠ 0 := by
      rintro rfl
      exact absurd h (by decide)
    rw [List.head?_take, if_neg hn, if_pos hlong]
  · -- No test that failed on the whole succeeds on a part.
    rw [if_neg hlong, if_neg (fun hcut => hlong (any_head?_of_take hcut))]

/-- A line feed is as good as the end of the text. -/
theorem lexeme_append_newline (c : Char) (cs ds : List Char) :
    lexeme c (cs ++ '\n' :: ds) = lexeme c cs := by
  have hline : lineLength (cs ++ '\n' :: ds) ≤ cs.length := by
    induction cs with
    | nil => exact Nat.le_refl 0
    | cons d cs ih =>
        rw [List.cons_append, lineLength_cons, List.length_cons]
        split <;> omega
  have hword : (lexeme c (cs ++ '\n' :: ds)).2 ≤ cs.length + 1 :=
    Nat.le_trans (lexeme_le_line c _) (Nat.succ_le_succ hline)
  rw [← lexeme_take hword, List.take_left]

end StackScript
