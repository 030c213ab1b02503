import StackScript.Proofs.Token.Munch

/-!
# Closing Quotes

Where a text in quotes ends is decided twice. The reader of words goes forward, takes each
backslash together with the character behind it, and stops at the first quote that is left
over. Whoever takes the quotes off looks at the end only: a quote there closes the text
unless an odd run of backslashes stands in front of it.

A run of backslashes tells nothing of where the pairs begin, so the two agree only because
of what the reader of words has passed. It has passed whole characters and whole pairs, and
behind these a run of backslashes is even: it belongs to pairs of two backslashes, and what
stands in front of it ends no pair with a backslash left over. At the end of a text without
its closing quote there may still be a quote. It is the second half of a pair, so the run in
front of it is odd, and it stays.

## Main definitions

* `Text.StandsFor`: The inside of quotes and the text that it stands for.
* `Token.EndsAlike`: The two readers agree on the end of a token in quotes.

## Theorems

* `Text.StandsFor.unique`: The inside of quotes stands for one text only.
* `Text.escapesNext_of_mem`: Whole characters and pairs end in an even run of backslashes.
* `Text.dropClosing_of_mem`: The closing quote of a text, seen from the back.
* `Text.dropClosing_unfinished`: A text without its closing quote keeps its end.
* `quotes_endAlike`: The two readers agree on every token.
-/

namespace StackScript

open scoped Computability

namespace Text

/-- The inside of quotes and the text that it stands for. A character stands for itself,
    unless it is the quote or a backslash; a backslash stands with the next character for
    what it makes of that one. -/
inductive StandsFor (quote : Char) : List Char → List Char → Prop where
  | nil : StandsFor quote [] []
  | plain {c : Char} {inside text : List Char} (hquote : c ≠ quote) (hslash : c ≠ '\\')
      (h : StandsFor quote inside text) : StandsFor quote (c :: inside) (c :: text)
  | escape (c : Char) {inside text : List Char} (h : StandsFor quote inside text) :
      StandsFor quote ('\\' :: c :: inside) (escaped c :: text)

variable {quote : Char} {inside : List Char}

/-- The inside of quotes stands for one text only. -/
theorem StandsFor.unique {text other : List Char} (h : StandsFor quote inside text)
    (hother : StandsFor quote inside other) : text = other := by
  induction h generalizing other with
  | nil =>
      cases hother
      rfl
  | plain _ hslash _ ih =>
      cases hother with
      | plain _ _ hother => rw [ih hother]
      | escape _ _ => exact absurd rfl hslash
  | escape _ _ ih =>
      cases hother with
      | plain _ hslash _ => exact absurd rfl hslash
      | escape _ hother => rw [ih hother]

/-- Whole characters and pairs stand for the text with its escapes resolved. -/
theorem standsFor_unescape (h : inside ∈ Rule.quotedChars quote) :
    StandsFor quote inside (unescape inside) := by
  refine Rule.kstar_induction (motive := fun w => StandsFor quote w (unescape w)) .nil ?_ inside h
  rintro piece (⟨c, hc, rfl⟩ | hescape) v hv
  · have hplain : c ≠ quote ∧ c ≠ '\\' ∧ c ≠ '\n' := by simpa [and_assoc] using hc
    rw [List.singleton_append, unescape_of_ne hplain.2.1]
    exact .plain hplain.1 hplain.2.1 hv
  · rcases Rule.mem_only_mul.mp hescape with ⟨-, ⟨c, -, rfl⟩, rfl⟩
    exact .escape c hv

/-- The inside of quotes ends with nothing, with a character or with a pair. -/
theorem quotedChars_cases (h : inside ∈ Rule.quotedChars quote) :
    inside = [] ∨ ∃ front ∈ Rule.quotedChars quote,
      (∃ c, c ≠ quote ∧ c ≠ '\\' ∧ inside = front ++ [c]) ∨
        ∃ c, inside = front ++ ['\\', c] := by
  rw [Rule.quotedChars, ← Language.one_add_kstar_mul_self_eq_kstar] at h
  rcases h with h | ⟨front, hfront, piece, ⟨c, hc, rfl⟩ | hescape, rfl⟩
  · exact Or.inl h
  · have hplain : c ≠ quote ∧ c ≠ '\\' ∧ c ≠ '\n' := by simpa [and_assoc] using hc
    exact Or.inr ⟨front, hfront, Or.inl ⟨c, hplain.1, hplain.2.1, rfl⟩⟩
  · rcases Rule.mem_only_mul.mp hescape with ⟨-, ⟨c, -, rfl⟩, rfl⟩
    exact Or.inr ⟨front, hfront, Or.inr ⟨c, rfl⟩⟩

/-- Whole characters and pairs end in an even run of backslashes. -/
theorem escapesNext_of_mem (h : inside ∈ Rule.quotedChars quote) :
    escapesNext inside.reverse = false := by
  induction hn : inside.length using Nat.strong_induction_on generalizing inside with
  | _ n ih =>
      subst hn
      rcases quotedChars_cases h with rfl | ⟨front, hfront, ⟨c, -, hslash, rfl⟩ | ⟨c, rfl⟩⟩
      · rfl
      · rw [List.reverse_append, List.reverse_singleton, List.singleton_append,
          escapesNext_of_ne hslash]
      · have hrun := ih front.length (by rw [List.length_append]; simp) hfront rfl
        rw [List.reverse_append]
        exact escapesNext_pair c hrun

/-- The quote behind whole characters and pairs is a closing one. -/
theorem dropClosing_of_mem (h : inside ∈ Rule.quotedChars quote) :
    dropClosing quote (inside ++ [quote]) = inside :=
  dropClosing_concat (escapesNext_of_mem h)

/-- A quote at the end of whole characters and pairs is the second half of a pair, and
    closes nothing. -/
theorem dropClosing_unfinished (h : inside ∈ Rule.quotedChars quote) :
    dropClosing quote inside = inside := by
  rcases quotedChars_cases h with rfl | ⟨front, hfront, ⟨c, hquote, -, rfl⟩ | ⟨c, rfl⟩⟩
  · rfl
  · unfold dropClosing
    rw [List.reverse_append, List.reverse_singleton, List.singleton_append]
    simp [hquote]
  · unfold dropClosing
    rw [List.reverse_append]
    change (if c = quote && !escapesNext ('\\' :: front.reverse) then _ else _) = _
    rw [escapesNext_backslash, escapesNext_of_mem hfront]
    simp

-- A text that begins with a quote loses it, and then perhaps the quote at its end.
theorem unquote_ofList_cons (hquote : IsQuote quote) (body : List Char) :
    (unquote (String.ofList (quote :: body))).toList = unescape (dropClosing quote body) := by
  rw [unquote, onChars, String.toList_ofList, String.toList_ofList, unquoteChars,
    if_pos (by simpa [IsQuote] using hquote)]

/-- A text with its closing quote stands for what is between the two. -/
theorem standsFor_closed (hquote : IsQuote quote) (h : inside ∈ Rule.quotedChars quote) :
    StandsFor quote inside
      (unquote (String.ofList (quote :: (inside ++ [quote])))).toList := by
  rw [unquote_ofList_cons hquote, dropClosing_of_mem h]
  exact standsFor_unescape h

/-- A text without its closing quote stands for all that is behind the opening one. -/
theorem standsFor_unfinished (hquote : IsQuote quote) (h : inside ∈ Rule.quotedChars quote) :
    StandsFor quote inside (unquote (String.ofList (quote :: inside))).toList := by
  rw [unquote_ofList_cons hquote, dropClosing_unfinished h]
  exact standsFor_unescape h

end Text

/-- The two readers agree on the end of a token in quotes. -/
structure Token.EndsAlike (token : Token) : Prop where
  /-- A text in quotes ends with the quote that it begins with, and what is between the two
      stands for the text that is read. -/
  closed : token.kind = .string → ∃ quote inside, Text.IsQuote quote ∧
    token.text.toList = quote :: (inside ++ [quote]) ∧
      Text.StandsFor quote inside (Text.unquote token.text).toList
  /-- Without the closing quote it is all that is behind the opening one. -/
  unfinished : token.isUnterminatedString → ∃ quote inside, Text.IsQuote quote ∧
    token.text.toList = quote :: inside ∧
      Text.StandsFor quote inside (Text.unquote token.text).toList

/-- The rules whose words are texts in quotes, or errors. -/
theorem Rule.exists_quote_of_mem {named : Language Char} {rule : Rule} (h : rule ∈ rules named)
    (hkind : rule.kind = some .string ∨ rule.kind = some .error) :
    ∃ quote, Text.IsQuote quote ∧
      (rule = ⟨some .string, quotedTexts quote⟩ ∨ rule = ⟨some .error, unfinishedTexts quote⟩) := by
  -- No sign is a text in quotes.
  have hsigns : ∀ sign ∈ signs, ¬ (sign.1 = .string ∨ sign.1 = .error) := by decide +kernel
  simp only [rules, otherRules, List.mem_cons, List.mem_append, List.not_mem_nil, or_false,
    List.mem_map] at h
  rcases h with rfl | (rfl | rfl | rfl | rfl | rfl | rfl | rfl | rfl) | ⟨sign, hsign, rfl⟩
  · simp at hkind
  · simp at hkind
  · simp at hkind
  · simp at hkind
  · simp at hkind
  · exact ⟨'"', Or.inl rfl, Or.inl rfl⟩
  · exact ⟨'\'', Or.inr rfl, Or.inl rfl⟩
  · exact ⟨'"', Or.inl rfl, Or.inr rfl⟩
  · exact ⟨'\'', Or.inr rfl, Or.inr rfl⟩
  · exact absurd (by simpa using hkind) (hsigns sign hsign)

namespace Token

variable {place : Place} {c : Char} {cs : List Char}

/-- A text in quotes is a word by the rule for these. -/
theorem closed_wordAt (h : (wordAt place c cs).kind = .string) :
    ∃ quote, Text.IsQuote quote ∧ wordTaken c cs ∈ Rule.quotedTexts quote := by
  change (lexeme c cs).1 = .string at h
  have hne : (lexeme c cs).1 ≠ .error := by
    rw [h]
    exact TokenKind.noConfusion
  rcases Rule.exists_rule_of_kind_ne hne with ⟨rule, hrule, hkind, hword⟩
  rw [h] at hkind
  rcases Rule.exists_quote_of_mem hrule (Or.inl hkind) with ⟨quote, hquote, rfl | rfl⟩
  · exact ⟨quote, hquote, hword⟩
  · cases hkind

/-- A text that lacks its closing quote is a word by the rule for these. -/
theorem unfinished_wordAt (h : (wordAt place c cs).isUnterminatedString) :
    ∃ quote, Text.IsQuote quote ∧ wordTaken c cs ∈ Rule.unfinishedTexts quote := by
  have hparts : (lexeme c cs).1 = .error ∧ Text.IsQuote c := by
    simpa [isUnterminatedString, wordAt, wordTaken, Text.IsQuote] using h
  rcases Rule.exists_rule_of_lexeme c cs with ⟨rule, hrule, hkind, hword⟩ | ⟨-, hquote⟩
  · rw [hparts.1] at hkind
    rcases Rule.exists_quote_of_mem hrule (Or.inr hkind) with ⟨quote, hquote, rfl | rfl⟩
    · cases hkind
    · exact ⟨quote, hquote, hword⟩
  · exact absurd hparts.2 hquote

/-- The two readers agree on the end of every word. -/
theorem endsAlike_wordAt (place : Place) (c : Char) (cs : List Char) :
    (wordAt place c cs).EndsAlike where
  closed h := by
    -- The rule says what a closed text looks like, quotes included.
    rcases closed_wordAt h with ⟨quote, hquote, hword⟩
    rcases Rule.mem_oneOf_mul.mp hword with ⟨d, body, hd, hbody, hsplit⟩
    rcases hbody with ⟨inside, hinside, last, ⟨e, he, rfl⟩, rfl⟩
    obtain rfl : d = quote := of_decide_eq_true hd
    obtain rfl : e = d := of_decide_eq_true he
    refine ⟨e, inside, hquote, (toList_wordAt place c cs).trans hsplit, ?_⟩
    have htext : (wordAt place c cs).text = String.ofList (e :: (inside ++ [e])) :=
      congrArg String.ofList hsplit
    rw [htext]
    exact Text.standsFor_closed hquote hinside
  unfinished h := by
    -- Here the rule has no quote at the end, so what is behind the first is all inside.
    rcases unfinished_wordAt h with ⟨quote, hquote, hword⟩
    rcases Rule.mem_oneOf_mul.mp hword with ⟨d, inside, hd, hinside, hsplit⟩
    obtain rfl : d = quote := of_decide_eq_true hd
    refine ⟨d, inside, hquote, (toList_wordAt place c cs).trans hsplit, ?_⟩
    have htext : (wordAt place c cs).text = String.ofList (d :: inside) :=
      congrArg String.ofList hsplit
    rw [htext]
    exact Text.standsFor_unfinished hquote hinside

end Token

/-- The reader of words and the reader of literals agree on where a text in quotes ends. -/
theorem quotes_endAlike {text : String} {token : Token} (h : token ∈ tokenize text) :
    token.EndsAlike := by
  rcases exists_word_of_mem h with ⟨before, c, cs, -, -, rfl⟩
  exact Token.endsAlike_wordAt (Place.start.after before) c cs

/-- The quote at the end of this text is the second half of a pair, and belongs to what the
    text stands for. -/
theorem quotes_endAlike_escaped :
    ⟨.error, "'b\\\'", Position.start, 0⟩ ∈ tokenize "'b\\\'" ∧
      Token.EndsAlike ⟨.error, "'b\\\'", Position.start, 0⟩ ∧
      Text.unquote "'b\\\'" = "b'" := by
  have hmem : ⟨.error, "'b\\\'", Position.start, 0⟩ ∈ tokenize "'b\\\'" := by
    rw [tokenize, show "'b\\\'".toList = '\'' :: "b\\\'".toList from rfl,
      tokenizeAt_word _ (by decide)]
    exact List.mem_cons_self
  exact ⟨hmem, quotes_endAlike hmem, by decide⟩

end StackScript
