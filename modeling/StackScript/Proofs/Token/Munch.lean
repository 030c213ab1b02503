import StackScript.Proofs.Token.Rule

/-!
# The Longest Word

Of all words that begin at a place of a script the longest is read, by whatever rule it is
one, and a single character is called unknown only if no rule matches anything there. The
reader of words decides by the first one or two characters which rule to follow, so two
things have to be seen: that no other rule has a longer word for the same beginning, and
that the counter of the rule takes the longest word of it.

For names this holds of what is read as a name, not of what a name should be. The two come
apart where a name has two dots in a row, and nowhere else, so `Token.FollowsRules` names
those tokens.

## Main definitions

* `Token.Munched`: A token is the longest word at its place.
* `Token.IsUnfinished`: A text without its closing quote that takes the rest of its line.
* `Token.FollowsRules`: What the rules say of a token.
* `ReadByRules`: What the rules say of all tokens of a text.

## Theorems

* `length_le_wordTaken`: No rule has a longer word.
* `exists_rule_of_lexeme`: A rule has the word, unless no rule matches anything.
* `munched_names_iff`: The names that are read as they should be.
* `tokenize_readByRules`: The tokens of a text.
* `tokenize_doubleDot`: A name that is not read as it should be.
-/

namespace StackScript

open scoped Computability

namespace Rule

variable {c : Char} {cs : List Char}

/-! ## Signs -/

/-- A sign as the reader knows it. -/
def isReadSign (sign : TokenKind × String) : Bool :=
  match sign.2.toList with
  | [c] => Lexeme.signKind c = sign.1 && sign.1 ≠ .error
  | [c, d] => Lexeme.longOperators.contains (c, d)
  | _ => false

-- The signs of the rules are read as what they are.
theorem isReadSign_of_mem : ∀ sign ∈ signs, isReadSign sign := by
  decide +kernel

theorem mem_signs_of_long : ∀ pair ∈ Lexeme.longOperators,
    (TokenKind.operator, String.ofList [pair.1, pair.2]) ∈ signs := by
  decide +kernel

theorem mem_signs_of_short {c : Char} (h : c ∈ Lexeme.shortOperators) :
    (TokenKind.operator, String.ofList [c]) ∈ signs := by
  have hall : Lexeme.shortOperators.all fun c =>
      (TokenKind.operator, String.ofList [c]) ∈ signs := by decide +kernel
  exact of_decide_eq_true (List.all_eq_true.mp hall c h)

theorem mem_signs_of_signKind (h : Lexeme.signKind c ≠ .error) :
    (Lexeme.signKind c, String.ofList [c]) ∈ signs := by
  unfold Lexeme.signKind at h ⊢
  cases hsign : Lexeme.punctuation c with
  | some kind =>
      rw [Option.getD_some]
      unfold Lexeme.punctuation at hsign
      split at hsign
      -- There is one case for each mark of punctuation.
      all_goals first | (cases hsign; decide +kernel) | cases hsign
  | none =>
      rw [hsign, Option.getD_none] at h
      rw [Option.getD_none]
      split at h
      · next hshort =>
        rw [if_pos hshort]
        exact mem_signs_of_short (List.contains_iff_mem.mp hshort)
      · exact absurd rfl h

/-- What begins an operator of two characters is a sign of its own. -/
theorem signKind_of_long (h : Lexeme.startsLongOperator c cs) :
    Lexeme.signKind c ≠ .error ∧ ¬ Lexeme.isNameStart c ∧ ¬ c.isDigit ∧ c ≠ '$' ∧
      ¬ Text.IsQuote c := by
  have hfirst : c ∈ Lexeme.longOperators.map Prod.fst := by
    cases cs with
    | nil => cases h
    | cons d ds => exact List.mem_map_of_mem (f := Prod.fst) (List.contains_iff_mem.mp h)
  have hall : (Lexeme.longOperators.map Prod.fst).all fun c => Lexeme.signKind c ≠ .error ∧
      ¬ Lexeme.isNameStart c ∧ ¬ c.isDigit ∧ c ≠ '$' ∧ ¬ (c = '"' ∨ c = '\'') := by decide
  have hc := of_decide_eq_true (List.all_eq_true.mp hall c hfirst)
  exact hc

/-! ## No rule has a longer word -/

/-- An error is a text in quotes, or a character that is no sign. -/
theorem error_cases (h : (lexeme c cs).1 = .error) :
    Text.IsQuote c ∨ Lexeme.signKind c = .error ∧ lexeme c cs = (.error, 1) := by
  -- Only quotes and signs are ever read as errors.
  cases Lexeme.reading c cs with
  | comment cs =>
      rw [lexeme_slashes] at h
      cases h
  | name hstart =>
      rw [lexeme_nameStart hstart] at h
      cases h
  | number hdigit =>
      rw [lexeme_digit hdigit] at h
      cases h
  | variableName cs hd =>
      rw [lexeme_dollar hd] at h
      cases h
  | quoted hquote => exact Or.inl hquote
  | longOperator _ hlexeme =>
      rw [hlexeme] at h
      cases h
  | sign _ _ hlexeme =>
      rw [hlexeme] at h ⊢
      exact Or.inr ⟨h, congrArg (·, 1) h⟩

/-- The word at the front is not shorter than `word`, and it is no error, unless it is a
    text in quotes. -/
def Fits (c : Char) (cs word : List Char) : Prop :=
  word.length ≤ (lexeme c cs).2 ∧ ((lexeme c cs).1 = .error → Text.IsQuote c)

-- A word that is no longer than what was read fits.
theorem fits_of_eq {word : List Char} {kind : TokenKind} {n : Nat}
    (h : lexeme c cs = (kind, n)) (hkind : kind ≠ .error) (hlength : word.length ≤ n) :
    Fits c cs word := by
  rw [Fits, h]
  exact ⟨hlength, fun herror => absurd herror hkind⟩

/-- A sign fits, because a longer reading begins with none of the short ones. -/
theorem fits_sign {sign : TokenKind × String} (h : sign ∈ signs) {rest : List Char}
    (htext : sign.2.toList ++ rest = c :: cs) : Fits c cs sign.2.toList := by
  have hsign := isReadSign_of_mem sign h
  unfold isReadSign at hsign
  split at hsign
  · next d hd =>
    rw [hd] at htext ⊢
    cases htext
    refine ⟨lexeme_pos c rest, fun herror => (error_cases herror).resolve_right fun hsingle => ?_⟩
    simp only [Bool.and_eq_true, decide_eq_true_eq] at hsign
    exact hsign.2 (hsign.1.symm.trans hsingle.1)
  · -- A sign of two characters is read before any sign of one.
    next d e hd =>
    rw [hd] at htext ⊢
    cases htext
    have hlong : Lexeme.startsLongOperator c (e :: rest) := hsign
    rcases signKind_of_long hlong with ⟨hkind, hstart, hdigit, hdollar, hquote⟩
    cases Lexeme.reading c (e :: rest) with
    | comment =>
        refine fits_of_eq (lexeme_slashes _) TokenKind.noConfusion ?_
        rw [Lexeme.countWhile_cons, if_pos (by decide)]
        exact Nat.le_add_left _ _
    | name h => exact absurd h hstart
    | number h => exact absurd h hdigit
    | variableName => exact absurd rfl hdollar
    | quoted h => exact absurd h hquote
    | longOperator _ hlexeme => exact fits_of_eq hlexeme TokenKind.noConfusion (Nat.le_refl 2)
    | sign hshort => exact absurd hlong hshort
  · cases hsign

/-- A text in quotes fits whether it is closed or not. -/
theorem fits_quoted {quote : Char} (hquote : Text.IsQuote quote) {word rest : List Char}
    (h : word ∈ oneOf (· = quote) * (quotedChars quote + quotedChars quote * oneOf (· = quote)))
    (htext : word ++ rest = c :: cs) : Fits c cs word := by
  rcases mem_oneOf_mul.mp h with ⟨d, v, hd, hv, rfl⟩
  obtain rfl : d = quote := of_decide_eq_true hd
  cases htext
  rw [Fits, lexeme_quote hquote]
  exact ⟨Nat.succ_le_succ (quotedLength_le hquote hv rest), fun _ => hquote⟩

/-- Whatever rule a word is by, what is read is as long at least. -/
theorem fits_of_mem (hspace : ¬ Lexeme.isSpace c) {rule : Rule} (hrule : rule ∈ rules readNames)
    {word rest : List Char} (hword : word ∈ rule.words) (htext : word ++ rest = c :: cs) :
    Fits c cs word := by
  simp only [rules, otherRules, List.mem_cons, List.mem_append, List.not_mem_nil, or_false,
    List.mem_map] at hrule
  rcases hrule with rfl | (rfl | rfl | rfl | rfl | rfl | rfl | rfl | rfl) | ⟨sign, hsign, rfl⟩
  · -- Names.
    rcases mem_oneOf_mul.mp hword with ⟨d, v, hd, hv, rfl⟩
    cases htext
    exact fits_of_eq (lexeme_nameStart hd _) TokenKind.noConfusion
      (Nat.succ_le_succ ((munches_name .opened).le v hv rest))
  · -- Spaces.
    rcases mem_oneOf_mul.mp hword with ⟨d, v, hd, -, rfl⟩
    cases htext
    exact absurd hd hspace
  · -- Comments.
    rcases mem_only_mul.mp hword with ⟨v, hv, rfl⟩
    change '/' :: '/' :: (v ++ rest) = c :: cs at htext
    cases htext
    refine fits_of_eq (lexeme_slashes _) TokenKind.noConfusion (Nat.succ_le_succ ?_)
    have hslash : '/' :: v ∈ (oneOf (· ≠ '\n'))∗ :=
      append_mem_kstar (singleton_mem_oneOf (by decide)) hv
    exact (munches_countWhile _).le _ hslash rest
  · -- Names of variables.
    rcases mem_only_mul.mp hword with ⟨v, hv, rfl⟩
    rcases mem_oneOf_mul.mp hv with ⟨d, chars, hd, hchars, rfl⟩
    change '$' :: d :: (chars ++ rest) = c :: cs at htext
    cases htext
    refine fits_of_eq (lexeme_dollar hd _) TokenKind.noConfusion (Nat.succ_le_succ ?_)
    have hall : d :: chars ∈ (oneOf Lexeme.isNameChar)∗ :=
      append_mem_kstar (singleton_mem_oneOf (isNameChar_of_isNameStart hd)) hchars
    exact (munches_countWhile _).le _ hall rest
  · -- Numbers.
    rcases hword with ⟨ds, hds, v, hv, rfl⟩
    rcases mem_digits.mp hds with ⟨hnil, hdigits⟩
    rcases List.exists_cons_of_ne_nil hnil with ⟨d, ds, rfl⟩
    cases htext
    refine fits_of_eq (lexeme_digit (hdigits c List.mem_cons_self) _) TokenKind.noConfusion ?_
    exact munches_number.le _ (Language.append_mem_mul (mem_kstar_oneOf.mpr hdigits) hv) rest
  · exact fits_quoted (Or.inl rfl) (by rw [mul_add]; exact Or.inr hword) htext
  · exact fits_quoted (Or.inr rfl) (by rw [mul_add]; exact Or.inr hword) htext
  · exact fits_quoted (Or.inl rfl) (by rw [mul_add]; exact Or.inl hword) htext
  · exact fits_quoted (Or.inr rfl) (by rw [mul_add]; exact Or.inl hword) htext
  · obtain rfl : word = sign.2.toList := hword
    exact fits_sign hsign htext

/-- The word that is taken is as long as it says. -/
theorem length_wordTaken (c : Char) (cs : List Char) :
    (wordTaken c cs).length = (lexeme c cs).2 := by
  have hpos := lexeme_pos c cs
  have hall := lexeme_le_length c cs
  rw [wordTaken, List.length_cons, List.length_take]
  omega

theorem wordTaken_eq_take (c : Char) (cs : List Char) :
    wordTaken c cs = (c :: cs).take (lexeme c cs).2 := by
  rw [wordTaken, ← List.take_succ_cons, Nat.sub_add_cancel (lexeme_pos c cs)]

/-- No rule has a longer word. -/
theorem length_le_wordTaken (hspace : ¬ Lexeme.isSpace c) {rule : Rule}
    (hrule : rule ∈ unknownSigns :: rules readNames) {word : List Char} (hword : word ∈ rule.words)
    (hfront : word <+: c :: cs) : word.length ≤ (wordTaken c cs).length := by
  rw [length_wordTaken]
  rcases List.mem_cons.mp hrule with rfl | hrule
  · rcases hword with ⟨d, -, rfl⟩
    exact lexeme_pos c cs
  · rcases hfront with ⟨rest, htext⟩
    exact (fits_of_mem hspace hrule hword htext).1

/-! ## A rule has the word -/

theorem mem_rules_sign {named : Language Char} {sign : TokenKind × String} (h : sign ∈ signs) :
    (⟨some sign.1, only sign.2⟩ : Rule) ∈ rules named :=
  List.mem_cons_of_mem _ (List.mem_append_right _ (List.mem_map_of_mem h))

/-- What begins with a quote is a text by one of two rules, closed or unfinished. -/
theorem exists_rule_of_quote (h : Text.IsQuote c) :
    ∃ rule ∈ rules readNames, rule.kind = some (lexeme c cs).1 ∧ wordTaken c cs ∈ rule.words := by
  have hlexeme := lexeme_quote h cs
  rw [wordTaken_eq_take, hlexeme]
  have hself : decide (c = c) := decide_eq_true rfl
  rcases quotedLength_mem c cs with ⟨hclosed, hwords⟩ | ⟨hclosed, hwords, -⟩
  · refine ⟨⟨some .string, quotedTexts c⟩, ?_, by rw [hclosed]; rfl,
      cons_mem_oneOf_mul hself hwords⟩
    rcases h with rfl | rfl <;> simp [rules, otherRules]
  · refine ⟨⟨some .error, unfinishedTexts c⟩, ?_, by rw [hclosed]; rfl,
      cons_mem_oneOf_mul hself hwords⟩
    rcases h with rfl | rfl <;> simp [rules, otherRules]

/-- What is read is a word by a rule, or it is a single character that is none. -/
theorem exists_rule_of_lexeme (c : Char) (cs : List Char) :
    (∃ rule ∈ rules readNames, rule.kind = some (lexeme c cs).1 ∧ wordTaken c cs ∈ rule.words) ∨
      lexeme c cs = (.error, 1) ∧ ¬ Text.IsQuote c := by
  -- Each reading has the rule that its counter munches.
  cases Lexeme.reading c cs with
  | comment cs =>
      rw [wordTaken_eq_take, lexeme_slashes]
      refine Or.inl ⟨⟨some .comment, comments⟩, by simp [rules, otherRules], rfl, ?_⟩
      rw [Lexeme.countWhile_cons, if_pos (by decide), List.take_succ_cons]
      exact mem_only_mul.mpr ⟨_, (munches_countWhile _).mem cs, rfl⟩
  | name hstart =>
      rw [wordTaken_eq_take, lexeme_nameStart hstart]
      exact Or.inl ⟨⟨some .ident, readNames⟩, List.mem_cons_self, rfl,
        cons_mem_oneOf_mul hstart ((munches_name .opened).mem cs)⟩
  | number hdigit =>
      rw [wordTaken_eq_take, lexeme_digit hdigit]
      exact Or.inl ⟨⟨some .number, numbers⟩, by simp [rules, otherRules], rfl,
        take_number_mem hdigit cs⟩
  | variableName cs hd =>
      rw [wordTaken_eq_take, lexeme_dollar hd]
      refine Or.inl ⟨⟨some .variable, variableNames⟩, by simp [rules, otherRules], rfl, ?_⟩
      rw [Lexeme.variableLength, Lexeme.countWhile_cons, if_pos (isNameChar_of_isNameStart hd),
        List.take_succ_cons]
      exact mem_only_mul.mpr ⟨_, cons_mem_oneOf_mul hd ((munches_countWhile _).mem cs), rfl⟩
  | quoted hquote => exact Or.inl (exists_rule_of_quote hquote)
  | longOperator hlong hlexeme =>
      cases cs with
      | nil => cases hlong
      | cons d ds =>
          rw [wordTaken_eq_take, hlexeme]
          have hsign := mem_signs_of_long (c, d) (List.contains_iff_mem.mp hlong)
          exact Or.inl ⟨_, mem_rules_sign hsign, rfl, (String.toList_ofList).symm⟩
  | sign _ hquote hlexeme =>
      by_cases herror : Lexeme.signKind c = .error
      · rw [herror] at hlexeme
        exact Or.inr ⟨hlexeme, hquote⟩
      · rw [wordTaken_eq_take, hlexeme]
        exact Or.inl ⟨_, mem_rules_sign (mem_signs_of_signKind herror), rfl,
          (String.toList_ofList).symm⟩

/-- A word that is no error is a word of a rule. -/
theorem exists_rule_of_kind_ne (h : (lexeme c cs).1 ≠ .error) :
    ∃ rule ∈ rules readNames, rule.kind = some (lexeme c cs).1 ∧ wordTaken c cs ∈ rule.words :=
  (exists_rule_of_lexeme c cs).resolve_right fun hsingle => h (congrArg Prod.fst hsingle.1)

end Rule

/-! ## The tokens of a text -/

namespace Token

/-- The token is the longest word that begins where it does. -/
structure Munched (rules : List Rule) (token : Token) (behind : List Char) : Prop where
  /-- The token stands at the front. -/
  taken : token.text.toList <+: behind
  /-- It is a word of a rule for its kind, or a sign where no rule matches anything. -/
  matched :
    (∃ rule ∈ rules, rule.kind = some token.kind ∧ token.text.toList ∈ rule.words) ∨
      Rule.unknownSigns.kind = some token.kind ∧ token.text.toList ∈ Rule.unknownSigns.words ∧
        ∀ rule ∈ rules, ∀ word ∈ rule.words, ¬ word <+: behind
  /-- No rule has a longer word for the same beginning. -/
  longest : ∀ rule ∈ Rule.unknownSigns :: rules, ∀ word ∈ rule.words, word <+: behind →
    word.length ≤ token.text.toList.length

/-- The token is a text without its closing quote that takes the rest of its line, but for a
    backslash at the end. -/
def IsUnfinished (token : Token) (behind : List Char) : Prop :=
  (∃ quote, Text.IsQuote quote ∧ token.text.toList ∈ Rule.unfinishedTexts quote) ∧
    Rule.EndsUnfinished (behind.drop token.text.toList.length)

/-- The rest of the text begins with the token. -/
def IsAt (token : Token) (text : String) (behind : List Char) : Prop :=
  ∃ before, text.toList = before ++ behind ∧ token.offset = byteLength before

/-- What the rules say of a token and the text that begins with it. -/
structure FollowsRules (token : Token) (behind : List Char) : Prop where
  /-- The token is the longest word, by the rules for what is read. -/
  munched : token.Munched (Rule.rules Rule.readNames) behind
  /-- It is what it should be, unless it is a name with two dots in a row. -/
  named : token.Munched (Rule.rules Rule.names) behind ↔
    ¬ (token.kind = .ident ∧ Rule.HasDoubleDot token.text.toList)
  /-- An error is an unfinished text or a single character. -/
  error : token.kind = .error → token.IsUnfinished behind ∨ token.text.toList.length = 1

variable {token : Token} {behind : List Char}

theorem mem_rules {named : Language Char} {rule : Rule} :
    rule ∈ Rule.rules named ↔ rule = ⟨some .ident, named⟩ ∨ rule ∈ Rule.otherRules :=
  List.mem_cons

theorem kind_ne_ident_of_mem_otherRules {rule : Rule} (h : rule ∈ Rule.otherRules) :
    rule.kind ≠ some .ident := by
  have hall : ∀ kind ∈ Rule.otherRules.map Rule.kind, kind ≠ some .ident := by
    decide +kernel
  exact hall rule.kind (List.mem_map_of_mem h)

/-- By the rules for names there is no double dot. -/
theorem Munched.not_hasDoubleDot (h : token.Munched (Rule.rules Rule.names) behind)
    (hkind : token.kind = .ident) : ¬ Rule.HasDoubleDot token.text.toList := by
  rcases h.matched with ⟨rule, hrule, hsame, hword⟩ | ⟨hsame, -⟩
  · rcases mem_rules.mp hrule with rfl | hrule
    · exact Rule.not_hasDoubleDot_of_mem_names hword
    · exact absurd (hsame.trans (congrArg some hkind)) (kind_ne_ident_of_mem_otherRules hrule)
  · rw [hkind] at hsame
    cases hsame

/-- The names that are read as they should be. -/
theorem munched_names_iff (h : token.Munched (Rule.rules Rule.readNames) behind) :
    token.Munched (Rule.rules Rule.names) behind ↔
      ¬ (token.kind = .ident ∧ Rule.HasDoubleDot token.text.toList) := by
  refine ⟨fun hnames hboth => hnames.not_hasDoubleDot hboth.1 hboth.2, fun hdots => ?_⟩
  -- Every word by the rules for names is one by the rules for what is read.
  have hwords : ∀ rule ∈ Rule.rules Rule.names, ∀ word ∈ rule.words,
      ∃ other ∈ Rule.rules Rule.readNames, word ∈ other.words := by
    intro rule hrule word hword
    rcases mem_rules.mp hrule with rfl | hrule
    · exact ⟨_, mem_rules.mpr (Or.inl rfl), Rule.names_le_readNames hword⟩
    · exact ⟨rule, mem_rules.mpr (Or.inr hrule), hword⟩
  refine ⟨h.taken, h.matched.imp ?_ ?_, ?_⟩
  · -- The token is a word by the same rule, unless it is a name with a double dot.
    rintro ⟨rule, hrule, hsame, hword⟩
    rcases mem_rules.mp hrule with rfl | hrule
    · have hnodots : ¬ Rule.HasDoubleDot token.text.toList :=
        fun hmem => hdots ⟨(Option.some.inj hsame).symm, hmem⟩
      exact ⟨_, mem_rules.mpr (Or.inl rfl), hsame, (Rule.mem_names_iff hword).mpr hnodots⟩
    · exact ⟨rule, mem_rules.mpr (Or.inr hrule), hsame, hword⟩
  · rintro ⟨hsame, hword, hnone⟩
    refine ⟨hsame, hword, fun rule hrule word hmem => ?_⟩
    rcases hwords rule hrule word hmem with ⟨other, hother, hmem⟩
    exact hnone other hother word hmem
  · intro rule hrule word hmem
    rcases List.mem_cons.mp hrule with rfl | hrule
    · exact h.longest _ List.mem_cons_self word hmem
    · rcases hwords rule hrule word hmem with ⟨other, hother, hmem⟩
      exact h.longest other (List.mem_cons_of_mem _ hother) word hmem

theorem toList_wordAt (place : Place) (c : Char) (cs : List Char) :
    (wordAt place c cs).text.toList = wordTaken c cs :=
  String.toList_ofList

/-- A token is the longest word where it stands. -/
theorem munched_wordAt (place : Place) {c : Char} (hspace : ¬ Lexeme.isSpace c) (cs : List Char) :
    (wordAt place c cs).Munched (Rule.rules Rule.readNames) (c :: cs) where
  taken := by
    rw [toList_wordAt]
    exact ⟨_, wordTaken_append_drop c cs⟩
  matched := by
    rw [toList_wordAt]
    refine (Rule.exists_rule_of_lexeme c cs).imp id ?_
    rintro ⟨hlexeme, hquote⟩
    have hline : c ≠ '\n' := by
      rintro rfl
      exact hspace rfl
    refine ⟨congrArg some (congrArg Prod.fst hlexeme).symm, ?_, ?_⟩
    · rw [wordTaken, hlexeme]
      exact Rule.singleton_mem_oneOf (decide_eq_true hline)
    · rintro rule hrule word hword ⟨rest, htext⟩
      exact hquote ((Rule.fits_of_mem hspace hrule hword htext).2 (congrArg Prod.fst hlexeme))
  longest rule hrule word hword hfront := by
    rw [toList_wordAt]
    exact Rule.length_le_wordTaken hspace hrule hword hfront

/-- An unknown word is an unfinished text or one character. -/
theorem error_wordAt {place : Place} {c : Char} {cs : List Char}
    (h : (wordAt place c cs).kind = .error) :
    (wordAt place c cs).IsUnfinished (c :: cs) ∨ (wordAt place c cs).text.toList.length = 1 := by
  rw [IsUnfinished, toList_wordAt, Rule.length_wordTaken, Rule.wordTaken_eq_take]
  change (lexeme c cs).1 = .error at h
  rcases Rule.error_cases h with hquote | ⟨-, hlexeme⟩
  · rw [lexeme_quote hquote] at h ⊢
    rcases Rule.quotedLength_mem c cs with ⟨hclosed, -⟩ | ⟨-, hwords, hends⟩
    · rw [if_pos hclosed] at h
      cases h
    · exact Or.inl
        ⟨⟨c, hquote, Rule.cons_mem_oneOf_mul (decide_eq_true rfl) hwords⟩, hends⟩
  · exact Or.inr (congrArg Prod.snd hlexeme)

end Token

/-- What the rules say of all tokens of a text. -/
def ReadByRules (text : String) : Prop :=
  ∀ token ∈ tokenize text, ∃ behind, token.IsAt text behind ∧ token.FollowsRules behind

/-- Every token is the longest word at its place. -/
theorem tokenize_readByRules (text : String) : ReadByRules text := by
  intro token htoken
  rcases exists_word_of_mem htoken with ⟨before, c, cs, hsplit, hspace, rfl⟩
  have hmunched := Token.munched_wordAt (Place.start.after before) hspace cs
  exact ⟨c :: cs, ⟨before, hsplit, Nat.zero_add _⟩,
    hmunched, Token.munched_names_iff hmunched, Token.error_wordAt⟩

/-- Of the three dots in `abc...d` the first two are read with the name. -/
theorem tokenize_doubleDot :
    ¬ ∀ (text : String), ∀ token ∈ tokenize text, ∃ behind, token.IsAt text behind ∧
      token.Munched (Rule.rules Rule.names) behind := by
  intro h
  have hfirst : wordAt Place.start 'a' "bc...d".toList ∈ tokenize "abc...d" := by
    rw [tokenize, show "abc...d".toList = 'a' :: "bc...d".toList from rfl,
      tokenizeAt_word _ (by decide)]
    exact List.mem_cons_self
  rcases h "abc...d" _ hfirst with ⟨behind, -, hmunched⟩
  refine hmunched.not_hasDoubleDot rfl ⟨['a', 'b', 'c'], [], ?_⟩
  rw [Token.toList_wordAt]
  decide

end StackScript
