import Mathlib.Data.List.Induction
import StackScript.Proofs.Token.Lexeme
import StackScript.Text.Quoted

/-!
# Texts in Quotes and Back

A text is written as a literal by putting quotes around it and a backslash in
front of whatever would end the literal, or would mean something else. Whoever
reads the literal gets the text back.

Every character becomes either itself or a backslash with one other character,
`escapeChar_cases`, and nothing more has to be known about the escapes. The
closing quote is the delicate part. It is found twice, from the front by the
reader of words and from the back by the reader of literals, and the latter
counts the backslashes in front of it: an escaped text never ends in an odd run
of them.

## Main definitions

* `escape`, `quoteChars`, `quoted`: A text as a literal.

## Theorems

* `unescape_escape`: Resolving the escapes of an escaped text.
* `quotedLength_escape`: The end of a literal, seen from the front.
* `dropClosing_escape`: The end of a literal, seen from the back.
* `unquote_quoted`: A literal stands for the text that was quoted.
-/

namespace StackScript

namespace Text

/-- A character as it is written inside of quotes. -/
def escapeChar (quote c : Char) : List Char :=
  if c = '\n' then ['\\', 'n']
  else if c = '\r' then ['\\', 'r']
  else if c = '\t' then ['\\', 't']
  else if c = '\\' || c = quote then ['\\', c]
  else [c]

/-- A text as it is written inside of quotes. -/
def escape (quote : Char) (cs : List Char) : List Char :=
  cs.flatMap (escapeChar quote)

/-- A text with the quotes around it. -/
def quoteChars (quote : Char) (cs : List Char) : List Char :=
  quote :: (escape quote cs ++ [quote])

/-- The text as a literal in double quotes. -/
def quoted (text : String) : String :=
  onChars (quoteChars '"') text

/-- The two characters that open and close a literal. -/
def IsQuote (quote : Char) : Prop :=
  quote = '"' ∨ quote = '\''

/-- A character is written as itself, or behind a backslash by one that stands for it there. -/
theorem escapeChar_cases {quote : Char} (hquote : IsQuote quote) (c : Char) :
    (escapeChar quote c = [c] ∧ c ≠ '\\' ∧ c ≠ quote ∧ c ≠ '\n') ∨
      ∃ d, escapeChar quote c = ['\\', d] ∧ escaped d = c ∧ d ≠ '\n' := by
  unfold escapeChar
  by_cases hfeed : c = '\n'
  · exact Or.inr ⟨'n', by rw [if_pos hfeed], hfeed.symm, by decide⟩
  by_cases hreturn : c = '\r'
  · exact Or.inr ⟨'r', by rw [if_neg hfeed, if_pos hreturn], hreturn.symm, by decide⟩
  by_cases htab : c = '\t'
  · exact Or.inr ⟨'t', by rw [if_neg hfeed, if_neg hreturn, if_pos htab], htab.symm, by decide⟩
  rw [if_neg hfeed, if_neg hreturn, if_neg htab]
  -- A backslash and a quote stand for themselves behind a backslash.
  by_cases hslash : c = '\\'
  · exact Or.inr ⟨c, by rw [if_pos (by simp [hslash])], by rw [hslash]; rfl, hfeed⟩
  by_cases hsame : c = quote
  · refine Or.inr ⟨c, by rw [if_pos (by simp [hsame])], ?_, hfeed⟩
    rcases hquote with rfl | rfl
    · rw [hsame]
      rfl
    · rw [hsame]
      rfl
  · exact Or.inl ⟨by rw [if_neg (by simp [hslash, hsame])], hslash, hsame, hfeed⟩

theorem escape_cons (quote c : Char) (cs : List Char) :
    escape quote (c :: cs) = escapeChar quote c ++ escape quote cs :=
  List.flatMap_cons

-- Characters are read one by one, but for those behind a backslash.
theorem unescape_of_ne {c : Char} (h : c ≠ '\\') (cs : List Char) :
    unescape (c :: cs) = c :: unescape cs := by
  rw [unescape]
  · rintro rfl
    exact absurd rfl h
  · rintro d ds rfl
    exact absurd rfl h

/-- Resolving the escapes of an escaped text gives the text. -/
theorem unescape_escape {quote : Char} (hquote : IsQuote quote) (cs : List Char) :
    unescape (escape quote cs) = cs := by
  induction cs with
  | nil => rfl
  | cons c cs ih =>
      rw [escape_cons]
      rcases escapeChar_cases hquote c with ⟨hchar, hslash, -, -⟩ | ⟨d, hchar, hescaped, -⟩
      · rw [hchar, List.singleton_append, unescape_of_ne hslash, ih]
      · rw [hchar, List.cons_append, List.singleton_append, unescape, ih, hescaped]

/-- A literal ends at the closing quote behind an escaped text. -/
theorem quotedLength_escape {quote : Char} (hquote : IsQuote quote) (cs rest : List Char) :
    Lexeme.quotedLength quote (escape quote cs ++ quote :: rest) =
      ⟨true, (escape quote cs).length + 1⟩ := by
  induction cs with
  | nil =>
      rcases hquote with rfl | rfl
      · rfl
      · rfl
  | cons c cs ih =>
      rw [escape_cons]
      rcases escapeChar_cases hquote c with ⟨hchar, hslash, hsame, hfeed⟩ | ⟨d, hchar, -, hfeed⟩
      · rw [hchar, List.singleton_append, List.cons_append,
          Lexeme.quotedLength_of_ne quote hslash, if_neg hfeed, if_neg hsame, ih]
        rfl
      · -- The backslash takes its character along, so a quote behind it does not end the
        -- text.
        rw [hchar, List.cons_append, List.singleton_append, List.cons_append, List.cons_append,
          Lexeme.quotedLength, if_neg hfeed, ih]
        rfl

theorem escapesNext_of_ne {c : Char} (h : c ≠ '\\') (cs : List Char) :
    escapesNext (c :: cs) = false := by
  rw [escapesNext, List.takeWhile_cons_of_neg (by simpa using h)]
  rfl

/-- One backslash more, and the next character is escaped if it was not before. -/
theorem escapesNext_backslash (cs : List Char) : escapesNext ('\\' :: cs) = !escapesNext cs := by
  rw [escapesNext, escapesNext, List.takeWhile_cons_of_pos (by simp), List.length_cons,
    ← decide_not, decide_eq_decide]
  omega

/-- A backslash with the character behind it leaves no backslash over. -/
theorem escapesNext_pair (c : Char) {cs : List Char} (h : escapesNext cs = false) :
    escapesNext (c :: '\\' :: cs) = false := by
  by_cases hc : c = '\\'
  · rw [hc, escapesNext_backslash, escapesNext_backslash, h]
    rfl
  · rw [escapesNext_of_ne hc]

/-- An escaped text ends in an even run of backslashes. -/
theorem escapesNext_escape {quote : Char} (hquote : IsQuote quote) (cs : List Char) :
    escapesNext (escape quote cs).reverse = false := by
  induction cs using List.reverseRecOn with
  | nil => rfl
  | append_singleton cs c ih =>
      have hlast : escape quote (cs ++ [c]) = escape quote cs ++ escapeChar quote c := by
        rw [escape, List.flatMap_append, List.flatMap_cons, List.flatMap_nil, List.append_nil]
        rfl
      rw [hlast, List.reverse_append]
      rcases escapeChar_cases hquote c with ⟨hchar, hslash, -, -⟩ | ⟨d, hchar, -, -⟩
      · rw [hchar, List.reverse_singleton, List.singleton_append, escapesNext_of_ne hslash]
      · rw [hchar]
        exact escapesNext_pair d ih

/-- A quote with an even run of backslashes in front of it is a closing one. -/
theorem dropClosing_concat {quote : Char} {cs : List Char} (h : escapesNext cs.reverse = false) :
    dropClosing quote (cs ++ [quote]) = cs := by
  unfold dropClosing
  rw [List.reverse_append, List.reverse_singleton, List.singleton_append]
  dsimp only
  rw [h, if_pos (by simp), List.reverse_reverse]

/-- The closing quote of a literal is found from the back as well. -/
theorem dropClosing_escape {quote : Char} (hquote : IsQuote quote) (cs : List Char) :
    dropClosing quote (escape quote cs ++ [quote]) = escape quote cs :=
  dropClosing_concat (escapesNext_escape hquote cs)

/-- What is put in quotes is there when the quotes are taken off. -/
theorem unquoteChars_quoteChars {quote : Char} (hquote : IsQuote quote) (cs : List Char) :
    unquoteChars (quoteChars quote cs) = cs := by
  rw [quoteChars, unquoteChars, if_pos (by rcases hquote with rfl | rfl <;> rfl),
    dropClosing_escape hquote, unescape_escape hquote]

/-- A literal stands for the text that was quoted. -/
theorem unquote_quoted (text : String) : unquote (quoted text) = text := by
  rw [unquote, quoted, onChars, onChars, String.toList_ofList,
    unquoteChars_quoteChars (Or.inl rfl), String.ofList_toList]

end Text

end StackScript
