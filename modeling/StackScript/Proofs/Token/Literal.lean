import StackScript.Proofs.Token.Print

/-!
# Literals

A literal is looked at by two readers. The reader of words finds where it ends and calls
it a text in quotes; whoever wants to know what it stands for takes the quotes off and
resolves the escapes. They look for the closing quote from different ends, and both have
to find the one that was written.

## Main definitions

* `Text.literal`: A text as a literal in quotes of either kind.

## Theorems

* `tokenize_literal`: A literal is one word.
* `unquote_literal`: A literal stands for the text that was written.
* `literal_comesBack`: A literal comes back from both readers.
-/

namespace StackScript

/-- The text as a literal in the quotes. -/
def Text.literal (quote : Char) (text : String) : String :=
  onChars (quoteChars quote) text

theorem Text.toList_literal (quote : Char) (text : String) :
    (literal quote text).toList = quoteChars quote text.toList := by
  rw [literal, onChars, String.toList_ofList]

/-- A literal is one word, whatever is written in it. -/
theorem tokenize_literal {quote : Char} (h : Text.IsQuote quote) (text : String) :
    tokenize (Text.literal quote text) =
      [⟨.string, Text.literal quote text, Position.start, 0⟩] := by
  have hword := tokenizeAt_reads (reads_quoteChars h text.toList []) Place.start
  rw [List.append_nil, ← Text.toList_literal, String.ofList_toList] at hword
  rw [tokenize, hword, tokenizeAt]
  rfl

/-- A literal stands for the text that was written. -/
theorem unquote_literal {quote : Char} (h : Text.IsQuote quote) (text : String) :
    Text.unquote (Text.literal quote text) = text := by
  rw [Text.unquote, Text.onChars, Text.toList_literal, Text.unquoteChars_quoteChars h,
    String.ofList_toList]

/-- A literal comes back from both readers: as a single word, and as the text. -/
theorem literal_comesBack {quote : Char} (h : Text.IsQuote quote) (text : String) :
    tokenize (Text.literal quote text) =
        [⟨.string, Text.literal quote text, Position.start, 0⟩] ∧
      Text.unquote (Text.literal quote text) = text :=
  ⟨tokenize_literal h text, unquote_literal h text⟩

/-- The other quote is written as it is, backslashes stand in front of a quote and at the
    end, and a line feed does not end the line. -/
theorem literal_comesBack_backslashes :
    Text.IsQuote '\'' ∧
      tokenize "'\\\\\\'\"\\nit\\\\\\\\'" =
        [⟨.string, "'\\\\\\'\"\\nit\\\\\\\\'", ⟨1, 1⟩, 0⟩] ∧
      Text.unquote "'\\\\\\'\"\\nit\\\\\\\\'" = "\\'\"\nit\\\\" := by
  have hquote : Text.IsQuote '\'' := Or.inr rfl
  have hliteral : Text.literal '\'' "\\'\"\nit\\\\" = "'\\\\\\'\"\\nit\\\\\\\\'" := by
    decide +kernel
  have h := literal_comesBack hquote "\\'\"\nit\\\\"
  rw [hliteral] at h
  exact ⟨hquote, h⟩

end StackScript
