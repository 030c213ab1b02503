import StackScript.Proofs.Token.Shift
import StackScript.Proofs.Token.Tiling

/-!
# Lines Are Read One by One

The tokens of two texts with a line feed between them are the tokens of the
first, and behind them those of the second further down. What stands on one
line, a quoted text that is never closed, a comment or half a number, therefore
has no say in how another line is read.

Two facts make it up. A line feed ends every word, so the walk comes to it as
it would come to the end of the text; and a walk that starts further down finds
the same tokens further down, because nothing but their places depends on the
place where it starts.

## Main definitions

* `Token.moved`, `Place.moved`: The same some lines and bytes further down.
* `TokenShift.behind`: The same words below a text.

## Theorems

* `induction_lines`: What holds of each line and goes on to the line above holds
  of every text.
* `tokenizeAt_append`: A walk through two texts, one behind the other.
* `tokenizeAt_append_newline`: A walk goes on behind a line feed.
* `tokenizeAt_moved`: A walk that starts further down.
* `tokenize_behind`: The words of a text are the same below another one.
* `tokenize_append_newline`: The tokens of two texts, one below the other.
-/

namespace StackScript

/-- A token in a text that has been put some lines and bytes further down. -/
def Token.moved (lines bytes : Nat) (token : Token) : Token :=
  { token with
    position := ⟨token.position.line + lines, token.position.column⟩
    offset := token.offset + bytes }

/-- A place some lines and bytes further down. -/
def Place.moved (lines bytes : Nat) (place : Place) : Place :=
  ⟨⟨place.position.line + lines, place.position.column⟩, place.offset + bytes⟩

/-- A place further down moves as it would. -/
theorem Place.moved_after (lines bytes : Nat) (place : Place) (cs : List Char) :
    (place.moved lines bytes).after cs = (place.after cs).moved lines bytes := by
  unfold Place.moved Place.after
  rw [Position.after_add_line]
  simp only [Nat.add_right_comm]

/-- A walk that starts further down finds the same tokens further down. -/
theorem tokenizeAt_moved (lines bytes : Nat) (place : Place) (cs : List Char) :
    tokenizeAt (place.moved lines bytes) cs =
      (tokenizeAt place cs).map (Token.moved lines bytes) := by
  fun_induction tokenizeAt place cs with
  | case1 => rw [tokenizeAt, List.map_nil]
  | case2 place c rest hspace ih =>
      rw [tokenizeAt_space _ hspace, Place.moved_after, ih]
  | case3 place c rest hspace word taken ih =>
      rw [tokenizeAt_word _ hspace, Place.moved_after, List.map_cons, ← ih]
      rfl

/-- A property of characters holds of every text if it holds of each single line
    and stays when a line is put above. -/
@[elab_as_elim]
theorem induction_lines {motive : List Char → Prop}
    (last : ∀ line, '\n' ∉ line → motive line)
    (above : ∀ line below, '\n' ∉ line → motive below → motive (line ++ '\n' :: below))
    (cs : List Char) : motive cs := by
  induction hlength : cs.length using Nat.strongRecOn generalizing cs with
  | ind length ih =>
      by_cases hmem : '\n' ∈ cs
      · rcases List.eq_append_cons_of_mem hmem with ⟨line, below, rfl, hline⟩
        have hshorter : below.length < length := by
          rw [← hlength, List.length_append, List.length_cons]
          omega
        exact above line below hline (ih below.length hshorter below rfl)
      · exact last cs hmem

/-- If each word of a text ends where it did when more text follows, the walk
    goes through the text first and then through what follows. `p` is what the
    kinds of the words have in common. -/
theorem tokenizeAt_append {p : TokenKind → Prop} {behind : List Char}
    (hword : ∀ c rest, p (lexeme c rest).1 → lexeme c (rest ++ behind) = lexeme c rest)
    {place : Place} {cs : List Char} (h : ∀ token ∈ tokenizeAt place cs, p token.kind) :
    tokenizeAt place (cs ++ behind) =
      tokenizeAt place cs ++ tokenizeAt (place.after cs) behind := by
  fun_induction tokenizeAt place cs with
  | case1 place => rfl
  | case2 place c rest hspace ih =>
      rw [List.cons_append, tokenizeAt_space place hspace, ih h, ← Place.after_append]
      rfl
  | case3 place c rest hspace word taken ih =>
      have hfits : word.2 - 1 ≤ rest.length := lexeme_le_length c rest
      -- The word is the same, so the walk comes to the same place behind it.
      have hlexeme : lexeme c (rest ++ behind) = lexeme c rest := hword c rest (h _ (.head _))
      have htaken : wordTaken c (rest ++ behind) = taken := by
        rw [wordTaken, hlexeme, List.take_append_of_le_length hfits]
      have hfirst : wordAt place c (rest ++ behind) = wordAt place c rest := by
        rw [wordAt, hlexeme, htaken]
        rfl
      have hall : taken ++ rest.drop (word.2 - 1) = c :: rest := wordTaken_append_drop c rest
      rw [List.cons_append, tokenizeAt_word place hspace, hfirst, htaken, hlexeme,
        List.drop_append_of_le_length hfits, ih fun token hmem => h token (.tail _ hmem),
        ← Place.after_append, hall]
      rfl

/-- A walk that comes to a line feed has read everything in front of it, as if
    the text had ended there. -/
theorem tokenizeAt_append_newline (place : Place) (cs ds : List Char) :
    tokenizeAt place (cs ++ '\n' :: ds) =
      tokenizeAt place cs ++ tokenizeAt (place.after (cs ++ ['\n'])) ds := by
  rw [tokenizeAt_append (p := fun _ => True) (fun c rest _ => lexeme_append_newline c rest ds)
    (fun _ _ => trivial), tokenizeAt_space _ rfl, ← Place.after_append]

/-- Behind a line feed the text goes on in the first column of the next line. -/
theorem Place.start_after_newline (cs : List Char) :
    Place.start.after (cs ++ ['\n']) =
      Place.start.moved (1 + cs.count '\n') (1 + byteLength cs) := by
  have hposition : Position.start.after (cs ++ ['\n']) = ⟨1 + (1 + cs.count '\n'), 1⟩ := by
    rw [Position.after_newline, Nat.add_assoc, Nat.add_comm (cs.count '\n')]
    rfl
  unfold Place.after Place.moved Place.start
  rw [hposition, byteLength_append, Nat.add_comm (byteLength cs), Nat.zero_add, Nat.zero_add]
  rfl

/-- The same words behind a text and a line feed. -/
def TokenShift.behind (text : String) : TokenShift where
  lines := 1 + text.toList.count '\n'
  token := Token.moved (1 + text.toList.count '\n') (1 + text.utf8ByteSize)
  kind_token _ := rfl
  text_token _ := rfl
  position_token _ := rfl

/-- The words of a text are the same below another text, which is read first. -/
theorem tokenize_behind (a b : String) :
    tokenize (a ++ "\n" ++ b) = tokenize a ++ (tokenize b).map (TokenShift.behind a).token := by
  have hchars : (a ++ "\n" ++ b).toList = a.toList ++ '\n' :: b.toList := by
    rw [String.toList_append, String.toList_append, List.append_assoc]
    rfl
  unfold tokenize
  rw [hchars, tokenizeAt_append_newline, Place.start_after_newline, tokenizeAt_moved,
    byteLength_toList]
  rfl

/-- There is no line below the last. -/
theorem line_le_of_mem_tokenize {text : String} {token : Token} (h : token ∈ tokenize text) :
    token.position.line ≤ 1 + text.toList.count '\n' := by
  rcases exists_word_of_mem h with ⟨before, c, behind, htext, -, rfl⟩
  change (Position.start.after before).line ≤ _
  rw [Position.after_line, htext, List.count_append]
  exact Nat.add_le_add_left (Nat.le_add_right _ _) _

/-- No word of a text is on a line with a word below it. -/
theorem line_lt_of_mem_behind {a b : String} {token : Token} (h : token ∈ tokenize a)
    {other : Token} (hbehind : other ∈ (tokenize b).map (TokenShift.behind a).token) :
    token.position.line < other.position.line := by
  rcases List.mem_map.mp hbehind with ⟨word, hword, rfl⟩
  rcases exists_word_of_mem hword with ⟨before, c, behind, -, -, rfl⟩
  have hend := line_le_of_mem_tokenize h
  have hstart : 1 ≤ (Position.start.after before).line :=
    Position.line_le_after Position.start before
  change _ < (Position.start.after before).line + (1 + a.toList.count '\n')
  omega

/-- The tokens of two texts with a line feed between them: those of the first,
    and behind them those of the second, with their kinds, texts and columns
    but further down. -/
theorem tokenize_append_newline (a b : String) :
    tokenize (a ++ "\n" ++ b) =
      tokenize a ++
        (tokenize b).map (Token.moved (1 + a.toList.count '\n') (1 + a.utf8ByteSize)) :=
  tokenize_behind a b

end StackScript
