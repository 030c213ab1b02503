import StackScript.Proofs.Text.Trim
import StackScript.Proofs.Token.Comment
import StackScript.Proofs.Token.Print
import StackScript.Proofs.Token.Space
import StackScript.Script.Occurrence

/-!
# Carriage Returns

On some systems a line ends with a carriage return and a line feed. Between two
words the carriage return is a space like any other, and the words of the line
stay as they are. Behind a comment it is not: the comment takes it in and is
longer by one character, which is a blank, and what the comment says is the
same. Only a text in quotes that is never closed would be changed by it, and
such a text is an error.

So the two texts have the same words, at the same lines and columns, and
comments between them that say the same. `Token.bare` is what they have in
common.

## Main definitions

* `withReturns`: A text with a carriage return in front of every line feed.
* `Token.bare`: A token without its byte offset, and a comment by what it says.

## Theorems

* `tokenizeAt_return`: A line with a carriage return at its end.
* `tokenize_withReturns`: The tokens of a text with carriage returns.
-/

namespace StackScript

/-- The characters with a carriage return in front of every line feed. -/
def returned (cs : List Char) : List Char :=
  cs.flatMap fun c => if c = '\n' then ['\r', '\n'] else [c]

/-- The text with a carriage return in front of every line feed. -/
def withReturns (text : String) : String :=
  Text.onChars returned text

/-- A line stays as it is. -/
theorem returned_of_notMem {cs : List Char} (h : '\n' ∉ cs) : returned cs = cs := by
  induction cs with
  | nil => rfl
  | cons c cs ih =>
      rw [List.mem_cons, not_or] at h
      rw [returned, List.flatMap_cons, if_neg fun hc => h.1 hc.symm]
      exact congrArg (c :: ·) (ih h.2)

theorem returned_line {line : List Char} (h : '\n' ∉ line) (below : List Char) :
    returned (line ++ '\n' :: below) = line ++ ['\r'] ++ '\n' :: returned below := by
  have hline : line.flatMap _ = line := returned_of_notMem h
  rw [returned, List.flatMap_append, hline, List.append_assoc]
  rfl

/-! ## What tokens have in common -/

/-- The token without its byte offset. Of a comment only what it says is kept. -/
def Token.bare (token : Token) : Token :=
  { token.unplaced with
    text := if token.kind = .comment then String.ofList (' ' :: token.remark) else token.text }

theorem Token.bare_of_ne {token : Token} (h : token.kind ≠ .comment) :
    token.bare = token.unplaced := by
  rw [bare, if_neg h]
  rfl

theorem Token.remark_bare (token : Token) : token.bare.remark = token.remark := by
  by_cases h : token.kind = .comment
  · rw [remark, bare, if_pos h, String.toList_ofList, List.dropWhile_cons_of_neg (by decide)]
    change Text.trimEndBy _ (List.dropWhile _ _) = _
    rw [List.dropWhile_cons_of_pos (by decide)]
    exact Text.trim_trim _
  · rw [bare_of_ne h]
    rfl

/-- Tokens of the same kind at the same position have in common what they say. -/
theorem Token.bare_eq {token other : Token} (hkind : token.kind = other.kind)
    (hposition : token.position = other.position)
    (htext : token.kind ≠ .comment → token.text = other.text)
    (hremark : token.kind = .comment → token.remark = other.remark) :
    token.bare = other.bare := by
  unfold bare unplaced
  by_cases h : token.kind = .comment
  · simp only [hkind, hposition, hremark h, if_pos (hkind ▸ h)]
  · simp only [hkind, hposition, htext h, if_neg (hkind ▸ h)]

/-! ## Lines -/

/-- A comment says the same with a carriage return at its end. -/
theorem remark_append_return (cs : List Char) (position : Position) (offset offset' : Nat) :
    (Token.mk .comment (String.ofList (cs ++ ['\r'])) position offset).remark =
      (Token.mk .comment (String.ofList cs) position offset').remark := by
  have hdrop : (cs ++ ['\r']).dropWhile (· = '/') = cs.dropWhile (· = '/') ++ ['\r'] := by
    rw [List.dropWhile_append]
    cases h : cs.dropWhile (· = '/') with
    | nil => rfl
    | cons c rest => rfl
  rw [Token.remark, Token.remark, String.toList_ofList, String.toList_ofList, hdrop]
  exact Text.trim_append_blank (by decide) _

theorem tokenizeAt_comment (place : Place) {cs : List Char} (h : '\n' ∉ cs) :
    tokenizeAt place ('/' :: '/' :: cs) =
      [⟨.comment, String.ofList ('/' :: '/' :: cs), place.position, place.offset⟩] := by
  have htokens := tokenizeAt_reads (reads_comment h) place
  rwa [List.append_nil, tokenizeAt] at htokens

/-- A line without errors has the same tokens with a carriage return at its end. -/
theorem tokenizeAt_return {place : Place} {line : List Char} (hline : '\n' ∉ line)
    (h : ∀ token ∈ tokenizeAt place line, token.kind ≠ .error) :
    (tokenizeAt place (line ++ ['\r'])).map Token.bare =
      (tokenizeAt place line).map Token.bare := by
  fun_induction tokenizeAt place line with
  | case1 place => rw [List.nil_append, tokenizeAt_space place rfl, tokenizeAt]
  | case2 place c rest hspace ih =>
      rw [List.cons_append, tokenizeAt_space place hspace]
      exact ih (fun hmem => hline (.tail _ hmem)) h
  | case3 place c rest hspace word taken ih =>
      by_cases hcomment : word.1 = .comment
      · -- The comment takes the carriage return in, and nothing is left of the line.
        rcases comment_cases hcomment with ⟨cs, rfl, rfl⟩
        have hcs : '\n' ∉ cs := fun hmem => hline (.tail _ (.tail _ hmem))
        have hcs' : '\n' ∉ cs ++ ['\r'] := by
          rw [List.mem_append, not_or]
          exact ⟨hcs, by decide⟩
        have hone := tokenizeAt_comment place hcs
        rw [tokenizeAt_word place hspace] at hone
        refine Eq.trans ?_ (congrArg (List.map Token.bare) hone.symm)
        rw [List.cons_append, List.cons_append, tokenizeAt_comment place hcs', List.map_singleton,
          List.map_singleton]
        refine congrArg (fun token => [token])
          (Token.bare_eq rfl rfl (fun hne => absurd rfl hne) fun _ => ?_)
        exact remark_append_return ('/' :: '/' :: cs) _ _ _
      · -- Any other word ends in front of the carriage return.
        have hlexeme : lexeme c (rest ++ ['\r']) = word :=
          lexeme_append_space rfl hcomment (h _ (.head _)) []
        have hfits : word.2 - 1 ≤ rest.length := lexeme_le_length c rest
        have htaken : wordTaken c (rest ++ ['\r']) = taken := by
          rw [wordTaken, hlexeme, List.take_append_of_le_length hfits]
        have hfirst : wordAt place c (rest ++ ['\r']) = wordAt place c rest := by
          rw [wordAt, hlexeme, htaken]
          rfl
        have hrest : '\n' ∉ rest.drop (word.2 - 1) :=
          fun hmem => hline (.tail _ (List.mem_of_mem_drop hmem))
        rw [List.cons_append, tokenizeAt_word place hspace, List.map_cons, hfirst, htaken, hlexeme,
          List.drop_append_of_le_length hfits, ih hrest fun token hmem => h token (.tail _ hmem)]
        rfl

/-! ## Texts -/

/-- Bare tokens do not depend on the offset at which a text begins. -/
theorem tokenizeAt_bare {place place' : Place} (h : place'.position = place.position)
    (cs : List Char) :
    (tokenizeAt place' cs).map Token.bare = (tokenizeAt place cs).map Token.bare := by
  have hmoved : ∀ place : Place, (tokenizeAt place cs).map Token.bare =
      (tokenizeAt ⟨place.position, 0⟩ cs).map Token.bare := by
    intro place
    have hplace : (Place.mk place.position 0).moved 0 place.offset = place := by
      rw [Place.moved, Nat.zero_add]
      rfl
    conv =>
      lhs
      rw [← hplace]
    rw [tokenizeAt_moved, List.map_map]
    rfl
  rw [hmoved place', hmoved place, h]

/-- The tokens of a text without errors say the same when every line ends with a
    carriage return. -/
theorem tokenizeAt_returned {place : Place} {cs : List Char}
    (h : ∀ token ∈ tokenizeAt place cs, token.kind ≠ .error) :
    (tokenizeAt place (returned cs)).map Token.bare = (tokenizeAt place cs).map Token.bare := by
  induction cs using induction_lines generalizing place with
  | last line hline => rw [returned_of_notMem hline]
  | above line below hline ih =>
      rw [tokenizeAt_append_newline] at h
      have hfront : ∀ token ∈ tokenizeAt place line, token.kind ≠ .error :=
        fun token hmem => h token (List.mem_append_left _ hmem)
      have hbelow : ∀ token ∈ tokenizeAt (place.after (line ++ ['\n'])) below,
          token.kind ≠ .error := fun token hmem => h token (List.mem_append_right _ hmem)
      -- Behind the line feed the text goes on in the first column in both texts.
      have hposition : (place.after (line ++ ['\r'] ++ ['\n'])).position =
          (place.after (line ++ ['\n'])).position := by
        have hcount : (line ++ ['\r']).count '\n' = line.count '\n' := by
          rw [List.count_append]
          rfl
        change Position.after _ _ = Position.after _ _
        rw [Position.after_newline, Position.after_newline, hcount]
      rw [returned_line hline, tokenizeAt_append_newline, tokenizeAt_append_newline,
        List.map_append, List.map_append, tokenizeAt_return hline hfront,
        tokenizeAt_bare hposition, ih hbelow]

/-- A text without errors and the text with carriage returns have the same words,
    at the same lines and columns, and their comments say the same. -/
theorem tokenize_withReturns {text : String} (h : ∀ token ∈ tokenize text, token.kind ≠ .error) :
    (tokenize (withReturns text)).map Token.bare = (tokenize text).map Token.bare := by
  unfold tokenize withReturns Text.onChars
  rw [String.toList_ofList]
  exact tokenizeAt_returned h

end StackScript
