import StackScript.Proofs.Source.LineIndex
import StackScript.Proofs.Token.Lexeme
import StackScript.Token.Tokenize

/-!
# Tokens Tile the Text

The tokens of a text and the spaces between them are the text, each byte once.
Every later pass takes the words from the tokens and the places from their
positions, so a byte lost or a column miscounted here would be lost for all of
them.

`tokenizeAt` walks the text with a `Place`, and whatever a token says of
itself is read off the place at which the walk met it. `exists_word_of_mem`
states that once: a token is the word that begins behind some first part of
the text, at the place behind that part. What is true of single tokens follows
from it without another induction; what relates two tokens, and what is true of
the bytes that no token holds, goes along the walk.

## Main definitions

* `wordTaken`: The characters of the word at the front.
* `wordAt`: The word at the front as a token.
* `Token.stop`: The byte offset behind a token.
* `Token.IsSliceOf`: A token holds what the text holds at its offset.
* `Tiles`: Some tokens and the spaces between them make up a text.

## Theorems

* `exists_word_of_mem`: A token is the word at its place.
* `tokenizeAt_pairwise`: Tokens come in order, in bytes and in positions.
* `mem_spaceBytes_of_outside`: A byte outside all tokens is a space.
* `tokenize_tiles`: The tokens of a text tile it.
-/

namespace StackScript

/-- The characters of the word that begins with `c` and goes on in `cs`. -/
def wordTaken (c : Char) (cs : List Char) : List Char :=
  c :: cs.take ((lexeme c cs).2 - 1)

/-- The word that begins with `c` and goes on in `cs`, as a token. -/
def wordAt (place : Place) (c : Char) (cs : List Char) : Token :=
  ⟨(lexeme c cs).1, String.ofList (wordTaken c cs), place.position, place.offset⟩

theorem tokenizeAt_space (place : Place) {c : Char} (h : Lexeme.isSpace c) (cs : List Char) :
    tokenizeAt place (c :: cs) = tokenizeAt (place.after [c]) cs := by
  rw [tokenizeAt, if_pos h]

theorem tokenizeAt_word (place : Place) {c : Char} (h : ¬ Lexeme.isSpace c) (cs : List Char) :
    tokenizeAt place (c :: cs) =
      wordAt place c cs ::
        tokenizeAt (place.after (wordTaken c cs)) (cs.drop ((lexeme c cs).2 - 1)) := by
  rw [tokenizeAt, if_neg h]
  rfl

-- A word and what follows it are the text.
theorem wordTaken_append_drop (c : Char) (cs : List Char) :
    wordTaken c cs ++ cs.drop ((lexeme c cs).2 - 1) = c :: cs := by
  rw [wordTaken, List.cons_append, List.take_append_drop]

-- A word has a character and so a byte.
theorem wordTaken_ne_nil (c : Char) (cs : List Char) : wordTaken c cs ≠ [] :=
  List.cons_ne_nil _ _

/-- No word goes on behind a line feed, and none begins with one. -/
theorem newline_notMem_wordTaken {c : Char} (h : ¬ Lexeme.isSpace c) (cs : List Char) :
    '\n' ∉ wordTaken c cs := by
  have hline : (lexeme c cs).2 - 1 ≤ Lexeme.lineLength cs := by
    have := lexeme_le_line c cs
    omega
  rw [wordTaken, List.mem_cons, not_or]
  refine ⟨?_, Lexeme.newline_notMem_take hline⟩
  rintro rfl
  exact h rfl

theorem byteLength_pos {cs : List Char} (h : cs ≠ []) : 0 < byteLength cs := by
  cases cs with
  | nil => exact absurd rfl h
  | cons c cs =>
      rw [byteLength_cons]
      exact Nat.add_pos_left c.utf8Size_pos _

theorem Place.after_append (place : Place) (cs ds : List Char) :
    place.after (cs ++ ds) = (place.after cs).after ds := by
  unfold Place.after
  rw [Position.after_append, byteLength_append, Nat.add_assoc]

/-- A token is the word at its place: some first part of the text is followed
    by a character that begins a word, and the token is that word at the place
    behind the first part. -/
theorem exists_word_of_mem {place : Place} {cs : List Char} {token : Token}
    (h : token ∈ tokenizeAt place cs) :
    ∃ before c behind, cs = before ++ c :: behind ∧ ¬ Lexeme.isSpace c ∧
      token = wordAt (place.after before) c behind := by
  fun_induction tokenizeAt place cs with
  | case1 => cases h
  | case2 place c rest hspace ih =>
      rcases ih h with ⟨before, d, behind, hsplit, hword, htoken⟩
      refine ⟨c :: before, d, behind, by rw [hsplit, List.cons_append], hword, ?_⟩
      rw [htoken, ← Place.after_append, List.singleton_append]
  | case3 place c rest hspace word taken ih =>
      rcases List.mem_cons.mp h with rfl | h
      · exact ⟨[], c, rest, rfl, hspace, rfl⟩
      · rcases ih h with ⟨before, d, behind, hsplit, hword, htoken⟩
        refine ⟨taken ++ before, d, behind, ?_, hword, ?_⟩
        · rw [List.append_assoc, ← hsplit]
          exact (wordTaken_append_drop c rest).symm
        · rw [htoken, ← Place.after_append]

/-- The byte offset behind the token. -/
def Token.stop (token : Token) : Nat :=
  token.offset + token.text.utf8ByteSize

@[simp]
theorem wordAt_stop (place : Place) (c : Char) (cs : List Char) :
    (wordAt place c cs).stop = (place.after (wordTaken c cs)).offset := by
  rw [Token.stop, wordAt, ← byteLength_toList, String.toList_ofList]
  rfl

-- Whatever follows a part of the text begins at its end or later.
theorem le_offset_of_mem {place : Place} {cs : List Char} {token : Token}
    (h : token ∈ tokenizeAt place cs) : place.offset ≤ token.offset := by
  rcases exists_word_of_mem h with ⟨before, c, behind, -, -, rfl⟩
  exact Nat.le_add_right _ _

/-- A token begins inside the text. -/
theorem offset_lt_of_mem_tokenize {text : String} {token : Token} (h : token ∈ tokenize text) :
    token.offset < text.utf8ByteSize := by
  rcases exists_word_of_mem h with ⟨before, c, behind, hsplit, -, rfl⟩
  have hword := byteLength_pos (List.cons_ne_nil c behind)
  change 0 + byteLength before < _
  rw [← byteLength_toList, hsplit, byteLength_append]
  omega

/-- Tokens come in order: a later one begins behind the end of an earlier one,
    and further on for a reader too. -/
theorem tokenizeAt_pairwise (place : Place) (cs : List Char) :
    (tokenizeAt place cs).Pairwise fun a b => a.stop ≤ b.offset ∧ a.position < b.position := by
  fun_induction tokenizeAt place cs with
  | case1 => exact List.Pairwise.nil
  | case2 place c rest hspace ih => exact ih
  | case3 place c rest hspace word taken ih =>
      refine List.Pairwise.cons (fun token h => ?_) ih
      refine ⟨?_, ?_⟩
      · exact Nat.le_trans (Nat.le_of_eq (wordAt_stop place c rest)) (le_offset_of_mem h)
      · rcases exists_word_of_mem h with ⟨before, d, behind, -, -, rfl⟩
        change place.position < ((place.after taken).after before).position
        rw [← Place.after_append]
        exact Position.lt_after _ (by simp [taken])

/-! ## Bytes -/

/-- The characters in UTF-8. -/
def encode (cs : List Char) : List UInt8 :=
  cs.flatMap String.utf8EncodeChar

@[simp]
theorem encode_append (cs ds : List Char) : encode (cs ++ ds) = encode cs ++ encode ds :=
  List.flatMap_append

@[simp]
theorem length_encode (cs : List Char) : (encode cs).length = byteLength cs := by
  induction cs with
  | nil => rfl
  | cons c cs ih =>
      rw [encode, List.flatMap_cons, List.length_append, String.length_utf8EncodeChar,
        byteLength_cons, ← ih]
      rfl

theorem toByteArray_encode (cs : List Char) : (encode cs).toByteArray = cs.utf8Encode := by
  induction cs with
  | nil => rfl
  | cons c cs ih =>
      rw [List.utf8Encode_cons, List.utf8Encode_singleton, ← ih, ← List.toByteArray_append]
      rfl

/-- The bytes of a text are its characters in UTF-8. -/
theorem toUTF8_getElem? (text : String) (i : Nat) :
    text.toUTF8[i]? = (encode text.toList)[i]? := by
  have hbytes : text.toUTF8 = (encode text.toList).toByteArray := by
    rw [toByteArray_encode, String.utf8Encode_toList]
    rfl
  rw [hbytes]
  by_cases h : i < (encode text.toList).length
  · rw [List.getElem?_eq_getElem h, getElem?_pos _ i (by rwa [List.size_toByteArray]),
      List.getElem_toByteArray]
  · rw [List.getElem?_eq_none (Nat.le_of_not_lt h),
      getElem?_neg _ i (by rwa [List.size_toByteArray])]

/-- The spaces between words in UTF-8: space, tab, carriage return, line feed
    and form feed. -/
def spaceBytes : List UInt8 :=
  [0x20, 0x09, 0x0D, 0x0A, 0x0C]

/-- A space is one byte. -/
theorem encode_space {c : Char} (h : Lexeme.isSpace c) :
    ∃ byte ∈ spaceBytes, encode [c] = [byte] := by
  simp only [Lexeme.isSpace, Bool.or_eq_true, decide_eq_true_eq] at h
  rcases h with (((rfl | rfl) | rfl) | rfl) | rfl
  · exact ⟨0x20, by decide, rfl⟩
  · exact ⟨0x09, by decide, rfl⟩
  · exact ⟨0x0D, by decide, rfl⟩
  · exact ⟨0x0A, by decide, rfl⟩
  · exact ⟨0x0C, by decide, rfl⟩

/-- The byte `i` bytes behind the place lies in none of the tokens. -/
def Outside (tokens : List Token) (i : Nat) : Prop :=
  ∀ token ∈ tokens, i < token.offset ∨ token.stop ≤ i

/-- A byte that lies in no token belongs to a space. -/
theorem mem_spaceBytes_of_outside {place : Place} {cs : List Char} {i : Nat} {byte : UInt8}
    (hbyte : (encode cs)[i]? = some byte)
    (hout : Outside (tokenizeAt place cs) (place.offset + i)) : byte ∈ spaceBytes := by
  fun_induction tokenizeAt place cs generalizing i with
  | case1 => cases hbyte
  | case2 place c rest hspace ih =>
      rcases encode_space hspace with ⟨space, hmem, hencode⟩
      rw [← List.singleton_append, encode_append, hencode] at hbyte
      cases i with
      | zero =>
          cases hbyte
          exact hmem
      | succ i =>
          refine ih hbyte ?_
          have hsize : byteLength [c] = 1 := by
            rw [← length_encode, hencode]
            rfl
          have hplace : (place.after [c]).offset + i = place.offset + (i + 1) := by
            change place.offset + byteLength [c] + i = _
            omega
          rwa [hplace]
  | case3 place c rest hspace word taken =>
      rename_i ih
      have hstop : (wordAt place c rest).stop = place.offset + byteLength taken :=
        wordAt_stop place c rest
      -- The byte is not in the word, so it is behind it.
      have hbehind : byteLength taken ≤ i := by
        rcases hout _ List.mem_cons_self with hlt | hle
        · exact absurd hlt (Nat.not_lt.mpr (Nat.le_add_right _ _))
        · change (wordAt place c rest).stop ≤ place.offset + i at hle
          omega
      refine @ih (i - byteLength taken) ?_ ?_
      · rw [← wordTaken_append_drop c rest, encode_append] at hbyte
        change (encode taken ++ _)[i]? = some byte at hbyte
        rw [List.getElem?_append_right (by rwa [length_encode]), length_encode] at hbyte
        exact hbyte
      · have hplace : (place.after taken).offset + (i - byteLength taken) = place.offset + i := by
          change place.offset + byteLength taken + (i - byteLength taken) = _
          omega
        rw [hplace]
        exact fun token hmem => hout token (List.mem_cons_of_mem _ hmem)

/-! ## The tiling -/

/-- The token holds what the text holds at the offset of the token. -/
def Token.IsSliceOf (token : Token) (text : String) : Prop :=
  ∃ before behind, text = before ++ token.text ++ behind ∧ before.utf8ByteSize = token.offset

/-- The tokens and the spaces between them make up the text, and every token
    is where it says it is. -/
structure Tiles (tokens : List Token) (text : String) : Prop where
  /-- A token is a slice of the text. -/
  slice : ∀ token ∈ tokens, token.IsSliceOf text
  /-- No token is empty. -/
  nonempty : ∀ token ∈ tokens, token.offset < token.stop
  /-- A token begins behind the end of the ones before it. -/
  disjoint : tokens.Pairwise fun a b => a.stop ≤ b.offset
  /-- Between the tokens there are only spaces. -/
  spaces : ∀ (i : Nat) (byte : UInt8), text.toUTF8[i]? = some byte → Outside tokens i →
    byte ∈ spaceBytes
  /-- A token is on one line. -/
  oneLine : ∀ token ∈ tokens, '\n' ∉ token.text.toList
  /-- A token is where the line table of the text finds its offset. -/
  placed : ∀ token ∈ tokens,
    token.position = (LineIndex.ofText text).position token.offset
  /-- A token is further on than the ones before it. -/
  rising : tokens.Pairwise fun a b => a.position < b.position

/-- The tokens of a text tile it. -/
theorem tokenize_tiles (text : String) : Tiles (tokenize text) text where
  slice token h := by
    rcases exists_word_of_mem h with ⟨before, c, behind, hsplit, -, rfl⟩
    refine ⟨String.ofList before, String.ofList (behind.drop ((lexeme c behind).2 - 1)), ?_, ?_⟩
    · rw [← String.toList_inj, hsplit]
      simp only [String.toList_append, String.toList_ofList, wordAt]
      rw [List.append_assoc, wordTaken_append_drop]
    · rw [← byteLength_toList, String.toList_ofList]
      exact (Nat.zero_add _).symm
  nonempty token h := by
    rcases exists_word_of_mem h with ⟨before, c, behind, -, -, rfl⟩
    rw [wordAt_stop]
    exact Nat.lt_add_of_pos_right (byteLength_pos (wordTaken_ne_nil c behind))
  disjoint := (tokenizeAt_pairwise _ _).imp And.left
  spaces i byte hbyte hout := by
    rw [toUTF8_getElem?] at hbyte
    have hstart : Outside (tokenizeAt Place.start text.toList) (Place.start.offset + i) := by
      rwa [Place.start, Nat.zero_add]
    exact mem_spaceBytes_of_outside hbyte hstart
  oneLine token h := by
    rcases exists_word_of_mem h with ⟨before, c, behind, -, hword, rfl⟩
    rw [wordAt, String.toList_ofList]
    exact newline_notMem_wordTaken hword behind
  placed token h := by
    rcases exists_word_of_mem h with ⟨before, c, behind, hsplit, -, rfl⟩
    rw [LineIndex.ofText, hsplit]
    have hoffset : (Place.start.after before).offset = byteLength before := Nat.zero_add _
    rw [wordAt, hoffset, LineIndex.position_append]
    rfl
  rising := (tokenizeAt_pairwise _ _).imp And.right

end StackScript
