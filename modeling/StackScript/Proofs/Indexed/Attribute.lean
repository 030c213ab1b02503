import StackScript.Proofs.Indexed.Scan
import StackScript.Proofs.Indexed.Text
import StackScript.Symbols.Declaration

/-!
# Attributes by Index

What stands behind the name of a declaration is read with a cursor over the
indices of the words of the statement. Only the block of an enumeration is
searched token by token, up to its closing brace or the end of the statement.

The cursor leaves a block by passing over all indices up to the closing brace,
which the library does by counting braces among the words. `skipPast_words`
says that both come to the same word.

## Main definitions

* `Indexed.filterList`, `Indexed.enumValues`: The parts of the attributes.
* `Indexed.attributes`: What stands behind the name of a declaration.

## Theorems

* `filterList_eq`: The program reads the filters of the library.
* `enumValues_eq`: The program reads the values of an enumeration.
* `attributes_eq`: The program reads the attributes of the library.
-/

namespace StackScript

namespace Indexed

/-! ## The cursor -/

/-- The token at an index is of the given kind; there may be no index at all. -/
def isAt (tokens : List Token) (kind : TokenKind) : Option Nat → Checked Bool
  | none => return false
  | some i => do
      let token ← tokens[i]?
      return token.kind = kind

/-- The arguments of a filter, each behind a colon, are passed over. -/
def skipArguments (tokens : List Token) : List Nat → Checked (List Nat)
  | [] => return []
  | index :: words => do
      let colon ← tokens[index]?
      if colon.kind = .colon then
        match words with
        | [] => return []
        | next :: rest =>
            let argument ← tokens[next]?
            if argument.kind.isArgument then
              skipArguments tokens rest
            else
              skipArguments tokens (next :: rest)
      else
        return index :: words

/-- The names of a list of filters, and the words behind the list. -/
def filterList (tokens : List Token) : List Nat → Checked (List String × List Nat)
  | [] => return ([], [])
  | index :: words => do
      let name ← tokens[index]?
      if name.kind = .ident then
        let behind ← skipArguments tokens words
        if ← isAt tokens .pipe behind.head? then
          if behind.length ≤ words.length then
            let (names, left) ← filterList tokens (behind.drop 1)
            return (name.text :: names, left)
          else
            none
        else
          return ([name.text], behind)
      else
        return ([], index :: words)
termination_by words => words.length

/-! ## Enumerations -/

/-- The value that a word of a list is, without quotes and outer blanks. -/
def listedValue (token : Token) : Checked String := do
  let value ← unquote token.text
  return Text.onChars Text.trim value

/-- The values in the first pair of brackets from `start` on and below `stop`. -/
def bracketList (tokens : List Token) (start stop : Nat) : Checked (List String) := do
  match ← firstFrom tokens (fun token => token.kind = .lBracket) start stop with
  | none => return []
  | some left =>
      let inside ← checkedSlice tokens (left + 1) stop
      let listed := (inside.takeWhile fun token => token.kind ≠ .rBracket).filter fun token =>
        token.kind = .string || token.kind = .ident || token.kind = .number
      let values ← listed.mapM listedValue
      return values.filter (· ≠ "")

/-- The values behind an equals sign, if that is the next word from `start` on and
    below `stop`. -/
def assignedList (tokens : List Token) (start stop : Nat) :
    Checked (Option (List String)) := do
  match ← firstFrom tokens Token.isSignificant start stop with
  | none => return none
  | some sign =>
      let token ← tokens[sign]?
      if token.kind = .eq then
        let values ← bracketList tokens (sign + 1) stop
        return some values
      else
        return none

/-- The values that a block from `i` on and below `stop` assigns to `values`. -/
def enumValues (tokens : List Token) (i stop : Nat) : Checked (Option (List String)) :=
  if i < stop then do
    let word ← tokens[i]?
    let assigned ← if word.isIdent "values" then assignedList tokens (i + 1) stop else pure none
    match assigned with
    | some values => return some values
    | none => enumValues tokens (i + 1) stop
  else
    return none
termination_by stop - i

/-! ## Attributes -/

/-- The words behind an index. -/
def skipPast (close : Nat) (words : List Nat) : List Nat :=
  words.dropWhile (· ≤ close)

/-- Reading attributes and blocks behind what has been read already, in a statement
    that ends in front of `stop`. -/
def attributes (tokens : List Token) (stop : Nat) (isEnum : Bool) (known : Attributes) :
    List Nat → Checked Attributes
  | [] => return known
  | index :: words => do
      let token ← tokens[index]?
      let assigned ← if token.kind = .ident then isAt tokens .eq words.head? else pure false
      if assigned then
        if token.text = "filters" then
          let (names, left) ← filterList tokens (words.drop 1)
          if left.length ≤ words.length then
            attributes tokens stop isEnum { known with filters := some names } left
          else
            none
        else
          attributes tokens stop isEnum known (words.drop 2)
      else if token.kind = .lBrace then
        let close := min ((blockEnd tokens index).getD stop) stop
        let values ←
          if isEnum then enumValues tokens (index + 1) close else pure known.enumValues
        let left := skipPast close (index :: words)
        if left.length ≤ words.length then
          attributes tokens stop isEnum { known with enumValues := values } left
        else
          none
      else
        attributes tokens stop isEnum known words
termination_by words => words.length
decreasing_by
  · exact Nat.lt_succ_of_le ‹_›
  · simp only [List.length_drop, List.length_cons]
    omega
  · exact Nat.lt_succ_of_le ‹_›
  · exact Nat.lt_succ_self _

end Indexed

/-! ## What the readers leave -/

/-- The rest of a block is behind it. -/
theorem untilClose_rest_suffix (depth : Nat) (places : List Occurrence) :
    (untilClose depth places).rest <:+ places := by
  have happend := untilClose_append depth places
  rcases hblock : untilClose depth places with ⟨body, _ | ⟨close, rest⟩⟩
  · exact List.nil_suffix
  · rw [hblock] at happend
    exact ⟨body ++ [close], by rw [happend, List.append_assoc]; rfl⟩

/-- What follows the arguments of a filter is the end of what was offered. -/
theorem skipFilterArguments_suffix (places : List Occurrence) :
    skipFilterArguments places <:+ places := by
  fun_induction skipFilterArguments places with
  | case1 => exact List.suffix_refl _
  | case2 => exact List.nil_suffix
  | case3 colon _ argument rest _ ih =>
      exact ih.trans ((List.suffix_cons argument rest).trans (List.suffix_cons colon _))
  | case4 colon _ argument rest _ ih => exact ih.trans (List.suffix_cons colon _)
  | case5 => exact List.suffix_refl _

/-- What follows a list of filters is the end of what was offered. -/
theorem readFilters_suffix (places : List Occurrence) : (readFilters places).2 <:+ places := by
  fun_induction readFilters places with
  | case1 => exact List.suffix_refl _
  | case2 name rest _ behind _ more ih =>
      have hbehind : behind <:+ rest := skipFilterArguments_suffix rest
      exact ih.trans
        ((List.drop_suffix 1 behind).trans (hbehind.trans (List.suffix_cons name rest)))
  | case3 name rest => exact (skipFilterArguments_suffix rest).trans (List.suffix_cons name rest)
  | case4 => exact List.suffix_refl _

/-! ## Comments in an enumeration -/

/-- A comment is neither a value of a list nor its end. -/
theorem listed_significant (places : List Occurrence) :
    (((significant places).takeWhile fun place => place.token.kind ≠ .rBracket).filter fun place =>
        place.token.kind = .string || place.token.kind = .ident || place.token.kind = .number) =
      (places.takeWhile fun place => place.token.kind ≠ .rBracket).filter fun place =>
        place.token.kind = .string || place.token.kind = .ident || place.token.kind = .number := by
  induction places with
  | nil => rfl
  | cons place places ih =>
      by_cases hword : place.isSignificant
      · rw [significant_cons_of_pos hword]
        -- The bracket that closes the list ends both readings.
        by_cases hend : place.token.kind = .rBracket
        · simp [hend]
        · rw [List.takeWhile_cons_of_pos (by simpa using hend),
            List.takeWhile_cons_of_pos (by simpa using hend), List.filter_cons,
            List.filter_cons, ih]
      · -- A comment is no value, and closes no list.
        have hkind := kind_of_comment hword
        rw [significant_cons_of_neg hword, ih, List.takeWhile_cons_of_pos (by simp [hkind]),
          List.filter_cons_of_neg (by simp [hkind])]

/-- The values of a list are those behind its bracket, up to the one that closes it. -/
theorem bracketedValues_append {l r : List Occurrence} {left : Occurrence}
    (hl : ∀ place ∈ l, place.token.kind ≠ .lBracket) (hleft : left.token.kind = .lBracket) :
    bracketedValues (significant (l ++ left :: r)) =
      (((r.takeWhile fun place => place.token.kind ≠ .rBracket).filter fun place =>
        place.token.kind = .string || place.token.kind = .ident ||
          place.token.kind = .number).map fun place =>
            Text.onChars Text.trim (Text.unquote place.token.text)).filter (· ≠ "") := by
  have hword : left.isSignificant := by
    simp [Occurrence.isSignificant, Token.isSignificant, TokenKind.isTrivia, hleft]
  have hdrop : (significant (l ++ left :: r)).dropWhile
      (fun place => place.token.kind ≠ .lBracket) = left :: significant r := by
    rw [significant, List.filter_append, ← significant, ← significant,
      significant_cons_of_pos hword, List.dropWhile_append_of_pos,
      List.dropWhile_cons_of_neg (by simp [hleft])]
    intro place hplace
    simpa using hl place (List.mem_filter.mp hplace).1
  rw [bracketedValues, hdrop, ← listed_significant r]
  rfl

/-- Only the word `values` with a sign behind it is a list of values. -/
theorem enumValuesOf_cons (word : Occurrence) (words : List Occurrence) :
    enumValuesOf (word :: words) =
      if word.token.isIdent "values" && startsWith .eq words then
        some (bracketedValues (words.drop 1))
      else
        enumValuesOf words := by
  cases words with
  | nil => simp [enumValuesOf, startsWith]
  | cons sign places =>
      rw [enumValuesOf]
      rfl

namespace Indexed

variable {tokens : List Token}

/-! ## Reading filters -/

section Cursor

variable {places : List Occurrence}

/-- The test of an index is the test of the word there. -/
theorem isAt_head (kind : TokenKind) (h : places ⊆ occurrences tokens) :
    isAt tokens kind (places.map Occurrence.index).head? = some (startsWith kind places) := by
  cases places with
  | nil => rfl
  | cons place places =>
      rw [List.map_cons, List.head?_cons, isAt, (standing_of_mem (h (.head _))).1]
      rfl

/-- Arguments are passed over alike, a word or a pair of words at a time. -/
theorem skipArguments_eq (h : places ⊆ occurrences tokens) :
    skipArguments tokens (places.map Occurrence.index) =
      some ((skipFilterArguments places).map Occurrence.index) := by
  fun_induction skipFilterArguments places with
  | case1 => rfl
  | case2 colon hcolon =>
      simp only [List.map_cons, List.map_nil, skipArguments, (standing_of_mem (h (.head _))).1,
        Checked.bind_some, if_pos hcolon, Option.pure_def]
  | case3 colon hcolon argument rest hargument ih =>
      have hnext := standing_of_mem (h (.tail _ (.head _)))
      simp only [List.map_cons, skipArguments, (standing_of_mem (h (.head _))).1, hnext.1,
        Checked.bind_some, if_pos hcolon, if_pos hargument]
      exact ih fun place hplace => h (.tail _ (.tail _ hplace))
  | case4 colon hcolon argument rest hargument ih =>
      have hnext := standing_of_mem (h (.tail _ (.head _)))
      simp only [List.map_cons, skipArguments, (standing_of_mem (h (.head _))).1, hnext.1,
        Checked.bind_some, if_pos hcolon, if_neg hargument]
      exact ih fun place hplace => h (.tail _ hplace)
  | case5 colon rest hcolon =>
      rw [List.map_cons, skipArguments.eq_def]
      simp only [(standing_of_mem (h (.head _))).1, Checked.bind_some, if_neg hcolon,
        Option.pure_def]

/-- Filters are read alike, and the cursor stops at the same word. -/
theorem filterList_eq (h : places ⊆ occurrences tokens) :
    filterList tokens (places.map Occurrence.index) =
      some ((readFilters places).1, (readFilters places).2.map Occurrence.index) := by
  fun_induction readFilters places with
  | case1 => rw [List.map_nil, filterList]; rfl
  | case2 name rest hname behind hpipe more ih =>
      have hrest : rest ⊆ occurrences tokens := fun place hplace => h (.tail _ hplace)
      have hbehind : skipFilterArguments rest ⊆ occurrences tokens := fun place hplace =>
        hrest ((skipFilterArguments_suffix rest).subset hplace)
      have hmore := ih fun place hplace => hbehind (List.mem_of_mem_drop hplace)
      have hpipe' : startsWith .pipe (skipFilterArguments rest) = true := hpipe
      rw [List.map_drop] at hmore
      rw [List.map_cons, filterList, (standing_of_mem (h (.head _))).1]
      -- The cursor has moved on, which is why the reader comes to an end.
      have hlength : ((skipFilterArguments rest).map Occurrence.index).length ≤
          (rest.map Occurrence.index).length := by
        rw [List.length_map, List.length_map]
        exact skipFilterArguments_length_le rest
      simp only [Checked.bind_some, if_pos hname, skipArguments_eq hrest, isAt_head _ hbehind,
        if_pos hpipe', if_pos hlength]
      rw [hmore]
      rfl
  | case3 name rest hname behind hpipe =>
      have hrest : rest ⊆ occurrences tokens := fun place hplace => h (.tail _ hplace)
      have hbehind : skipFilterArguments rest ⊆ occurrences tokens := fun place hplace =>
        hrest ((skipFilterArguments_suffix rest).subset hplace)
      have hpipe' : ¬ startsWith .pipe (skipFilterArguments rest) = true := hpipe
      rw [List.map_cons, filterList, (standing_of_mem (h (.head _))).1]
      simp only [Checked.bind_some, if_pos hname, skipArguments_eq hrest, isAt_head _ hbehind,
        if_neg hpipe']
      rfl
  | case4 name rest hname =>
      rw [List.map_cons, filterList, (standing_of_mem (h (.head _))).1, Checked.bind_some,
        if_neg hname]
      rfl

end Cursor

/-! ## Reading enumerations -/

theorem listedValue_eq (token : Token) :
    listedValue token = some (Text.onChars Text.trim (Text.unquote token.text)) := by
  rw [listedValue, unquote_eq]
  rfl

/-- The values are looked for from the first bracket of the range. -/
theorem bracketList_eq {start stop : Nat} (hstop : stop ≤ tokens.length) :
    bracketList tokens start stop =
      some (bracketedValues (significant (span tokens start stop))) := by
  rw [bracketList, firstFrom_eq _ _ hstop]
  cases hfind : (span tokens start stop).find? fun place => place.token.kind = .lBracket with
  | none =>
      -- A range without a bracket has no word that is one.
      have hnone : (significant (span tokens start stop)).dropWhile
          (fun place => place.token.kind ≠ .lBracket) = [] := by
        rw [List.dropWhile_eq_nil_iff]
        intro place hplace
        simpa using List.find?_eq_none.mp hfind place (List.mem_filter.mp hplace).1
      rw [bracketedValues, hnone]
      rfl
  | some left =>
      rcases List.find?_eq_some_iff_append.mp hfind with ⟨hleft, l, r, hspan, hl⟩
      rcases span_split hspan with ⟨-, hlt, -, hr⟩
      rw [hspan, bracketedValues_append (by simpa using hl) (by simpa using hleft)]
      -- The slice behind the bracket is inside of the script.
      have hinside : checkedSlice tokens (left.index + 1) stop = some (r.map Occurrence.token) :=
        hr ▸ checkedSlice_eq hlt hstop
      simp only [Option.map_some, Checked.bind_some, hinside, List.takeWhile_map,
        List.filter_map, Checked.mapM_eq fun token _ => listedValue_eq token, List.map_map,
        Function.comp_def, Option.pure_def]

/-- The sign is the first word behind the name. -/
theorem assignedList_eq (start : Nat) {stop : Nat} (hstop : stop ≤ tokens.length) :
    assignedList tokens start stop =
      some (if startsWith .eq (significant (span tokens start stop)) then
        some (bracketedValues ((significant (span tokens start stop)).drop 1)) else none) := by
  have hnext := nextSignificant_cases tokens start stop
  rw [nextSignificant, Nat.min_eq_left hstop] at hnext
  rcases hnext with ⟨hnext, hwords⟩ | ⟨sign, hnext, hmem, -, -, hwords⟩
  · rw [assignedList, hnext, hwords]
    rfl
  · rw [assignedList, hnext, hwords]
    simp only [Checked.bind_some, (standing_of_mem hmem).1, startsWith, List.head?_cons,
      Option.any_some, List.drop_succ_cons, List.drop_zero, bracketList_eq hstop, decide_eq_true_eq]
    split <;> rfl

/-- The values of an enumeration are looked for word by word, and the program looks at
    comments as well. -/
theorem enumValues_eq (i : Nat) {stop : Nat} (hstop : stop ≤ tokens.length) :
    enumValues tokens i stop = some (enumValuesOf (significant (span tokens i stop))) := by
  induction hn : stop - i using Nat.strongRecOn generalizing i with
  | ind n ih =>
    rw [enumValues]
    by_cases hlt : i < stop
    · rcases exists_place hlt hstop with ⟨place, rfl, hmem, hspan⟩
      have hbehind := ih (stop - (place.index + 1)) (by omega) _ rfl
      rw [if_pos hlt, (standing_of_mem hmem).1, hspan, Checked.bind_some]
      by_cases hword : place.isSignificant
      · rw [significant_cons_of_pos hword, enumValuesOf_cons, assignedList_eq _ hstop]
        cases hname : place.token.isIdent "values" with
        | false => exact hbehind
        | true =>
            cases hsign : startsWith .eq (significant (span tokens (place.index + 1) stop)) with
            | false => exact hbehind
            | true => rfl
      · -- A comment is no name, so the search goes on behind it.
        have hname : place.token.isIdent "values" = false := by
          simp [Token.isIdent, kind_of_comment hword]
        rw [significant_cons_of_neg hword, hname]
        exact hbehind
    · rw [if_neg hlt, span_of_le tokens (Nat.le_of_not_lt hlt)]
      rfl

/-! ## Reading attributes -/

/-- Passing over the words up to an index comes to those behind it. -/
theorem skipPast_words {i close stop : Nat} (hi : i ≤ close + 1) :
    skipPast close ((significant (span tokens i stop)).map Occurrence.index) =
      (significant (span tokens (close + 1) stop)).map Occurrence.index := by
  -- The words up to the closing brace have indices that are passed over, and those behind
  -- it do not.
  have hsplit := List.take_append_drop (close + 1 - i) (span tokens i stop)
  rw [take_span, drop_span, Nat.add_sub_cancel' hi] at hsplit
  rw [skipPast, ← hsplit, significant, List.filter_append, ← significant, ← significant,
    List.map_append, List.dropWhile_append_of_pos]
  · cases hwords : significant (span tokens (close + 1) stop) with
    | nil => rfl
    | cons word words =>
        have hword : word ∈ significant (span tokens (close + 1) stop) :=
          hwords ▸ List.mem_cons_self
        have hindex := (index_of_mem_span (List.mem_filter.mp hword).1).1
        rw [List.map_cons, List.dropWhile_cons_of_neg (by simpa using Nat.not_le_of_lt hindex)]
  · intro index hindex
    rcases List.mem_map.mp hindex with ⟨word, hword, rfl⟩
    have hlt := (index_of_mem_span (List.mem_filter.mp hword).1).2
    simp only [decide_eq_true_eq]
    omega

section Word

variable {start stop : Nat} {place : Occurrence} {rest : List Occurrence}

/-- Passing over the indices of a block comes to the words behind its closing brace. -/
theorem skipPast_block (h : place :: rest <:+ significant (span tokens start stop))
    (hbrace : place.token.kind = .lBrace) :
    skipPast (min ((blockEnd tokens place.index).getD stop) stop)
        ((place :: rest).map Occurrence.index) =
      (untilClose 0 rest).rest.map Occurrence.index := by
  rcases word_cons h with ⟨hmem, hlt, hrest⟩
  have hbehind := (untilClose_words hmem hbrace hlt rfl).2
  have hle := Nat.le_of_lt (lt_close hmem hbrace hlt)
  rw [← hrest] at hbehind
  rw [List.map_cons, skipPast, List.dropWhile_cons_of_pos (by simpa using hle), ← skipPast,
    hbehind, hrest, skipPast_words (Nat.succ_le_succ hle)]

/-- At a block, the program and the library go on behind the same brace. -/
theorem attributes_lBrace (isEnum : Bool) (known : Attributes) (hstop : stop ≤ tokens.length)
    (h : place :: rest <:+ significant (span tokens start stop))
    (hbrace : place.token.kind = .lBrace) :
    attributes tokens stop isEnum known ((place :: rest).map Occurrence.index) =
      attributes tokens stop isEnum
        { known with enumValues :=
            if isEnum then enumValuesOf (untilClose 0 rest).body else known.enumValues }
        ((untilClose 0 rest).rest.map Occurrence.index) := by
  rcases word_cons h with ⟨hmem, hlt, hrest⟩
  have hne : ¬ place.token.kind = .ident := by simp [hbrace]
  have hpassed := skipPast_block h hbrace
  have hbody := (untilClose_words hmem hbrace hlt rfl).1
  rw [← hrest] at hbody
  -- The block is searched up to its partner, or to the end of the statement if that is
  -- further off.
  have hvalues : enumValues tokens (place.index + 1)
      (min ((blockEnd tokens place.index).getD stop) stop) =
        some (enumValuesOf (untilClose 0 rest).body) := by
    rw [hbody, enumValues_eq _ (Nat.le_trans (Nat.min_le_right _ _) hstop)]
  have hlength : ((untilClose 0 rest).rest.map Occurrence.index).length ≤
      (rest.map Occurrence.index).length := by
    rw [List.length_map, List.length_map]
    exact untilClose_rest_length_le 0 rest
  rw [List.map_cons] at hpassed
  rw [List.map_cons, attributes, (standing_of_mem hmem).1]
  simp only [Checked.bind_some, if_neg hne, if_pos hbrace, Option.pure_def, Bool.false_eq_true,
    if_false, hvalues, hpassed, if_pos hlength]
  cases isEnum <;> rfl

/-- At any other word, the program and the library go on behind the same attribute. -/
theorem attributes_of_ne_lBrace (isEnum : Bool) (known : Attributes)
    (h : place :: rest <:+ significant (span tokens start stop))
    (hbrace : ¬ place.token.kind = .lBrace) :
    attributes tokens stop isEnum known ((place :: rest).map Occurrence.index) =
      if place.token.kind = .ident && startsWith .eq rest then
        if place.token.text = "filters" then
          attributes tokens stop isEnum
            { known with filters := some (readFilters (rest.drop 1)).1 }
            ((readFilters (rest.drop 1)).2.map Occurrence.index)
        else
          attributes tokens stop isEnum known ((rest.drop 2).map Occurrence.index)
      else
        attributes tokens stop isEnum known (rest.map Occurrence.index) := by
  have hsubset := subset_words ((List.suffix_cons place rest).trans h)
  have hfilters : filterList tokens ((rest.drop 1).map Occurrence.index) =
      some ((readFilters (rest.drop 1)).1,
        (readFilters (rest.drop 1)).2.map Occurrence.index) :=
    filterList_eq fun word hword => hsubset (List.mem_of_mem_drop hword)
  -- The list of filters is behind the word, so less is left than before.
  have hlength : ((readFilters (rest.drop 1)).2.map Occurrence.index).length ≤
      (rest.map Occurrence.index).length := by
    rw [List.length_map, List.length_map]
    exact Nat.le_trans (readFilters_length_le _) (List.drop_suffix 1 rest).length_le
  rw [List.map_cons, attributes, (standing_of_mem (word_cons h).1).1]
  simp only [Checked.bind_some, if_neg hbrace, Option.pure_def, isAt_head _ hsubset,
    ← List.map_drop, hfilters, if_pos hlength]
  by_cases hident : place.token.kind = .ident
  · simp only [hident, if_true, decide_true, Bool.true_and]
  · simp only [hident, if_false, decide_false, Bool.false_and, Bool.false_eq_true]

end Word

/-- The attributes are read alike, one case for each way in which the reader goes on. -/
theorem attributes_eq (isEnum : Bool) (known : Attributes) {start stop : Nat}
    (hstop : stop ≤ tokens.length) {places : List Occurrence}
    (h : places <:+ significant (span tokens start stop)) :
    attributes tokens stop isEnum known (places.map Occurrence.index) =
      some (readAttributes isEnum known places) := by
  fun_induction readAttributes isEnum known places with
  | case1 known =>
      rw [List.map_nil, attributes]
      rfl
  | case2 known place rest hbrace block values ih =>
      rw [attributes_lBrace isEnum known hstop h hbrace]
      have hbehind := ih
        (((untilClose_rest_suffix 0 rest).trans (List.suffix_cons place rest)).trans h)
      cases isEnum <;> exact hbehind
  | case3 known place rest hbrace hassigned hfilters list ih =>
      rw [attributes_of_ne_lBrace isEnum known h hbrace, if_pos hassigned, if_pos hfilters]
      exact ih ((((readFilters_suffix _).trans (List.drop_suffix 1 rest)).trans
        (List.suffix_cons place rest)).trans h)
  | case4 known place rest hbrace hassigned hfilters ih =>
      rw [attributes_of_ne_lBrace isEnum known h hbrace, if_pos hassigned, if_neg hfilters]
      exact ih (((List.drop_suffix 2 rest).trans (List.suffix_cons place rest)).trans h)
  | case5 known place rest hbrace hassigned ih =>
      rw [attributes_of_ne_lBrace isEnum known h hbrace, if_neg hassigned]
      exact ih ((List.suffix_cons place rest).trans h)

end Indexed

end StackScript
