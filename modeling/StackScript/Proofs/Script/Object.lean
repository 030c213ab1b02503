import StackScript.Proofs.Script.Comment

/-!
# Objects in Longer Scripts

A script declares an object with its first word, and the object is the block
behind its header. Nothing that is written behind a script changes where either
of them begins: the first word stays the first, and a header that has found its
brace has read all that it is ever going to read. So the outline of a longer
script begins as that of the shorter one does, and only the end of the block is
left to be found. If it is there already, nothing is left at all.

`DeclaresObject` holds what has been found of an object and carries over to
longer scripts; the outline is read off it.

## Main definitions

* `objectBrace?`: The opening brace of the object that a script declares.
* `DeclaresObject`: What a script says of its object.

## Theorems

* `readHeader_append`: A header ends at its brace.
* `untilClose_append_of_closed`: A block ends at its closing brace.
* `DeclaresObject.append`: A longer script declares the same object.
* `DeclaresObject.outline_eq`: The outline of a script with an object.
-/

namespace StackScript

/-- The header that a keyword begins, before any other word of it is read. -/
def Occurrence.header (keyword : Occurrence) : Header :=
  ⟨keyword.token.text, none, none, keyword.token.position⟩

/-- The index of the opening brace of the object that a script declares, if it
    declares one and the header of the object has come to a brace. -/
def objectBrace? (tokens : List Token) : Option Nat :=
  (detectKeyword tokens).bind fun found =>
    ((occurrences tokens).drop found.2).head?.bind fun keyword =>
      (readHeader keyword.header
        (significant ((occurrences tokens).drop (keyword.index + 1)))).2.map Occurrence.index

/-! ## What stands behind does not matter -/

/-- The first word stays the first. -/
theorem detectKeyword_append {tokens : List Token} {found : Scheme × Nat}
    (h : detectKeyword tokens = some found) (more : List Token) :
    detectKeyword (tokens ++ more) = some found := by
  unfold detectKeyword at h ⊢
  cases hfind : tokens.findIdx? Token.isSignificant with
  | none => rw [hfind] at h; cases h
  | some index =>
      rcases List.findIdx?_eq_some_iff_getElem.mp hfind with ⟨hlt, -⟩
      rw [hfind] at h
      rw [List.findIdx?_append, hfind, Option.some_or]
      exact (congrArg (fun found => (found >>= Token.declares?).map (·, index))
        (List.getElem?_append_left hlt)).trans h

/-- A single word with the brace still to come is the brace. -/
theorem kind_of_short {header : Header} {words more behind : List Occurrence}
    {opening sign : Occurrence} (h : (readHeader header words).2 = some opening)
    (hwords : words ++ more = sign :: behind)
    (hshort : ∀ sign value rest, words = sign :: value :: rest → False) :
    sign.token.kind = .lBrace := by
  match words with
  | [] => cases h
  | [word] =>
      obtain rfl : word = sign := (List.cons.inj hwords).1
      -- A single word that is no brace leaves the header without an end.
      refine Decidable.byContradiction fun hne => ?_
      rw [readHeader.eq_def] at h
      dsimp only at h
      rw [if_neg hne] at h
      split at h
      · cases h
      · split at h <;> cases h
  | first :: second :: rest => exact (hshort first second rest rfl).elim

/-- The word behind `verb` is looked at only if another one follows it, and in a longer
    script one may follow that had none behind it. -/
theorem readHeader_append {header : Header} {words : List Occurrence} {opening : Occurrence}
    (h : (readHeader header words).2 = some opening) (more : List Occurrence) :
    readHeader header (words ++ more) = readHeader header words := by
  fun_induction readHeader header words with
  | case1 => cases h
  | case2 header place places token hbrace =>
      rw [List.cons_append, readHeader.eq_def]
      exact if_pos hbrace
  | case3 header place places token hbrace hname ih =>
      rw [List.cons_append, readHeader.eq_def]
      dsimp only
      rw [if_neg hbrace, if_pos hname]
      exact ih h
  | case4 header place token hbrace hname hverb sign value rest hsign ih =>
      rw [List.cons_append, readHeader.eq_def]
      dsimp only [List.cons_append]
      rw [if_neg hbrace, if_neg hname, if_pos hverb, if_pos hsign]
      exact ih h
  | case5 header place token hbrace hname hverb sign value rest hsign ih =>
      rw [List.cons_append, readHeader.eq_def]
      dsimp only [List.cons_append]
      rw [if_neg hbrace, if_neg hname, if_pos hverb, if_neg hsign]
      exact ih h
  -- Behind the word `verb` there are too few words, so the next one can only be the brace.
  | case6 header place token hbrace hname hverb rest hshort ih =>
      rw [List.cons_append, readHeader.eq_def, ← ih h]
      dsimp only
      rw [if_neg hbrace, if_neg hname, if_pos hverb]
      split
      · next sign value behind hlong =>
        have hsign : sign.token.kind = .lBrace := kind_of_short h (by simpa using hlong) hshort
        rw [if_neg (by rw [hsign]; decide), hlong]
      · rfl
  | case7 header place places token hbrace hname hverb ih =>
      rw [List.cons_append, readHeader.eq_def]
      dsimp only
      rw [if_neg hbrace, if_neg hname, if_neg hverb]
      exact ih h

/-- A block that is closed is the same block in a longer script. -/
theorem untilClose_append_of_closed {depth : Nat} {places : List Occurrence}
    (h : (untilClose depth places).close?.isSome) (more : List Occurrence) :
    (untilClose depth (places ++ more)).SameGroup (untilClose depth places) := by
  induction places generalizing depth with
  | nil => cases h
  | cons place places ih =>
      rw [List.cons_append]
      by_cases hl : place.token.kind = .lBrace
      · rw [untilClose_lBrace _ _ hl] at h ⊢
        rw [untilClose_lBrace _ _ hl]
        exact (ih h).cons place
      by_cases hr : place.token.kind = .rBrace
      · cases depth with
        -- Here the block ends, and what follows is not looked at.
        | zero =>
            rw [untilClose_rBrace_zero _ hr, untilClose_rBrace_zero _ hr]
            exact ⟨rfl, rfl⟩
        | succ depth =>
            rw [untilClose_rBrace _ _ hr] at h ⊢
            rw [untilClose_rBrace _ _ hr]
            exact (ih h).cons place
      · rw [untilClose_of_ne _ _ hl hr] at h ⊢
        rw [untilClose_of_ne _ _ hl hr]
        exact (ih h).cons place

/-! ## Objects -/

/-- A script declares an object: its first word is a keyword, and the header
    that it begins has come to the opening brace of the object. -/
structure DeclaresObject (tokens : List Token) (scheme : Scheme) (header : Header)
    (opening : Occurrence) (behind : List Occurrence) : Prop where
  /-- The keyword is found, and the header ends at the opening brace. -/
  declared : ∃ l keyword r, occurrences tokens = l ++ keyword :: r ∧
    detectKeyword tokens = some (scheme, keyword.index) ∧
    readHeader keyword.header (significant r) = (header, some opening)
  /-- The opening brace is in the script, with the block behind it. -/
  opened : opening.token.kind = .lBrace ∧ ∃ l, occurrences tokens = l ++ opening :: behind

-- The places of the longer script are those of the shorter one, and more.
theorem occurrences_append (tokens more : List Token) :
    occurrences (tokens ++ more) =
      occurrences tokens ++ occurrencesAfter tokens.reverse more := by
  rw [occurrences, occurrencesAfter_append, List.append_nil]
  rfl

/-- Where the header ends there is a brace. -/
theorem exists_brace_of_readHeader {header header' : Header} {words : List Occurrence}
    {opening : Occurrence} (h : readHeader header words = (header', some opening)) :
    opening.token.kind = .lBrace ∧ ∃ front rest, words = front ++ opening :: rest := by
  have hbrace : opening.token.kind = .lBrace := by
    -- The header is left at a brace, and in no other way.
    fun_induction readHeader header words with
    | case1 => cases h
    | case2 header place places token hbrace => cases h; exact hbrace
    | case3 _ _ _ _ _ _ ih => exact ih h
    | case4 _ _ _ _ _ _ _ _ _ _ ih => exact ih h
    | case5 _ _ _ _ _ _ _ _ _ _ ih => exact ih h
    | case6 _ _ _ _ _ _ _ _ ih => exact ih h
    | case7 _ _ _ _ _ _ _ ih => exact ih h
  rw [readHeader_eq, Prod.mk.injEq] at h
  rcases List.head?_eq_some_iff.mp h.2 with ⟨rest, hrest⟩
  rcases headerWords_suffix header words with ⟨front, hfront⟩
  exact ⟨hbrace, front, rest, by rw [← hrest, hfront]⟩

/-- A script with an opening brace for its object declares it. -/
theorem exists_declaresObject {tokens : List Token} {start : Nat}
    (h : objectBrace? tokens = some start) :
    ∃ scheme header opening behind, opening.index = start ∧
      DeclaresObject tokens scheme header opening behind := by
  rcases Option.bind_eq_some_iff.mp h with ⟨⟨scheme, index⟩, hdetect, h⟩
  rcases Option.bind_eq_some_iff.mp h with ⟨keyword, hkeyword, h⟩
  rcases Option.map_eq_some_iff.mp h with ⟨opening, hopening, rfl⟩
  rcases List.head?_eq_some_iff.mp hkeyword with ⟨r, hdrop⟩
  have hscript : occurrences tokens = (occurrences tokens).take index ++ keyword :: r := by
    rw [← hdrop, List.take_append_drop]
  -- The keyword stands at the index where it was detected.
  have hindex : keyword.index = index := by
    have hlt : index < (occurrences tokens).length := by
      refine Nat.lt_of_not_le fun hle => ?_
      rw [List.drop_eq_nil_of_le hle] at hdrop
      cases hdrop
    rw [index_occurrencesAfter hscript, List.length_nil, Nat.zero_add, List.length_take,
      Nat.min_eq_left (Nat.le_of_lt hlt)]
  rw [(drop_index hscript).2] at hopening
  have hread : readHeader keyword.header (significant r) =
      ((readHeader keyword.header (significant r)).1, some opening) := by
    rw [← hopening]
  rcases exists_brace_of_readHeader hread with ⟨hbrace, front, rest, hwords⟩
  -- The words behind the keyword are split at the brace, and so is the script.
  rcases exists_word hwords with ⟨l', q, hr, -⟩
  refine ⟨scheme, _, opening, q, rfl, ⟨_, keyword, r, hscript, ?_, hread⟩, hbrace, ?_⟩
  · rw [hdetect, hindex]
  · exact ⟨(occurrences tokens).take index ++ keyword :: l', by
      rw [List.append_assoc, List.cons_append, ← hr, ← hscript]⟩

namespace DeclaresObject

variable {tokens : List Token} {scheme : Scheme} {header : Header} {opening : Occurrence}
  {behind : List Occurrence}

/-- A longer script declares the same object. -/
theorem append (h : DeclaresObject tokens scheme header opening behind) (more : List Token) :
    DeclaresObject (tokens ++ more) scheme header opening
      (behind ++ occurrencesAfter tokens.reverse more) where
  declared := by
    rcases h.declared with ⟨l, keyword, r, hscript, hdetect, hread⟩
    refine ⟨l, keyword, r ++ occurrencesAfter tokens.reverse more, ?_,
      detectKeyword_append hdetect more, ?_⟩
    · rw [occurrences_append, hscript, List.append_assoc, List.cons_append]
    · rw [significant, List.filter_append]
      exact (readHeader_append (congrArg Prod.snd hread) _).trans hread
  opened := by
    rcases h.opened with ⟨hbrace, l, hscript⟩
    refine ⟨hbrace, l, ?_⟩
    rw [occurrences_append, hscript, List.append_assoc, List.cons_append]

theorem declaredScheme_eq (h : DeclaresObject tokens scheme header opening behind) :
    declaredScheme tokens = scheme := by
  rcases h.declared with ⟨l, keyword, r, -, hdetect, -⟩
  rw [declaredScheme, hdetect]

/-- The outline of a script with an object: its header, and the sections inside
    its block. -/
theorem outline_eq (h : DeclaresObject tokens scheme header opening behind) :
    (outline tokens ((detectKeyword tokens).map (·.2))).header = some header ∧
      (outline tokens ((detectKeyword tokens).map (·.2))).parts =
        partsOf (untilClose 0 behind).body := by
  rcases h.declared with ⟨l, keyword, r, hscript, hdetect, hread⟩
  rcases h.opened with ⟨-, l', hopening⟩
  unfold outline
  dsimp only
  rw [hdetect, Option.map_some, Option.bind_some, (drop_index hscript).1, List.head?_cons]
  dsimp only
  rw [(drop_index hscript).2]
  unfold Occurrence.header at hread
  rw [hread]
  dsimp only
  -- The body is read behind the brace.
  rw [(drop_index hopening).2]
  exact ⟨rfl, rfl⟩

/-- The closing brace of the object is the partner of its opening brace. -/
theorem closeIndex_eq (h : DeclaresObject tokens scheme header opening behind) :
    (untilClose 0 behind).close?.map Occurrence.index = blockEnd tokens opening.index := by
  rcases h.opened with ⟨hbrace, l, hscript⟩
  exact (closeIndex_eq_blockEnd hscript hbrace).2

end DeclaresObject

end StackScript
