import StackScript.Proofs.Script.Comment
import StackScript.Proofs.Script.Object
import StackScript.Proofs.Script.Resume

/-!
# Reading by Index

The readers of this library walk over occurrences and cannot miss the script.
A program that keeps the tokens in an array reads by index instead, and an index
may be out of bounds: it has been counted up, taken from a search, or is the
partner of a brace that lies outside of the section which is read.

The modules from here on write that program down, with a check at every access
to the tokens, every slice and every difference, and in every loop a check that
it gets ahead. They show that the program gives the answers of the library: no
check of it ever fails, and none of its loops goes on for ever.

`span` is the bridge between the two. An index with a bound stands for the
occurrences from the one up to the other, and a loop that counts the index up
walks over them.

## Main definitions

* `Checked`: What a program gives whose accesses are checked.
* `firstFrom`, `lastBelow`: The searches of the program, upwards and downwards.
* `span`: The occurrences between two indices.

## Theorems

* `exists_place`: An index within its bounds stands for an occurrence.
* `nextSignificant_cases`, `prevSignificant_cases`: What the searches for words find.
* `untilClose_span`: The block behind an opening brace, within any bound.
-/

namespace StackScript

namespace Indexed

/-- What a program gives whose accesses are checked: nothing, if one of them
    fails, or if a loop does not get ahead and would go on for ever. -/
abbrev Checked (α : Type) : Type := Option α

/-- A check that succeeds lets the program go on. -/
@[simp]
theorem Checked.bind_some {α β : Type} (a : α) (f : α → Checked β) : some a >>= f = f a := rfl

/-- If no item fails, the list does not. -/
theorem Checked.mapM_eq {α β : Type} {f : α → Checked β} {g : α → β} {items : List α}
    (h : ∀ item ∈ items, f item = some (g item)) : items.mapM f = some (items.map g) := by
  induction items with
  | nil => rfl
  | cons item items ih =>
      rw [List.mapM_cons, h item (.head _), ih fun other hother => h other (.tail _ hother)]
      rfl

theorem Checked.foldlM_eq {α β : Type} {f : β → α → Checked β} {g : β → α → β} {items : List α}
    (h : ∀ item ∈ items, ∀ state, f state item = some (g state item)) (state : β) :
    items.foldlM f state = some (items.foldl g state) := by
  induction items generalizing state with
  | nil => rfl
  | cons item items ih =>
      rw [List.foldlM_cons, h item (.head _), Checked.bind_some, List.foldl_cons]
      exact ih (fun other hother => h other (.tail _ hother)) _

/-- The difference of two numbers, which must not be negative. -/
def checkedSub (a b : Nat) : Checked Nat :=
  if b ≤ a then some (a - b) else none

/-- The items from `start` to the one in front of `stop`. -/
def checkedSlice {α : Type} (items : List α) (start stop : Nat) : Checked (List α) :=
  if start ≤ stop ∧ stop ≤ items.length then some ((items.take stop).drop start) else none

/-- The index of the first token with `p`, from `i` on and below `stop`. -/
def firstFrom (tokens : List Token) (p : Token → Bool) (i stop : Nat) : Checked (Option Nat) :=
  if i < stop then do
    let token ← tokens[i]?
    if p token then return some i else firstFrom tokens p (i + 1) stop
  else
    return none
termination_by stop - i

/-- The index of the last token with `p` below the given one. -/
def lastBelow (tokens : List Token) (p : Token → Bool) : Nat → Checked (Option Nat)
  | 0 => return none
  | i + 1 => do
      let token ← tokens[i]?
      if p token then return some i else lastBelow tokens p i

/-- The index of the first token from `i` on that is no comment, below `stop`. -/
def nextSignificant (tokens : List Token) (i stop : Nat) : Checked (Option Nat) :=
  firstFrom tokens Token.isSignificant i (min stop tokens.length)

/-- The index of the last token below `i` that is no comment. -/
def prevSignificant (tokens : List Token) (i : Nat) : Checked (Option Nat) :=
  lastBelow tokens Token.isSignificant (min i tokens.length)

end Indexed

/-! ## Indices and occurrences -/

/-- The occurrences from `start` to the one in front of `stop`. -/
def span (tokens : List Token) (start stop : Nat) : List Occurrence :=
  ((occurrences tokens).take stop).drop start

/-- An occurrence stands at its index, behind the tokens in front of it. -/
theorem standing_of_mem {tokens : List Token} {place : Occurrence}
    (h : place ∈ occurrences tokens) :
    tokens[place.index]? = some place.token ∧
      place.before = (tokens.take place.index).reverse := by
  rcases List.append_of_mem h with ⟨l, r, hsplit⟩
  rcases occurrencesAfter_eq_append hsplit with ⟨first, behind, htokens, hbefore, -⟩
  rw [List.append_nil] at hbefore
  have hindex : place.index = first.length := by
    rw [Occurrence.index, hbefore, List.length_reverse]
  rw [hindex, htokens, hbefore, List.take_left, List.getElem?_append_right (Nat.le_refl _),
    Nat.sub_self]
  exact ⟨rfl, rfl⟩

theorem span_subset (tokens : List Token) (start stop : Nat) :
    span tokens start stop ⊆ occurrences tokens :=
  fun _ h => List.mem_of_mem_take (List.mem_of_mem_drop h)

theorem span_of_le (tokens : List Token) {start stop : Nat} (h : stop ≤ start) :
    span tokens start stop = [] :=
  List.drop_eq_nil_of_le (Nat.le_trans (List.length_take_le _ _) h)

-- An end behind the script is the end of the script.
theorem span_min (tokens : List Token) (start stop : Nat) :
    span tokens start (min stop tokens.length) = span tokens start stop := by
  rw [span, span, ← length_occurrences tokens, ← List.take_eq_take_min]

-- The tokens of a span are those of the range.
theorem map_token_span (tokens : List Token) (start stop : Nat) :
    (span tokens start stop).map Occurrence.token = (tokens.take stop).drop start := by
  rw [span, List.map_drop, List.map_take, occurrences, occurrencesAfter_map_token]

theorem length_span (tokens : List Token) (start stop : Nat) :
    (span tokens start stop).length = min stop tokens.length - start := by
  rw [span, List.length_drop, List.length_take, length_occurrences]

-- The first places of a span are a span.
theorem take_span (tokens : List Token) (start stop n : Nat) :
    (span tokens start stop).take n = span tokens start (min (start + n) stop) := by
  rw [span, List.take_drop, List.take_take]
  rfl

theorem drop_span (tokens : List Token) (start stop n : Nat) :
    (span tokens start stop).drop n = span tokens (start + n) stop := by
  rw [span, List.drop_drop]
  rfl

/-- An occurrence between two indices parts the others at its own index. -/
theorem span_split {tokens : List Token} {start stop : Nat} {l r : List Occurrence}
    {place : Occurrence} (h : span tokens start stop = l ++ place :: r) :
    place.index = start + l.length ∧ place.index < stop ∧
      l = span tokens start place.index ∧ r = span tokens (place.index + 1) stop := by
  have hlength := congrArg List.length h
  rw [length_span, List.length_append, List.length_cons] at hlength
  have hsplit : occurrences tokens = ((occurrences tokens).take stop).take start ++ l ++
      place :: (r ++ (occurrences tokens).drop stop) := by
    rw [List.append_assoc, ← List.cons_append, ← List.append_assoc l, ← h, span,
      ← List.append_assoc, List.take_append_drop, List.take_append_drop]
  -- The index of a place is the number of places in front of it.
  have hindex := index_occurrencesAfter hsplit
  rw [List.length_nil, Nat.zero_add, List.length_append, List.length_take, List.length_take,
    length_occurrences] at hindex
  have hstart : place.index = start + l.length := by omega
  have htake : l = (span tokens start stop).take l.length := by
    rw [h, List.take_left]
  have hdrop : r = (span tokens start stop).drop (l.length + 1) := by
    rw [h, ← List.singleton_append, ← List.append_assoc, List.drop_left' (by simp)]
  refine ⟨hstart, by omega, ?_, ?_⟩
  · rw [htake, take_span, hstart, Nat.min_eq_left (by omega)]
  · rw [hdrop, drop_span, hstart]
    rfl

/-- An index within its bounds stands for an occurrence, and the others follow
    it. -/
theorem exists_place {tokens : List Token} {i stop : Nat} (hi : i < stop)
    (hstop : stop ≤ tokens.length) :
    ∃ place, place.index = i ∧ place ∈ occurrences tokens ∧
      span tokens i stop = place :: span tokens (i + 1) stop := by
  cases hspan : span tokens i stop with
  | nil =>
      have hlength := length_span tokens i stop
      rw [hspan, List.length_nil] at hlength
      omega
  | cons place places =>
      rcases span_split (l := []) hspan with ⟨hindex, -, -, rfl⟩
      exact ⟨place, hindex, span_subset _ _ _ (hspan ▸ List.mem_cons_self), by rw [hindex]; rfl⟩

/-- The indices of a span are those from its start to its end. -/
theorem index_of_mem_span {tokens : List Token} {start stop : Nat} {place : Occurrence}
    (h : place ∈ span tokens start stop) : start ≤ place.index ∧ place.index < stop := by
  rcases List.append_of_mem h with ⟨l, r, hspan⟩
  rcases span_split hspan with ⟨hindex, hlt, -, -⟩
  exact ⟨hindex ▸ Nat.le_add_right _ _, hlt⟩

-- There is only one kind of token that is no word.
theorem kind_of_comment {token : Token} (h : ¬ token.isSignificant) : token.kind = .comment := by
  simpa [Token.isSignificant, TokenKind.isTrivia] using h

/-! ## Words -/

/-- A word of a range stands in front of the words of the rest of the range. -/
theorem word_cons {tokens : List Token} {start stop : Nat} {place : Occurrence}
    {rest : List Occurrence} (h : place :: rest <:+ significant (span tokens start stop)) :
    place ∈ occurrences tokens ∧ place.index < stop ∧
      rest = significant (span tokens (place.index + 1) stop) := by
  rcases h with ⟨l, hwords⟩
  rcases exists_word hwords.symm with ⟨l', r, hspan, rfl⟩
  rcases span_split hspan with ⟨-, hlt, -, rfl⟩
  have hmem : place ∈ span tokens start stop := by
    rw [hspan]
    exact List.mem_append_right _ (.head _)
  exact ⟨span_subset _ _ _ hmem, hlt, rfl⟩

-- The words of a span are places of the script.
theorem subset_words {tokens : List Token} {start stop : Nat} {places : List Occurrence}
    (h : places <:+ significant (span tokens start stop)) : places ⊆ occurrences tokens :=
  fun _ hplace => span_subset _ _ _ (List.mem_filter.mp (h.subset hplace)).1

/-! ## Blocks -/

section Block

variable {tokens : List Token} {opening : Occurrence} {stop : Nat}

-- The places behind an index are a span up to the end.
theorem drop_occurrences (tokens : List Token) (start : Nat) :
    (occurrences tokens).drop start = span tokens start tokens.length := by
  rw [span, ← length_occurrences tokens, List.take_length]

/-- The brace that closes a block is the one that is found in the whole script. -/
theorem exists_blockEnd_eq (hmem : opening ∈ occurrences tokens)
    (hopen : opening.token.kind = .lBrace) (hlt : opening.index < stop) :
    ∃ more, span tokens (opening.index + 1) stop ++ more =
        span tokens (opening.index + 1) tokens.length ∧
      blockEnd tokens opening.index =
        (untilClose 0 (span tokens (opening.index + 1) stop ++ more)).close?.map
          Occurrence.index := by
  have hlength : opening.index + 1 ≤ ((occurrences tokens).take stop).length := by
    have hindex := (List.getElem?_eq_some_iff.mp (standing_of_mem hmem).1).1
    rw [List.length_take, length_occurrences]
    omega
  -- A span that is cut short goes on with the rest of the script, and there the block is
  -- what it is.
  have hsplit : span tokens (opening.index + 1) stop ++ (occurrences tokens).drop stop =
      (occurrences tokens).drop (opening.index + 1) := by
    rw [span, ← List.drop_append_of_le_length hlength, List.take_append_drop]
  rcases List.append_of_mem hmem with ⟨l, r, hplaces⟩
  refine ⟨(occurrences tokens).drop stop, hsplit.trans (drop_occurrences _ _), ?_⟩
  rw [hsplit, (drop_index hplaces).2, (closeIndex_eq_blockEnd hplaces hopen).2]

/-- The partner of a brace is behind it. -/
theorem lt_blockEnd (hmem : opening ∈ occurrences tokens) (hopen : opening.token.kind = .lBrace)
    {close : Nat} (hclose : blockEnd tokens opening.index = some close) :
    opening.index < close := by
  have hkind : kindAt tokens opening.index = some .lBrace := by
    rw [kindAt, (standing_of_mem hmem).1, Option.map_some, hopen]
  exact IsGroup.lt ⟨hkind, hclose⟩

/-- The block behind an opening brace, if it is closed within the bound. -/
theorem untilClose_span_of_lt (hmem : opening ∈ occurrences tokens)
    (hopen : opening.token.kind = .lBrace) {close : Nat}
    (hclose : blockEnd tokens opening.index = some close) (hlt : close < stop) :
    ∃ place, place.index = close ∧ place ∈ occurrences tokens ∧
      untilClose 0 (span tokens (opening.index + 1) stop) =
        ⟨span tokens (opening.index + 1) close, some (place, span tokens (close + 1) stop)⟩ := by
  rcases exists_blockEnd_eq hmem hopen (Nat.lt_trans (lt_blockEnd hmem hopen hclose) hlt) with
    ⟨more, hmore, hend⟩
  rw [hclose] at hend
  have hsplit := untilClose_append 0 (span tokens (opening.index + 1) stop)
  rcases hblock : untilClose 0 (span tokens (opening.index + 1) stop) with
    ⟨body, _ | ⟨place, rest⟩⟩
  · -- A block that goes on beyond the bound is closed behind it.
    rcases untilClose_append_of_open (congrArg Block.close? hblock) more with
      ⟨front, -, hbody⟩
    have hlonger := untilClose_append 0 (span tokens (opening.index + 1) stop ++ more)
    rcases hending : (untilClose 0 (span tokens (opening.index + 1) stop ++ more)).ending with
      _ | ⟨place, rest⟩
    · rw [Block.close?, hending] at hend
      cases hend
    · rw [hending, hbody, hmore] at hlonger
      rw [Block.close?, hending] at hend
      have hindex := span_split hlonger
      rw [List.length_append, length_span] at hindex
      have hplace : close = place.index := Option.some.inj hend
      omega
  · rw [hblock] at hsplit
    have hclosed := (untilClose_append_of_closed (by rw [hblock]; rfl) more).close
    rw [hclosed, hblock] at hend
    obtain rfl : close = place.index := Option.some.inj hend
    rcases span_split hsplit with ⟨-, -, hbody, hrest⟩
    refine ⟨place, rfl, span_subset _ _ _ (hsplit ▸ List.mem_append_right _ (.head _)), ?_⟩
    rw [← hbody, ← hrest]

/-- The block behind an opening brace, if it is not closed within the bound. -/
theorem untilClose_span_of_le (hmem : opening ∈ occurrences tokens)
    (hopen : opening.token.kind = .lBrace) (hlt : opening.index < stop)
    (h : ∀ close, blockEnd tokens opening.index = some close → stop ≤ close) :
    untilClose 0 (span tokens (opening.index + 1) stop) =
      ⟨span tokens (opening.index + 1) stop, none⟩ := by
  rcases exists_blockEnd_eq hmem hopen hlt with ⟨more, -, hend⟩
  have hsplit := untilClose_append 0 (span tokens (opening.index + 1) stop)
  rcases hblock : untilClose 0 (span tokens (opening.index + 1) stop) with
    ⟨body, _ | ⟨place, rest⟩⟩
  · rw [hblock, List.append_nil] at hsplit
    rw [hsplit]
  · -- A block that ended inside of the span would have its partner there.
    rw [hblock] at hsplit
    have hclosed := (untilClose_append_of_closed (by rw [hblock]; rfl) more).close
    rw [hclosed, hblock] at hend
    exact absurd (h _ hend) (Nat.not_le_of_lt (span_split hsplit).2.1)

/-- The block behind an opening brace reaches to its closing brace or to the
    bound, and what follows the block begins behind that. -/
theorem untilClose_span (hmem : opening ∈ occurrences tokens)
    (hopen : opening.token.kind = .lBrace) (hlt : opening.index < stop) {close : Nat}
    (hclose : close = min ((blockEnd tokens opening.index).getD stop) stop) :
    (untilClose 0 (span tokens (opening.index + 1) stop)).body =
        span tokens (opening.index + 1) close ∧
      (untilClose 0 (span tokens (opening.index + 1) stop)).rest =
        span tokens (close + 1) stop := by
  -- The partner is inside of the span or not, and then there may be none at all.
  by_cases h : ∀ close, blockEnd tokens opening.index = some close → stop ≤ close
  · obtain rfl : close = stop := by
      cases hend : blockEnd tokens opening.index with
      | none => rw [hclose, hend, Option.getD_none, Nat.min_self]
      | some brace => rw [hclose, hend, Option.getD_some, Nat.min_eq_right (h brace hend)]
    rw [untilClose_span_of_le hmem hopen hlt h]
    exact ⟨rfl, (span_of_le tokens (Nat.le_succ close)).symm⟩
  · rcases Classical.not_forall.mp h with ⟨brace, hbrace⟩
    rcases Classical.not_imp.mp hbrace with ⟨hend, hlt'⟩
    have hbrace' : brace < stop := Nat.lt_of_not_le hlt'
    rw [hend, Option.getD_some, Nat.min_eq_left (Nat.le_of_lt hbrace')] at hclose
    rcases untilClose_span_of_lt hmem hopen hend hbrace' with ⟨place, -, -, hblock⟩
    rw [hblock, hclose]
    exact ⟨rfl, rfl⟩

/-- Something is always left between a brace and the end of its block. -/
theorem lt_close (hmem : opening ∈ occurrences tokens) (hopen : opening.token.kind = .lBrace)
    (hlt : opening.index < stop) :
    opening.index < min ((blockEnd tokens opening.index).getD stop) stop := by
  cases hend : blockEnd tokens opening.index with
  | none => exact Nat.lt_min.mpr ⟨hlt, hlt⟩
  | some close => exact Nat.lt_min.mpr ⟨lt_blockEnd hmem hopen hend, hlt⟩

/-- The words of the block behind an opening brace, and the words behind it. -/
theorem untilClose_words (hmem : opening ∈ occurrences tokens)
    (hopen : opening.token.kind = .lBrace) (hlt : opening.index < stop) {close : Nat}
    (hclose : close = min ((blockEnd tokens opening.index).getD stop) stop) :
    (untilClose 0 (significant (span tokens (opening.index + 1) stop))).body =
        significant (span tokens (opening.index + 1) close) ∧
      (untilClose 0 (significant (span tokens (opening.index + 1) stop))).rest =
        significant (span tokens (close + 1) stop) := by
  rcases untilClose_span hmem hopen hlt hclose with ⟨hbody, hrest⟩
  rw [untilClose_significant, ← hbody, ← hrest]
  refine ⟨rfl, ?_⟩
  rcases untilClose 0 (span tokens (opening.index + 1) stop) with ⟨body, _ | ending⟩ <;> rfl

end Block

/-! ## Searches -/

namespace Indexed

theorem checkedSub_succ (i : Nat) : checkedSub (i + 1) 1 = some i := by
  rw [checkedSub, if_pos (Nat.le_add_left 1 i), Nat.add_sub_cancel]

-- A slice inside of the script does not fail either.
theorem checkedSlice_eq {tokens : List Token} {start stop : Nat} (h : start ≤ stop)
    (hstop : stop ≤ tokens.length) :
    checkedSlice tokens start stop = some ((span tokens start stop).map Occurrence.token) := by
  rw [checkedSlice, if_pos ⟨h, hstop⟩, map_token_span]

/-- A search from an index on finds the first place of the span that passes the test. -/
theorem firstFrom_eq {tokens : List Token} (p : Token → Bool) (i : Nat) {stop : Nat}
    (hstop : stop ≤ tokens.length) :
    firstFrom tokens p i stop =
      some (((span tokens i stop).find? fun place => p place.token).map Occurrence.index) := by
  fun_induction firstFrom tokens p i stop with
  | case1 i hi ih =>
      rcases exists_place hi hstop with ⟨place, rfl, hmem, hspan⟩
      rw [(standing_of_mem hmem).1, hspan, List.find?_cons, Checked.bind_some]
      cases hp : p place.token with
      | true => rfl
      | false => exact ih
  | case2 i hi =>
      rw [span_of_le tokens (Nat.le_of_not_lt hi)]
      rfl

/-- The next word is the first word of the span. -/
theorem nextSignificant_eq (tokens : List Token) (i stop : Nat) :
    nextSignificant tokens i stop =
      some ((significant (span tokens i stop)).head?.map Occurrence.index) := by
  rw [nextSignificant, firstFrom_eq _ _ (Nat.min_le_right _ _), span_min, significant,
    List.head?_filter]
  rfl

/-- The search for a word finds the next one, behind which the others stand. -/
theorem nextSignificant_cases (tokens : List Token) (i stop : Nat) :
    nextSignificant tokens i stop = some none ∧ significant (span tokens i stop) = [] ∨
      ∃ word, nextSignificant tokens i stop = some (some word.index) ∧
        word ∈ occurrences tokens ∧ i ≤ word.index ∧ word.index < stop ∧
        significant (span tokens i stop) =
          word :: significant (span tokens (word.index + 1) stop) := by
  have hnext := nextSignificant_eq tokens i stop
  cases hwords : significant (span tokens i stop) with
  | nil => exact Or.inl ⟨by rw [hnext, hwords]; rfl, rfl⟩
  | cons word words =>
      -- All places in front of the first word are comments.
      rcases exists_first_word hwords with ⟨l, r, hspan, -, -, rfl⟩
      rcases span_split hspan with ⟨hindex, hlt, -, rfl⟩
      have hmem : word ∈ span tokens i stop := by
        rw [hspan]
        exact List.mem_append_right _ (.head _)
      exact Or.inr ⟨word, by rw [hnext, hwords]; rfl, span_subset _ _ _ hmem, by omega, hlt, rfl⟩

end Indexed

/-- Counting back from an index comes to the token in front of it. -/
theorem reverse_take_succ {tokens : List Token} {i : Nat} (h : i < tokens.length) :
    (tokens.take (i + 1)).reverse = tokens[i] :: (tokens.take i).reverse := by
  rw [List.take_add_one, List.getElem?_eq_getElem h, Option.toList_some, List.reverse_append]
  rfl

/-- The words in front of an index, the nearest first. -/
def wordsBefore (tokens : List Token) (i : Nat) : List Token :=
  (tokens.take i).reverse.filter Token.isSignificant

namespace Indexed

/-- The search backwards finds the last word, in front of which the others stand. -/
theorem prevSignificant_cases (tokens : List Token) (i : Nat) :
    prevSignificant tokens i = some none ∧ wordsBefore tokens i = [] ∨
      ∃ j word, prevSignificant tokens i = some (some j) ∧ tokens[j]? = some word ∧
        wordsBefore tokens i = word :: wordsBefore tokens j := by
  -- The search goes down to the beginning, one token at a time.
  have hbelow : ∀ i ≤ tokens.length,
      lastBelow tokens Token.isSignificant i = some none ∧ wordsBefore tokens i = [] ∨
        ∃ j word, lastBelow tokens Token.isSignificant i = some (some j) ∧
          tokens[j]? = some word ∧ wordsBefore tokens i = word :: wordsBefore tokens j := by
    intro i hi
    induction i with
    | zero => exact Or.inl ⟨rfl, rfl⟩
    | succ i ih =>
        have hget := List.getElem?_eq_getElem hi
        rw [lastBelow, hget, Checked.bind_some, wordsBefore, reverse_take_succ hi,
          List.filter_cons]
        cases hword : tokens[i].isSignificant with
        | true => exact Or.inr ⟨i, tokens[i], rfl, hget, rfl⟩
        | false => exact ih (Nat.le_of_lt hi)
  have hmin : wordsBefore tokens (min i tokens.length) = wordsBefore tokens i := by
    rw [wordsBefore, wordsBefore, ← List.take_eq_take_min]
  rcases hbelow _ (Nat.min_le_right i tokens.length) with h | h
  · exact Or.inl (hmin ▸ h)
  · exact Or.inr (hmin ▸ h)

end Indexed

end StackScript
