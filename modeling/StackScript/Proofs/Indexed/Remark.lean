import StackScript.Proofs.Indexed.Neighbour

/-!
# Comments Describe One Thing

What stands above a word in whole lines of comments describes the word. The reader goes
back from the word, one comment after the other, and looks at no more than the token in
front of each. That is enough, because lines rise: a comment that shares its line with
any earlier token shares it with the last of them.

So the run that the reader collects is the longest there is, `exists_longestRun`, and
nothing has to be said of the reader any more. Runs of two words cannot overlap, since
the run of the later one would have the earlier word in it, and words are no comments.

The reader of statements goes forward and collects the comments in front of a statement
by other rules. It agrees all the same. A run that reached into the statement before would
have the last token of that statement in it, a comment that begins a line. A statement
with an open bracket may well end with such a comment, but only in front of the brace that
closes the block around it, `kind_next_of_alone`, and there the next statement is none
that declares.

## Main definitions

* `IsRemarkAt`: A comment that begins its line.
* `IsRunAbove`, `IsLongestRun`: Remarks on the lines above a line.
* `Describes`, `IsDescribed`: The remarks that describe a token, and what they say.

## Theorems

* `exists_longestRun`: The comments above a token are the longest run.
* `isDescribed_description`: What the description of a token is made of.
* `describes_unique`: A comment describes one word.
* `kind_next_of_alone`: Where a statement ends behind a remark.
* `mem_comments_of_describes`: The remarks above a statement are in front of it.
-/

namespace StackScript

/-! ## Runs of remarks -/

/-- A comment with no token in front of it on its line. -/
structure IsRemarkAt (tokens : List Token) (i : Nat) (comment : Token) : Prop where
  /-- The token stands at the index. -/
  stands : tokens[i]? = some comment
  /-- It is a comment. -/
  kind : comment.kind = .comment
  /-- What stands before it is on other lines. -/
  alone : ∀ j other, j < i → tokens[j]? = some other →
    other.position.line ≠ comment.position.line

/-- From one index up to another one there are remarks only, on consecutive lines that
    end on the line above `line`. -/
structure IsRunAbove (tokens : List Token) (line start stop : Nat) : Prop where
  /-- The indices are in order. -/
  le : start ≤ stop
  /-- Each token is a remark on its line. -/
  remarks : ∀ k, start ≤ k → k < stop →
    ∃ comment, IsRemarkAt tokens k comment ∧ comment.position.line + (stop - k) = line

/-- No run above the line reaches further back. -/
structure IsLongestRun (tokens : List Token) (line start stop : Nat) : Prop where
  /-- It is a run. -/
  run : IsRunAbove tokens line start stop
  /-- Other runs begin in it. -/
  longest : ∀ other, IsRunAbove tokens line other stop → start ≤ other

/-- What comments say, joined by spaces, if they say anything. -/
def describedBy (comments : List Token) : Option String :=
  match (comments.map Token.remark).filter (· ≠ []) with
  | [] => none
  | remarks => some (String.ofList (List.intercalate [' '] remarks))

/-- The token at an index is in the longest run of remarks above a token. -/
def Describes (tokens : List Token) (k : Nat) (place : Occurrence) : Prop :=
  ∃ start, IsLongestRun tokens place.token.position.line start place.index ∧
    start ≤ k ∧ k < place.index

/-- A token of a script with what the longest run of remarks above it says. -/
structure IsDescribed (tokens : List Token) (place : Occurrence) (description : Option String) :
    Prop where
  /-- The token stands at its index. -/
  stands : tokens[place.index]? = some place.token
  /-- The description is what the run says. -/
  above : ∃ start, IsLongestRun tokens place.token.position.line start place.index ∧
    description = describedBy ((tokens.take place.index).drop start)

variable {tokens : List Token} {text : String} {line start stop i k : Nat}

theorem isRunAbove_self (tokens : List Token) (line stop : Nat) :
    IsRunAbove tokens line stop stop :=
  ⟨Nat.le_refl stop, fun _ hstart hstop => absurd hstop (Nat.not_lt_of_le hstart)⟩

/-- A run that is not empty is one remark longer than a run above that remark. -/
theorem isRunAbove_succ :
    IsRunAbove tokens line start (i + 1) ↔ start = i + 1 ∨
      ∃ comment, IsRemarkAt tokens i comment ∧ comment.position.line + 1 = line ∧
        IsRunAbove tokens comment.position.line start i := by
  constructor
  · -- A run that is not empty has the token in front as its last remark, on the line above.
    intro h
    rcases Nat.lt_or_eq_of_le h.le with hlt | heq
    · rcases h.remarks i (Nat.le_of_lt_succ hlt) (Nat.lt_succ_self i) with
        ⟨comment, hremark, hline⟩
      rw [Nat.add_sub_cancel_left] at hline
      refine .inr ⟨comment, hremark, hline, Nat.le_of_lt_succ hlt, fun k hstart hk => ?_⟩
      rcases h.remarks k hstart (Nat.lt_succ_of_lt hk) with ⟨other, hother, hline'⟩
      exact ⟨other, hother, by omega⟩
    · exact .inl heq
  · -- And a run above a remark makes a longer one with it.
    rintro (rfl | ⟨comment, hremark, hline, hrun⟩)
    · exact isRunAbove_self tokens line (i + 1)
    · refine ⟨Nat.le_succ_of_le hrun.le, fun k hstart hk => ?_⟩
      rcases Nat.lt_or_eq_of_le (Nat.le_of_lt_succ hk) with hlt | rfl
      · rcases hrun.remarks k hstart hlt with ⟨other, hother, hline'⟩
        exact ⟨other, hother, by omega⟩
      · exact ⟨comment, hremark, by omega⟩

/-! ## The description of a token -/

/-- A comment begins its line if the token in front of it is on another one. -/
theorem isRemarkAt_iff {comment : Token} (hget : (tokenize text)[i]? = some comment) :
    IsRemarkAt (tokenize text) i comment ↔ comment.kind = .comment ∧
      ((tokenize text).take i).reverse.head?.all fun other =>
        other.position.line ≠ comment.position.line := by
  have hlength := (List.getElem?_eq_some_iff.mp hget).1
  cases i with
  | zero =>
      exact ⟨fun h => ⟨h.kind, rfl⟩,
        fun h => ⟨hget, h.1, fun j _ hj => absurd hj (Nat.not_lt_zero j)⟩⟩
  | succ i =>
      have hi : i < (tokenize text).length := Nat.lt_of_succ_lt hlength
      have hprevious := List.getElem?_eq_getElem hi
      rw [reverse_take_succ hi, List.head?_cons, Option.all_some, decide_eq_true_eq]
      refine ⟨fun h => ⟨h.kind, h.alone i _ (Nat.lt_succ_self i) hprevious⟩,
        fun h => ⟨hget, h.1, fun j other hj hother hsame => h.2 ?_⟩⟩
      -- A token further in front on the same line would put the nearest one on that line
      -- too.
      have hle := line_le_of_le (Nat.le_of_lt_succ hj) hother hprevious
      have hle' := line_le_of_le (Nat.le_succ i) hprevious hget
      exact Nat.le_antisymm hle' (hsame ▸ hle)

/-- There is a longest run above a line, and it is what the reader collects. -/
theorem exists_longestRun (text : String) (line : Nat) {stop : Nat}
    (hstop : stop ≤ (tokenize text).length) :
    ∃ start, IsLongestRun (tokenize text) line start stop ∧
      commentsAbove line ((tokenize text).take stop).reverse =
        (((tokenize text).take stop).drop start).reverse := by
  induction stop generalizing line with
  | zero => exact ⟨0, ⟨isRunAbove_self _ line 0, fun other _ => Nat.zero_le other⟩, rfl⟩
  | succ i ih =>
      have hget := List.getElem?_eq_getElem hstop
      rw [reverse_take_succ hstop, commentsAbove]
      by_cases hremark : IsRemarkAt (tokenize text) i (tokenize text)[i] ∧
          (tokenize text)[i].position.line + 1 = line
      · -- One remark more, on the line above.
        rcases ih (tokenize text)[i].position.line (Nat.le_of_succ_le hstop) with
          ⟨start, hlongest, hcomments⟩
        rcases (isRemarkAt_iff hget).mp hremark.1 with ⟨hkind, halone⟩
        refine ⟨start, ⟨isRunAbove_succ.mpr (.inr ⟨_, hremark.1, hremark.2, hlongest.run⟩),
          fun other hother => ?_⟩, ?_⟩
        · rcases isRunAbove_succ.mp hother with rfl | ⟨comment, hcomment, -, hrun⟩
          · exact Nat.le_succ_of_le hlongest.run.le
          · obtain rfl := Option.some.inj (hget.symm.trans hcomment.stands)
            exact hlongest.longest other hrun
        · have hle : start ≤ ((tokenize text).take i).length := by
            rw [List.length_take]
            exact Nat.le_min.mpr ⟨hlongest.run.le,
              Nat.le_trans hlongest.run.le (Nat.le_of_succ_le hstop)⟩
          rw [if_pos (by simp only [hkind, hremark.2, halone, decide_true, Bool.and_self]),
            hcomments, List.take_add_one, hget, List.drop_append_of_le_length hle,
            List.reverse_append]
          rfl
      · -- No remark is in front, so the empty run is the longest.
        refine ⟨i + 1, ⟨isRunAbove_self _ line (i + 1), fun other hother => ?_⟩, ?_⟩
        · rcases isRunAbove_succ.mp hother with rfl | ⟨comment, hcomment, hline, -⟩
          · exact Nat.le_refl _
          · obtain rfl := Option.some.inj (hget.symm.trans hcomment.stands)
            exact absurd ⟨hcomment, hline⟩ hremark
        · rw [List.drop_eq_nil_of_le (List.length_take_le _ _), List.reverse_nil, if_neg]
          intro h
          simp only [Bool.and_eq_true, decide_eq_true_eq] at h
          exact hremark ⟨(isRemarkAt_iff hget).mpr ⟨h.1.1, h.2⟩, h.1.2⟩

/-- The description of a token is what the longest run of remarks above it says. -/
theorem isDescribed_description {place : Occurrence} (h : place ∈ occurrences (tokenize text)) :
    IsDescribed (tokenize text) place place.description := by
  rcases standing_of_mem h with ⟨hget, hbefore⟩
  have hstop := Nat.le_of_lt (List.getElem?_eq_some_iff.mp hget).1
  rcases exists_longestRun text place.token.position.line hstop with
    ⟨start, hlongest, hcomments⟩
  refine ⟨hget, start, hlongest, ?_⟩
  have hdescription : place.description =
      describedBy (commentsAbove place.token.position.line place.before).reverse := rfl
  rw [hdescription, hbefore, hcomments, List.reverse_reverse]

/-! ## One word for each comment -/

theorem Describes.lt {place : Occurrence} (h : Describes tokens k place) : k < place.index := by
  rcases h with ⟨_, -, -, hlt⟩
  exact hlt

/-- From a comment that describes a token up to that token there are remarks only. -/
theorem Describes.isRemarkAt {place : Occurrence} (h : Describes tokens k place) {j : Nat}
    (hk : k ≤ j) (hj : j < place.index) : ∃ comment, IsRemarkAt tokens j comment := by
  rcases h with ⟨start, hlongest, hstart, -⟩
  rcases hlongest.run.remarks j (Nat.le_trans hstart hk) hj with ⟨comment, hremark, -⟩
  exact ⟨comment, hremark⟩

theorem Describes.kindAt_eq {place : Occurrence} (h : Describes tokens k place) {j : Nat}
    (hk : k ≤ j) (hj : j < place.index) : kindAt tokens j = some .comment := by
  rcases h.isRemarkAt hk hj with ⟨comment, hremark⟩
  rw [kindAt_of_getElem? hremark.stands, hremark.kind]

/-- Between a comment and the token that it describes there is no word. -/
theorem Describes.index_le {place word : Occurrence} (h : Describes tokens k place)
    (hmem : word ∈ occurrences tokens) (hword : word.isSignificant) (hk : k ≤ word.index) :
    place.index ≤ word.index := by
  by_contra hlt
  have hkind := h.kindAt_eq hk (Nat.lt_of_not_le hlt)
  rw [kindAt_of_getElem? (standing_of_mem hmem).1, Option.some.injEq] at hkind
  exact kind_ne_comment hword hkind

/-- A comment describes one word. -/
theorem describes_unique {a b : Occurrence} (ha : a ∈ occurrences tokens) (hword : a.isSignificant)
    (hb : b ∈ occurrences tokens) (hword' : b.isSignificant) (h : Describes tokens k a)
    (h' : Describes tokens k b) : a.index = b.index :=
  Nat.le_antisymm (h.index_le hb hword' (Nat.le_of_lt h'.lt))
    (h'.index_le ha hword (Nat.le_of_lt h.lt))

/-! ## Statements that end with a remark -/

namespace Extent

/-- A comment opens nothing and closes nothing. -/
theorem isLevel_take_comment (extent : Extent) {token : Token} (h : token.kind = .comment) :
    (extent.take token).isLevel = extent.isLevel := by
  rcases extent with ⟨line, nesting, depth⟩
  unfold take
  rw [h]
  cases depth <;> rfl

/-- A statement goes on with a later line if something is open in it. -/
theorem isLevel_of_line_lt {extent : Extent} {token : Token} (h : ¬ extent.endsBefore token)
    (hline : extent.depth = 0 → extent.line < token.position.line) : extent.isLevel = false := by
  by_contra hlevel
  rw [Bool.not_eq_false] at hlevel
  have hopen := hlevel
  rw [isLevel, Bool.and_eq_true, decide_eq_true_eq] at hopen
  refine h ?_
  rw [endsBefore, hlevel, decide_eq_true (hline hopen.1)]
  rfl

end Extent

/-- A statement that takes nothing ends in front of the next token. -/
theorem endsBefore_of_taken_nil {extent : Extent} {places behind : List Occurrence}
    {next : Occurrence} (h : restOfStatement extent places = ([], next :: behind)) :
    extent.endsBefore next.token := by
  have hplaces := restOfStatement_append extent places
  rw [h, List.nil_append] at hplaces
  rw [← hplaces, restOfStatement] at h
  by_contra hbefore
  rw [if_neg hbefore] at h
  split at h
  · cases h
  · cases h

/-- A statement that ends with a comment on a line of its own ends in front of a closing
    brace: it has a bracket open, or else it would have ended with the line before. -/
theorem kind_next_of_alone {extent : Extent} {last final next : Occurrence}
    {places front behind : List Occurrence}
    (hline : extent.depth = 0 → extent.line = last.token.position.line)
    (h : restOfStatement extent places = (front ++ [final], next :: behind))
    (hkind : final.token.kind = .comment)
    (halone : ∀ place ∈ last :: front, place.token.position.line < final.token.position.line) :
    next.token.kind = .rBrace := by
  induction places generalizing extent last front with
  | nil => cases (Prod.mk.inj h).2
  | cons place places ih =>
      rw [restOfStatement] at h
      by_cases hbefore : extent.endsBefore place.token
      · rw [if_pos hbefore, Prod.mk.injEq] at h
        exact absurd h.1.symm
          (List.append_ne_nil_of_right_ne_nil front (List.cons_ne_nil _ _))
      -- A statement that ends with a semicolon does not end with a comment.
      by_cases hwith : extent.endsWith place.token
      · rw [if_neg hbefore, if_pos hwith, Prod.mk.injEq] at h
        rcases List.append_eq_singleton_iff.mp h.1.symm with ⟨-, hfinal⟩ | ⟨-, hnone⟩
        · rw [List.cons.injEq] at hfinal
          rw [hfinal.1, (Extent.depth_of_endsWith hwith).2] at hkind
          cases hkind
        · cases hnone
      · rw [if_neg hbefore, if_neg hwith, Prod.mk.injEq] at h
        rcases h with ⟨htaken, hleft⟩
        cases front with
        | nil =>
            rw [List.nil_append, List.cons.injEq] at htaken
            rcases htaken with ⟨rfl, htaken⟩
            -- The comment is on a line of its own, so a bracket is open, or the statement
            -- would have ended above it.
            have hopen := Extent.isLevel_of_line_lt hbefore fun hdepth =>
              hline hdepth ▸ halone last List.mem_cons_self
            have hends := endsBefore_of_taken_nil (Prod.ext htaken hleft)
            rw [Extent.endsBefore, extent.isLevel_take_comment hkind, hopen] at hends
            simp only [Bool.false_and, Bool.false_or, Bool.and_eq_true, decide_eq_true_eq] at hends
            exact hends.2
        | cons head front =>
            rw [List.cons_append, List.cons.injEq] at htaken
            rcases htaken with ⟨rfl, htaken⟩
            exact ih extent.line_take (Prod.ext htaken hleft)
              fun other hother => halone other (List.mem_cons_of_mem _ hother)

/-! ## The comments in front of a statement -/

section Statements

variable {statement : Statement}

/-- A statement whose last token is a remark ends in front of a closing brace. -/
theorem kind_next_of_isRemarkAt (h : statement ∈ statements (span (tokenize text) start stop))
    (hstop : statement.stop < stop) {comment next : Token}
    (hremark : IsRemarkAt (tokenize text) (statement.stop - 1) comment)
    (hnext : (tokenize text)[statement.stop]? = some next) : next.kind = .rBrace := by
  rcases exists_left h hstop hnext with ⟨places, place, behind, rfl, hrest⟩
  rcases List.eq_nil_or_concat statement.others with hnone | ⟨front, final, hothers⟩
  · -- The first token of a statement is no comment.
    have hplaces : statement.places = [] ++ [statement.first] := by
      rw [Statement.places, hnone, List.nil_append]
    rcases index_final h hplaces with ⟨hmem, hindex, -⟩
    have hget := (standing_of_mem hmem).1
    rw [hindex, hremark.stands, Option.some.injEq] at hget
    exact absurd (hget ▸ hremark.kind) (kind_ne_comment (first_isWord h).1)
  · have hplaces : statement.places = (statement.first :: front) ++ [final] := by
      rw [Statement.places, hothers, List.concat_eq_append, List.cons_append]
    rcases index_final h hplaces with ⟨hmem, hindex, hfront⟩
    have hget := (standing_of_mem hmem).1
    rw [← hindex] at hremark
    obtain rfl : comment = final.token :=
      Option.some.inj (hremark.stands.symm.trans hget)
    rw [hothers, List.concat_eq_append] at hrest
    -- The remark is the first token of its line, so all others of the statement are above
    -- it.
    refine kind_next_of_alone (Extent.line_take _) hrest hremark.kind fun other hother => ?_
    rw [hfront] at hother
    have hlt := (index_of_mem_span hother).2
    have hget' := (standing_of_mem (span_subset _ _ _ hother)).1
    exact Nat.lt_of_le_of_ne (line_le_of_le (Nat.le_of_lt hlt) hget' hget)
      (hremark.alone _ _ hlt hget')

/-- No statement has a remark in it that describes another one, unless that begins with
    a closing brace. -/
theorem not_has_of_describes (h : statement ∈ statements (span (tokenize text) start stop))
    (hfirst : statement.first.token.kind ≠ .rBrace)
    (hdescribes : Describes (tokenize text) k statement.first) {other : Statement}
    (hother : other ∈ statements (span (tokenize text) start stop)) : ¬ other.bounds.Has k := by
  rintro ⟨hle, hstop : k < other.stop⟩
  have hlt : k < statement.start := hdescribes.lt
  have hend : other.stop ≤ statement.start := by
    -- The statement with the remark comes first, since it has a token in front of the
    -- other.
    rcases before_cases h hother with rfl | hbefore | hbehind
    · exact absurd hle (Nat.not_le_of_lt hlt)
    · have hle' := Nat.le_trans (hbefore.stop_le_start h) hle
      exact absurd (Nat.lt_of_lt_of_le (start_lt_stop statement) hle') (Nat.lt_asymm hlt)
    · exact hbehind.stop_le_start hother
  have hstart := first_mem_span h
  have hget := (standing_of_mem (span_subset _ _ _ hstart)).1
  have hnext := List.getElem?_eq_getElem
    (Nat.lt_of_le_of_lt hend (List.getElem?_eq_some_iff.mp hget).1)
  rcases hdescribes.isRemarkAt (Nat.le_sub_one_of_lt hstop)
    (Nat.lt_of_lt_of_le (Nat.sub_one_lt_of_lt hstop) hend) with ⟨comment, hremark⟩
  -- Behind the statement there is a closing brace, which is neither a remark nor the
  -- first token of the other statement.
  have hbrace := kind_next_of_isRemarkAt hother
    (Nat.lt_of_le_of_lt hend (index_of_mem_span hstart).2) hremark hnext
  have hkind : kindAt (tokenize text) other.stop = some .rBrace :=
    hbrace ▸ kindAt_of_getElem? hnext
  rcases Nat.lt_or_eq_of_le hend with hlt' | heq
  · rw [hdescribes.kindAt_eq (Nat.le_of_lt hstop) hlt'] at hkind
    cases hkind
  · rw [heq, show kindAt _ statement.start = _ from kindAt_of_getElem? hget,
      Option.some.injEq] at hkind
    exact hfirst hkind

/-- The remarks above a statement are among the comments in front of it. -/
theorem mem_comments_of_describes (h : statement ∈ statements (span (tokenize text) start stop))
    (hfirst : statement.first.token.kind ≠ .rBrace)
    (hdescribes : Describes (tokenize text) k statement.first) (hk : start ≤ k) :
    k ∈ statement.bounds.comments := by
  have hlt : k < statement.start := hdescribes.lt
  have hinside := (index_of_mem_span (first_mem_span h)).2
  have hkind := hdescribes.kindAt_eq (Nat.le_refl k) hlt
  -- The remark is in a statement, in front of one, or behind all of them.
  rcases Indexed.comment_placed hk (Nat.lt_trans hlt hinside) hkind with
    ⟨bounds, hbounds, hhas⟩ | ⟨bounds, hbounds, hcomment⟩ | hbehind
  · rcases List.mem_map.mp hbounds with ⟨other, hother, rfl⟩
    exact absurd hhas (not_has_of_describes h hfirst hdescribes hother)
  · rcases List.mem_map.mp hbounds with ⟨other, hother, rfl⟩
    rcases Indexed.mem_comments_bounds.mp hcomment with ⟨comment, hmem, rfl⟩
    rcases first_behind_comment hother hmem with ⟨hfront, hfirst'⟩
    have hle := (hfirst' statement h).resolve_left
      (Nat.not_le_of_lt (Nat.lt_trans hlt (start_lt_stop statement)))
    have hword := span_subset _ _ _ (first_mem_span hother)
    -- The statement that it stands in front of begins with the first word behind it, and
    -- that is the word described.
    have hle' := hdescribes.index_le hword (first_isWord hother).1 (Nat.le_of_lt hfront)
    obtain rfl := statement_unique h hother (i := statement.start)
      ⟨Nat.le_refl _, start_lt_stop statement⟩
      ⟨hle, Nat.lt_of_le_of_lt hle' (start_lt_stop other)⟩
    exact hcomment
  · have hstop := hbehind statement.bounds (List.mem_map_of_mem h)
    exact absurd (Nat.lt_of_lt_of_le (start_lt_stop statement) hstop) (Nat.lt_asymm hlt)

end Statements

end StackScript
