import StackScript.Proofs.Indexed.Outline

/-!
# Statements Divide Their Range

The statements between two indices share the tokens there among them: every word
has one statement, and every comment has one place, in a statement, in front of
one, or behind them all. Only the semicolons that end nothing are left over.

A statement has many ways to end, and the places of the ends cannot be told from
its tokens alone. None of this matters here. Whatever a statement takes it takes
from the front, and what it leaves is read next, so a row of statements with their
comments is what was there, in the same order, `statementsAfter_layout`. The
indices in a range rise, and what is to be shown about indices follows from that
without another look at how statements are read.

## Main definitions

* `Statement.pieces`: A statement with the comments in front of it.
* `LaidOut`: A row of statements as it lies in a range.
* `Indexed.boundsIn`: The statements of a range by their indices.
* `Indexed.Partitions`: Statements that divide the tokens of a range.

## Theorems

* `statementsAfter_layout`: A row of statements is made of the tokens it was read
  from.
* `statement_unique`: No token is in two statements.
* `exists_statement_of_word`: Every word but a semicolon is in a statement.
* `first_behind_comment`, `comment_unique`: A comment goes with the next statement.
* `statements_partition`: The statements of a range divide its tokens.
-/

namespace StackScript

/-! ## What a row of statements is made of -/

/-- A statement with the comments in front of it. -/
def Statement.pieces (statement : Statement) : List Occurrence :=
  statement.comments ++ statement.places

/-- A row of statements with their comments, and the comments behind the last of
    them, are the tokens of the row in their order. Only semicolons are left out. -/
theorem statementsAfter_layout {comments : List Occurrence} (places : List Occurrence)
    (h : ∀ comment ∈ comments, ¬ comment.isSignificant) :
    ∃ tail, (∀ comment ∈ tail, ¬ comment.isSignificant) ∧
      ((statementsAfter comments places).flatMap Statement.pieces ++ tail).Sublist
        (comments ++ places) ∧
      ∀ place ∈ comments ++ places, place.token.kind ≠ .semicolon →
        place ∈ (statementsAfter comments places).flatMap Statement.pieces ++ tail := by
  fun_induction statementsAfter comments places with
  | case1 comments =>
      rw [List.append_nil]
      exact ⟨comments, h, List.Sublist.refl _, fun _ hmem _ => hmem⟩
  | case2 comments place rest hcomment ih =>
      -- A comment waits for the next statement, in front of which it stands.
      have hmore : ∀ comment ∈ comments ++ [place], ¬ comment.isSignificant :=
        List.forall_mem_append.mpr
          ⟨h, List.forall_mem_singleton.mpr (by simpa using hcomment)⟩
      rcases ih hmore with ⟨tail, htail, hsub, hall⟩
      rw [List.append_assoc, List.singleton_append] at hsub hall
      exact ⟨tail, htail, hsub, hall⟩
  | case3 comments place rest hcomment hsemicolon ih =>
      rcases ih h with ⟨tail, htail, hsub, hall⟩
      refine ⟨tail, htail, hsub.trans ?_, fun other hmem hkind => hall other ?_ hkind⟩
      · exact (List.Sublist.refl comments).append (List.sublist_cons_self place rest)
      · -- The semicolon that is passed over is the only place that gets lost.
        rcases List.mem_append.mp hmem with hmem | hmem
        · exact List.mem_append_left _ hmem
        · rcases List.mem_cons.mp hmem with rfl | hmem
          · exact absurd hsemicolon hkind
          · exact List.mem_append_right _ hmem
  | case4 comments place rest hcomment hsemicolon others ih =>
      rcases ih fun _ hmem => absurd hmem List.not_mem_nil with ⟨tail, htail, hsub, hall⟩
      rw [List.nil_append] at hsub hall
      -- A statement has the comments that have waited, and all that it takes.
      have hpieces : ((⟨comments, place, others.1⟩ : Statement) ::
          statementsAfter [] others.2).flatMap Statement.pieces ++ tail =
            comments ++ place :: (others.1 ++
              ((statementsAfter [] others.2).flatMap Statement.pieces ++ tail)) := by
        rw [List.flatMap_cons, Statement.pieces, Statement.places]
        simp only [List.append_assoc, List.cons_append]
      refine ⟨tail, htail, ?_⟩
      rw [hpieces, ← show others.1 ++ others.2 = rest from restOfStatement_append _ rest]
      refine ⟨?_, fun other hmem hkind => ?_⟩
      · exact (List.Sublist.refl _).append (((List.Sublist.refl _).append hsub).cons_cons _)
      · simp only [List.mem_append, List.mem_cons] at hmem hall ⊢
        exact hmem.imp_right (Or.imp_right (Or.imp_right fun hmem => hall other hmem hkind))

/-- Only comments are kept waiting for a statement. -/
theorem isSignificant_comments {comments places : List Occurrence} {statement : Statement}
    (hcomments : ∀ comment ∈ comments, ¬ comment.isSignificant)
    (h : statement ∈ statementsAfter comments places) :
    ∀ comment ∈ statement.comments, ¬ comment.isSignificant := by
  fun_induction statementsAfter comments places with
  | case1 => cases h
  | case2 comments place rest hcomment ih =>
      exact ih (List.forall_mem_append.mpr
        ⟨hcomments, List.forall_mem_singleton.mpr (by simpa using hcomment)⟩) h
  | case3 comments place rest _ _ ih => exact ih hcomments h
  | case4 comments place rest _ _ others ih =>
      rcases List.mem_cons.mp h with rfl | h
      · exact hcomments
      · exact ih (fun _ hmem => absurd hmem List.not_mem_nil) h

/-! ## The indices of a range -/

/-- Every place has the one before it among its tokens in front. -/
theorem occurrencesAfter_pairwise (before tokens : List Token) :
    (occurrencesAfter before tokens).Pairwise fun a b => a.index < b.index := by
  induction tokens generalizing before with
  | nil => exact List.Pairwise.nil
  | cons token tokens ih =>
      refine List.pairwise_cons.mpr ⟨fun place hplace => ?_, ih (token :: before)⟩
      rcases List.append_of_mem hplace with ⟨l, r, hsplit⟩
      rw [index_occurrencesAfter hsplit]
      exact Nat.lt_add_right l.length (Nat.lt_succ_self before.length)

-- A range of places is a part of the script.
theorem span_pairwise (tokens : List Token) (start stop : Nat) :
    (span tokens start stop).Pairwise fun a b => a.index < b.index :=
  (occurrencesAfter_pairwise [] tokens).sublist
    ((List.drop_sublist _ _).trans (List.take_sublist _ _))

/-- Between two indices stand the tokens whose indices are between them. -/
theorem exists_mem_span {tokens : List Token} {start stop i : Nat} (hstart : start ≤ i)
    (hstop : i < stop) (hlength : i < tokens.length) :
    ∃ place ∈ span tokens start stop, place.index = i ∧ tokens[i]? = some place.token := by
  rcases exists_place (Nat.lt_min.mpr ⟨hstop, hlength⟩) (Nat.min_le_right _ _) with
    ⟨place, rfl, hmem, hspan⟩
  refine ⟨place, ?_, rfl, (standing_of_mem hmem).1⟩
  have hlater : place ∈ (span tokens start stop).drop (place.index - start) := by
    rw [drop_span, Nat.add_sub_cancel' hstart, ← span_min, hspan]
    exact List.mem_cons_self
  exact List.mem_of_mem_drop hlater

theorem kindAt_index {tokens : List Token} {start stop : Nat} {place : Occurrence}
    (h : place ∈ span tokens start stop) : kindAt tokens place.index = some place.token.kind := by
  rw [kindAt, (standing_of_mem (span_subset _ _ _ h)).1]
  rfl

namespace Indexed

/-- The statement has the token at an index. -/
def Bounds.Has (bounds : Bounds) (i : Nat) : Prop :=
  bounds.start ≤ i ∧ i < bounds.stop

/-- The token at an index is in a statement. -/
def Inside (found : List Bounds) (i : Nat) : Prop :=
  ∃ bounds ∈ found, bounds.Has i

/-- The token at an index is among the comments in front of a statement. -/
def InFront (found : List Bounds) (i : Nat) : Prop :=
  ∃ bounds ∈ found, i ∈ bounds.comments

/-- The token at an index comes behind all statements. -/
def Behind (found : List Bounds) (i : Nat) : Prop :=
  ∀ bounds ∈ found, bounds.stop ≤ i

end Indexed

section Range

variable {tokens : List Token} {start stop : Nat} {statement other : Statement}

/-- The bounds of a statement are the indices of its places. -/
theorem has_bounds (h : statement ∈ statements (span tokens start stop)) {i : Nat} :
    statement.bounds.Has i ↔ ∃ place ∈ statement.places, place.index = i := by
  rcases places_eq_span h with ⟨hplaces, -, hlength⟩
  rw [hplaces]
  constructor
  · rintro ⟨hstart, hstop⟩
    rcases exists_mem_span hstart hstop (Nat.lt_of_lt_of_le hstop hlength) with
      ⟨place, hmem, hindex, -⟩
    exact ⟨place, hmem, hindex⟩
  · rintro ⟨place, hmem, rfl⟩
    exact index_of_mem_span hmem

-- A statement has its first token, so it is not empty.
theorem start_lt_stop (statement : Statement) : statement.start < statement.stop :=
  Nat.lt_add_of_pos_right (Nat.succ_pos _)

/-- A statement whose tokens are all in front of an index ends in front of it. -/
theorem stop_le (h : statement ∈ statements (span tokens start stop)) {i : Nat}
    (hplaces : ∀ place ∈ statement.places, place.index < i) : statement.stop ≤ i := by
  have hlt := start_lt_stop statement
  rcases (has_bounds h).mp ⟨Nat.le_sub_one_of_lt hlt, Nat.sub_one_lt_of_lt hlt⟩ with
    ⟨place, hmem, hindex⟩
  have hbehind := hplaces place hmem
  rw [hindex] at hbehind
  exact Nat.le_of_pred_lt hbehind

/-- All of one statement, with the comments in front of it, comes before all of
    another one. -/
def Statement.Before (statement other : Statement) : Prop :=
  ∀ a ∈ statement.pieces, ∀ b ∈ other.pieces, a.index < b.index

/-- A row of statements as it lies in a range: what is in no statement and in
    front of none is a semicolon, or a comment in the tail behind them all. -/
structure LaidOut (found : List Statement) (places tail : List Occurrence) : Prop where
  /-- The statements and their comments are from the range. -/
  taken : ∀ statement ∈ found, statement.pieces ⊆ places
  /-- The statements come one after the other. -/
  rising : found.Pairwise Statement.Before
  /-- The comments in front of a statement come before it. -/
  ordered : ∀ statement ∈ found, statement.pieces.Pairwise fun a b => a.index < b.index
  /-- The tail comes behind all statements. -/
  behind : ∀ statement ∈ found, ∀ a ∈ statement.pieces, ∀ b ∈ tail, a.index < b.index
  /-- The tail is made of comments. -/
  remarks : ∀ place ∈ tail, ¬ place.isSignificant
  /-- Nothing but semicolons is left out. -/
  whole : ∀ place ∈ places, place.token.kind ≠ .semicolon →
    (∃ statement ∈ found, place ∈ statement.pieces) ∨ place ∈ tail

/-- The statements of a range are laid out in it, with some comments behind them. -/
theorem exists_laidOut (tokens : List Token) (start stop : Nat) :
    ∃ tail, LaidOut (statements (span tokens start stop)) (span tokens start stop) tail := by
  rcases @statementsAfter_layout [] (span tokens start stop)
    (fun _ hmem => absurd hmem List.not_mem_nil) with ⟨tail, htail, hsub, hall⟩
  have hindices := (span_pairwise tokens start stop).sublist hsub
  rw [List.pairwise_append, List.pairwise_flatMap] at hindices
  rcases hindices with ⟨⟨hordered, hrising⟩, -, hbehind⟩
  refine ⟨tail, fun statement h a ha => ?_, hrising, hordered, fun statement h a ha => ?_, htail,
    fun place hmem hkind => ?_⟩
  · exact hsub.subset (List.mem_append_left _ (List.mem_flatMap.mpr ⟨statement, h, ha⟩))
  · exact hbehind a (List.mem_flatMap.mpr ⟨statement, h, ha⟩)
  · exact (List.mem_append.mp (hall place hmem hkind)).imp_left List.mem_flatMap.mp

-- A statement has its own first place behind all of the other.
theorem Statement.Before.stop_le_start (h : statement ∈ statements (span tokens start stop))
    (hbefore : statement.Before other) : statement.stop ≤ other.start :=
  stop_le h fun place hplace => hbefore place (List.mem_append_right _ hplace) other.first
    (List.mem_append_right _ (.head _))

/-- Of two statements one comes first. -/
theorem before_cases (h : statement ∈ statements (span tokens start stop))
    (hother : other ∈ statements (span tokens start stop)) :
    statement = other ∨ statement.Before other ∨ other.Before statement := by
  rcases exists_laidOut tokens start stop with ⟨tail, hlaid⟩
  have hrising := List.pairwise_iff_getElem.mp hlaid.rising
  rcases List.getElem_of_mem h with ⟨i, hi, rfl⟩
  rcases List.getElem_of_mem hother with ⟨j, hj, rfl⟩
  rcases Nat.lt_trichotomy i j with hlt | rfl | hlt
  · exact .inr (.inl (hrising i j hi hj hlt))
  · exact .inl rfl
  · exact .inr (.inr (hrising j i hj hi hlt))

/-- No token is in two statements. -/
theorem statement_unique (h : statement ∈ statements (span tokens start stop))
    (hother : other ∈ statements (span tokens start stop)) {i : Nat}
    (hhas : statement.bounds.Has i) (hhas' : other.bounds.Has i) : statement = other := by
  rcases before_cases h hother with hsame | hbefore | hbehind
  · exact hsame
  · exact absurd (hbefore.stop_le_start h) (Nat.not_le_of_lt (Nat.lt_of_le_of_lt hhas'.1 hhas.2))
  · exact absurd (hbehind.stop_le_start hother)
      (Nat.not_le_of_lt (Nat.lt_of_le_of_lt hhas.1 hhas'.2))

/-- Every word but a semicolon is in a statement. -/
theorem exists_statement_of_word {i : Nat} (hstart : start ≤ i) (hstop : i < stop)
    {kind : TokenKind} (hkind : kindAt tokens i = some kind) (hcomment : kind ≠ .comment)
    (hsemicolon : kind ≠ .semicolon) :
    ∃ statement ∈ statements (span tokens start stop), statement.bounds.Has i := by
  rcases exists_mem_span hstart hstop (lt_of_kindAt hkind) with ⟨place, hmem, rfl, hget⟩
  rw [kindAt, hget, Option.map_some, Option.some.injEq] at hkind
  -- A word is no comment, so it is neither in front of a statement nor behind all of them.
  have hword : place.isSignificant := by
    by_contra hword
    exact hcomment (hkind ▸ kind_eq_comment hword)
  rcases exists_laidOut tokens start stop with ⟨tail, hlaid⟩
  rcases hlaid.whole place hmem (hkind ▸ hsemicolon) with ⟨statement, h, hpiece⟩ | htail
  · rcases List.mem_append.mp hpiece with hpiece | hpiece
    · exact absurd hword (isSignificant_comments (fun _ hmem => absurd hmem List.not_mem_nil)
        h place hpiece)
    · exact ⟨statement, h, (has_bounds h).mpr ⟨place, hpiece, rfl⟩⟩
  · exact absurd hword (hlaid.remarks place htail)

/-- The statement behind a comment that belongs to it is the first one behind that
    comment. -/
theorem first_behind_comment (h : statement ∈ statements (span tokens start stop))
    {comment : Occurrence} (hcomment : comment ∈ statement.comments) :
    comment.index < statement.start ∧
      ∀ other ∈ statements (span tokens start stop),
        other.stop ≤ comment.index ∨ statement.start ≤ other.start := by
  rcases exists_laidOut tokens start stop with ⟨tail, hlaid⟩
  have hpiece : comment ∈ statement.pieces := List.mem_append_left _ hcomment
  refine ⟨?_, fun other hother => ?_⟩
  · exact (List.pairwise_append.mp (hlaid.ordered statement h)).2.2 comment hcomment
      statement.first (.head _)
  · -- A statement that comes before this one ends in front of its comments.
    rcases before_cases h hother with rfl | hbefore | hbehind
    · exact .inr (Nat.le_refl _)
    · refine .inr (Nat.le_trans ?_ (hbefore.stop_le_start h))
      exact Nat.le_of_lt (start_lt_stop statement)
    · exact .inl (stop_le hother fun place hplace =>
        hbehind place (List.mem_append_right _ hplace) comment hpiece)

/-- A statement and its comments are from the range. -/
theorem pieces_subset (h : statement ∈ statements (span tokens start stop)) :
    statement.pieces ⊆ span tokens start stop := by
  rcases exists_laidOut tokens start stop with ⟨tail, hlaid⟩
  exact hlaid.taken statement h

theorem first_mem_span (h : statement ∈ statements (span tokens start stop)) :
    statement.first ∈ span tokens start stop :=
  pieces_subset h (List.mem_append_right _ (.head _))

/-- No comment is in front of two statements. -/
theorem comment_unique (h : statement ∈ statements (span tokens start stop))
    (hother : other ∈ statements (span tokens start stop)) {a b : Occurrence}
    (ha : a ∈ statement.comments) (hb : b ∈ other.comments) (hindex : b.index = a.index) :
    statement = other := by
  have ha' : a ∈ statement.pieces := List.mem_append_left _ ha
  have hb' : b ∈ other.pieces := List.mem_append_left _ hb
  rcases before_cases h hother with hsame | hbefore | hbehind
  · exact hsame
  · exact absurd hindex (Nat.ne_of_gt (hbefore a ha' b hb'))
  · exact absurd hindex (Nat.ne_of_lt (hbehind b hb' a ha'))

/-- The token in front of a statement that is kept with it is a comment of the range. -/
theorem comment_kindAt (h : statement ∈ statements (span tokens start stop))
    {comment : Occurrence} (hmem : comment ∈ statement.comments) :
    start ≤ comment.index ∧ kindAt tokens comment.index = some .comment := by
  have hspan := pieces_subset h (List.mem_append_left statement.places hmem)
  refine ⟨(index_of_mem_span hspan).1, ?_⟩
  rw [kindAt_index hspan, kind_eq_comment (isSignificant_comments
    (fun _ hmem => absurd hmem List.not_mem_nil) h comment hmem)]

end Range

/-! ## The partition -/

namespace Indexed

/-- The statements of a range by their indices. -/
def boundsIn (tokens : List Token) (start stop : Nat) : List Bounds :=
  (StackScript.statements (span tokens start stop)).map Statement.bounds

/-- The statements between two indices divide the tokens there among them. -/
structure Partitions (tokens : List Token) (start stop : Nat) (found : List Bounds) : Prop where
  /-- A statement is not empty and lies in the range. -/
  within : ∀ bounds ∈ found,
    start ≤ bounds.start ∧ bounds.start < bounds.stop ∧ bounds.stop ≤ min stop tokens.length
  /-- The statements lie apart, in order. -/
  apart : found.Pairwise fun a b => a.stop ≤ b.start
  /-- A statement begins with a word that is no semicolon. -/
  first : ∀ bounds ∈ found, ∃ kind, kindAt tokens bounds.start = some kind ∧
    kind ≠ .comment ∧ kind ≠ .semicolon
  /-- Every such word is in one statement. -/
  words : ∀ i kind, start ≤ i → i < stop → kindAt tokens i = some kind → kind ≠ .comment →
    kind ≠ .semicolon → ∃! bounds, bounds ∈ found ∧ bounds.Has i
  /-- A comment is in a statement, or in front of one, or behind all of them. -/
  comments : ∀ i, start ≤ i → i < stop → kindAt tokens i = some .comment →
    Inside found i ∧ ¬ InFront found i ∧ ¬ Behind found i ∨
      ¬ Inside found i ∧ InFront found i ∧ ¬ Behind found i ∨
      ¬ Inside found i ∧ ¬ InFront found i ∧ Behind found i
  /-- No token is in two statements. -/
  inside : ∀ i, ∀ a ∈ found, ∀ b ∈ found, a.Has i → b.Has i → a = b
  /-- No comment is in front of two statements. -/
  inFront : ∀ i, ∀ a ∈ found, ∀ b ∈ found, i ∈ a.comments → i ∈ b.comments → a = b
  /-- What is in front of a statement are comments of the range, and the statement
      is the first that begins behind them. -/
  next : ∀ i, ∀ a ∈ found, i ∈ a.comments → start ≤ i ∧ kindAt tokens i = some .comment ∧
    i < a.start ∧ ∀ b ∈ found, i < b.start → a.start ≤ b.start
  /-- They are in order. -/
  rising : ∀ bounds ∈ found, bounds.comments.Pairwise (· < ·)

variable {tokens : List Token} {start stop i : Nat}

-- The comments of the bounds are the indices of those of the statement.
theorem mem_comments_bounds {statement : Statement} :
    i ∈ statement.bounds.comments ↔ ∃ comment ∈ statement.comments, comment.index = i :=
  List.mem_map

/-- A comment in front of a statement is in no statement. -/
theorem not_inFront_of_inside
    (h : Inside (boundsIn tokens start stop) i) : ¬ InFront (boundsIn tokens start stop) i := by
  rintro ⟨bounds, hbounds, hcomment⟩
  rcases List.mem_map.mp hbounds with ⟨statement, hstatement, rfl⟩
  rcases mem_comments_bounds.mp hcomment with ⟨comment, hmem, rfl⟩
  rcases first_behind_comment hstatement hmem with ⟨hlt, hfirst⟩
  rcases h with ⟨bounds, hbounds, hhas⟩
  rcases List.mem_map.mp hbounds with ⟨other, hother, rfl⟩
  rcases hfirst other hother with hstop | hstart
  · exact absurd hstop (Nat.not_le_of_lt hhas.2)
  · exact absurd (Nat.le_trans hstart hhas.1) (Nat.not_le_of_lt hlt)

/-- Behind all statements there are no tokens of them and no comments in front of them. -/
theorem not_of_behind
    (h : Behind (boundsIn tokens start stop) i) :
    ¬ Inside (boundsIn tokens start stop) i ∧ ¬ InFront (boundsIn tokens start stop) i := by
  constructor
  · rintro ⟨bounds, hbounds, hhas⟩
    exact absurd (h bounds hbounds) (Nat.not_le_of_lt hhas.2)
  · rintro ⟨bounds, hbounds, hcomment⟩
    have hstop := h bounds hbounds
    rcases List.mem_map.mp hbounds with ⟨statement, hstatement, rfl⟩
    rcases mem_comments_bounds.mp hcomment with ⟨comment, hmem, rfl⟩
    have hlt := (first_behind_comment hstatement hmem).1
    exact absurd hstop (Nat.not_le_of_lt (Nat.lt_trans hlt (start_lt_stop statement)))

/-- No comment is lost: it is a piece of a statement or in the rest. -/
theorem comment_placed (hstart : start ≤ i) (hstop : i < stop)
    (hkind : kindAt tokens i = some .comment) :
    Inside (boundsIn tokens start stop) i ∨ InFront (boundsIn tokens start stop) i ∨
      Behind (boundsIn tokens start stop) i := by
  rcases exists_mem_span hstart hstop (lt_of_kindAt hkind) with ⟨place, hmem, rfl, hget⟩
  rw [kindAt, hget, Option.map_some, Option.some.injEq] at hkind
  rcases exists_laidOut tokens start stop with ⟨tail, hlaid⟩
  -- Only a semicolon can be dropped, and a comment is none.
  rcases hlaid.whole place hmem (hkind ▸ TokenKind.noConfusion) with
    ⟨statement, h, hpiece⟩ | htail
  · have hbounds := List.mem_map_of_mem (f := Statement.bounds) h
    rcases List.mem_append.mp hpiece with hcomment | hplace
    · exact .inr (.inl ⟨_, hbounds, mem_comments_bounds.mpr ⟨place, hcomment, rfl⟩⟩)
    · exact .inl ⟨_, hbounds, (has_bounds h).mpr ⟨place, hplace, rfl⟩⟩
  · refine .inr (.inr (List.forall_mem_map.mpr fun statement h => ?_))
    refine stop_le h fun other hother => ?_
    exact hlaid.behind statement h other (List.mem_append_right _ hother) place htail

/-- A comment has one place: the three places exclude one another. -/
theorem comment_placed_once (hstart : start ≤ i) (hstop : i < stop)
    (hkind : kindAt tokens i = some .comment) :
    let found := boundsIn tokens start stop
    Inside found i ∧ ¬ InFront found i ∧ ¬ Behind found i ∨
      ¬ Inside found i ∧ InFront found i ∧ ¬ Behind found i ∨
      ¬ Inside found i ∧ ¬ InFront found i ∧ Behind found i := by
  rcases comment_placed hstart hstop hkind with hinside | hfront | hbehind
  · exact .inl ⟨hinside, not_inFront_of_inside hinside,
      fun hbehind => (not_of_behind hbehind).1 hinside⟩
  · exact .inr (.inl ⟨fun hinside => not_inFront_of_inside hinside hfront, hfront,
      fun hbehind => (not_of_behind hbehind).2 hfront⟩)
  · exact .inr (.inr ⟨(not_of_behind hbehind).1, (not_of_behind hbehind).2, hbehind⟩)

/-- The statements of a range divide its tokens. What is shown above about statements and
    their tokens is said here about indices alone. -/
theorem partitions_boundsIn (tokens : List Token) (start stop : Nat) :
    Partitions tokens start stop (boundsIn tokens start stop) where
  within := by
    refine List.forall_mem_map.mpr fun statement h => ?_
    rcases places_eq_span h with ⟨-, hstop, hlength⟩
    have hfirst := index_of_mem_span (first_mem_span h)
    exact ⟨hfirst.1, start_lt_stop statement, Nat.le_min.mpr ⟨hstop, hlength⟩⟩
  apart := by
    rcases exists_laidOut tokens start stop with ⟨tail, hlaid⟩
    refine List.pairwise_map.mpr (hlaid.rising.imp_of_mem fun h _ hbefore => ?_)
    exact hbefore.stop_le_start h
  first := by
    refine List.forall_mem_map.mpr fun statement h => ?_
    exact ⟨statement.first.token.kind, kindAt_index (first_mem_span h),
      kind_ne_comment (first_isWord h).1, (first_isWord h).2⟩
  words i kind hstart hstop hkind hcomment hsemicolon := by
    rcases exists_statement_of_word hstart hstop hkind hcomment hsemicolon with
      ⟨statement, h, hhas⟩
    refine ⟨statement.bounds, ⟨List.mem_map_of_mem h, hhas⟩, ?_⟩
    rintro bounds ⟨hbounds, hhas'⟩
    rcases List.mem_map.mp hbounds with ⟨other, hother, rfl⟩
    -- Two statements with one index are the same.
    rw [statement_unique h hother hhas hhas']
  comments i := comment_placed_once
  inside i := by
    refine List.forall_mem_map.mpr fun statement h => List.forall_mem_map.mpr fun other hother => ?_
    exact fun hhas hhas' => congrArg _ (statement_unique h hother hhas hhas')
  inFront i := by
    refine List.forall_mem_map.mpr fun statement h => List.forall_mem_map.mpr fun other hother => ?_
    intro hcomment hcomment'
    rcases mem_comments_bounds.mp hcomment with ⟨a, ha, rfl⟩
    rcases mem_comments_bounds.mp hcomment' with ⟨b, hb, hindex⟩
    -- A comment is waiting for one statement only.
    rw [comment_unique h hother ha hb hindex]
  next i := by
    refine List.forall_mem_map.mpr fun statement h hcomment => ?_
    rcases mem_comments_bounds.mp hcomment with ⟨comment, hmem, rfl⟩
    rcases comment_kindAt h hmem with ⟨hstart, hkind⟩
    rcases first_behind_comment h hmem with ⟨hlt, hfirst⟩
    refine ⟨hstart, hkind, hlt, List.forall_mem_map.mpr fun other hother hbehind => ?_⟩
    -- A statement that begins behind the comment cannot end in front of it.
    refine (hfirst other hother).resolve_left (Nat.not_le_of_lt ?_)
    exact Nat.lt_trans hbehind (start_lt_stop other)
  rising := by
    rcases exists_laidOut tokens start stop with ⟨tail, hlaid⟩
    refine List.forall_mem_map.mpr fun statement h => List.pairwise_map.mpr ?_
    exact (List.pairwise_append.mp (hlaid.ordered statement h)).1

/-- The statements between two indices are found, and they divide the tokens there among
    them. -/
theorem statements_partition (tokens : List Token) (start stop : Nat) :
    ∃ found, statements tokens start stop = some found ∧ Partitions tokens start stop found :=
  ⟨boundsIn tokens start stop, statements_eq tokens start stop,
    partitions_boundsIn tokens start stop⟩

end Indexed

end StackScript
