import StackScript.Proofs.Script.Body

/-!
# Statements of a Script Still Being Written

Somebody types, and the script is read after each key. What has been split into
statements so far is split the same way in the longer script, up to the last
statement, which may go on. So there are two cases for a row of statements.
Either all of them are over, and what comes next makes statements of its own, or
the last of them has taken all tokens that there are, and then it takes up the
new ones where it stopped, `statementsAfter_resumed`.

Where a statement stopped is its `Statement.extent`. A statement that is over was
on its own level when it ended, so one that ends inside of a block is the last,
and it goes on.

Inside a section the braces are in order, as far as the section has come, and no
statement ends inside of a block. This is counted by `braceDepth`, which unlike a
stack forgets which brace is which.

## Main definitions

* `Extent.takeAll`, `Statement.extent`: How far a statement has come.
* `Statement.extend`: A statement with more tokens.
* `braceDepth`: The blocks open behind some tokens.

## Theorems

* `restOfStatement_resumed`: A statement is over, or it goes on.
* `statementsAfter_resumed`: So is a row of statements.
* `untilClose_append_of_open`: A block that is not closed goes on.
* `untilClose_braceDepth`: The block around tokens whose braces are counted.
* `depth_extent`: Where braces are in order, statements end on their own level.
* `part?_extend`: A section that goes on is the same section.
-/

namespace StackScript

namespace Extent

/-- How far a statement has come that has taken some more tokens. -/
def takeAll (extent : Extent) (places : List Occurrence) : Extent :=
  places.foldl (fun reached place => reached.take place.token) extent

@[simp]
theorem takeAll_nil (extent : Extent) : extent.takeAll [] = extent := rfl

@[simp]
theorem takeAll_cons (extent : Extent) (place : Occurrence) (places : List Occurrence) :
    extent.takeAll (place :: places) = (extent.take place.token).takeAll places := rfl

theorem takeAll_append (extent : Extent) (places others : List Occurrence) :
    extent.takeAll (places ++ others) = (extent.takeAll places).takeAll others :=
  List.foldl_append

-- A first token that opens no block leaves the statement on its own level.
theorem depth_ofFirst {token : Token} (hl : token.kind ≠ .lBrace) : (ofFirst token).depth = 0 :=
  take_depth_zero rfl hl

/-- Without an opening brace a statement stays on its own level. -/
theorem depth_takeAll {extent : Extent} (hdepth : extent.depth = 0) {places : List Occurrence}
    (h : ∀ place ∈ places, place.token.kind ≠ .lBrace) : (extent.takeAll places).depth = 0 := by
  induction places generalizing extent with
  | nil => exact hdepth
  | cons place places ih =>
      exact ih (take_depth_zero hdepth (h place (.head _))) fun other hmem => h other (.tail _ hmem)

/-- In a block that is not closed a statement stays in the block. -/
theorem depth_takeAll_ne_zero {extent : Extent} {depth : Nat} (hdepth : extent.depth = depth + 1)
    {places : List Occurrence} (h : (untilClose depth places).close? = none) :
    (extent.takeAll places).depth ≠ 0 := by
  induction places generalizing extent depth with
  | nil =>
      rw [takeAll_nil, hdepth]
      exact Nat.succ_ne_zero depth
  | cons place places ih =>
      rw [takeAll_cons]
      -- The depth of the extent is that of the search, and one more.
      by_cases hl : place.token.kind = .lBrace
      · rw [untilClose_lBrace _ _ hl] at h
        exact ih (by rw [take_lBrace _ hl, hdepth]) h
      by_cases hr : place.token.kind = .rBrace
      · cases depth with
        | zero => rw [untilClose_rBrace_zero _ hr] at h; cases h
        | succ depth =>
            rw [untilClose_rBrace _ _ hr] at h
            exact ih (take_rBrace hdepth hr) h
      · rw [untilClose_of_ne _ _ hl hr] at h
        exact ih (by rw [take_deep hdepth hl hr, hdepth]) h

/-- The line of an extent is that of the last token it took. -/
theorem line_take_le {extent : Extent} {token : Token} {line : Nat} (h : extent.line ≤ line)
    (htoken : token.position.line ≤ line) : (extent.take token).line ≤ line := by
  unfold take
  dsimp only
  split <;> assumption

/-- A statement has reached no line that none of its tokens is on. -/
theorem line_takeAll_le {extent : Extent} {line : Nat} (h : extent.line ≤ line)
    {places : List Occurrence} (hplaces : ∀ place ∈ places, place.token.position.line ≤ line) :
    (extent.takeAll places).line ≤ line := by
  induction places generalizing extent with
  | nil => exact h
  | cons place places ih =>
      exact ih (line_take_le h (hplaces place (.head _))) fun other hmem =>
        hplaces other (.tail _ hmem)

end Extent

/-! ## Statements that are over, and statements that go on -/

/-- A statement that is over leaves what is written behind it. One that has taken
    all tokens takes up the others where it stopped. -/
theorem restOfStatement_resumed (extent : Extent) (places : List Occurrence) :
    ((extent.takeAll (restOfStatement extent places).1).depth = 0 ∧
      ∀ more, restOfStatement extent (places ++ more) =
        ((restOfStatement extent places).1, (restOfStatement extent places).2 ++ more)) ∨
    (restOfStatement extent places = (places, []) ∧
      ∀ more, restOfStatement extent (places ++ more) =
        (places ++ (restOfStatement (extent.takeAll places) more).1,
          (restOfStatement (extent.takeAll places) more).2)) := by
  fun_induction restOfStatement extent places with
  | case1 extent => exact .inr ⟨rfl, fun more => rfl⟩
  | case2 extent place places hbefore =>
      refine .inl ⟨Extent.depth_of_endsBefore hbefore, fun more => ?_⟩
      rw [List.cons_append, restOfStatement, if_pos hbefore]
  | case3 extent place places hbefore hwith =>
      rcases Extent.depth_of_endsWith hwith with ⟨hdepth, hkind⟩
      refine .inl ⟨Extent.take_depth_zero hdepth (by rw [hkind]; decide), fun more => ?_⟩
      rw [List.cons_append, restOfStatement, if_neg hbefore, if_pos hwith]
  -- The token is taken either way, and the rest decides which case it is.
  | case4 extent place places hbefore hwith others ih =>
      have hstep : ∀ more, restOfStatement extent (place :: places ++ more) =
          (place :: (restOfStatement (extent.take place.token) (places ++ more)).1,
            (restOfStatement (extent.take place.token) (places ++ more)).2) := fun more => by
        rw [List.cons_append, restOfStatement, if_neg hbefore, if_neg hwith]
      rcases ih with ⟨hdepth, hover⟩ | ⟨htakes, hgoes⟩
      · refine .inl ⟨hdepth, fun more => ?_⟩
        rw [hstep, hover]
      · refine .inr ⟨?_, fun more => ?_⟩
        · rw [show others = (places, []) from htakes]
        · rw [hstep, hgoes]
          rfl

namespace Statement

/-- How far the statement has come with its last token. -/
def extent (statement : Statement) : Extent :=
  (Extent.ofFirst statement.first.token).takeAll statement.others

/-- The statement with more tokens at its end. -/
def extend (statement : Statement) (more : List Occurrence) : Statement :=
  { statement with others := statement.others ++ more }

-- Without new tokens a statement is as it was.
theorem extend_nil (statement : Statement) : statement.extend [] = statement := by
  rw [extend, List.append_nil]

end Statement

/-- The statements in front of `last` are over, and `last` goes on in whatever
    follows. -/
def GoesOn (comments places : List Occurrence) (earlier : List Statement) (last : Statement) :
    Prop :=
  statementsAfter comments places = earlier ++ [last] ∧
    ∀ more, statementsAfter comments (places ++ more) =
      earlier ++ last.extend (restOfStatement last.extent more).1 ::
        statementsAfter [] (restOfStatement last.extent more).2

/-- All statements are over, and whatever follows makes statements of its own. -/
def AreOver (comments places : List Occurrence) : Prop :=
  (∀ statement ∈ statementsAfter comments places, statement.extent.depth = 0) ∧
    ∃ left, ∀ more, statementsAfter comments (places ++ more) =
      statementsAfter comments places ++ statementsAfter left more

/-- In a row of statements all are over, or the last goes on and those in front
    of it are over. -/
theorem statementsAfter_resumed (comments places : List Occurrence) :
    AreOver comments places ∨
      ∃ earlier last, (∀ statement ∈ earlier, statement.extent.depth = 0) ∧
        GoesOn comments places earlier last := by
  fun_induction statementsAfter comments places with
  | case1 comments =>
      refine .inl ⟨?_, comments, fun more => ?_⟩
      · rw [statementsAfter]
        exact fun statement hmem => absurd hmem List.not_mem_nil
      · rw [statementsAfter, List.nil_append, List.nil_append]
  | case2 comments place rest hcomment ih =>
      simp only [AreOver, GoesOn, List.cons_append, statementsAfter, if_pos hcomment]
      exact ih
  | case3 comments place rest hcomment hsemicolon ih =>
      simp only [AreOver, GoesOn, List.cons_append, statementsAfter, if_neg hcomment,
        if_pos hsemicolon]
      exact ih
  | case4 comments place rest hcomment hsemicolon others ih =>
      have hstep : ∀ more, statementsAfter comments (place :: rest ++ more) =
          ⟨comments, place, (restOfStatement (Extent.ofFirst place.token) (rest ++ more)).1⟩ ::
            statementsAfter []
              (restOfStatement (Extent.ofFirst place.token) (rest ++ more)).2 := fun more => by
        rw [List.cons_append, statementsAfter, if_neg hcomment, if_neg hsemicolon]
      have hwhole := hstep []
      rw [List.append_nil, List.append_nil] at hwhole
      -- The first statement is over, or it has taken all there is and is the last.
      rcases restOfStatement_resumed (Extent.ofFirst place.token) rest with
        ⟨hdepth, hover⟩ | ⟨htakes, hgoes⟩
      · rcases ih with ⟨hdepths, left, hall⟩ | ⟨earlier, last, hdepths, hlast, hresumes⟩
        · refine .inl ⟨?_, left, fun more => ?_⟩
          · rw [hwhole]
            exact List.forall_mem_cons.mpr ⟨hdepth, hdepths⟩
          · rw [hstep, hover, hwhole, List.cons_append]
            exact congrArg _ (hall more)
        · refine .inr ⟨⟨comments, place, others.1⟩ :: earlier, last,
            List.forall_mem_cons.mpr ⟨hdepth, hdepths⟩, ?_, fun more => ?_⟩
          · rw [hwhole, List.cons_append]
            exact congrArg _ hlast
          · rw [hstep, hover, List.cons_append]
            exact congrArg _ (hresumes more)
      · refine .inr ⟨[], ⟨comments, place, rest⟩, fun _ hmem => absurd hmem List.not_mem_nil, ?_,
          fun more => ?_⟩
        · rw [hwhole, htakes, statementsAfter]
          rfl
        · rw [hstep, hgoes]
          rfl

/-- A statement that ends inside of a block is the last of its row, and it goes
    on. -/
theorem goesOn_of_depth {comments places : List Occurrence} {statement : Statement}
    (h : statement ∈ statementsAfter comments places) (hdepth : statement.extent.depth ≠ 0) :
    ∃ earlier, GoesOn comments places earlier statement := by
  rcases statementsAfter_resumed comments places with ⟨hover, -⟩ | ⟨earlier, last, hover, hgoes⟩
  · exact absurd (hover statement h) hdepth
  · rw [hgoes.1, List.mem_append, List.mem_singleton] at h
    rcases h with hearlier | rfl
    · exact absurd (hover statement hearlier) hdepth
    · exact ⟨earlier, hgoes⟩

/-- If the last of a row of statements ends in front of what follows, the
    statements of the row stay as they are. -/
theorem statementsAfter_ended {comments places more : List Occurrence}
    (h : ∀ last ∈ (statementsAfter comments places).getLast?, ∀ next ∈ more.head?,
      last.extent.endsBefore next.token) :
    ∃ left, statementsAfter comments (places ++ more) =
      statementsAfter comments places ++ statementsAfter left more := by
  rcases statementsAfter_resumed comments places with
    ⟨-, left, hover⟩ | ⟨earlier, last, -, hlast, hgoes⟩
  · exact ⟨left, hover more⟩
  · refine ⟨[], ?_⟩
    -- The last statement takes nothing of what follows.
    have hleft : restOfStatement last.extent more = ([], more) := by
      cases more with
      | nil => rfl
      | cons next behind =>
          rw [restOfStatement, if_pos (h last (by simp [hlast]) next rfl)]
    rw [hgoes more, hlast, hleft, Statement.extend_nil, List.append_assoc]
    rfl

/-! ## Braces in order -/

/-- The blocks that are open behind some tokens if `depth` are in front of them,
    or `none` if more are closed than are open. -/
def braceDepth (depth : Nat) : List Token → Option Nat
  | [] => some depth
  | token :: tokens =>
      match token.kind, depth with
      | .lBrace, depth => braceDepth (depth + 1) tokens
      | .rBrace, 0 => none
      | .rBrace, outer + 1 => braceDepth outer tokens
      | _, depth => braceDepth depth tokens

section Counting

variable {token : Token} (depth : Nat) (tokens : List Token)

/-- The depth follows the braces and nothing else. -/
theorem braceDepth_lBrace (h : token.kind = .lBrace) :
    braceDepth depth (token :: tokens) = braceDepth (depth + 1) tokens := by
  rw [braceDepth.eq_def]
  dsimp only
  rw [h]

theorem braceDepth_rBrace_zero (h : token.kind = .rBrace) :
    braceDepth 0 (token :: tokens) = none := by
  rw [braceDepth.eq_def]
  dsimp only
  rw [h]

theorem braceDepth_rBrace (h : token.kind = .rBrace) :
    braceDepth (depth + 1) (token :: tokens) = braceDepth depth tokens := by
  rw [braceDepth.eq_def]
  dsimp only
  rw [h]

theorem braceDepth_of_ne (hl : token.kind ≠ .lBrace) (hr : token.kind ≠ .rBrace) :
    braceDepth depth (token :: tokens) = braceDepth depth tokens := by
  rw [braceDepth.eq_def]
  dsimp only
  split
  · next h => exact absurd h hl
  · next h => exact absurd h hr
  · next h => exact absurd h hr
  · rfl

end Counting

/-- Tokens that are closed by one more brace, and not before, leave no block
    open. -/
theorem braceDepth_of_closingDistance {depth : Nat} {tokens : List Token} {close : Token}
    (hclose : close.kind = .rBrace)
    (h : closingDistance (depth + 1) (tokens ++ [close]) = some tokens.length) :
    braceDepth depth tokens = some 0 := by
  induction tokens generalizing depth with
  | nil =>
      cases depth with
      | zero => rfl
      | succ depth =>
          rw [List.nil_append, closingDistance_rBrace _ _ hclose] at h
          cases h
  | cons token tokens ih =>
      have hnext : ∀ {n : Option Nat}, n.map (· + 1) = some (token :: tokens).length →
          n = some tokens.length := fun h => by
        rcases Option.map_eq_some_iff.mp h with ⟨n, rfl, hn⟩
        exact congrArg some (Nat.succ_inj.mp hn)
      rw [List.cons_append] at h
      by_cases hl : token.kind = .lBrace
      · rw [closingDistance_lBrace _ _ hl] at h
        rw [braceDepth_lBrace _ _ hl]
        exact ih (hnext h)
      by_cases hr : token.kind = .rBrace
      · cases depth with
        | zero => rw [closingDistance_rBrace_one _ hr] at h; cases h
        | succ depth =>
            rw [closingDistance_rBrace _ _ hr] at h
            rw [braceDepth_rBrace _ _ hr]
            exact ih (hnext h)
      · rw [closingDistance_of_ne _ _ hl hr] at h
        rw [braceDepth_of_ne _ _ hl hr]
        exact ih (hnext h)

/-- The block that goes on behind tokens whose braces are counted holds all of
    them. -/
theorem untilClose_braceDepth {depth reached : Nat} {places : List Occurrence}
    (h : braceDepth depth (places.map Occurrence.token) = some reached)
    (more : List Occurrence) :
    (untilClose depth (places ++ more)).body = places ++ (untilClose reached more).body := by
  induction places generalizing depth with
  | nil =>
      rw [List.map_nil, braceDepth, Option.some.injEq] at h
      rw [h, List.nil_append, List.nil_append]
  | cons place places ih =>
      rw [List.map_cons] at h
      rw [List.cons_append, List.cons_append]
      -- The braces of the front move the depth at which the search goes on.
      by_cases hl : place.token.kind = .lBrace
      · rw [braceDepth_lBrace _ _ hl] at h
        rw [untilClose_lBrace _ _ hl]
        exact congrArg (place :: ·) (ih h)
      by_cases hr : place.token.kind = .rBrace
      · cases depth with
        | zero => rw [braceDepth_rBrace_zero _ hr] at h; cases h
        | succ depth =>
            rw [braceDepth_rBrace _ _ hr] at h
            rw [untilClose_rBrace _ _ hr]
            exact congrArg (place :: ·) (ih h)
      · rw [braceDepth_of_ne _ _ hl hr] at h
        rw [untilClose_of_ne _ _ hl hr]
        exact congrArg (place :: ·) (ih h)

/-- A block that is not closed goes on in a longer script. -/
theorem untilClose_append_of_open {depth : Nat} {places : List Occurrence}
    (h : (untilClose depth places).close? = none) (more : List Occurrence) :
    ∃ front, front <+: more ∧ (untilClose depth (places ++ more)).body = places ++ front := by
  induction places generalizing depth with
  | nil => exact ⟨_, untilClose_body_front depth more, rfl⟩
  | cons place places ih =>
      -- A token in front is taken along with the block.
      have hcons : ∀ {d}, (untilClose d places).close? = none → ∃ front, front <+: more ∧
          ((untilClose d (places ++ more)).cons place).body = place :: places ++ front := by
        intro d h
        rcases ih h with ⟨front, hfront, hbody⟩
        exact ⟨front, hfront, congrArg (place :: ·) hbody⟩
      rw [List.cons_append]
      by_cases hl : place.token.kind = .lBrace
      · rw [untilClose_lBrace _ _ hl] at h ⊢
        exact hcons h
      by_cases hr : place.token.kind = .rBrace
      · cases depth with
        | zero => rw [untilClose_rBrace_zero _ hr] at h; cases h
        | succ depth =>
            rw [untilClose_rBrace _ _ hr] at h ⊢
            exact hcons h
      · rw [untilClose_of_ne _ _ hl hr] at h ⊢
        exact hcons h

/-- What a statement takes and what it leaves are both in order. -/
theorem depth_restOfStatement {extent : Extent} {places : List Occurrence}
    (h : braceDepth extent.depth (places.map Occurrence.token) = some 0) :
    (extent.takeAll (restOfStatement extent places).1).depth = 0 ∧
      braceDepth 0 ((restOfStatement extent places).2.map Occurrence.token) = some 0 := by
  fun_induction restOfStatement extent places with
  | case1 extent => exact ⟨Option.some.inj h, rfl⟩
  | case2 extent place places hbefore =>
      have hdepth := Extent.depth_of_endsBefore hbefore
      rw [hdepth] at h
      exact ⟨hdepth, h⟩
  | case3 extent place places hbefore hwith =>
      rcases Extent.depth_of_endsWith hwith with ⟨hdepth, hkind⟩
      rw [hdepth, List.map_cons, braceDepth_of_ne _ _ (by rw [hkind]; decide)
        (by rw [hkind]; decide)] at h
      exact ⟨Extent.take_depth_zero hdepth (by rw [hkind]; decide), h⟩
  | case4 extent place places hbefore hwith others ih =>
      refine ih ?_
      rw [List.map_cons] at h
      -- The extent and the count of braces go up and down together.
      by_cases hl : place.token.kind = .lBrace
      · rwa [braceDepth_lBrace _ _ hl, ← Extent.take_lBrace _ hl] at h
      cases hdepth : extent.depth with
      | zero =>
          -- A closing brace would end the statement.
          have hr : place.token.kind ≠ .rBrace := fun hr => by
            refine hbefore ?_
            rw [Extent.endsBefore, hdepth, hr]
            exact Bool.or_true _
          rw [hdepth, braceDepth_of_ne _ _ hl hr] at h
          rwa [Extent.take_depth_zero hdepth hl]
      | succ depth =>
          rw [hdepth] at h
          by_cases hr : place.token.kind = .rBrace
          · rw [braceDepth_rBrace _ _ hr] at h
            rwa [Extent.take_rBrace hdepth hr]
          · rw [braceDepth_of_ne _ _ hl hr] at h
            rwa [Extent.take_deep hdepth hl hr, hdepth]

/-- Where the braces are in order, every statement ends on its own level. -/
theorem depth_extent {comments places : List Occurrence}
    (h : braceDepth 0 (places.map Occurrence.token) = some 0) :
    ∀ statement ∈ statementsAfter comments places, statement.extent.depth = 0 := by
  fun_induction statementsAfter comments places with
  | case1 => exact fun _ hmem => absurd hmem List.not_mem_nil
  | case2 comments place rest hcomment ih =>
      have hkind := kind_eq_comment (by simpa using hcomment)
      rw [List.map_cons, braceDepth_of_ne _ _ (by rw [hkind]; decide)
        (by rw [hkind]; decide)] at h
      exact ih h
  | case3 comments place rest hcomment hsemicolon ih =>
      rw [List.map_cons, braceDepth_of_ne _ _ (by rw [hsemicolon]; decide)
        (by rw [hsemicolon]; decide)] at h
      exact ih h
  | case4 comments place rest hcomment hsemicolon others ih =>
      -- The first token may open a block, and then the count has opened it as well.
      have hfirst : braceDepth (Extent.ofFirst place.token).depth (rest.map Occurrence.token) =
          some 0 := by
        rw [List.map_cons] at h
        by_cases hl : place.token.kind = .lBrace
        · rw [braceDepth_lBrace _ _ hl] at h
          rw [Extent.ofFirst, Extent.take_lBrace _ hl]
          exact h
        · have hr : place.token.kind ≠ .rBrace := fun hr => by
            rw [braceDepth_rBrace_zero _ hr] at h
            cases h
          rw [braceDepth_of_ne _ _ hl hr] at h
          rwa [Extent.depth_ofFirst hl]
      have hrest := depth_restOfStatement hfirst
      exact List.forall_mem_cons.mpr ⟨hrest.1, ih hrest.2⟩

/-! ## Sections that go on -/

-- What stops the search stands in the longer list as well.
theorem dropWhile_append_of_cons {places behind : List Occurrence} {place : Occurrence}
    {p : Occurrence → Bool} (h : places.dropWhile p = place :: behind)
    (more : List Occurrence) : (places ++ more).dropWhile p = place :: (behind ++ more) := by
  rw [List.dropWhile_append, h]
  rfl

/-- A section whose block goes on has its name and its opening brace already. -/
theorem part?_extend {statement : Statement} {part : Part} (h : statement.part? = some part)
    (hblock : part.heading.hasBlock) (more : List Occurrence) :
    ∃ longer, (statement.extend more).part? = some longer ∧
      longer.heading.name = part.heading.name ∧
      longer.heading.openIndex = part.heading.openIndex := by
  -- A section whose brace has come is settled by the words up to it.
  have hwords : ∀ {name : Token} {label : Option String} {words : List Occurrence},
      partOf name label words = some part → ∃ longer,
        partOf name label (words ++ more) = some longer ∧
          longer.heading.name = part.heading.name ∧
          longer.heading.openIndex = part.heading.openIndex := by
    intro name label words hpart
    rcases partOf_hasBlock hpart hblock with ⟨opening, r, rfl, hopening⟩
    rw [partOf, hopening.brace] at hpart
    rw [List.cons_append, partOf, hopening.brace]
    refine ⟨_, rfl, ?_, ?_⟩
    · exact congrArg (fun part => part.heading.name) (Option.some.inj hpart)
    · exact congrArg (fun part => part.heading.openIndex) (Option.some.inj hpart)
  -- With a label the words begin one further on.
  unfold Statement.part? at h ⊢
  split at h
  · next hident =>
    have hident' : (statement.extend more).first.token.kind = .ident := hident
    rw [if_pos hident']
    dsimp only [Statement.extend] at h ⊢
    cases hothers : statement.others.dropWhile fun place => !place.isSignificant with
    | nil => rw [hothers] at h; cases h
    | cons place behind =>
        rw [hothers] at h
        rw [dropWhile_append_of_cons hothers more]
        dsimp only at h ⊢
        split
        · next hlabel =>
          rw [if_pos hlabel] at h
          cases hbehind : behind.dropWhile fun other => !other.isSignificant with
          | nil => rw [hbehind] at h; cases h
          | cons opening r =>
              rw [hbehind] at h
              rw [dropWhile_append_of_cons hbehind more]
              exact hwords h
        · next hlabel =>
          rw [if_neg hlabel] at h
          exact hwords h
  · cases h

end StackScript
