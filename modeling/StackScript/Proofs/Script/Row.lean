import StackScript.Proofs.Script.Body
import StackScript.Proofs.Script.Enclosed

/-!
# Statements of One Line

The statements of a block mostly stand on a line each, below the comments that
describe them. This file is about a block that is written like that.

A statement ends at the end of its line if it is level there, that is if no
block and no bracket that was opened on it is still open. `Extent.Passes` says
that a statement takes some tokens and how far it has come then; the rows of a
line, names and signs, a pair of brackets, a block, all pass from a level extent
to the same, and so do any of them behind each other, `Extent.Passes.append`.

A statement that passes from level to level has its braces in order,
`Extent.Passes.passAll`, and that is all a reader outside of the block wants to
know of it.

## Main definitions

* `Extent.Passes`: A statement takes tokens.
* `Extent.level`: Nothing is open on a line.
* `TokenKind.isPlain`: Neither a bracket of any kind nor a semicolon.
* `IsRun`: Comments on consecutive lines.
* `EndsAbove`: What stands above them is no comment.

## Theorems

* `Extent.Passes.append`: Tokens behind tokens.
* `Extent.Passes.passAll`: Braces are closed in the order in which they open.
* `Extent.passes_block`: A block leaves a statement level.
* `restOfStatement_passes`, `restOfStatement_block`: What a statement takes.
* `checkBraces_append`: Braces in order behind braces in order.
* `statementsAfter_row`: A statement that takes its line.
* `statementsAfter_comments`: The comments in front of a statement.
* `commentsAbove_run`: Comments on consecutive lines are found from below.
-/

namespace StackScript

/-! ## What a statement takes -/

namespace Extent

/-- A statement that has come to `extent` takes all of the tokens and has then
    come to `reached`. -/
def Passes (extent : Extent) : List Token → Extent → Prop
  | [], reached => extent = reached
  | token :: tokens, reached =>
      extent.endsBefore token = false ∧ extent.endsWith token = false ∧
        (extent.take token).Passes tokens reached

/-- The extent between the two is where the second row begins. -/
theorem Passes.append {extent between reached : Extent} {tokens others : List Token}
    (h : extent.Passes tokens between) (h' : between.Passes others reached) :
    extent.Passes (tokens ++ others) reached := by
  induction tokens generalizing extent with
  | nil =>
      rw [Passes] at h
      rwa [List.nil_append, h]
  | cons token tokens ih => exact ⟨h.1, h.2.1, ih h.2.2⟩

/-- A closing brace is taken inside of a block only. -/
theorem depth_of_rBrace {extent : Extent} {token : Token} (h : extent.endsBefore token = false)
    (hr : token.kind = .rBrace) : ∃ depth, extent.depth = depth + 1 := by
  refine Nat.exists_eq_succ_of_ne_zero fun hzero => ?_
  rw [endsBefore, hr, hzero, Bool.or_eq_false_iff] at h
  cases h.2

/-- Only braces change the depth. -/
theorem depth_take_of_ne {extent : Extent} {token : Token} (hl : token.kind ≠ .lBrace)
    (hr : token.kind ≠ .rBrace) : (extent.take token).depth = extent.depth := by
  cases hdepth : extent.depth with
  | zero => exact take_depth_zero hdepth hl
  | succ depth => rw [take_deep hdepth hl hr, hdepth]

/-- The tokens that a statement takes close the braces that they open, and those
    that were open in the statement before, and leave the others alone. -/
theorem Passes.passAll {extent reached : Extent} {tokens : List Token}
    (h : extent.Passes tokens reached) {inner : List Nat} (hinner : inner.length = extent.depth)
    (index : Nat) : ∃ inner' : List Nat, inner'.length = reached.depth ∧ ∀ outer closings,
      LooseBraces.passAll ⟨inner ++ outer, closings⟩ index tokens = ⟨inner' ++ outer, closings⟩ := by
  induction tokens generalizing extent inner index with
  | nil =>
      rw [Passes] at h
      exact ⟨inner, h ▸ hinner, fun _ _ => rfl⟩
  | cons token tokens ih =>
      -- Each brace of the statement finds its partner among those it opened itself.
      by_cases hl : token.kind = .lBrace
      · have hopen : (index :: inner).length = (extent.take token).depth := by
          rw [take_lBrace _ hl, List.length_cons, hinner]
        rcases ih h.2.2 hopen (index + 1) with ⟨inner', hlength, hpass⟩
        refine ⟨inner', hlength, fun outer closings => ?_⟩
        rw [LooseBraces.passAll, hl]
        exact hpass outer closings
      by_cases hr : token.kind = .rBrace
      · rcases depth_of_rBrace h.1 hr with ⟨depth, hdepth⟩
        cases inner with
        | nil =>
            rw [hdepth] at hinner
            cases hinner
        | cons i inner =>
            have hclose : inner.length = (extent.take token).depth := by
              rw [take_rBrace hdepth hr]
              rw [hdepth] at hinner
              exact Nat.succ.inj hinner
            rcases ih h.2.2 hclose (index + 1) with ⟨inner', hlength, hpass⟩
            refine ⟨inner', hlength, fun outer closings => ?_⟩
            rw [LooseBraces.passAll, hr]
            exact hpass outer closings
      · have hsame : inner.length = (extent.take token).depth := by
          rw [depth_take_of_ne hl hr, hinner]
        rcases ih h.2.2 hsame (index + 1) with ⟨inner', hlength, hpass⟩
        refine ⟨inner', hlength, fun outer closings => ?_⟩
        rw [LooseBraces.passAll, pass_of_ne _ _ hl hr]
        exact hpass outer closings

/-- Nothing is open in a statement that has come to the line. -/
def level (line : Nat) : Extent :=
  ⟨line, 0, 0⟩

/-- A statement that is level again has its braces in order. -/
theorem Passes.checkBraces {line line' : Nat} {tokens : List Token}
    (h : (level line).Passes tokens (level line')) : StackScript.checkBraces tokens = [] := by
  rcases @Passes.passAll _ _ _ h [] rfl 0 with ⟨inner, hlength, hpass⟩
  have hnone := hpass [] []
  rw [List.eq_nil_of_length_eq_zero hlength, List.append_nil] at hnone
  exact checkBraces_of_passAll hnone

end Extent

/-- A statement takes the tokens that it passes, and goes on behind them. -/
theorem restOfStatement_passes {extent reached : Extent} {places : List Occurrence}
    (h : extent.Passes (places.map Occurrence.token) reached) (rest : List Occurrence) :
    restOfStatement extent (places ++ rest) =
      (places ++ (restOfStatement reached rest).1, (restOfStatement reached rest).2) := by
  induction places generalizing extent with
  | nil =>
      rw [List.map_nil, Extent.Passes] at h
      rw [h]
      rfl
  | cons place places ih =>
      rw [List.map_cons, Extent.Passes] at h
      rw [List.cons_append, restOfStatement, h.1, h.2.1, ih h.2.2]
      rfl

/-- A statement takes a row that it passes, and stops where it would. -/
theorem restOfStatement_of_passes {extent reached : Extent} {places rest : List Occurrence}
    (h : extent.Passes (places.map Occurrence.token) reached)
    (hrest : ∀ place ∈ rest.head?, reached.endsBefore place.token) :
    restOfStatement extent (places ++ rest) = (places, rest) := by
  have hnone : restOfStatement reached rest = ([], rest) := by
    cases rest with
    | nil => rfl
    | cons place rest => rw [restOfStatement, if_pos (hrest place rfl)]
  rw [restOfStatement_passes h, hnone, List.append_nil]

/-- A statement that has opened a block takes it up to its closing brace. -/
theorem restOfStatement_block {extent : Extent} (hdepth : extent.depth = 1)
    {body : List Occurrence} {close : Occurrence}
    (hbody : checkBraces (body.map Occurrence.token) = []) (hclose : close.token.kind = .rBrace) :
    restOfStatement extent (body ++ [close]) = (body ++ [close], []) := by
  -- The block ends at its own brace, so the statement takes all of it.
  have hblock := @untilClose_balanced body [] close hbody hclose
  have hsame := untilClose_restOfStatement hdepth (body ++ [close])
  have hall := restOfStatement_append extent (body ++ [close])
  have htaken := untilClose_append 0 (restOfStatement extent (body ++ [close])).1
  rw [hblock] at hsame
  rcases Option.map_eq_some_iff.mp hsame.close with ⟨⟨other, rest⟩, hending, hother⟩
  rw [hsame.body, hending] at htaken
  dsimp only at htaken hother
  rw [htaken, hother, List.append_assoc, List.cons_append, List.append_cancel_left_eq,
    List.cons.injEq, List.append_eq_nil_iff] at hall
  refine Prod.ext ?_ hall.2.2
  rw [htaken, hother, hall.2.1]

/-! ## Braces in a row -/

/-- Braces in order behind braces in order are in order. -/
theorem checkBraces_append {tokens others : List Token} (h : checkBraces tokens = [])
    (h' : checkBraces others = []) : checkBraces (tokens ++ others) = [] := by
  refine checkBraces_of_passAll ?_
  rw [passAll_append, passAll_balanced h, passAll_balanced h']

/-- Where there are no braces, they are in order. -/
theorem checkBraces_of_ne {tokens : List Token} (hl : ∀ token ∈ tokens, token.kind ≠ .lBrace)
    (hr : ∀ token ∈ tokens, token.kind ≠ .rBrace) : checkBraces tokens = [] := by
  have hpass : ∀ index, LooseBraces.passAll ⟨[], []⟩ index tokens = ⟨[], []⟩ := by
    induction tokens with
    | nil => exact fun _ => rfl
    | cons token tokens ih =>
        intro index
        rw [LooseBraces.passAll, pass_of_ne _ _ (hl token List.mem_cons_self)
          (hr token List.mem_cons_self)]
        exact ih (fun other hmem => hl other (List.mem_cons_of_mem _ hmem))
          (fun other hmem => hr other (List.mem_cons_of_mem _ hmem)) (index + 1)
  exact checkBraces_of_passAll (hpass 0)

/-! ## Rows of a line -/

/-- Neither a brace, a bracket or a parenthesis nor a semicolon. -/
def TokenKind.isPlain : TokenKind → Bool
  | .lBrace | .rBrace | .lBracket | .rBracket | .lParen | .rParen | .semicolon => false
  | _ => true

/-- All tokens are on the line. -/
def OnLine (line : Nat) (tokens : List Token) : Prop :=
  ∀ token ∈ tokens, token.position.line = line

namespace Extent

theorem level_endsBefore {line : Nat} {token : Token} (hline : token.position.line = line)
    (hr : token.kind ≠ .rBrace) : (level line).endsBefore token = false := by
  rw [endsBefore, hline, decide_eq_false hr]
  simp [level]

/-- A plain token leaves it level. -/
theorem level_take {line : Nat} {token : Token} (hline : token.position.line = line)
    (hplain : token.kind.isPlain) : (level line).take token = level line := by
  unfold take level
  rw [hline]
  dsimp only
  split
  all_goals first | rfl | simp_all [TokenKind.isPlain]

/-- Names and signs leave a statement level. -/
theorem passes_plain {line : Nat} {tokens : List Token} (hline : OnLine line tokens)
    (hplain : ∀ token ∈ tokens, token.kind.isPlain) : (level line).Passes tokens (level line) := by
  induction tokens with
  | nil => rfl
  | cons token tokens ih =>
      -- A plain token is neither a closing brace nor a semicolon.
      have hone := hplain token List.mem_cons_self
      have hr : token.kind ≠ .rBrace := by
        intro hr
        rw [hr] at hone
        cases hone
      have hsemicolon : token.kind ≠ .semicolon := by
        intro hsemicolon
        rw [hsemicolon] at hone
        cases hone
      have hfirst := hline token List.mem_cons_self
      refine ⟨level_endsBefore hfirst hr, endsWith_of_ne _ hsemicolon, ?_⟩
      rw [level_take hfirst hone]
      exact ih (fun other hmem => hline other (List.mem_cons_of_mem _ hmem))
        fun other hmem => hplain other (List.mem_cons_of_mem _ hmem)

/-- A pair of brackets leaves a statement level. -/
theorem passes_brackets {line : Nat} {left right : Token} (hline : OnLine line [left, right])
    (hleft : left.kind = .lBracket) (hright : right.kind = .rBracket) :
    (level line).Passes [left, right] (level line) := by
  have hl := hline left List.mem_cons_self
  have hr := hline right (List.mem_cons_of_mem _ List.mem_cons_self)
  have htake : (level line).take left = ⟨line, 1, 0⟩ := by
    unfold take level
    rw [hleft, hl]
  have htake' : (Extent.mk line 1 0).take right = level line := by
    unfold take level
    rw [hright, hr]
    rfl
  refine ⟨level_endsBefore hl ?_, endsWith_of_ne _ ?_, ?_⟩
  · rw [hleft]
    exact TokenKind.noConfusion
  · rw [hleft]
    exact TokenKind.noConfusion
  · -- Inside the brackets no end of a line would count.
    rw [htake]
    refine ⟨?_, endsWith_of_ne _ ?_, htake'⟩
    · rw [endsBefore, hright]
      rfl
    · rw [hright]
      exact TokenKind.noConfusion

/-- What a statement takes inside of a block that it has opened: the blocks in there, of
    which `given` have been opened already, and what is in between. -/
theorem passes_inside {extent : Extent} {given : List Nat} {index : Nat} {tokens : List Token}
    (h : LooseBraces.passAll ⟨given, []⟩ index tokens = ⟨[], []⟩)
    (hdepth : extent.depth = given.length + 1) :
    ∃ line, extent.Passes tokens ⟨line, extent.nesting, 1⟩ := by
  induction tokens generalizing extent given index with
  | nil =>
      obtain rfl : given = [] := congrArg LooseBraces.openings h
      exact ⟨extent.line, congrArg (Extent.mk extent.line extent.nesting) hdepth⟩
  | cons token tokens ih =>
      -- Inside of a block no token ends the statement.
      have hnext : ∀ {given' : List Nat},
          LooseBraces.passAll ⟨given', []⟩ (index + 1) tokens = ⟨[], []⟩ →
            (extent.take token).depth = given'.length + 1 →
              ∃ line, extent.Passes (token :: tokens) ⟨line, extent.nesting, 1⟩ := by
        intro given' hrest htake
        rcases ih hrest htake with ⟨line, hpasses⟩
        rw [nesting_take_deep hdepth] at hpasses
        have hlevel : extent.isLevel = false := by
          rw [isLevel, hdepth]
          rfl
        refine ⟨line, ?_, ?_, hpasses⟩
        · rw [endsBefore, hlevel, hdepth]
          rfl
        · rw [endsWith, hlevel]
          rfl
      rw [LooseBraces.passAll] at h
      by_cases hl : token.kind = .lBrace
      · rw [hl] at h
        exact @hnext (index :: given) h (by rw [take_lBrace _ hl, hdepth, List.length_cons])
      by_cases hr : token.kind = .rBrace
      · rw [hr] at h
        cases given with
        | nil => exact absurd h (passAll_ne_of_closing index (index + 1) tokens)
        | cons i given => exact @hnext given h (take_rBrace hdepth hr)
      · rw [pass_of_ne _ _ hl hr] at h
        exact hnext h (by rw [take_deep hdepth hl hr, hdepth])

/-- A block leaves a statement level, on the line of its closing brace. -/
theorem passes_block {line : Nat} {opening close : Token} {inside : List Token}
    (hline : opening.position.line = line) (hopen : opening.kind = .lBrace)
    (hclose : close.kind = .rBrace) (hinside : checkBraces inside = []) :
    (level line).Passes (opening :: (inside ++ [close])) (level close.position.line) := by
  have htake : (level line).take opening = ⟨line, 0, 1⟩ := by
    unfold take level
    rw [hopen, hline]
  -- The line at the end of the block is the line of what was taken last.
  rcases @passes_inside ⟨line, 0, 1⟩ [] _ _ (passAll_of_checkBraces hinside) rfl with
    ⟨last, hpasses⟩
  have htake' : (Extent.mk last 0 1).take close = level close.position.line := by
    unfold take level
    rw [hclose]
  refine ⟨level_endsBefore hline ?_, endsWith_of_ne _ ?_, ?_⟩
  · rw [hopen]
    exact TokenKind.noConfusion
  · rw [hopen]
    exact TokenKind.noConfusion
  · rw [htake]
    exact hpasses.append ⟨rfl, rfl, htake'⟩

end Extent

/-! ## Statements of a line -/

/-- A statement that is level behind its line takes the line and no more. -/
theorem statementsAfter_row {line : Nat} {place : Occurrence} {places rest : List Occurrence}
    (comments : List Occurrence) (hfirst : place.token.kind = .ident)
    (hline : place.token.position.line = line)
    (h : (Extent.level line).Passes (places.map Occurrence.token) (Extent.level line))
    (hrest : ∀ other ∈ rest.head?, line < other.token.position.line) :
    statementsAfter comments (place :: (places ++ rest)) =
      ⟨comments, place, places⟩ :: statementsAfter [] rest := by
  have hsignificant : place.isSignificant := by
    rw [Occurrence.isSignificant, Token.isSignificant, hfirst]
    rfl
  have hsemicolon : place.token.kind ≠ .semicolon := by
    rw [hfirst]
    exact TokenKind.noConfusion
  have hextent : Extent.ofFirst place.token = Extent.level line := by
    rw [Extent.ofFirst, hline]
    exact Extent.level_take hline (by rw [hfirst]; rfl)
  -- The next token is further down, so the statement ends in front of it.
  have hends : ∀ other ∈ rest.head?, (Extent.level line).endsBefore other.token := by
    intro other hmem
    rw [Extent.endsBefore, Bool.or_eq_true_iff]
    exact Or.inl (decide_eq_true (hrest other hmem))
  rw [statementsAfter, hsignificant, if_neg hsemicolon, hextent,
    restOfStatement_of_passes h hends]
  rfl

/-- The comments in front of a statement are read with it. -/
theorem statementsAfter_comments (comments run rest : List Occurrence)
    (h : ∀ place ∈ run, place.token.kind = .comment) :
    statementsAfter comments (run ++ rest) = statementsAfter (comments ++ run) rest := by
  induction run generalizing comments with
  | nil => rw [List.append_nil, List.nil_append]
  | cons place run ih =>
      have hcomment : (!place.isSignificant) = true := by
        rw [Occurrence.isSignificant, Token.isSignificant, h place List.mem_cons_self]
        rfl
      rw [List.cons_append, statementsAfter, if_pos hcomment,
        ih _ fun other hmem => h other (List.mem_cons_of_mem _ hmem), List.append_assoc]
      rfl

/-! ## Comments above a statement -/

/-- Comments on consecutive lines, from the given one on. -/
def IsRun (line : Nat) : List Token → Prop
  | [] => True
  | comment :: run =>
      comment.kind = .comment ∧ comment.position.line = line ∧ IsRun (line + 1) run

/-- A run has comments only. -/
theorem IsRun.kind {line : Nat} {run : List Token} (h : IsRun line run) :
    ∀ comment ∈ run, comment.kind = .comment := by
  induction run generalizing line with
  | nil => exact fun comment hmem => by cases hmem
  | cons first run ih =>
      intro comment hmem
      rcases List.mem_cons.mp hmem with rfl | hmem
      · exact h.1
      · exact ih h.2.2 comment hmem

/-- Comments on consecutive lines are found from below, and then whatever stands above the
    first. -/
theorem commentsAbove_run_append {line : Nat} {run before : List Token} (h : IsRun line run)
    (hbefore : ∀ last ∈ before.head?, last.position.line < line) :
    commentsAbove (line + run.length) (run.reverse ++ before) =
      run.reverse ++ commentsAbove line before := by
  induction run generalizing line before with
  | nil => rfl
  | cons comment run ih =>
      have hnext := @ih _ (comment :: before) h.2.2 fun last hlast => by
        cases hlast
        rw [h.2.1]
        exact Nat.lt_succ_self line
      -- The comment is alone on its line, as the token before it is further up.
      have halone : before.head?.all fun other => other.position.line ≠ comment.position.line := by
        cases before with
        | nil => rfl
        | cons last before =>
            have hlt := hbefore last rfl
            rw [h.2.1]
            exact decide_eq_true (Nat.ne_of_lt hlt)
      -- So it is taken, and the next one is looked for a line above.
      have hone : commentsAbove (line + 1) (comment :: before) =
          comment :: commentsAbove line before := by
        rw [commentsAbove, halone, h.1, h.2.1]
        simp
      rw [List.length_cons, List.reverse_cons, List.append_assoc, List.append_assoc,
        Nat.add_comm run.length, ← Nat.add_assoc]
      exact hnext.trans (congrArg (run.reverse ++ ·) hone)

/-- The tokens (the nearest first) end above the line, and not in a comment. -/
def EndsAbove (line : Nat) (before : List Token) : Prop :=
  ∀ last ∈ before.head?, last.kind ≠ .comment ∧ last.position.line < line

/-- Comments on consecutive lines below something else are found from below. -/
theorem commentsAbove_run {line : Nat} {run before : List Token} (h : IsRun line run)
    (hbefore : EndsAbove line before) :
    commentsAbove (line + run.length) (run.reverse ++ before) = run.reverse := by
  have hnone : commentsAbove line before = [] := by
    cases before with
    | nil => rfl
    | cons last before => simp [commentsAbove, (hbefore last rfl).1]
  rw [commentsAbove_run_append h fun last hlast => (hbefore last hlast).2, hnone, List.append_nil]

end StackScript
