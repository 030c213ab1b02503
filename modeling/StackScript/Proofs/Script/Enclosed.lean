import StackScript.Proofs.Script.Argument
import StackScript.Proofs.Script.Comment
import StackScript.Proofs.Script.Loose
import StackScript.Proofs.Script.Reference

/-!
# A Script in Braces

A fragment is the body of an object without the object around it. Put between
the braces of an object it stands further down, behind some words of a header
and in front of a closing brace, and every reader that looks back at its first
word or ahead from its last one sees something else than before.

If its braces are in order, no reader minds. The block that begins at the
opening brace is the fragment and nothing else, `untilClose_balanced`. Looking
back from the first word ends at the opening brace, which is as good as the
beginning of the script, and looking ahead from the last word ends at the
closing brace, which is as good as its end.

The comment above a declaration is what a description is taken from. The run of
comments cannot go on beyond the opening brace, and it can reach the brace only
on a line below, so that the comments of the fragment stay alone on their lines.

## Main definitions

* `Recast.enclosed`: The words of a fragment between the braces of an object.
* `Opens`: The words in front of a fragment end in an opening brace.

## Theorems

* `passAll_balanced`, `untilClose_balanced`: Braces in order.
* `commentsAbove_enclosed`: The comments above a word.
* `Recast.enclosed_occurrences`: The words of the fragment in their places.
* `callsAfter_enclosed`, `readWords_enclosed`: The references in a fragment.
-/

namespace StackScript

/-! ## Braces in order -/

/-- A closing brace that closes nothing stays reported. -/
theorem passAll_ne_of_closing (j index : Nat) (tokens : List Token) :
    LooseBraces.passAll ⟨[], [j]⟩ index tokens ≠ ⟨[], []⟩ := by
  intro h
  have hmem : j ∈ (LooseBraces.passAll ⟨[], [j]⟩ index tokens).closings :=
    mem_closings_passAll_of_mem index tokens List.mem_cons_self
  rw [h] at hmem
  cases hmem

/-- What a list of words with its braces in order does to the braces that a reader holds: it
    closes the innermost ones, which it has been given to close, and leaves the others
    alone. -/
theorem passAll_closing {tokens : List Token} {index index' : Nat} {given inner outer : List Nat}
    {closings : List Nat} (h : LooseBraces.passAll ⟨given, []⟩ index tokens = ⟨[], []⟩)
    (hlength : inner.length = given.length) :
    LooseBraces.passAll ⟨inner ++ outer, closings⟩ index' tokens = ⟨outer, closings⟩ := by
  induction tokens generalizing index index' given inner with
  | nil =>
      have hgiven : given = [] := congrArg LooseBraces.openings h
      rw [hgiven, List.length_nil] at hlength
      rw [List.eq_nil_of_length_eq_zero hlength]
      rfl
  | cons token tokens ih =>
      -- Every brace is pushed or popped on both stacks, and the upper part is as high in
      -- both.
      rw [LooseBraces.passAll] at h ⊢
      by_cases hl : token.kind = .lBrace
      · rw [hl] at h ⊢
        exact @ih _ _ (index :: given) (index' :: inner) h (congrArg (· + 1) hlength)
      by_cases hr : token.kind = .rBrace
      · rw [hr] at h ⊢
        cases given with
        | nil => exact absurd h (passAll_ne_of_closing index (index + 1) tokens)
        | cons i given =>
            cases inner with
            | nil => cases hlength
            | cons j inner => exact @ih _ _ given inner h (Nat.succ.inj hlength)
      · rw [pass_of_ne _ _ hl hr] at h ⊢
        exact ih h hlength

/-- Nothing is reported if nothing is held and nothing was loose. -/
theorem passAll_of_checkBraces {tokens : List Token} (h : checkBraces tokens = []) :
    LooseBraces.passAll ⟨[], []⟩ 0 tokens = ⟨[], []⟩ := by
  rw [checkBraces_eq, List.append_eq_nil_iff, List.map_eq_nil_iff, List.map_eq_nil_iff,
    List.reverse_eq_nil_iff, List.reverse_eq_nil_iff] at h
  rcases hloose : LooseBraces.passAll ⟨[], []⟩ 0 tokens with ⟨openings, closings⟩
  rw [hloose] at h
  rcases h with ⟨rfl, rfl⟩
  rfl

theorem checkBraces_of_passAll {tokens : List Token}
    (h : LooseBraces.passAll ⟨[], []⟩ 0 tokens = ⟨[], []⟩) : checkBraces tokens = [] := by
  rw [checkBraces_eq, h]
  rfl

/-- Words whose braces are in order leave the braces that a reader holds as
    they are. -/
theorem passAll_balanced {tokens : List Token} (h : checkBraces tokens = []) (loose : LooseBraces)
    (index : Nat) : loose.passAll index tokens = loose :=
  @passAll_closing _ _ _ _ [] _ _ (passAll_of_checkBraces h) rfl

/-- Tokens in which as many blocks are closed as are open in front of them end a block where
    the next brace comes. -/
theorem untilClose_closing {places rest : List Occurrence} {close : Occurrence} {given : List Nat}
    {index : Nat}
    (h : LooseBraces.passAll ⟨given, []⟩ index (places.map Occurrence.token) = ⟨[], []⟩)
    (hclose : close.token.kind = .rBrace) :
    untilClose given.length (places ++ close :: rest) = ⟨places, some (close, rest)⟩ := by
  induction places generalizing index given with
  | nil =>
      have hgiven : given = [] := congrArg LooseBraces.openings h
      rw [hgiven]
      exact untilClose_rBrace_zero rest hclose
  | cons place places ih =>
      rw [List.map_cons, LooseBraces.passAll] at h
      rw [List.cons_append]
      by_cases hl : place.token.kind = .lBrace
      · rw [hl] at h
        rw [untilClose_lBrace _ _ hl]
        exact congrArg (Block.cons place) (@ih (index :: given) _ h)
      by_cases hr : place.token.kind = .rBrace
      · rw [hr] at h
        cases given with
        | nil => exact absurd h (passAll_ne_of_closing index (index + 1) _)
        | cons i given =>
            rw [List.length_cons, untilClose_rBrace _ _ hr]
            exact congrArg (Block.cons place) (@ih given _ h)
      · rw [pass_of_ne _ _ hl hr] at h
        rw [untilClose_of_ne _ _ hl hr]
        exact congrArg (Block.cons place) (ih h)

/-- A closing brace behind words whose braces are in order closes the block in
    front of them. -/
theorem untilClose_balanced {places rest : List Occurrence} {close : Occurrence}
    (h : checkBraces (places.map Occurrence.token) = []) (hclose : close.token.kind = .rBrace) :
    untilClose 0 (places ++ close :: rest) = ⟨places, some (close, rest)⟩ :=
  @untilClose_closing _ _ _ [] _ (passAll_of_checkBraces h) hclose

/-- Whether braces are in order is a matter of kinds. -/
theorem checkBraces_of_kinds {tokens others : List Token}
    (h : tokens.map Token.kind = others.map Token.kind) : checkBraces tokens = checkBraces others := by
  have hpass : ∀ (loose : LooseBraces) (index : Nat),
      loose.passAll index tokens = loose.passAll index others := by
    induction tokens generalizing others with
    | nil =>
        rw [List.map_eq_nil_iff.mp h.symm]
        exact fun _ _ => rfl
    | cons token tokens ih =>
        rcases List.map_eq_cons_iff.mp h.symm with ⟨other, others, rfl, hkind, hkinds⟩
        intro loose index
        rw [LooseBraces.passAll, LooseBraces.passAll, ih hkinds.symm, ← hkind]
  rw [checkBraces_eq, checkBraces_eq, hpass]

/-- Braces are in order wherever they stand. -/
theorem TokenShift.checkBraces_map (shift : TokenShift) (tokens : List Token) :
    checkBraces (tokens.map shift.token) = checkBraces tokens := by
  refine checkBraces_of_kinds ?_
  rw [List.map_map]
  exact List.map_congr_left fun token _ => shift.kind_token token

/-! ## Comments -/

/-- The run of comments above a word ends at the brace in front of the fragment. -/
theorem commentsAbove_enclosed (shift : TokenShift) {before lead : List Token}
    (hlead : ∀ brace, lead.head? = some brace → brace.kind = .lBrace ∧
      ∀ token ∈ before, brace.position.line < token.position.line + shift.lines)
    (line : Nat) :
    commentsAbove (line + shift.lines) (before.map shift.token ++ lead) =
      (commentsAbove line before).map shift.token := by
  induction before generalizing line with
  | nil =>
      cases lead with
      | nil => rfl
      | cons brace more => simp [commentsAbove, (hlead brace rfl).1]
  | cons comment before ih =>
      -- The token in front of a comment is one of the fragment or the opening brace, which
      -- is on a line above.
      have halone : (before.map shift.token ++ lead).head?.all
          (fun other => other.position.line ≠ (shift.token comment).position.line) =
            before.head?.all fun other => other.position.line ≠ comment.position.line := by
        cases before with
        | nil =>
            cases lead with
            | nil => rfl
            | cons brace more =>
                have hne := Nat.ne_of_lt ((hlead brace rfl).2 comment List.mem_cons_self)
                simp [hne]
        | cons other before => simp
      -- Lines are compared by their difference, so moving both makes no difference.
      have habove : decide ((shift.token comment).position.line + 1 = line + shift.lines) =
          decide (comment.position.line + 1 = line) := by
        rw [shift.position_token, Position.line_down, decide_eq_decide]
        omega
      have hrest := ih (fun brace hbrace => ⟨(hlead brace hbrace).1, fun token hmem =>
        (hlead brace hbrace).2 token (List.mem_cons_of_mem _ hmem)⟩) comment.position.line
      rw [List.map_cons, List.cons_append, commentsAbove, commentsAbove, halone,
        shift.kind_token, habove, shift.position_token, Position.line_down, hrest]
      split <;> rfl

/-- What a comment says is in its text. -/
theorem remarks_map (shift : TokenShift) (comments : List Token) :
    (comments.map shift.token).reverse.map Token.remark = comments.reverse.map Token.remark := by
  rw [← List.map_reverse, List.map_map]
  congr 1
  funext comment
  simp [Token.remark]

/-- The words in front of a fragment, for whoever looks back from a word of it.
    Lines count from one, so whatever does not stand on a line is no word of a
    script, and there is nothing in front of it. -/
def leadOf (lead before : List Token) : List Token :=
  if before.all fun token => 1 ≤ token.position.line then lead else []

/-- The words of a fragment between the braces of an object, of which `lead` are
    the words in front, the nearest first. -/
def Recast.enclosed (shift : TokenShift) {lead : List Token}
    (hlead : ∀ brace, lead.head? = some brace →
      brace.kind = .lBrace ∧ brace.position.line ≤ shift.lines) : Recast where
  toTokenShift := shift
  place occurrence :=
    ⟨occurrence.before.map shift.token ++ leadOf lead occurrence.before,
      shift.token occurrence.token⟩
  describe := id
  token_place _ := rfl
  description_place occurrence := by
    have hcomments : commentsAbove (shift.token occurrence.token).position.line
        (occurrence.before.map shift.token ++ leadOf lead occurrence.before) =
          (commentsAbove occurrence.token.position.line occurrence.before).map shift.token := by
      rw [shift.position_token]
      refine commentsAbove_enclosed shift (fun brace hbrace => ?_) _
      unfold leadOf at hbrace
      split at hbrace
      · next hlines =>
        refine ⟨(hlead brace hbrace).1, fun token hmem => ?_⟩
        have hone := of_decide_eq_true (List.all_eq_true.mp hlines token hmem)
        have hbelow := (hlead brace hbrace).2
        omega
      · cases hbrace
    unfold Occurrence.description
    dsimp only
    rw [hcomments, remarks_map]
    rfl
  describe_none := rfl

/-- The words of a fragment in their places between the braces. -/
theorem Recast.enclosed_occurrences (shift : TokenShift) {lead : List Token}
    (hlead : ∀ brace, lead.head? = some brace →
      brace.kind = .lBrace ∧ brace.position.line ≤ shift.lines)
    {before tokens : List Token} (hbefore : ∀ token ∈ before, 1 ≤ token.position.line)
    (htokens : ∀ token ∈ tokens, 1 ≤ token.position.line) :
    (occurrencesAfter before tokens).map (enclosed shift hlead).place =
      occurrencesAfter (before.map shift.token ++ lead) (tokens.map shift.token) := by
  induction tokens generalizing before with
  | nil => rfl
  | cons token tokens ih =>
      -- All tokens are on some line, so the lead is put in front of each.
      have hall : leadOf lead before = lead :=
        if_pos (List.all_eq_true.mpr fun other hmem => decide_eq_true (hbefore other hmem))
      have hnext : ∀ other ∈ token :: before, 1 ≤ other.position.line := by
        intro other hmem
        rcases List.mem_cons.mp hmem with rfl | hmem
        · exact htokens _ List.mem_cons_self
        · exact hbefore other hmem
      rw [occurrencesAfter, List.map_cons, List.map_cons, occurrencesAfter,
        ih hnext fun other hmem => htokens other (List.mem_cons_of_mem _ hmem)]
      change Occurrence.mk (before.map shift.token ++ leadOf lead before) _ :: _ = _
      rw [hall]
      rfl

/-! ## References -/

/-- The words (the nearest first) end in an opening brace, so that whoever looks
    back over a fragment behind them comes to a brace. -/
def Opens (lead : List Token) : Prop :=
  ∃ brace more, lead = brace :: more ∧ brace.kind = .lBrace

section Reference

variable {lead : List Token} {close : Token}

/-- The words behind the opening brace of a fragment are looked at as if nothing stood in
    front of them. -/
theorem opensDeclarations_enclosed (h : Opens lead) (before : List Token) :
    opensDeclarations (before ++ lead) = opensDeclarations before := by
  rcases h with ⟨brace, more, rfl, hbrace⟩
  rcases before with _ | ⟨word, _ | ⟨other, before⟩⟩
  · simp [opensDeclarations, hbrace]
  · by_cases hword : word.kind = .string
    · simp [opensDeclarations, hword, hbrace]
    · simp [opensDeclarations, hword]
  · rfl

/-- An opening brace is not followed by a filter, no more than nothing is. -/
theorem expectsFilter_enclosed (h : Opens lead) (before : List Token) :
    expectsFilter (before ++ lead) = expectsFilter before := by
  rcases h with ⟨brace, more, rfl, hbrace⟩
  rcases before with _ | ⟨word, _ | ⟨other, before⟩⟩
  · simp [expectsFilter, hbrace]
  · simp [expectsFilter, Token.isIdent, hbrace]
  · rfl

/-- A statement may begin behind an opening brace, and at the start of a script. -/
theorem beginsStatement_enclosed (h : Opens lead) (word : Token) (before : List Token) :
    beginsStatement word (before ++ lead) = beginsStatement word before := by
  rcases h with ⟨brace, more, rfl, hbrace⟩
  cases before with
  | nil => simp [beginsStatement, hbrace]
  | cons last before => rfl

/-- A closing brace is no argument. -/
theorem takesArguments_enclosed (h : close.kind = .rBrace) (word : Token) (after : List Token) :
    takesArguments word (after ++ [close]) = takesArguments word after := by
  cases after with
  | nil => simp [takesArguments, TokenKind.isArgument, h]
  | cons next after => rfl

/-- The calls among the words of a fragment do not depend on the braces around
    it. Around it no block holds declarations. -/
theorem callsAfter_enclosed (hlead : Opens lead) (hclose : close.kind = .rBrace)
    {outer : List Bool} (houter : true ∉ outer) (blocks : List Bool) (before tokens : List Token) :
    callsAfter (blocks ++ outer) (before ++ lead) (tokens ++ [close]) =
      callsAfter blocks before tokens := by
  induction tokens generalizing outer blocks before with
  | nil =>
      rw [List.nil_append, callsAfter.eq_def]
      dsimp only
      rw [hclose]
      rfl
  | cons word after ih =>
      have hnext : ∀ inside, callsAfter (inside ++ outer) (word :: before ++ lead)
          (after ++ [close]) = callsAfter inside (word :: before) after :=
        fun inside => ih houter inside (word :: before)
      -- The blocks around the fragment declare nothing, so an empty stack says the same.
      have hhead : decide ((blocks ++ outer).head? = some true) =
          decide (blocks.head? = some true) := by
        cases blocks with
        | nil => exact decide_eq_false fun h => houter (List.mem_of_head? h)
        | cons declaring blocks => rfl
      -- A closing brace too much takes one of them away, and the others say the same still.
      have htail : callsAfter (blocks ++ outer).tail (word :: before ++ lead) (after ++ [close]) =
          callsAfter blocks.tail (word :: before) after := by
        cases blocks with
        | nil => exact ih (fun h => houter (List.mem_of_mem_tail h)) [] (word :: before)
        | cons declaring blocks => exact hnext blocks
      rw [List.cons_append, callsAfter, callsAfter]
      simp only [hhead, opensDeclarations_enclosed hlead, expectsFilter_enclosed hlead,
        isFunctionCall, beginsStatement_enclosed hlead, takesArguments_enclosed hclose]
      split
      · exact hnext (_ :: blocks)
      · exact htail
      · rw [← List.cons_append, hnext]
        rfl
      · exact hnext blocks

/-- The closing brace says nothing itself. -/
theorem readWords_enclosed {α : Type} {read : Token → List Token → Option α}
    (hread : ∀ word after, read word (after ++ [close]) = read word after)
    (hclose : read close [] = none) (tokens : List Token) :
    readWords read (tokens ++ [close]) = readWords read tokens := by
  induction tokens with
  | nil => simp [readWords, hclose]
  | cons word after ih => rw [List.cons_append, readWords, readWords, hread, ih]

theorem namedArgument_enclosed (hclose : close.kind = .rBrace) {kinds : List TokenKind}
    (hkinds : TokenKind.rBrace ∉ kinds) (word : Token) (after : List Token) :
    namedArgument kinds word (after ++ [close]) = namedArgument kinds word after := by
  cases after with
  | nil => simp [namedArgument, hclose, hkinds]
  | cons next after => rfl

theorem tableRef?_enclosed (hclose : close.kind = .rBrace) (word : Token) (after : List Token) :
    tableRef? word (after ++ [close]) = tableRef? word after := by
  rw [tableRef?, tableRef?, namedArgument_enclosed hclose (by decide)]

theorem runRef?_enclosed (hclose : close.kind = .rBrace) (word : Token) (after : List Token) :
    runRef? word (after ++ [close]) = runRef? word after := by
  rw [runRef?, runRef?, namedArgument_enclosed hclose (by decide)]

-- A closing brace is no operation and runs nothing.
theorem tableRef?_close (hclose : close.kind = .rBrace) : tableRef? close [] = none := by
  rw [tableRef?, databaseOperation?_of_kind_ne (by rw [hclose]; exact TokenKind.noConfusion)]
  rfl

theorem runRef?_close (hclose : close.kind = .rBrace) : runRef? close [] = none := by
  rw [runRef?, Token.isIdent, hclose]
  rfl

end Reference

end StackScript
