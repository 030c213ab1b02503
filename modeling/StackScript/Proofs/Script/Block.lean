import StackScript.Proofs.Script.Brace

/-!
# Blocks within Blocks

The outline reads a script from the outside to the inside: it cuts the body out
of the script, a statement out of the body, and the block of a section out of
the statement. Each cut shortens the list that the next reader sees. This file
shows that no cut shortens a block that begins in front of it.

What two readings of a block have to agree in is its inside and its closing
brace, `Block.SameGroup`. What follows the closing brace is out of the
question, since that is where the lists end in different places.

`IsScope` is what the outline needs to hold of the list it reads: whatever block
begins in it is a block of the script. The whole script is a scope, and the
inside of a block is a scope again. In a scope the closing brace found by
`untilClose` has the index found by `blockEnd`.

## Main definitions

* `Block.SameGroup`: The same inside and the same closing brace.
* `IsScope`: The blocks that begin in a list are blocks of the script.

## Theorems

* `untilClose_body_deeper`: A block is not shortened by a block around it.
* `occurrencesAfter_eq_append`: What an occurrence knows about its script.
* `closeIndex_eq_blockEnd`: The two readers of one block agree.
* `isScope_occurrences`, `isScope_untilClose`: The scopes of a script.
-/

namespace StackScript

/-! ## Reading a block -/

section Reading

variable {place : Occurrence} (depth : Nat) (places : List Occurrence)

-- An opening brace takes the reader one block deeper.
theorem untilClose_lBrace (h : place.token.kind = .lBrace) :
    untilClose depth (place :: places) = (untilClose (depth + 1) places).cons place := by
  rw [untilClose]
  exact h

-- The first closing brace on the level of the block ends it.
theorem untilClose_rBrace_zero (h : place.token.kind = .rBrace) :
    untilClose 0 (place :: places) = ⟨[], some (place, places)⟩ := by
  rw [untilClose]
  exact h

-- A closing brace further inside ends a block further inside.
theorem untilClose_rBrace (h : place.token.kind = .rBrace) :
    untilClose (depth + 1) (place :: places) = (untilClose depth places).cons place := by
  rw [untilClose]
  exact h

/-- Any other token is a part of the block. -/
theorem untilClose_of_ne (hl : place.token.kind ≠ .lBrace) (hr : place.token.kind ≠ .rBrace) :
    untilClose depth (place :: places) = (untilClose depth places).cons place := by
  rw [untilClose.eq_def]
  dsimp only
  split
  · next h => exact absurd h hr
  · next h => exact absurd h hr
  · next h => exact absurd h hl
  · rfl

end Reading

namespace Block

/-- The same inside and the same closing brace. -/
structure SameGroup (block other : Block) : Prop where
  /-- The insides are the same. -/
  body : block.body = other.body
  /-- The closing braces are the same. -/
  close : block.close? = other.close?

theorem SameGroup.refl (block : Block) : SameGroup block block :=
  ⟨rfl, rfl⟩

theorem SameGroup.trans {a b c : Block} (h : SameGroup a b) (h' : SameGroup b c) :
    SameGroup a c :=
  ⟨h.body.trans h'.body, h.close.trans h'.close⟩

-- One token more in front of both keeps them the same.
theorem SameGroup.cons {block other : Block} (h : SameGroup block other) (place : Occurrence) :
    SameGroup (block.cons place) (other.cons place) :=
  ⟨congrArg (place :: ·) h.body, h.close⟩

-- A block has an end if it has a closing brace.
theorem isSome_ending (block : Block) : block.ending.isSome = block.close?.isSome := by
  rw [close?, Option.isSome_map]

end Block

/-- The inside of a block stands at the front of what follows its brace. -/
theorem untilClose_body_front (depth : Nat) (places : List Occurrence) :
    (untilClose depth places).body <+: places := by
  induction places generalizing depth with
  | nil => exact List.prefix_rfl
  | cons place places ih =>
      -- A token that does not end the block is its first one, and the rest is a front of
      -- the rest.
      have hcons : ∀ d, ((untilClose d places).cons place).body <+: place :: places :=
        fun d => List.cons_prefix_cons.mpr ⟨rfl, ih d⟩
      by_cases hl : place.token.kind = .lBrace
      · rw [untilClose_lBrace _ _ hl]
        exact hcons _
      by_cases hr : place.token.kind = .rBrace
      · cases depth with
        | zero =>
            rw [untilClose_rBrace_zero _ hr]
            exact List.nil_prefix
        | succ depth =>
            rw [untilClose_rBrace _ _ hr]
            exact hcons _
      · rw [untilClose_of_ne _ _ hl hr]
        exact hcons _

/-- A block is not shortened by a block around it: it is the same whether it is
    read in the inside of that block or in all that follows. -/
theorem untilClose_body_deeper (depth outer : Nat) (places : List Occurrence) :
    (untilClose depth (untilClose (depth + outer + 1) places).body).SameGroup
      (untilClose depth places) := by
  induction places generalizing depth with
  | nil => exact Block.SameGroup.refl _
  | cons place places ih =>
      by_cases hl : place.token.kind = .lBrace
      · have hdeeper : depth + outer + 1 + 1 = depth + 1 + outer + 1 := by omega
        rw [untilClose_lBrace _ _ hl, Block.cons, untilClose_lBrace _ _ hl,
          untilClose_lBrace _ _ hl, hdeeper]
        exact (ih (depth + 1)).cons place
      by_cases hr : place.token.kind = .rBrace
      · rw [untilClose_rBrace _ _ hr, Block.cons]
        cases depth with
        -- Here both readings come to their closing brace, which is in the body of the outer
        -- block.
        | zero =>
            rw [untilClose_rBrace_zero _ hr, untilClose_rBrace_zero _ hr]
            exact ⟨rfl, rfl⟩
        | succ depth =>
            have hshallower : depth + 1 + outer = depth + outer + 1 := by omega
            rw [untilClose_rBrace _ _ hr, untilClose_rBrace _ _ hr, hshallower]
            exact (ih depth).cons place
      · rw [untilClose_of_ne _ _ hl hr, Block.cons, untilClose_of_ne _ _ hl hr,
          untilClose_of_ne _ _ hl hr]
        exact (ih depth).cons place

/-- The blocks that begin in the inside of a block are blocks of what follows its opening
    brace. -/
theorem untilClose_inner {depth : Nat} {places l r : List Occurrence} {opening : Occurrence}
    (hopen : opening.token.kind = .lBrace)
    (h : (untilClose depth places).body = l ++ opening :: r) :
    ∃ q, places = l ++ opening :: q ∧ (untilClose 0 r).SameGroup (untilClose 0 q) := by
  induction places generalizing depth l with
  | nil => exact absurd h.symm (List.append_ne_nil_of_right_ne_nil l (List.cons_ne_nil _ _))
  | cons place places ih =>
      -- A token that is not the brace is the first one of both lists, and the rest is as
      -- before.
      have hrest : ∀ {d}, (untilClose depth (place :: places)) = (untilClose d places).cons place →
          l ≠ [] → ∃ q, place :: places = l ++ opening :: q ∧
            (untilClose 0 r).SameGroup (untilClose 0 q) := by
        intro d hcons hl
        rcases List.exists_cons_of_ne_nil hl with ⟨head, l, rfl⟩
        rw [hcons, Block.cons, List.cons_append, List.cons.injEq] at h
        rcases ih h.2 with ⟨q, rfl, hsame⟩
        exact ⟨q, by rw [h.1]; rfl, hsame⟩
      by_cases hl : place.token.kind = .lBrace
      · cases l with
        | nil =>
            -- The block that begins here is read one level further out.
            rw [untilClose_lBrace _ _ hl, Block.cons, List.nil_append, List.cons.injEq] at h
            refine ⟨places, by rw [h.1]; rfl, ?_⟩
            have hdeeper := untilClose_body_deeper 0 depth places
            rw [Nat.zero_add, h.2] at hdeeper
            exact hdeeper
        | cons head l => exact hrest (untilClose_lBrace _ _ hl) (List.cons_ne_nil _ _)
      have hne : l = [] → place = opening → False :=
        fun _ heq => hl (heq ▸ hopen)
      by_cases hr : place.token.kind = .rBrace
      · cases depth with
        | zero =>
            rw [untilClose_rBrace_zero _ hr] at h
            exact absurd h.symm (List.append_ne_nil_of_right_ne_nil l (List.cons_ne_nil _ _))
        | succ depth =>
            refine hrest (untilClose_rBrace _ _ hr) fun hnil => ?_
            rw [untilClose_rBrace _ _ hr, Block.cons, hnil, List.nil_append, List.cons.injEq] at h
            exact hne hnil h.1
      · refine hrest (untilClose_of_ne _ _ hl hr) fun hnil => ?_
        rw [untilClose_of_ne _ _ hl hr, Block.cons, hnil, List.nil_append, List.cons.injEq] at h
        exact hne hnil h.1

/-! ## Blocks of a script -/

/-- The tokens of a second list have those of the first in front of them. -/
theorem occurrencesAfter_append (before tokens others : List Token) :
    occurrencesAfter before (tokens ++ others) =
      occurrencesAfter before tokens ++ occurrencesAfter (tokens.reverse ++ before) others := by
  induction tokens generalizing before with
  | nil => rfl
  | cons token tokens ih =>
      rw [List.cons_append, occurrencesAfter, ih, occurrencesAfter, List.reverse_cons,
        List.append_assoc]
      rfl

/-- An occurrence knows its script: the tokens in front of it, itself, and the
    occurrences behind. -/
theorem occurrencesAfter_eq_append {before tokens : List Token} {l r : List Occurrence}
    {place : Occurrence} (h : occurrencesAfter before tokens = l ++ place :: r) :
    ∃ first behind, tokens = first ++ place.token :: behind ∧
      place.before = first.reverse ++ before ∧
      r = occurrencesAfter (place.token :: place.before) behind := by
  induction tokens generalizing before l with
  | nil => exact absurd h.symm (List.append_ne_nil_of_right_ne_nil l (List.cons_ne_nil _ _))
  | cons token tokens ih =>
      cases l with
      | nil =>
          rw [occurrencesAfter, List.nil_append, List.cons.injEq] at h
          rcases h with ⟨rfl, rfl⟩
          exact ⟨[], tokens, rfl, rfl, rfl⟩
      | cons head l =>
          rw [occurrencesAfter, List.cons_append, List.cons.injEq] at h
          rcases ih h.2 with ⟨first, behind, rfl, hbefore, hr⟩
          refine ⟨token :: first, behind, rfl, ?_, hr⟩
          rw [hbefore, List.reverse_cons, List.append_assoc]
          rfl

/-- An occurrence knows how many stand in front of it. -/
theorem index_occurrencesAfter {before tokens : List Token} {l r : List Occurrence}
    {place : Occurrence} (h : occurrencesAfter before tokens = l ++ place :: r) :
    place.index = before.length + l.length := by
  induction tokens generalizing before l with
  | nil => exact absurd h.symm (List.append_ne_nil_of_right_ne_nil l (List.cons_ne_nil _ _))
  | cons token tokens ih =>
      rw [occurrencesAfter] at h
      cases l with
      | nil =>
          rw [List.nil_append, List.cons.injEq] at h
          rw [← h.1]
          rfl
      | cons head l =>
          rw [List.cons_append, List.cons.injEq] at h
          rw [ih h.2, List.length_cons, List.length_cons]
          omega

/-- The closing brace that a reader comes to is the one that the count of the braces comes
    to. -/
theorem closeIndex_untilClose (depth : Nat) (before tokens : List Token) :
    (untilClose depth (occurrencesAfter before tokens)).close?.map Occurrence.index =
      (closingDistance (depth + 1) tokens).map (before.length + ·) := by
  induction tokens generalizing depth before with
  | nil => rfl
  | cons token tokens ih =>
      -- A token that does not end the block is one more to be counted, and one more in
      -- front.
      have hstep : ∀ d, (untilClose d (occurrencesAfter (token :: before) tokens)).close?.map
          Occurrence.index = ((closingDistance (d + 1) tokens).map (· + 1)).map
            (before.length + ·) := by
        intro d
        rw [ih, Option.map_map, List.length_cons]
        congr 1
        funext n
        simp only [Function.comp_apply]
        omega
      rw [occurrencesAfter]
      by_cases hl : token.kind = .lBrace
      · rw [closingDistance_lBrace _ _ hl, @untilClose_lBrace ⟨before, token⟩ _ _ hl]
        exact hstep (depth + 1)
      by_cases hr : token.kind = .rBrace
      · cases depth with
        | zero =>
            rw [closingDistance_rBrace_one _ hr, @untilClose_rBrace_zero ⟨before, token⟩ _ hr]
            rfl
        | succ depth =>
            rw [closingDistance_rBrace _ _ hr, @untilClose_rBrace ⟨before, token⟩ _ _ hr]
            exact hstep depth
      · rw [closingDistance_of_ne _ _ hl hr, @untilClose_of_ne ⟨before, token⟩ _ _ hl hr]
        exact hstep depth

/-- The two readers of one block agree: from an opening brace of a script both
    come to the same closing brace. -/
theorem closeIndex_eq_blockEnd {tokens : List Token} {l r : List Occurrence}
    {opening : Occurrence} (h : occurrences tokens = l ++ opening :: r)
    (hopen : opening.token.kind = .lBrace) :
    kindAt tokens opening.index = some .lBrace ∧
      (untilClose 0 r).close?.map Occurrence.index = blockEnd tokens opening.index := by
  rcases occurrencesAfter_eq_append h with ⟨first, behind, rfl, hbefore, rfl⟩
  have hindex : opening.index = first.length := by
    rw [Occurrence.index, hbefore, List.append_nil, List.length_reverse]
  rw [hindex]
  refine ⟨?_, ?_⟩
  · rw [kindAt_append, hopen]
  · rw [closeIndex_untilClose, blockEnd_append hopen, List.length_cons, hbefore, List.append_nil,
      List.length_reverse]

/-- The blocks that begin in a list are blocks of the script. -/
def IsScope (tokens : List Token) (body : List Occurrence) : Prop :=
  ∀ l opening r, body = l ++ opening :: r → opening.token.kind = .lBrace →
    ∃ l' q, occurrences tokens = l' ++ opening :: q ∧ (untilClose 0 r).SameGroup (untilClose 0 q)

theorem isScope_occurrences (tokens : List Token) : IsScope tokens (occurrences tokens) :=
  fun l _ r h _ => ⟨l, r, h, Block.SameGroup.refl _⟩

/-- The inside of a block is a scope again. -/
theorem isScope_untilClose {tokens : List Token} {l places : List Occurrence}
    (h : occurrences tokens = l ++ places) (depth : Nat) :
    IsScope tokens (untilClose depth places).body := by
  intro l' opening r hbody hopen
  rcases untilClose_inner hopen hbody with ⟨q, rfl, hsame⟩
  refine ⟨l ++ l', q, ?_, hsame⟩
  rw [h, List.append_assoc]

end StackScript
