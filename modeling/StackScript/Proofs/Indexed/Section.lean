import StackScript.Proofs.Indexed.Neighbour

/-!
# Sections are Well Nested

A section asks for the partner of its opening brace in the whole script, and the body of
an object is a part of the script. That the block of a section lies in the body all the
same, and that the sections lie apart, is a matter of how braces nest.

`Outline.ReadFrom` is all that is needed of the body: an opening brace in it has its
partner in it, or no partner at all. In the second case the body goes on to the end of
the script, because the object around it has lost its partner too. From there on it is
enough to look at the statements, which lie apart in order. The block of a section ends
in its statement, if it ends, and else the statement goes on to the end as well.

## Main definitions

* `Outline.ReadFrom`: The sections of a script are those of a range of it.
* `Section.Spans`: The first token of a section, and the end of its last one.
* `Outline.WellNested`: How sections lie in the body and to each other.

## Theorems

* `exists_readFrom`: The range that the sections are read from.
* `stop_of_open`: A statement with a block left open is the last one of its range.
* `exists_spans`: A section lies in its statement.
* `sections_apart`: The sections lie apart, in order.
* `sections_wellNested`: The sections of a script are well nested.
-/

namespace StackScript

variable {tokens : List Token} {start stop : Nat}

/-! ## The body -/

/-- The sections of a script are read from the tokens between two indices, in which the
    braces are in order, except that the script may end too early. -/
structure Outline.ReadFrom (tokens : List Token) (outline : Outline) (start stop : Nat) :
    Prop where
  /-- The two indices are those of the body. -/
  range : outline.bodyRange = (start, stop)
  /-- The sections are among the statements there. -/
  parts : outline.parts = partsOf (span tokens start stop)
  /-- The body is a part of the script. -/
  within : stop ≤ tokens.length
  /-- A block that is closed is closed in the body. -/
  closed : ∀ i close, start ≤ i → i < stop → kindAt tokens i = some .lBrace →
    blockEnd tokens i = some close → close < stop
  /-- A block that is not leaves open the object too. -/
  unfinished : ∀ i, start ≤ i → i < stop → kindAt tokens i = some .lBrace →
    blockEnd tokens i = none → stop = tokens.length ∧ (outline.header.isSome →
      ∃ opening, start = opening + 1 ∧ kindAt tokens opening = some .lBrace ∧
        blockEnd tokens opening = none)

/-- A script without a header is all body. -/
theorem readFrom_whole (tokens : List Token) :
    Outline.ReadFrom tokens ⟨none, (0, tokens.length), partsOf (occurrences tokens)⟩
      0 tokens.length where
  range := rfl
  parts := by
    rw [← drop_occurrences, List.drop_zero]
  within := Nat.le_refl _
  closed _ _ _ _ _ hclose := lt_of_kindAt (kindAt_blockEnd hclose)
  unfinished _ _ _ _ _ := ⟨rfl, fun h => by cases h⟩

/-- A header without an opening brace has no body. -/
theorem readFrom_empty (tokens : List Token) (header : Header) :
    Outline.ReadFrom tokens ⟨some header, (tokens.length, tokens.length), []⟩
      tokens.length tokens.length where
  range := rfl
  parts := by
    rw [span_of_le _ (Nat.le_refl _), partsOf, statements, statementsAfter]
    rfl
  within := Nat.le_refl _
  closed _ _ hstart hstop := absurd hstop (Nat.not_lt_of_le hstart)
  unfinished _ hstart hstop := absurd hstop (Nat.not_lt_of_le hstart)

/-- The body of an object ends at the partner of its opening brace, and a block in it ends
    in front of that. -/
theorem readFrom_block {opening : Nat} (hopen : kindAt tokens opening = some .lBrace)
    (header : Header) :
    Outline.ReadFrom tokens
      ⟨some header, (opening + 1, (blockEnd tokens opening).getD tokens.length),
        partsOf (span tokens (opening + 1) ((blockEnd tokens opening).getD tokens.length))⟩
      (opening + 1) ((blockEnd tokens opening).getD tokens.length) := by
  -- A brace inside of a block with a partner has its own partner inside.
  have hinner : ∀ i partner, opening + 1 ≤ i → i < partner → kindAt tokens i = some .lBrace →
      blockEnd tokens opening = some partner → ∃ close, blockEnd tokens i = some close ∧
        close < partner :=
    fun i partner hstart hstop hbrace hend => IsGroup.inner ⟨hopen, hend⟩ hbrace hstart hstop
  refine ⟨rfl, rfl, ?_, ?_, ?_⟩
  · cases hend : blockEnd tokens opening with
    | none => exact Nat.le_refl _
    | some partner => exact Nat.le_of_lt (lt_of_kindAt (kindAt_blockEnd hend))
  · intro i close hstart hstop hbrace hclose
    cases hend : blockEnd tokens opening with
    | none => exact lt_of_kindAt (kindAt_blockEnd hclose)
    | some partner =>
        rw [hend, Option.getD_some] at hstop
        rcases hinner i partner hstart hstop hbrace hend with ⟨close', hclose', hlt⟩
        rw [hclose, Option.some.injEq] at hclose'
        exact hclose' ▸ hlt
  · intro i hstart hstop hbrace hnone
    cases hend : blockEnd tokens opening with
    | none => exact ⟨rfl, fun _ => ⟨opening, rfl, hopen, hend⟩⟩
    | some partner =>
        rw [hend, Option.getD_some] at hstop
        rcases hinner i partner hstart hstop hbrace hend with ⟨close, hclose, -⟩
        rw [hnone] at hclose
        cases hclose

/-- The sections of a script are read from a range of it. -/
theorem exists_readFrom (tokens : List Token) (keyword : Option Nat) :
    ∃ start stop, (outline tokens keyword).ReadFrom tokens start stop := by
  cases hlookup : keyword.bind fun index => ((occurrences tokens).drop index).head? with
  | none =>
      have houtline : outline tokens keyword =
          ⟨none, (0, tokens.length), partsOf (occurrences tokens)⟩ := by
        rw [outline, hlookup]
      exact ⟨0, tokens.length, houtline ▸ readFrom_whole tokens⟩
  | some place =>
      have hmem : place ∈ occurrences tokens := by
        rcases Option.bind_eq_some_iff.mp hlookup with ⟨index, -, hhead⟩
        exact List.mem_of_mem_drop (List.mem_of_mem_head? hhead)
      -- The keyword is looked up by its index, and has that index itself.
      have hindex : outline tokens keyword = outline tokens (some place.index) := by
        rcases List.append_of_mem hmem with ⟨l, r, hplaces⟩
        have hlookup' : ((some place.index).bind fun index =>
            ((occurrences tokens).drop index).head?) = some place := by
          rw [Option.bind_some, (drop_index hplaces).1, List.head?_cons]
        rw [outline, outline, hlookup, hlookup']
      rcases hread : readHeader place.header
        (significant (span tokens (place.index + 1) tokens.length)) with ⟨read, opening?⟩
      rw [hindex, Indexed.outline_some hmem hread]
      cases opening? with
      | none => exact ⟨_, _, readFrom_empty tokens read⟩
      | some opening =>
          -- The header ends at an opening brace, and the body is its block.
          rcases exists_brace_of_readHeader hread with ⟨hbrace, front, rest, hwords⟩
          have hword : opening ∈ significant (span tokens (place.index + 1) tokens.length) := by
            rw [hwords]
            exact List.mem_append_right _ (.head _)
          have hkind := kindAt_index (List.mem_filter.mp hword).1
          exact ⟨_, _, readFrom_block (hkind.trans (congrArg some hbrace)) read⟩

/-! ## Statements with a block left open -/

/-- A statement with a block left open goes on to the end of its range. -/
theorem stop_of_open {statement : Statement} (hstop : stop ≤ tokens.length)
    (h : statement ∈ statements (span tokens start stop)) {opening : Occurrence}
    (hmem : opening ∈ statement.places) (hopen : opening.token.kind = .lBrace)
    (hnone : blockEnd tokens opening.index = none) : statement.stop = stop := by
  have hspan := pieces_subset h (List.mem_append_right _ hmem)
  have hlt := (index_of_mem_span hspan).2
  refine Nat.le_antisymm (places_eq_span h).2.1 ?_
  rcases exists_opening h hmem hopen with ⟨extent, hdepth, hsub⟩
  have hblock := untilClose_span_of_le (span_subset _ _ _ hspan) hopen hlt
    fun close hclose => by rw [hnone] at hclose; cases hclose
  -- The statement takes the block, and the block is all that is left of the range.
  have hfront := untilClose_front_restOfStatement hdepth (span tokens (opening.index + 1) stop)
  rw [hblock] at hfront
  -- The last token of the range is the opening brace or stands behind it.
  have hlast : statement.bounds.Has (stop - 1) := by
    rcases Nat.lt_or_eq_of_le (Nat.succ_le_of_lt hlt) with hbehind | heq
    · rcases @exists_mem_span tokens (opening.index + 1) stop (stop - 1) (by omega) (by omega)
        (by omega) with ⟨place, hplace, hindex, -⟩
      have htaken := hfront.subset (List.mem_append_left _ hplace)
      exact (has_bounds h).mpr ⟨place, hsub htaken, hindex⟩
    · exact (has_bounds h).mpr ⟨opening, hmem, by omega⟩
  exact Nat.le_of_pred_lt hlast.2

/-! ## Where a section lies -/

/-- A section lies between two indices: the one of its name, and the one behind its last
    token. That is the closing brace of its block, or the last token of the script, if the
    block is left open; and for an assignment it is the sign. -/
structure Section.Spans (tokens : List Token) (heading : Section) (first next : Nat) :
    Prop where
  /-- The section begins with its name. -/
  name : ∃ token, tokens[first]? = some token ∧ token.kind = .ident ∧
    token.text = heading.name ∧ token.position = heading.position
  /-- A block ends at its closing brace, if it has one. -/
  block : ∀ opening, heading.openIndex = some opening → first < opening ∧ opening < next ∧
    next = (heading.closeIndex.map (· + 1)).getD tokens.length ∧
      heading.terminated = heading.closeIndex.isSome
  /-- An assignment has its sign. -/
  assigned : heading.openIndex = none → heading.closeIndex = none ∧
    heading.terminated = true ∧ ∃ sign, first < sign ∧ next = sign + 1 ∧
      kindAt tokens sign = some .eq

/-- A section left open goes on to the end of the script. -/
theorem Section.Spans.next_of_unterminated {heading : Section} {first next : Nat}
    (h : heading.Spans tokens first next) (hopen : heading.terminated = false) :
    next = tokens.length ∧ ∃ opening, heading.openIndex = some opening := by
  cases hblock : heading.openIndex with
  | none =>
      -- A section with a value is always complete.
      rw [(h.assigned hblock).2.1] at hopen
      cases hopen
  | some opening =>
      rcases h.block opening hblock with ⟨-, -, hnext, hterminated⟩
      cases hclose : heading.closeIndex with
      | none =>
          rw [hclose] at hnext
          exact ⟨hnext, opening, rfl⟩
      | some close =>
          rw [hopen, hclose] at hterminated
          cases hterminated

/-- The mark of a section stands behind the name, in the statement. -/
theorem Part.IsMarked.index_mark {part : Part} {statement : Statement}
    {label behind : List Occurrence} {mark : Occurrence}
    (h : part.IsMarked statement label mark behind)
    (hmem : statement ∈ statements (span tokens start stop)) :
    mark ∈ statement.places ∧ statement.start < mark.index ∧ mark.index < statement.stop := by
  have hplaces : statement.places = (statement.first :: label) ++ mark :: behind :=
    congrArg (statement.first :: ·) h.others
  rcases span_split ((places_eq_span hmem).1.symm.trans hplaces) with ⟨hindex, hlt, -, -⟩
  rw [List.length_cons] at hindex
  exact ⟨hplaces ▸ List.mem_append_right _ (.head _), by omega, hlt⟩

/-- A block that begins in a statement of the body ends there, or the statement goes on to
    the end of the script with it. -/
theorem block_le_stop {outline : Outline} (hread : outline.ReadFrom tokens start stop)
    {statement : Statement} (h : statement ∈ statements (span tokens start stop))
    {opening : Occurrence} (hmem : opening ∈ statement.places)
    (hopen : opening.token.kind = .lBrace) :
    ((blockEnd tokens opening.index).map (· + 1)).getD tokens.length ≤ statement.stop := by
  have hspan := pieces_subset h (List.mem_append_right _ hmem)
  have hkind := (kindAt_index hspan).trans (congrArg some hopen)
  have hrange := index_of_mem_span hspan
  cases hend : blockEnd tokens opening.index with
  | none =>
      -- Without a partner the statement and the body go on to the end of the script.
      have hstop := stop_of_open hread.within h hmem hopen hend
      rw [hstop, (hread.unfinished _ hrange.1 hrange.2 hkind hend).1]
      exact Nat.le_refl _
  | some close =>
      have hhas := (has_bounds h).mpr ⟨opening, hmem, rfl⟩
      have hinside := hread.closed _ _ hrange.1 hrange.2 hkind hend
      exact (has_blockEnd h hhas hkind hend hinside).2

/-- The end of a block is behind its beginning. -/
theorem lt_blockStop {opening : Nat} (hopen : kindAt tokens opening = some .lBrace) :
    opening < ((blockEnd tokens opening).map (· + 1)).getD tokens.length := by
  cases hend : blockEnd tokens opening with
  | none => exact lt_of_kindAt hopen
  | some close => exact Nat.lt_succ_of_lt (IsGroup.lt ⟨hopen, hend⟩)

/-- A section lies in its statement. -/
theorem exists_spans {keyword : Option Nat}
    (hread : (outline tokens keyword).ReadFrom tokens start stop) {statement : Statement}
    (hmem : statement ∈ statements (span tokens start stop)) {part : Part}
    (hpart : statement.part? = some part) :
    ∃ next, part.heading.Spans tokens statement.start next ∧ next ≤ statement.stop := by
  have hheading : part.heading ∈ (outline tokens keyword).sections := by
    refine List.mem_map_of_mem ?_
    rw [hread.parts]
    exact List.mem_filterMap.mpr ⟨statement, hmem, hpart⟩
  rcases exists_mark hpart with ⟨label, mark, behind, hmarked⟩
  rcases hmarked.index_mark hmem with ⟨hplace, hlt, hlt'⟩
  have hname := (standing_of_mem (span_subset _ _ _ (first_mem_span hmem))).1
  have hkind := kindAt_index (pieces_subset hmem (List.mem_append_right _ hplace))
  have hword : ∃ token, tokens[statement.start]? = some token ∧ token.kind = .ident ∧
      token.text = part.heading.name ∧ token.position = part.heading.position :=
    ⟨_, hname, hmarked.kind_name, hmarked.name.symm, hmarked.position.symm⟩
  -- A section has a block behind its mark, or a value.
  rcases hmarked.marked with hhas | hassigned
  · have hend := (closeIndex_outline hheading hhas.openIndex).2.1
    have hbehind := lt_blockStop (hkind.trans (congrArg some hhas.brace))
    have hstop := block_le_stop hread hmem hplace hhas.brace
    rw [← hend] at hbehind hstop
    refine ⟨_, ⟨hword, ?_, ?_⟩, hstop⟩
    · intro opening hopening
      rw [hhas.openIndex, Option.some.injEq] at hopening
      rw [← hopening, hhas.terminated, hhas.closeIndex, Option.isSome_map]
      exact ⟨hlt, hhas.closeIndex ▸ hbehind, rfl, rfl⟩
    · intro hopening
      rw [hhas.openIndex] at hopening
      cases hopening
  · refine ⟨mark.index + 1, ⟨hword, ?_, ?_⟩, hlt'⟩
    · intro opening hopening
      rw [hassigned.openIndex] at hopening
      cases hopening
    · intro _
      exact ⟨hassigned.closeIndex, hassigned.terminated, mark.index, hlt, rfl,
        hkind.trans (congrArg some hassigned.kind_sign)⟩

/-! ## How sections lie to each other -/

/-- All of one section comes before all of another one. -/
def Section.Before (tokens : List Token) (heading other : Section) : Prop :=
  ∃ first next first' next', heading.Spans tokens first next ∧
    other.Spans tokens first' next' ∧ next ≤ first'

/-- The sections of a script are well nested: they lie in the body, one behind the other,
    and their blocks are blocks of the script. -/
structure Outline.WellNested (tokens : List Token) (outline : Outline) : Prop where
  /-- A section lies in the body. -/
  within : ∀ heading ∈ outline.sections, ∃ first next, heading.Spans tokens first next ∧
    outline.bodyRange.1 ≤ first ∧ next ≤ outline.bodyRange.2
  /-- The block of a section begins in the body, at an opening brace. It ends at the
      partner of that brace, which is in the body too. -/
  block : ∀ heading ∈ outline.sections, ∀ opening, heading.openIndex = some opening →
    outline.bodyRange.1 ≤ opening ∧ kindAt tokens opening = some .lBrace ∧
      heading.closeIndex = blockEnd tokens opening ∧
        ∀ close, heading.closeIndex = some close →
          kindAt tokens close = some .rBrace ∧ close < outline.bodyRange.2
  /-- The sections lie apart, in order. -/
  apart : outline.sections.Pairwise (Section.Before tokens)
  /-- A section left open is the last one. The body goes on to the end of the script then,
      and the block of the object is left open too. -/
  unfinished : ∀ front heading behind, outline.sections = front ++ heading :: behind →
    heading.terminated = false → behind = [] ∧ outline.bodyRange.2 = tokens.length ∧
      (outline.header.isSome → ∃ opening, outline.bodyRange.1 = opening + 1 ∧
        kindAt tokens opening = some .lBrace ∧ blockEnd tokens opening = none)

section Outline

variable {keyword : Option Nat}

/-- The sections are made from the statements of the body. -/
theorem mem_sections (hread : (outline tokens keyword).ReadFrom tokens start stop)
    {heading : Section} : heading ∈ (outline tokens keyword).sections ↔
      ∃ statement ∈ statements (span tokens start stop), ∃ part,
        statement.part? = some part ∧ part.heading = heading := by
  rw [Outline.sections, hread.parts, partsOf, List.mem_map]
  constructor
  · rintro ⟨part, hpart, rfl⟩
    rcases List.mem_filterMap.mp hpart with ⟨statement, hmem, hpart⟩
    exact ⟨statement, hmem, part, hpart, rfl⟩
  · rintro ⟨statement, hmem, part, hpart, rfl⟩
    exact ⟨part, List.mem_filterMap.mpr ⟨statement, hmem, hpart⟩, rfl⟩

/-- Statements lie apart, and each section in its own. -/
theorem sections_apart (hread : (outline tokens keyword).ReadFrom tokens start stop) :
    (outline tokens keyword).sections.Pairwise (Section.Before tokens) := by
  rcases exists_laidOut tokens start stop with ⟨tail, hlaid⟩
  rw [Outline.sections, hread.parts, partsOf, List.pairwise_map, List.pairwise_filterMap]
  refine hlaid.rising.imp_of_mem fun {statement other} h h' hbefore part hpart part' hpart' => ?_
  rcases exists_spans hread h hpart with ⟨next, hspans, hnext⟩
  rcases exists_spans hread h' hpart' with ⟨next', hspans', -⟩
  exact ⟨_, next, _, next', hspans, hspans', Nat.le_trans hnext (hbefore.stop_le_start h)⟩

/-- The opening brace of a section is in the body. -/
theorem opening_within (hread : (outline tokens keyword).ReadFrom tokens start stop)
    {heading : Section} (hmem : heading ∈ (outline tokens keyword).sections) {opening : Nat}
    (hopen : heading.openIndex = some opening) : start ≤ opening ∧ opening < stop := by
  rcases (mem_sections hread).mp hmem with ⟨statement, h, part, hpart, rfl⟩
  rcases exists_mark hpart with ⟨label, mark, behind, hmarked⟩
  rcases hmarked.marked with hhas | hassigned
  · rw [hhas.openIndex, Option.some.injEq] at hopen
    have hplace := (hmarked.index_mark h).1
    rw [← hopen]
    exact index_of_mem_span (pieces_subset h (List.mem_append_right _ hplace))
  · rw [hassigned.openIndex] at hopen
    cases hopen

/-- The statements lie in the body. -/
theorem sections_within (hread : (outline tokens keyword).ReadFrom tokens start stop)
    {heading : Section} (hmem : heading ∈ (outline tokens keyword).sections) :
    ∃ first next, heading.Spans tokens first next ∧ start ≤ first ∧ next ≤ stop := by
  rcases (mem_sections hread).mp hmem with ⟨statement, h, part, hpart, rfl⟩
  rcases exists_spans hread h hpart with ⟨next, hspans, hnext⟩
  exact ⟨_, next, hspans, (index_of_mem_span (first_mem_span h)).1,
    Nat.le_trans hnext (places_eq_span h).2.1⟩

/-- Behind a section that is left open there is no other. -/
theorem eq_nil_of_unterminated (hread : (outline tokens keyword).ReadFrom tokens start stop)
    {heading : Section} {front behind : List Section}
    (hsections : (outline tokens keyword).sections = front ++ heading :: behind)
    (hopen : heading.terminated = false) : behind = [] := by
  by_contra hbehind
  rcases List.exists_cons_of_ne_nil hbehind with ⟨other, rest, rfl⟩
  have hapart := sections_apart hread
  rw [hsections, List.pairwise_append, List.pairwise_cons] at hapart
  rcases hapart.2.1.1 other (.head _) with ⟨_, next, first, _, hspans, hspans', hle⟩
  -- Nothing begins behind the end of the script.
  rcases hspans'.name with ⟨_, hget, -⟩
  have hlt := (List.getElem?_eq_some_iff.mp hget).1
  rw [(hspans.next_of_unterminated hopen).1] at hle
  exact absurd hlt (Nat.not_lt_of_le hle)

/-- A section that is left open has an opening brace in the body that nothing closes. -/
theorem opening_of_unterminated (hread : (outline tokens keyword).ReadFrom tokens start stop)
    {heading : Section} (hmem : heading ∈ (outline tokens keyword).sections)
    (hopen : heading.terminated = false) :
    ∃ opening, start ≤ opening ∧ opening < stop ∧ kindAt tokens opening = some .lBrace ∧
      blockEnd tokens opening = none := by
  rcases sections_within hread hmem with ⟨first, next, hspans, -, -⟩
  rcases (hspans.next_of_unterminated hopen).2 with ⟨opening, hopening⟩
  rcases closeIndex_outline hmem hopening with ⟨hkind, -, hterminated⟩
  rcases opening_within hread hmem hopening with ⟨hle, hlt⟩
  rw [hopen, eq_comm, Option.isSome_eq_false_iff, Option.isNone_iff_eq_none] at hterminated
  exact ⟨opening, hle, hlt, hkind, hterminated⟩

end Outline

/-- The sections of an object are well nested in its body. -/
theorem sections_wellNested (text : String) :
    (outline (tokenize text) ((detectKeyword (tokenize text)).map (·.2))).WellNested
      (tokenize text) := by
  rcases exists_readFrom (tokenize text) ((detectKeyword (tokenize text)).map (·.2)) with
    ⟨start, stop, hread⟩
  have hstart := congrArg Prod.fst hread.range
  have hstop := congrArg Prod.snd hread.range
  refine ⟨?_, ?_, sections_apart hread, ?_⟩
  · intro heading hmem
    rw [hstart, hstop]
    exact sections_within hread hmem
  · intro heading hmem opening hopen
    rcases closeIndex_outline hmem hopen with ⟨hkind, hclose, -⟩
    rcases opening_within hread hmem hopen with ⟨hle, hlt⟩
    rw [hstart, hstop]
    -- The partner of an opening brace in the body is in the body.
    refine ⟨hle, hkind, hclose, fun close hcloseIndex => ?_⟩
    rw [hcloseIndex] at hclose
    exact ⟨kindAt_blockEnd hclose.symm, hread.closed _ _ hle hlt hkind hclose.symm⟩
  · intro front heading behind hsections hopen
    have hmem : heading ∈ (outline (tokenize text)
        ((detectKeyword (tokenize text)).map (·.2))).sections := by
      rw [hsections]
      exact List.mem_append_right _ (.head _)
    rcases opening_of_unterminated hread hmem hopen with ⟨opening, hle, hlt, hkind, hnone⟩
    rw [hstart, hstop]
    exact ⟨eq_nil_of_unterminated hread hsections hopen,
      hread.unfinished opening hle hlt hkind hnone⟩

end StackScript
