import StackScript.Proofs.Document.Declaration
import StackScript.Proofs.Script.Loose
import StackScript.Proofs.Script.Object
import StackScript.Proofs.Script.Resume
import StackScript.Proofs.Token.Line

/-!
# Declarations of a Script Still Being Written

While somebody types declarations, the section that they stand in is not closed,
and neither is its object. What has been declared so far is found all the same,
and it is not found anew with every line: whatever comes next, the names keep
their order, and each keeps what is known of it unless the new lines declare it
again.

The section that is not closed is the last of the object, since a statement that
ends inside of a block is the last of its row. The longer script has the same
sections in front of it, the same section with a longer body, and whatever
sections come behind. In the longer body the statements are the same up to where
the shorter one ends, because the last of them is over with its line, and the new
text is on other lines. A bracket that is open there would let it go on.

So the statements that declare names in the longer script are those of the
shorter one, followed by others, and all of the others begin in the new part.

## Main definitions

* `Document.EndsInDeclarations`: A script ends in a section of declarations.
* `Document.DeclaresFrom`: A name is declared from some token on.

## Theorems

* `braceDepth_of_checkBraces`: Behind the last open brace all braces are in order.
* `parts_resumed`, `places_of_open`, `places_resumed`: The open section, before and after.
* `declaring_longer`: The statements of a section with a longer body.
* `declaring_resumed`: The statements of declarations in a longer script.
* `declared_resumed`: Declarations stay as they are while a script is written.
-/

namespace StackScript

/-! ## Tables that grow -/

/-- A table never forgets a name. -/
theorem names_front_of_declareAll (known : OrderedTable Declaration) (among : List Statement) :
    known.names <+: (declareAll known among).names := by
  induction among generalizing known with
  | nil => exact List.prefix_rfl
  | cons statement among ih =>
      refine List.IsPrefix.trans ?_ (ih (statement.declareIn known))
      unfold Statement.declareIn
      split
      · exact List.prefix_rfl
      · rw [OrderedTable.names_insert]
        split
        · exact List.prefix_rfl
        · exact List.prefix_append _ _

/-- A name that no statement declares keeps its declaration. -/
theorem get?_declareAll_of_forall_ne {among : List Statement} {name : String}
    (h : ∀ statement ∈ among, ∀ declaration, statement.declaration? ≠ some (name, declaration))
    (known : OrderedTable Declaration) : (declareAll known among).get? name = known.get? name := by
  induction among generalizing known with
  | nil => rfl
  | cons statement among ih =>
      refine (ih (fun other hmem => h other (.tail _ hmem)) _).trans ?_
      unfold Statement.declareIn
      split
      · rfl
      · -- Another name is put in, which leaves this one as it is.
        next other declaration hfound =>
        rw [OrderedTable.get?_insert, if_neg]
        rintro rfl
        exact h statement (.head _) declaration hfound

/-! ## The open section -/

section Braces

variable {tokens : List Token} {opening start : Nat}

/-- If two braces are reported as unterminated, these are the two that are held at the end,
    the inner one first. -/
theorem openings_of_checkBraces
    (h : checkBraces tokens = [.unterminated opening, .unterminated start]) :
    (LooseBraces.passAll ⟨[], []⟩ 0 tokens).openings = [start, opening] := by
  rw [checkBraces_eq] at h
  rcases List.append_eq_cons_iff.mp h with ⟨-, hopenings⟩ | ⟨closings, hclosings, -⟩
  · have hindices := congrArg (List.map BraceIssue.index) hopenings
    rw [List.map_map] at hindices
    have hreverse : (LooseBraces.passAll ⟨[], []⟩ 0 tokens).openings.reverse =
        [opening, start] := (List.map_id _).symm.trans hindices
    rw [← List.reverse_reverse (LooseBraces.passAll ⟨[], []⟩ 0 tokens).openings, hreverse]
    rfl
  · -- A closing brace is not reported as an open one.
    rcases List.map_eq_cons_iff.mp hclosings with ⟨_, _, _, hkind, -⟩
    cases hkind

/-- An open brace has no partner. -/
theorem blockEnd_of_checkBraces
    (h : checkBraces tokens = [.unterminated opening, .unterminated start]) :
    blockEnd tokens opening = none ∧ blockEnd tokens start = none := by
  have hnone : ∀ i, .unterminated i ∈ checkBraces tokens → blockEnd tokens i = none := by
    intro i hmem
    have hkind := kindAt_of_mem_openings ((unterminated_mem_checkBraces tokens i).mp hmem)
    exact ((bracesAgree tokens).unterminated i hkind).mp hmem
  rw [h] at hnone
  exact ⟨hnone _ (.head _), hnone _ (.tail _ (.head _))⟩

/-- Behind the last brace that is open all braces are in order. -/
theorem braceDepth_of_checkBraces
    (h : checkBraces tokens = [.unterminated opening, .unterminated start])
    {l q : List Occurrence} {brace : Occurrence} (hscript : occurrences tokens = l ++ brace :: q)
    (hbrace : brace.token.kind = .lBrace) (hstart : brace.index = start) :
    braceDepth 0 (q.map Occurrence.token) = some 0 := by
  rcases occurrencesAfter_eq_append hscript with ⟨first, behind, rfl, hbefore, rfl⟩
  have hfirst : first.length = start := by
    rw [← hstart, Occurrence.index, hbefore, List.append_nil, List.length_reverse]
  rw [occurrencesAfter_map_token]
  -- A brace is either held to the end, with those held behind it, or it is closed.
  have hfate := fate_of_split hbrace first behind
  rw [Fate, openings_of_checkBraces h, hfirst] at hfate
  rcases hfate with ⟨inner, hinner, hopenings, hcount⟩ | ⟨hclosed, -⟩
  · -- This one is the innermost of those held, so none is open behind it.
    obtain rfl : inner = [] := by
      cases inner with
      | nil => rfl
      | cons i inner =>
          rw [List.cons_append, List.cons.injEq] at hopenings
          exact absurd (.head _) (hopenings.1 ▸ hinner)
    have hclose : (Token.mk .rBrace "\x7d" Position.start 0).kind = .rBrace := rfl
    -- And no closing brace is left over, since a brace put at the end would close this one.
    refine braceDepth_of_closingDistance hclose ((hcount _).trans ?_)
    rw [List.length_nil, closingDistance_rBrace_one _ hclose, Option.map_some, Nat.zero_add]
  · exact absurd (.head _) hclosed

end Braces

/-- What a statement of the new part begins with is in the new part. -/
theorem first_mem_of_declaring {grammar : Grammar} {parts : List Part} {more : List Occurrence}
    (h : ∀ part ∈ parts, part.places ⊆ more) :
    ∀ statement ∈ parts.flatMap (Part.declaring grammar), statement.first ∈ more := by
  intro statement hmem
  rcases List.mem_flatMap.mp hmem with ⟨part, hpart, hstatement⟩
  unfold Part.declaring at hstatement
  split at hstatement
  · exact h part hpart ((firsts_sublist part.places).subset (List.mem_map_of_mem hstatement))
  · cases hstatement

section Tokens

variable {tokens more : List Token} {keyword : Option Nat} {scheme : Scheme} {header : Header}
  {opening : Occurrence} {behind : List Occurrence} {part : Part} {start : Nat}

/-- The object is open as well, so that its body goes on to the end of the script. -/
theorem body_of_open (hobject : DeclaresObject tokens scheme header opening behind)
    (hbraces : checkBraces tokens = [.unterminated opening.index, .unterminated start]) :
    (untilClose 0 behind).close? = none ∧ (untilClose 0 behind).body = behind := by
  have hopen : (untilClose 0 behind).close? = none := by
    have hindex := hobject.closeIndex_eq
    rw [(blockEnd_of_checkBraces hbraces).1] at hindex
    exact Option.map_eq_none_iff.mp hindex
  rcases untilClose_append_of_open hopen [] with ⟨front, hfront, hbody⟩
  rw [List.append_nil, List.prefix_nil.mp hfront, List.append_nil] at hbody
  exact ⟨hopen, hbody⟩

/-- The statement of a section that is not closed ends inside of the block. -/
theorem depth_of_open {statement : Statement} (hfound : statement.part? = some part)
    (hblock : part.heading.hasBlock) (hclose : part.heading.closeIndex = none) :
    statement.extent.depth ≠ 0 := by
  rcases part?_hasBlock hfound hblock with ⟨hident, m, brace, r, hothers, hm, hhas⟩
  have hr : (untilClose 0 r).close? = none := by
    rw [hhas.closeIndex] at hclose
    exact Option.map_eq_none_iff.mp hclose
  rw [Statement.extent, hothers, Extent.takeAll_append, Extent.takeAll_cons]
  refine Extent.depth_takeAll_ne_zero ?_ hr
  rw [Extent.take_lBrace _ hhas.brace,
    Extent.depth_takeAll (Extent.depth_ofFirst (by rw [hident]; decide)) hm]

/-- In a longer script the open section has a longer body, the sections in front of
    it stay as they are, and those behind it are new. -/
theorem parts_resumed (hobject : DeclaresObject tokens scheme header opening behind)
    (hbraces : checkBraces tokens = [.unterminated opening.index, .unterminated start])
    (hpart : part ∈ partsOf (untilClose 0 behind).body)
    (hstart : part.heading.openIndex = some start)
    (hclose : part.heading.closeIndex = none) (new : List Occurrence) :
    ∃ earlier longer later,
      partsOf (untilClose 0 behind).body = earlier ++ [part] ∧
      partsOf (untilClose 0 (behind ++ new)).body = earlier ++ longer :: later ∧
      longer.heading.name = part.heading.name ∧
      longer.heading.openIndex = part.heading.openIndex ∧
      ∀ other ∈ later, other.places ⊆ new := by
  rcases body_of_open hobject hbraces with ⟨hopen, hbody⟩
  have hblock : part.heading.hasBlock := by
    rw [Section.hasBlock, hstart]
    rfl
  rw [hbody] at hpart ⊢
  rcases List.mem_filterMap.mp hpart with ⟨statement, hmem, hfound⟩
  -- Only the last statement of a row can end inside of a block, and it goes on with
  -- whatever is appended to the row.
  rcases goesOn_of_depth hmem (depth_of_open hfound hblock hclose) with
    ⟨earlier, hlast, hgoes⟩
  rcases untilClose_append_of_open hopen new with ⟨front, hfront, hlonger⟩
  rcases part?_extend hfound hblock (restOfStatement statement.extent front).1 with
    ⟨longer, hextended, hname, hindex⟩
  refine ⟨earlier.filterMap Statement.part?, longer,
    (statementsAfter [] (restOfStatement statement.extent front).2).filterMap Statement.part?,
    ?_, ?_, hname, hindex, fun other hother => ?_⟩
  · rw [partsOf, statements, hlast, List.filterMap_append, List.filterMap_cons_some hfound,
      List.filterMap_nil]
  · rw [hlonger, partsOf, statements, hgoes front, List.filterMap_append,
      List.filterMap_cons_some hextended]
  · -- What the open section leaves of the new part makes the later sections.
    have hplaces : other.places ⊆ (restOfStatement statement.extent front).2 :=
      fun place hplace => (partsOf_places_sublist _).subset
        (List.mem_flatMap.mpr ⟨other, hother, hplace⟩)
    have hrest : (restOfStatement statement.extent front).2 ⊆ front := fun place hplace => by
      rw [← restOfStatement_append statement.extent front]
      exact List.mem_append_right _ hplace
    exact fun place hplace => hfront.subset (hrest (hplaces hplace))

/-- The body of the open section in a longer script: all that the section has had
    so far, and what is new. -/
theorem places_resumed {longer : Part} {l q new : List Occurrence} {brace : Occurrence}
    (hscript : occurrences tokens = l ++ brace :: (q ++ new))
    (hbalanced : braceDepth 0 (q.map Occurrence.token) = some 0)
    (hlonger : longer ∈ (outline tokens keyword).parts)
    (hindex : longer.heading.openIndex = some brace.index) :
    longer.places = q ++ (untilClose 0 new).body := by
  have hblock : longer.heading.hasBlock := by
    rw [Section.hasBlock, hindex]
    rfl
  rcases hasBlock_outline hlonger hblock with ⟨l', brace', q', hscript', hhas⟩
  -- The section is known by the index of its brace.
  have hsame : brace'.index = brace.index := by
    rw [hhas.openIndex] at hindex
    exact Option.some.inj hindex
  have hq' : q' = q ++ new := by
    rw [← (drop_index hscript').2, hsame, (drop_index hscript).2]
  rw [Part.places, hhas.body, Option.getD_some, hq', untilClose_braceDepth hbalanced]

/-- The last statement of a section ends in front of a word on a later line. -/
theorem endsBefore_later {comments places : List Occurrence} {last : Statement} {next : Token}
    (hbalanced : braceDepth 0 (places.map Occurrence.token) = some 0)
    (hlast : last ∈ statementsAfter comments places) (hlevel : last.extent.nesting = 0)
    (hlines : ∀ place ∈ places, place.token.position.line < next.position.line) :
    last.extent.endsBefore next := by
  have hplaces : ∀ place ∈ last.places, place.token.position.line < next.position.line :=
    fun place hplace => hlines place ((statementsAfter_places_sublist comments places).subset
      (List.mem_flatMap.mpr ⟨last, hlast, hplace⟩))
  have hfirst := Nat.le_sub_one_of_lt (hplaces last.first (.head _))
  -- The statement has come to its last line, which is above the new one.
  have hline : last.extent.line ≤ next.position.line - 1 :=
    Extent.line_takeAll_le (Extent.line_take_le hfirst hfirst) fun place hplace =>
      Nat.le_sub_one_of_lt (hplaces place (.tail _ hplace))
  have hpositive := Nat.zero_lt_of_lt (hplaces last.first (.head _))
  rw [Extent.endsBefore, Extent.isLevel, depth_extent hbalanced last hlast, hlevel]
  simp only [decide_true, Bool.and_self, Bool.true_and, Bool.or_eq_true, decide_eq_true_eq]
  exact .inl (by omega)

/-- What stands on later lines makes statements of its own. -/
theorem statements_resumed {places new : List Occurrence}
    (hbalanced : braceDepth 0 (places.map Occurrence.token) = some 0)
    (hlevel : ∀ last ∈ (statements places).getLast?, last.extent.nesting = 0)
    (hlines : ∀ place ∈ places, ∀ next ∈ new,
      place.token.position.line < next.token.position.line) :
    ∃ left, statements (places ++ new) = statements places ++ statementsAfter left new :=
  statementsAfter_ended fun last hlast next hnext =>
    endsBefore_later hbalanced (List.mem_of_getLast? hlast) (hlevel last hlast)
      fun place hplace => hlines place hplace next (List.mem_of_head? hnext)

/-- The open section has all that stands behind its brace, and all braces there are in
    order. -/
theorem places_of_open
    (hbraces : checkBraces tokens = [.unterminated opening.index, .unterminated start])
    (hpart : part ∈ (outline tokens keyword).parts)
    (hstart : part.heading.openIndex = some start) :
    ∃ l brace, occurrences tokens = l ++ brace :: part.places ∧ brace.index = start ∧
      braceDepth 0 (part.places.map Occurrence.token) = some 0 ∧
        part.heading.closeIndex = none := by
  have hblock : part.heading.hasBlock := by
    rw [Section.hasBlock, hstart]
    rfl
  rcases hasBlock_outline hpart hblock with ⟨l, brace, q, hscript, hhas⟩
  obtain rfl : brace.index = start := by
    rw [hhas.openIndex] at hstart
    exact Option.some.inj hstart
  -- Nothing is open behind the brace of the section, so the section is all that follows.
  have hbalanced := braceDepth_of_checkBraces hbraces hscript hhas.brace rfl
  have hbody : part.places = q := by
    have hwhole := @places_resumed tokens _ part l q [] brace (by rwa [List.append_nil])
      hbalanced hpart hstart
    rwa [untilClose, List.append_nil] at hwhole
  refine ⟨l, brace, by rw [hbody, hscript], rfl, by rw [hbody]; exact hbalanced, ?_⟩
  rw [(closeIndex_outline (List.mem_map_of_mem hpart) hstart).2.1]
  exact (blockEnd_of_checkBraces hbraces).2

/-- A section of declarations with a longer body has the statements of the shorter one,
    and then those of the new lines. -/
theorem declaring_longer {longer : Part} {new : List Occurrence} {grammar : Grammar}
    (hname : longer.heading.name = part.heading.name)
    (hplaces : longer.places = part.places ++ new)
    (hdeclares : grammar.declarationBlock = some part.heading.name)
    (hbalanced : braceDepth 0 (part.places.map Occurrence.token) = some 0)
    (hlevel : ∀ last ∈ (statements part.places).getLast?, last.extent.nesting = 0)
    (hlines : ∀ place ∈ part.places, ∀ next ∈ new,
      place.token.position.line < next.token.position.line) :
    ∃ left, longer.declaring grammar = part.declaring grammar ++ statementsAfter left new := by
  rcases statements_resumed hbalanced hlevel hlines with ⟨left, hstatements⟩
  refine ⟨left, ?_⟩
  rw [Part.declaring, if_pos (by rw [hname, hdeclares]), Part.declaring, if_pos hdeclares,
    hplaces, hstatements]

/-- The statements of declarations in a longer script are those of the shorter
    one, and behind them others that begin in the new part. -/
theorem declaring_resumed (hobject : DeclaresObject tokens scheme header opening behind)
    (hbraces : checkBraces tokens = [.unterminated opening.index, .unterminated start])
    (hpart : part ∈ (outline tokens ((detectKeyword tokens).map (·.2))).parts)
    (hstart : part.heading.openIndex = some start)
    (hlevel : ∀ last ∈ (statements part.places).getLast?, last.extent.nesting = 0)
    (hlines : ∀ token ∈ tokens, ∀ other ∈ more, token.position.line < other.position.line)
    {grammar : Grammar} (hdeclares : grammar.declarationBlock = some part.heading.name) :
    ∃ new, (∀ statement ∈ new, statement.first ∈ occurrencesAfter tokens.reverse more) ∧
      (outline (tokens ++ more) ((detectKeyword (tokens ++ more)).map (·.2))).parts.flatMap
          (Part.declaring grammar) =
        (outline tokens ((detectKeyword tokens).map (·.2))).parts.flatMap
          (Part.declaring grammar) ++ new := by
  rcases places_of_open hbraces hpart hstart with ⟨l, brace, hscript, rfl, hbalanced, hclose⟩
  have hlonger := hobject.append more
  rw [hobject.outline_eq.2] at hpart
  rcases parts_resumed hobject hbraces hpart hstart hclose
    (occurrencesAfter tokens.reverse more) with
    ⟨earlier, longer, later, hparts, hparts', hname, hopenIndex, hlater⟩
  have hfront := untilClose_body_front 0 (occurrencesAfter tokens.reverse more)
  generalize hnew : (untilClose 0 (occurrencesAfter tokens.reverse more)).body = new at hfront
  -- The new part adds to the open section what it has up to its first loose brace.
  have hbody : longer.places = part.places ++ new := by
    have hmem : longer ∈ (outline (tokens ++ more)
        ((detectKeyword (tokens ++ more)).map (·.2))).parts := by
      rw [hlonger.outline_eq.2, hparts']
      exact List.mem_append_right _ (.head _)
    rw [← hnew]
    refine places_resumed (l := l) ?_ hbalanced hmem (hopenIndex.trans hstart)
    rw [occurrences_append, hscript, List.append_assoc, List.cons_append]
  -- The old part is on other lines than the new one, so its last statement is over.
  have hlater' : ∀ place ∈ part.places, ∀ next ∈ new,
      place.token.position.line < next.token.position.line := by
    intro place hplace next hnext
    have hnext' : next.token ∈ more := by
      rw [← occurrencesAfter_map_token tokens.reverse more]
      exact List.mem_map_of_mem (hfront.subset hnext)
    exact hlines _
      (mem_tokens_of_occurrence (hscript ▸ List.mem_append_right _ (.tail _ hplace))) _ hnext'
  rcases declaring_longer hname hbody hdeclares hbalanced hlevel hlater' with ⟨left, hdeclaring⟩
  refine ⟨statementsAfter left new ++ later.flatMap (Part.declaring grammar),
    fun statement hmem => ?_, ?_⟩
  · rcases List.mem_append.mp hmem with hmem | hmem
    · rcases statementsAfter_mem hmem with ⟨front, rest, hsplit, -⟩
      refine hfront.subset ?_
      rw [hsplit]
      exact List.mem_append_right _ (.head _)
    · exact first_mem_of_declaring hlater statement hmem
  · rw [hlonger.outline_eq.2, hobject.outline_eq.2, hparts, hparts', List.flatMap_append,
      List.flatMap_append, List.flatMap_cons, List.flatMap_singleton, hdeclaring]
    simp only [List.append_assoc]

end Tokens

/-! ## Documents -/

/-- The tokens in front count, and those of the row come on top. -/
theorem index_of_mem_occurrencesAfter {before tokens : List Token} {place : Occurrence}
    (h : place ∈ occurrencesAfter before tokens) : before.length ≤ place.index := by
  rcases List.append_of_mem h with ⟨l, r, hsplit⟩
  rw [index_occurrencesAfter hsplit]
  exact Nat.le_add_right _ _

namespace Document

/-- The script ends in a section of declarations: its open braces are that of its
    object and that of the section, and in the last statement of the section no
    bracket and no parenthesis is open. -/
structure EndsInDeclarations (document : Document) (opening start : Nat)
    (heading : Section) : Prop where
  /-- The one open brace is that of the object. -/
  object : objectBrace? document.tokens = some opening
  /-- There are two braces without a partner, and both are open. -/
  braces : checkBraces document.tokens = [.unterminated opening, .unterminated start]
  /-- The other open brace is that of a section. -/
  heading_mem : heading ∈ document.blocks
  openIndex : heading.openIndex = some start
  /-- The section is read as declarations. -/
  declares : document.scheme.grammar.declarationBlock = some heading.name
  /-- No bracket and no parenthesis is open in the last statement. -/
  level : ∀ last ∈ (statements (heading.inside document.tokens)).getLast?,
    last.extent.nesting = 0

/-- Some declaration of the name begins at the token of the index or behind it. -/
def DeclaresFrom (document : Document) (index : Nat) (name : String) : Prop :=
  ∃ statement ∈ document.declaring, index ≤ statement.start ∧
    ∃ declaration, statement.declaration? = some (name, declaration)

end Document

/-- While declarations are written, those that are there keep their order, and each
    stays as it is unless the name is declared again in the new part. -/
theorem declared_resumed (asked : Option String) (a b : String) {opening start : Nat}
    {heading : Section} (h : (parseWith asked a).EndsInDeclarations opening start heading) :
    (parseWith asked a).declared.names <+: (parseWith asked (a ++ "\n" ++ b)).declared.names ∧
      ∀ name ∈ (parseWith asked a).declared.names,
        ¬ (parseWith asked (a ++ "\n" ++ b)).DeclaresFrom (parseWith asked a).tokens.length name →
          (parseWith asked (a ++ "\n" ++ b)).declared.get? name =
            (parseWith asked a).declared.get? name := by
  rcases @exists_declaresObject (tokenize a) _ h.object with
    ⟨scheme, header, brace, behind, rfl, hobject⟩
  rcases List.mem_map.mp h.heading_mem with ⟨part, hpart, rfl⟩
  have hlevel : ∀ last ∈ (statements part.places).getLast?, last.extent.nesting = 0 := by
    rw [places_eq_inside hpart]
    exact h.level
  have htokens := tokenize_behind a b
  have hlines : ∀ token ∈ tokenize a, ∀ other ∈ (tokenize b).map (TokenShift.behind a).token,
      token.position.line < other.position.line :=
    fun _ htoken _ hother => line_lt_of_mem_behind htoken hother
  -- The keyword is in the old part.
  have hscheme : (parseWith asked (a ++ "\n" ++ b)).scheme = (parseWith asked a).scheme := by
    have hdeclared :=
      (hobject.append ((tokenize b).map (TokenShift.behind a).token)).declaredScheme_eq
    change (asked.bind Scheme.ofName?).getD (declaredScheme (tokenize (a ++ "\n" ++ b))) =
      (asked.bind Scheme.ofName?).getD (declaredScheme (tokenize a))
    rw [htokens, hdeclared]
    exact congrArg _ hobject.declaredScheme_eq.symm
  rcases declaring_resumed hobject h.braces hpart h.openIndex hlevel hlines h.declares with
    ⟨new, hnew, hparts⟩
  have hdeclaring : (parseWith asked (a ++ "\n" ++ b)).declaring =
      (parseWith asked a).declaring ++ new := by
    rw [declaring_parseWith, declaring_parseWith, hscheme, partsOfText, htokens]
    exact hparts
  rw [declared_parseWith, declared_parseWith, hdeclaring, declareAll_append]
  refine ⟨names_front_of_declareAll _ _, fun name _ hagain => ?_⟩
  -- A new statement with this name would begin behind the old part, and there is none.
  refine get?_declareAll_of_forall_ne (fun statement hmem declaration hfound => hagain ?_) _
  refine ⟨statement, ?_, ?_, declaration, hfound⟩
  · rw [hdeclaring]
    exact List.mem_append_right _ hmem
  · have hindex := index_of_mem_occurrencesAfter (hnew statement hmem)
    rwa [List.length_reverse] at hindex

/-- The next line begins a declaration of its own, and a later section declares the first
    name once more. -/
theorem declared_resumed_input :
    let written := parseWith none "function f \x7b\n  input \x7b\n    int id\n    text name"
    let longer := parseWith none ("function f \x7b\n  input \x7b\n    int id\n    text name" ++
      "\n" ++ "    bool old\n  \x7d\n  input \x7b\n    text id")
    written.EndsInDeclarations 2 4 ⟨"input", none, ⟨2, 3⟩, some 4, none, false⟩ ∧
      ¬ longer.DeclaresFrom written.tokens.length "name" ∧
      written.declared.names <+: longer.declared.names ∧
      longer.declared.get? "name" = written.declared.get? "name" := by
  intro written longer
  have hends : written.EndsInDeclarations 2 4
      ⟨"input", none, ⟨2, 3⟩, some 4, none, false⟩ :=
    { object := by decide +kernel
      braces := by rw [checkBraces_eq]; decide +kernel
      heading_mem := by decide +kernel
      openIndex := rfl
      declares := by decide +kernel
      level := by decide +kernel }
  have hnew : ¬ longer.DeclaresFrom written.tokens.length "name" := by
    rintro ⟨statement, hmem, hbehind, declaration, hfound⟩
    have hnames : ∀ statement ∈ longer.declaring, written.tokens.length ≤ statement.start →
        statement.declaration?.map (·.1) ≠ some "name" := by decide +kernel
    exact hnames statement hmem hbehind (by rw [hfound]; rfl)
  have hresumed := declared_resumed none _ "    bool old\n  \x7d\n  input \x7b\n    text id" hends
  exact ⟨hends, hnew, hresumed.1, hresumed.2 "name" (by decide +kernel) hnew⟩

end StackScript
