import Mathlib.Data.List.Flatten
import Mathlib.Data.List.Perm.Basic
import StackScript.Proofs.Document.Repeat
import StackScript.Proofs.Indexed.Remark

/-!
# Descriptions in a Document

A declaration and a variable have a description if there are comments above them. A comment
may stand between two statements, behind one of them, at the end of a block or in the middle
of an expression, and so it is a question to whom it belongs. The answer is that it describes
one declaration or one binding, or nothing.

Declarations and bindings begin with words at different places. Within a section this is
known, `firsts_sublist`, and the sections are apart; but no section is read as both, because
no scheme has its declarations in a stack. So the words that may be described make a part of
the script, section by section, `described_perm`, and two of them have no comment in common.

A declaration knows the comments in front of its statement, too. The remarks above it are
among them, and none of them is from outside of the section, which begins with a brace.

## Main definitions

* `Document.described`: The words at which declarations and bindings begin.
* `Document.DescribesOnce`: What descriptions are made of.

## Theorems

* `described_perm`, `described_apart`: The words stand at different places.
* `mem_comments_of_mem_declaring`: What describes a declaration is in front of its statement.
* `parseWith_describesOnce`: A comment describes one thing.
-/

namespace StackScript

namespace Document

/-- The words at which declarations and bindings with `var` begin. -/
def described (document : Document) : List Occurrence :=
  document.declaring.map Statement.first ++ (document.bound.filter Bound.isVar).map Bound.word

/-- Descriptions are made of the remarks above, and no remark is used twice. -/
structure DescribesOnce (document : Document) (asked : Option String) (text : String) :
    Prop extends document.IsReadingOf asked text where
  /-- A declaration is described by the remarks above its statement. -/
  declared : ∀ statement ∈ document.declaring, ∀ name declaration,
    statement.declaration? = some (name, declaration) →
      IsDescribed document.tokens statement.first declaration.description
  /-- The table of declarations has nothing else. -/
  declared_entries : ∀ entry ∈ document.declared.entries,
    ∃ statement ∈ document.declaring, statement.declaration? = some entry
  /-- A variable is described by the remarks above its word `var`. -/
  bound : ∀ bound ∈ document.bound, bound.isVar →
    IsDescribed document.tokens bound.word bound.binding.description
  /-- The table of variables has nothing else. -/
  bound_entries : ∀ entry ∈ document.symbols.vars.entries,
    ∃ bound ∈ document.bound, entry = (bound.name.text, bound.binding)
  /-- A remark above one of them is not above another one. -/
  apart : document.described.Pairwise fun a b =>
    ∀ k, Describes document.tokens k a → ¬ Describes document.tokens k b
  /-- The remarks above a declaration are among the comments in front of its statement. -/
  inFront : ∀ statement ∈ document.declaring, ∀ k,
    Describes document.tokens k statement.first → k ∈ statement.bounds.comments

end Document

/-! ## Words that may be described -/

/-- The words of the section at which declarations and bindings with `var` begin. -/
def Part.described (grammar : Grammar) (part : Part) : List Occurrence :=
  (part.declaring grammar).map Statement.first ++
    ((part.bound grammar).filter Bound.isVar).map Bound.word

/-- A binding is found at the first of the words that are left. -/
theorem word_of_boundAt? {word : Occurrence} {words : List Occurrence} {bound : Bound}
    (h : boundAt? (word :: words) = some bound) : bound.word = word := by
  unfold boundAt? at h
  split at h
  · next heq =>
    rw [List.cons.injEq] at heq
    split at h
    · rw [← Option.some.inj h]
      exact heq.1.symm
    · cases h
  · cases h

/-- One word binds once at most. -/
theorem words_sublist (words : List Occurrence) :
    ((boundIn words).map Bound.word).Sublist words := by
  induction words with
  | nil => exact List.nil_sublist _
  | cons word words ih =>
      rw [boundIn_cons, List.map_append]
      cases hbound : boundAt? (word :: words) with
      | none => exact ih.cons word
      | some bound =>
          rw [Option.toList_some, List.map_singleton, word_of_boundAt? hbound]
          exact ih.cons_cons word

/-- In one section the words keep their order: it is read in one of the two ways. -/
theorem described_sublist (scheme : Scheme) (part : Part) :
    (part.described scheme.grammar).Sublist part.places := by
  unfold Part.described Part.declaring Part.bound
  by_cases hblock : scheme.grammar.declarationBlock = some part.heading.name
  · have hname : part.heading.name ≠ "stack" := fun hname =>
      declarationBlock_ne_stack scheme (hblock.trans (congrArg some hname))
    rw [if_pos hblock, if_neg (by simp [hname]), List.filter_nil, List.map_nil, List.append_nil]
    exact firsts_sublist part.places
  · rw [if_neg hblock, List.map_nil, List.nil_append]
    split
    · refine (List.filter_sublist.map Bound.word).trans ((words_sublist _).trans ?_)
      exact List.filter_sublist
    · exact List.nil_sublist _

section Text

variable (asked : Option String) (text : String)

/-- The words that may be described, section by section. -/
theorem described_perm :
    (parseWith asked text).described.Perm
      ((partsOfText text).flatMap (Part.described (parseWith asked text).scheme.grammar)) := by
  rw [Document.described, declaring_parseWith, bound_parseWith, List.map_flatMap,
    List.filter_flatMap, List.map_flatMap]
  exact List.flatMap_append_perm _ _ _

/-- Words that may be described are words of the script, section by section and in order. -/
theorem described_parts_sublist :
    ((partsOfText text).flatMap
      (Part.described (parseWith asked text).scheme.grammar)).Sublist
        (occurrences (tokenize text)) :=
  (List.Sublist.flatMap_right _ fun part _ => described_sublist _ part).trans
    (places_sublist_outline _ _)

/-- The words that may be described stand at different places. -/
theorem described_apart :
    (parseWith asked text).described.Pairwise fun a b => a.index ≠ b.index := by
  refine ((described_perm asked text).pairwise_iff Ne.symm).mpr ?_
  have hrising := occurrencesAfter_pairwise [] (tokenize text)
  exact (hrising.sublist (described_parts_sublist asked text)).imp Nat.ne_of_lt

variable {asked text}

-- By `described_perm` the two lists of them are the parts in another order.
theorem mem_occurrences_of_described {place : Occurrence}
    (h : place ∈ (parseWith asked text).described) : place ∈ occurrences (tokenize text) :=
  (described_parts_sublist asked text).subset ((described_perm asked text).subset h)

/-- A declaration begins in a block, behind an opening brace. -/
theorem exists_span_of_mem_declaring {statement : Statement}
    (h : statement ∈ (parseWith asked text).declaring) :
    ∃ opening stop, kindAt (tokenize text) opening = some .lBrace ∧
      statement ∈ statements (span (tokenize text) (opening + 1) stop) := by
  rcases List.mem_flatMap.mp h with ⟨block, hblock, hstatement⟩
  have hsection := (List.mem_filter.mp hblock).1
  change statement ∈ statements (block.inside (tokenize text)) at hstatement
  unfold Section.inside Section.bodyRange at hstatement
  -- A section without a brace has nothing inside, and declares nothing.
  cases hopen : block.openIndex with
  | none =>
      rw [hopen, Option.map_none, statements_nil] at hstatement
      cases hstatement
  | some opening =>
      rw [hopen] at hstatement
      exact ⟨opening, _, (closeIndex_outline hsection hopen).1, hstatement⟩

/-- Statements and bindings begin with words. -/
theorem isSignificant_of_described {place : Occurrence}
    (h : place ∈ (parseWith asked text).described) : place.isSignificant := by
  rcases List.mem_append.mp h with h | h
  · rcases List.mem_map.mp h with ⟨statement, hstatement, rfl⟩
    rcases exists_span_of_mem_declaring hstatement with ⟨opening, stop, -, hmem⟩
    exact (first_isWord hmem).1
  · rcases List.mem_map.mp h with ⟨bound, hbound, rfl⟩
    have hvar := (List.mem_filter.mp hbound).2
    rw [Occurrence.isSignificant, Token.isSignificant, Token.kind_of_isIdent hvar]
    rfl

/-- What describes a declaration is in front of its statement. -/
theorem mem_comments_of_mem_declaring {statement : Statement}
    (h : statement ∈ (parseWith asked text).declaring) {k : Nat}
    (hdescribes : Describes (tokenize text) k statement.first) :
    k ∈ statement.bounds.comments := by
  rcases exists_span_of_mem_declaring h with ⟨opening, stop, hopen, hmem⟩
  refine mem_comments_of_describes hmem (first_kind_of_mem_declaring statement h) hdescribes ?_
  -- The brace is no remark, so the run does not reach beyond it.
  by_contra hbefore
  have hkind := hdescribes.kindAt_eq (Nat.le_of_not_lt hbefore)
    (index_of_mem_span (first_mem_span hmem)).1
  rw [hopen] at hkind
  cases hkind

end Text

/-! ## Descriptions -/

/-- Whatever else a statement declares, its comments are those above its first token. -/
theorem declaration?_description {statement : Statement} {name : String}
    {declaration : Declaration} (h : statement.declaration? = some (name, declaration)) :
    declaration.description = statement.first.description := by
  unfold Statement.declaration? at h
  split at h
  · cases h
  · split at h
    · dsimp only at h
      split at h
      · cases h
      · split at h
        · cases h
          rfl
        · cases h
    · cases h

theorem Bound.binding_description {bound : Bound} (h : bound.isVar) :
    bound.binding.description = bound.word.description := by
  rw [binding, if_pos h]
  rfl

/-- Descriptions are made of the remarks above, and a remark describes one declaration or
    one variable at most. -/
theorem parseWith_describesOnce (asked : Option String) (text : String) :
    (parseWith asked text).DescribesOnce asked text where
  toIsReadingOf := parseWith_isReadingOf asked text
  declared statement h name declaration hdeclares := by
    have hmem : statement.first ∈ (parseWith asked text).described :=
      List.mem_append_left _ (List.mem_map_of_mem h)
    rw [declaration?_description hdeclares]
    exact isDescribed_description (mem_occurrences_of_described hmem)
  declared_entries entry h := by
    rw [declared_parseWith, declareAll_eq_ofList] at h
    exact List.mem_filterMap.mp (OrderedTable.mem_of_mem_entries_ofList h)
  bound bound h hvar := by
    have hmem : bound.word ∈ (parseWith asked text).described :=
      List.mem_append_right _ (List.mem_map_of_mem (List.mem_filter.mpr ⟨h, hvar⟩))
    rw [Bound.binding_description hvar]
    exact isDescribed_description (mem_occurrences_of_described hmem)
  bound_entries entry h := by
    rw [vars_parseWith] at h
    exact Bound.mem_entries_bindAll h
  apart := by
    -- Two words that may be described have no remark in common.
    refine (described_apart asked text).imp_of_mem fun ha hb hne k h h' => hne ?_
    exact describes_unique (mem_occurrences_of_described ha) (isSignificant_of_described ha)
      (mem_occurrences_of_described hb) (isSignificant_of_described hb) h h'
  inFront statement h k := mem_comments_of_mem_declaring h

-- A comment behind a declaration is not above the next one, but it ends the run.
example : ((parse ("function f \x7b\n  input \x7b\n    // a\n    int a // b\n    // c\n" ++
    "    //\n    //d \n    int b\n  \x7d\n\x7d")).symbols.inputs.values).map
      Declaration.description = [some "a", some "c d"] := by
  decide +kernel

end StackScript
