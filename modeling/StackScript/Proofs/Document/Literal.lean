import StackScript.Proofs.Document.Repeat
import StackScript.Proofs.Symbols.Literal

/-!
# Types of Variables

A variable that is declared with `var` should have the type of its value if the value is a
literal, and no type otherwise. In a document it has the type of the literal that its value
begins with. The two are the same as long as nothing follows the literal.

An operator or a pipe behind a literal, on the line where it ends, makes a larger value of
it. `Bound.Continues` is about such values. They keep the type of the literal, so a text
that goes through a filter remains a text, whatever the filter makes of it.

## Main definitions

* `Document.TypesVariables`: The variables of a script have the types of their values.
* `Bound.Continues`: A value is larger than the literal at its front.

## Theorems

* `parseWith_typesVariables`: The types in a document.
* `Bound.type_of_continues`: The type of a larger value.
* `types_filteredValue`: A filtered text is not a literal.
-/

namespace StackScript

/-- The variables of a script have the types of their values. -/
structure Document.TypesVariables (document : Document) (asked : Option String)
    (text : String) : Prop extends document.IsReadingOf asked text where
  /-- Every binding with `var` says the type of its value. -/
  bound : ∀ bound ∈ document.bound, bound.isVar →
    bound.TypedBy (bound.binding.type, bound.binding.nullable)
  /-- A variable has the type that its last binding with `var` says. -/
  declared : ∀ name bound,
    ((Bound.named name document.bound).filter Bound.isVar).getLast? = some bound →
      ∃ binding, document.symbols.vars.get? name = some binding ∧
        bound.TypedBy (binding.type, binding.nullable)

/-- The types in a document. -/
theorem parseWith_typesVariables (asked : Option String) (text : String) :
    (parseWith asked text).TypesVariables asked text where
  toIsReadingOf := parseWith_isReadingOf asked text
  bound bound _ hvar := Bound.typedBy hvar
  declared name bound hlast := by
    have hvar : bound.isVar := (List.mem_filter.mp (List.mem_of_getLast? hlast)).2
    refine ⟨bound.binding, ?_, Bound.typedBy hvar⟩
    rw [vars_parseWith, Bound.get?_bindAll, Bound.deciding, hlast]
    rfl

/-! ## Larger values -/

/-- The value of the variable is larger than the literal at its front: behind the literal, on
    the line where it ends, stands an operator or a pipe. -/
def Bound.Continues (bound : Bound) (literal : List Occurrence) : Prop :=
  ∃ front last sign places, literal = front ++ [last] ∧
    bound.Assigns (literal ++ sign :: places) ∧
      (sign.token.kind = .operator ∨ sign.token.kind = .pipe) ∧
        sign.token.position.line = last.token.position.line

/-- A larger value has the type of the literal at its front. -/
theorem Bound.type_of_continues {bound : Bound} (hvar : bound.isVar) {literal : List Occurrence}
    {type : String × Bool} (hliteral : IsLiteral literal type) (h : bound.Continues literal) :
    (bound.binding.type, bound.binding.nullable) = type := by
  rcases h with ⟨-, -, sign, places, -, hassigns, -⟩
  exact (Bound.typedBy hvar).literal _ type hassigns (Or.inl ⟨literal, _, rfl, hliteral⟩)

/-- A variable whose value is a text that goes through a filter. -/
def filteredValue : String :=
  "function f \x7b\n  stack \x7b\n    var $x \x7b value = \"42\"|to_int \x7d\n  \x7d\n\x7d"

/-- The filter makes a number of the text. -/
theorem types_filteredValue :
    ¬ ∀ (asked : Option String) (text : String), ∀ bound ∈ (parseWith asked text).bound,
      bound.isVar → ∀ literal type, IsLiteral literal type → bound.Continues literal →
        (bound.binding.type, bound.binding.nullable) = ("any", false) := by
  intro h
  let bound := (parseWith none filteredValue).bound.get ⟨0, by decide +kernel⟩
  let words := ((blockAhead? bound.behindMark).bind (assignedValue 0)).get (by decide +kernel)
  let word := words.get ⟨0, by decide +kernel⟩
  let sign := words.get ⟨1, by decide +kernel⟩
  -- The value is a text, and goes on with a pipe.
  have hsplit : words = [word] ++ sign :: words.drop 2 := by decide +kernel
  have hassigns : bound.Assigns ([word] ++ sign :: words.drop 2) := by
    rw [← hsplit]
    exact Bound.assigns_iff.mpr (Option.some_get _).symm
  have hvar : bound.isVar := by decide +kernel
  have hliteral : IsLiteral [word] ("text", false) := .text (by decide +kernel)
  have hcontinues : bound.Continues [word] :=
    ⟨[], word, sign, _, rfl, hassigns, Or.inr (by decide +kernel), by decide +kernel⟩
  -- So it should have any type, but has that of the text.
  have hany := h none filteredValue bound (List.get_mem _ _) hvar [word] _ hliteral hcontinues
  rw [Bound.type_of_continues hvar hliteral hcontinues] at hany
  exact absurd hany (by decide)

end StackScript
