import Mathlib.Data.List.Infix
import StackScript.Proofs.OrderedTable
import StackScript.Proofs.Script.Body
import StackScript.Symbols.Table

/-!
# Bindings in a Row

A stack binds its variables at pairs of words, `var` or `as` with a variable directly behind.
Every pair binds, so the words can be cut into bindings first and the bindings put into the
table afterwards. What the table then holds is a matter of the row of bindings alone.

The two forms do not go in alike: `var` replaces what is known of its variable, while `as`
speaks only if nothing has been said. So which binding counts in the end, `deciding`, is the
last `var` of the name, however many came behind it in the other form, and the first `as` if
there is no `var` at all. The proof goes from the end of the row, where the table was touched
last.

The stacks of a script are read into one table, so their bindings make a single row.

## Main definitions

* `Bound`, `boundIn`: The bindings of a stack in a row.
* `Bound.bindAll`: The table of bindings in a row.
* `Bound.deciding`: The binding of a name that counts.
* `Part.bound`: The bindings of a section.

## Theorems

* `readBindings_eq`: Bindings are read by cutting the words into them.
* `names_bindAll`: The names, each where it is bound first.
* `get?_bindAll`: What is known of a name.
* `vars_readSymbols`: The variables of a script.
-/

namespace StackScript

/-- Two words that bind a variable, and what follows them. -/
structure Bound where
  /-- The word `var` or `as`. -/
  word : Occurrence
  /-- The variable. -/
  name : Token
  /-- The words behind the variable. -/
  behind : List Occurrence

/-- The binding at the front of some words. -/
def boundAt? : List Occurrence → Option Bound
  | word :: name :: behind =>
      if name.token.kind = .variable && (word.token.isIdent "var" || word.token.isIdent "as") then
        some ⟨word, name.token, behind⟩
      else
        none
  | _ => none

/-- The bindings of a stack in a row, wherever they stand in it. -/
def boundIn (words : List Occurrence) : List Bound :=
  words.tails.filterMap boundAt?

namespace Bound

/-- The binding is a declaration with `var`. -/
def isVar (bound : Bound) : Bool :=
  bound.word.token.isIdent "var"

/-- What the binding says of its variable. -/
def binding (bound : Bound) : Binding :=
  if bound.isVar then
    Binding.ofVar bound.word bound.name bound.behind
  else
    Binding.ofAs bound.name

/-- The table with one more binding. -/
def bindIn (known : OrderedTable Binding) (bound : Bound) : OrderedTable Binding :=
  if bound.isVar then
    known.insert bound.name.text bound.binding
  else
    known.insertNew bound.name.text bound.binding

/-- The table of bindings in a row. -/
def bindAll (among : List Bound) : OrderedTable Binding :=
  among.foldl bindIn .empty

/-- The bindings of one name. -/
def named (name : String) (among : List Bound) : List Bound :=
  among.filter fun bound => bound.name.text = name

/-- The binding of a name that counts: the last one with `var`, or else the first one. -/
def deciding (name : String) (among : List Bound) : Option Bound :=
  ((named name among).filter isVar).getLast?.or (named name among).head?

end Bound

/-! ## Cutting words into bindings -/

-- A word binds at its own place or not at all.
theorem boundIn_cons (word : Occurrence) (words : List Occurrence) :
    boundIn (word :: words) = (boundAt? (word :: words)).toList ++ boundIn words := by
  rw [boundIn, List.tails_cons, List.filterMap_cons]
  cases boundAt? (word :: words) <;> rfl

/-- One pair of words: it binds, or it does not. -/
theorem foldl_boundAt? (known : OrderedTable Binding) (word name : Occurrence)
    (places : List Occurrence) :
    (boundAt? (word :: name :: places)).toList.foldl Bound.bindIn known =
      if name.token.kind = .variable && word.token.isIdent "var" then
        known.insert name.token.text (Binding.ofVar word name.token places)
      else if name.token.kind = .variable && word.token.isIdent "as" then
        known.insertNew name.token.text (Binding.ofAs name.token)
      else
        known := by
  rw [boundAt?]
  -- Only a variable can be bound, and the word in front says how.
  cases decide (name.token.kind = .variable) with
  | false => rfl
  | true =>
      cases hvar : word.token.isIdent "var" with
      | true => simp [Bound.bindIn, Bound.binding, Bound.isVar, hvar]
      | false =>
          cases word.token.isIdent "as" with
          | true => simp [Bound.bindIn, Bound.binding, Bound.isVar, hvar]
          | false => rfl

/-- Bindings are read by cutting the words into them. -/
theorem readBindings_eq (known : OrderedTable Binding) (words : List Occurrence) :
    readBindings known words = (boundIn words).foldl Bound.bindIn known := by
  fun_induction readBindings known words with
  | case1 => rfl
  | case2 => rfl
  | case3 known word name places bound ih =>
      rw [ih, boundIn_cons word, List.foldl_append, foldl_boundAt?]

namespace Bound

/-! ## The table of bindings -/

variable {known : OrderedTable Binding} {among : List Bound}

/-- Either form makes the name known. -/
theorem names_bindIn (known : OrderedTable Binding) (bound : Bound) :
    (bindIn known bound).names =
      if bound.name.text ∈ known.names then known.names else known.names ++ [bound.name.text] := by
  unfold bindIn OrderedTable.insertNew
  split
  · exact known.names_insert _ _
  · split
    · next hknown => rw [if_pos ((known.contains_iff_mem_names _).mp hknown)]
    · exact known.names_insert _ _

/-- A binding changes what is known of its own name, unless it is one with `as` and
    something is known already. -/
theorem get?_bindIn (known : OrderedTable Binding) (bound : Bound) (name : String) :
    (bindIn known bound).get? name =
      if bound.name.text = name then
        if bound.isVar then some bound.binding else (known.get? name).or (some bound.binding)
      else
        known.get? name := by
  unfold bindIn OrderedTable.insertNew
  -- Other names keep what is known of them.
  by_cases hname : bound.name.text = name
  · rw [if_pos hname]
    split
    · rw [known.get?_insert, if_pos hname.symm]
    · rw [OrderedTable.contains, hname]
      split
      · -- `as` has nothing to say about a name that is known.
        next hknown =>
        rcases Option.isSome_iff_exists.mp hknown with ⟨binding, hbinding⟩
        rw [hbinding, Option.some_or]
      · next hunknown =>
        rw [known.get?_insert, if_pos rfl, Option.not_isSome_iff_eq_none.mp hunknown,
          Option.none_or]
  · rw [if_neg hname]
    split
    · rw [known.get?_insert, if_neg (Ne.symm hname)]
    · split
      · rfl
      · rw [known.get?_insert, if_neg (Ne.symm hname)]

theorem bindAll_append_singleton (among : List Bound) (bound : Bound) :
    bindAll (among ++ [bound]) = bindIn (bindAll among) bound :=
  List.foldl_append

/-- The names come in the order in which they are bound first. -/
theorem names_bindAll (among : List Bound) :
    (bindAll among).names = (among.map fun bound => bound.name.text).eraseDups := by
  induction among using List.reverseRecOn with
  | nil => rfl
  | append_singleton among bound ih =>
      rw [bindAll_append_singleton, names_bindIn, ih, List.map_append, List.map_singleton,
        OrderedTable.eraseDups_append_singleton]

/-- One binding more decides if it is one with `var`, or the first one of its name. -/
theorem deciding_append_singleton (name : String) (among : List Bound) (bound : Bound) :
    deciding name (among ++ [bound]) =
      if bound.name.text = name then
        if bound.isVar then some bound else (deciding name among).or (some bound)
      else
        deciding name among := by
  unfold deciding named
  rw [List.filter_append]
  -- A binding of another name decides nothing.
  by_cases hname : bound.name.text = name
  · rw [if_pos hname, List.filter_cons_of_pos (by simpa using hname), List.filter_nil,
      List.filter_append]
    by_cases hvar : bound.isVar
    · rw [if_pos hvar, List.filter_cons_of_pos hvar, List.filter_nil, List.getLast?_concat,
        Option.some_or]
    · rw [if_neg hvar, List.filter_cons_of_neg hvar, List.filter_nil, List.append_nil,
        List.head?_append, Option.or_assoc]
      rfl
  · rw [if_neg hname, List.filter_cons_of_neg (by simpa using hname), List.filter_nil,
      List.append_nil]

/-- What is known of a name is what the binding says that counts. -/
theorem get?_bindAll (among : List Bound) (name : String) :
    (bindAll among).get? name = (deciding name among).map binding := by
  induction among using List.reverseRecOn with
  | nil => rfl
  | append_singleton among bound ih =>
      rw [bindAll_append_singleton, get?_bindIn, ih, deciding_append_singleton]
      split
      · split
        · rfl
        · rw [Option.map_or]
          rfl
      · rfl

/-- A binding leaves the other entries alone. -/
theorem mem_entries_bindIn {entry : String × Binding} {bound : Bound}
    (h : entry ∈ (bindIn known bound).entries) :
    entry = (bound.name.text, bound.binding) ∨ entry ∈ known.entries := by
  unfold bindIn OrderedTable.insertNew at h
  split at h
  · exact OrderedTable.mem_entries_insert h
  · split at h
    · exact .inr h
    · exact OrderedTable.mem_entries_insert h

/-- What is known of a name is what one of its bindings says. -/
theorem mem_entries_bindAll {entry : String × Binding} (h : entry ∈ (bindAll among).entries) :
    ∃ bound ∈ among, entry = (bound.name.text, bound.binding) := by
  induction among using List.reverseRecOn with
  | nil => cases h
  | append_singleton among bound ih =>
      rw [bindAll_append_singleton] at h
      rcases mem_entries_bindIn h with hlast | h
      · exact ⟨bound, List.mem_append_right _ List.mem_cons_self, hlast⟩
      · rcases ih h with ⟨other, hother, hentry⟩
        exact ⟨other, List.mem_append_left _ hother, hentry⟩

end Bound

/-! ## Reading sections -/

/-- The bindings of the section, if it is a stack. -/
def Part.bound (grammar : Grammar) (part : Part) : List Bound :=
  if part.heading.name = "stack" && grammar.hasStack then
    boundIn (significant part.places)
  else
    []

theorem declarationBlock_ne_stack (scheme : Scheme) :
    scheme.grammar.declarationBlock ≠ some "stack" := by
  cases scheme <;> decide

/-- A section adds the bindings of its words, if it is a stack. -/
theorem vars_read (scheme : Scheme) (report : SymbolReport) (part : Part) :
    (report.read scheme.grammar part).table.vars =
      (part.bound scheme.grammar).foldl Bound.bindIn report.table.vars := by
  rcases part with ⟨heading, _ | body⟩
  · unfold Part.bound Part.places
    split <;> rfl
  · unfold SymbolReport.read Part.bound Part.places
    dsimp only
    -- A section of declarations is no stack, so it binds nothing.
    by_cases hblock : scheme.grammar.declarationBlock = some heading.name
    · have hname : heading.name ≠ "stack" := fun hname =>
        declarationBlock_ne_stack scheme (hblock.trans (congrArg some hname))
      have hother : ¬ (heading.name = "stack" && scheme.grammar.hasStack) = true := by
        simp [hname]
      rw [if_pos hblock, if_neg hother]
      split <;> rfl
    · rw [if_neg hblock]
      split
      · exact readBindings_eq _ _
      · rfl

/-- The variables of a script are those of the bindings of all of its stacks, in a row. -/
theorem vars_readSymbols (scheme : Scheme) (parts : List Part) :
    (readSymbols scheme.grammar parts).table.vars =
      Bound.bindAll (parts.flatMap (Part.bound scheme.grammar)) := by
  have hfold : ∀ report : SymbolReport,
      (parts.foldl (SymbolReport.read scheme.grammar) report).table.vars =
        (parts.flatMap (Part.bound scheme.grammar)).foldl Bound.bindIn report.table.vars := by
    induction parts with
    | nil => exact fun _ => rfl
    | cons part parts ih =>
        intro report
        rw [List.foldl_cons, ih, vars_read, List.flatMap_cons, List.foldl_append]
  exact hfold ⟨.empty, []⟩

end StackScript
