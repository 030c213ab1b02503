import StackScript.Proofs.Indexed.Declaration
import StackScript.Symbols.Binding

/-!
# Bindings by Index

A stack is read from its start to its end, comments and blocks included. Where a
word and a variable stand together, the program goes on behind the variable,
while the library goes on with the variable itself. That makes no difference: a
variable is no word that binds.

The type of a variable is read off the block behind its name. The block is
searched up to its closing brace, which is looked for in the whole script, or to
the end of the stack, whichever comes first.

## Main definitions

* `Indexed.assignedIndex`, `Indexed.literalType`: The value of a block and its type.
* `Indexed.bindings`: The variables of a stack.

## Theorems

* `assignedIndex_eq`: The program finds the value of a block.
* `bindings_eq`: The program reads the bindings of a stack.
-/

namespace StackScript

namespace Indexed

/-- The index of the value of `value = ...`, from `i` on and below `stop`, with
    `depth` groups open. -/
def assignedIndex (tokens : List Token) (stop depth i : Nat) : Checked (Option Nat) :=
  if i < stop then do
    let token ← tokens[i]?
    match token.kind with
    | .lBrace | .lBracket | .lParen => assignedIndex tokens stop (depth + 1) (i + 1)
    | .rBrace | .rBracket | .rParen => assignedIndex tokens stop (depth - 1) (i + 1)
    | .ident =>
        if depth = 0 && token.text = "value" then
          match ← nextSignificant tokens (i + 1) stop with
          | none => return none
          | some sign =>
              let next ← tokens[sign]?
              if next.kind = .eq then
                nextSignificant tokens (sign + 1) stop
              else
                assignedIndex tokens stop depth (i + 1)
        else
          assignedIndex tokens stop depth (i + 1)
    | _ => assignedIndex tokens stop depth (i + 1)
  else
    return none
termination_by stop - i

/-- The type of the literal at an index, and whether it is null. -/
def literalType (tokens : List Token) (i stop : Nat) : Checked (String × Bool) := do
  let token ← tokens[i]?
  match token.kind with
  | .number => return (numberType token.text, false)
  | .operator =>
      if token.text = "-" then
        match ← nextSignificant tokens (i + 1) stop with
        | none => return ("any", false)
        | some next =>
            let digits ← tokens[next]?
            return if digits.kind = .number then (numberType digits.text, false) else ("any", false)
      else
        return ("any", false)
  | .string => return ("text", false)
  | .lBrace => return ("object", false)
  | .lBracket => return ("array", false)
  | .ident =>
      if token.text = "true" || token.text = "false" then
        return ("bool", false)
      else
        return ("any", token.text = "null")
  | _ => return ("any", false)

/-- The type of a variable by the block that opens at an index, if one does. -/
def blockType (tokens : List Token) (opening? : Option Nat) (stop : Nat) :
    Checked (String × Bool) := do
  match opening? with
  | none => return ("any", false)
  | some opening =>
      let token ← tokens[opening]?
      if token.kind = .lBrace then
        let close := min ((blockEnd tokens opening).getD stop) stop
        match ← assignedIndex tokens close 0 (opening + 1) with
        | none => return ("any", false)
        | some value => literalType tokens value close
      else
        return ("any", false)

/-- What the word `var` at the index `word` says of the variable at `variable`. -/
def varBinding (tokens : List Token) (word name stop : Nat) : Checked Binding := do
  let token ← tokens[name]?
  let remark ← description tokens word
  let next ← nextSignificant tokens (name + 1) stop
  let optional ← isAt tokens .question next
  let opening? ←
    match next with
    | some sign => if optional then nextSignificant tokens (sign + 1) stop else pure next
    | none => pure none
  let (type, nullable) ← blockType tokens opening? stop
  return ⟨type, nullable, optional, remark, token.position⟩

/-- The variables bound from `i` on and below `stop`, behind those already known. -/
def bindings (tokens : List Token) (stop : Nat) (known : OrderedTable Binding) (i : Nat) :
    Checked (OrderedTable Binding) :=
  if i < stop then do
    let token ← tokens[i]?
    if token.kind ≠ .ident then
      bindings tokens stop known (i + 1)
    else
      match ← nextSignificant tokens (i + 1) stop with
      | none => bindings tokens stop known (i + 1)
      | some index =>
          let name ← tokens[index]?
          if name.kind ≠ .variable then
            bindings tokens stop known (i + 1)
          else if i < index then
            if token.text = "var" then
              let binding ← varBinding tokens i index stop
              bindings tokens stop (known.insert name.text binding) (index + 1)
            else if token.text = "as" then
              bindings tokens stop (known.insertNew name.text (Binding.ofAs name)) (index + 1)
            else
              bindings tokens stop known (index + 1)
          else
            none
  else
    return known
termination_by stop - i

end Indexed

/-! ## Values and names -/

/-- What a block assigns to its value is the end of the block. -/
theorem assignedValue_suffix (depth : Nat) (places : List Occurrence) :
    (assignedValue depth places).getD [] <:+ places := by
  fun_induction assignedValue depth places with
  | case1 => exact List.suffix_refl _
  | case8 => exact List.nil_suffix
  | case9 depth place _ _ sign value =>
      exact (List.suffix_cons sign value).trans (List.suffix_cons place _)
  | _ =>
      -- In every other case the search goes on behind the first place.
      rename_i ih
      exact ih.trans (List.suffix_cons _ _)

/-- A word that is no name binds nothing. -/
theorem readBindings_cons (known : OrderedTable Binding) {place : Occurrence}
    (places : List Occurrence) (h : place.token.kind ≠ .ident) :
    readBindings known (place :: places) = readBindings known places := by
  cases places with
  | nil => rfl
  | cons name places => simp [readBindings, Token.isIdent, h]

namespace Indexed

variable {tokens : List Token}

/-! ## The value of a block -/

/-- The index behind `value =` is that of the first word of the value. -/
theorem assignedIndex_eq (depth i : Nat) {stop : Nat} (hstop : stop ≤ tokens.length) :
    assignedIndex tokens stop depth i =
      some (((assignedValue depth (significant (span tokens i stop))).getD []).head?.map
        Occurrence.index) := by
  induction hn : stop - i using Nat.strongRecOn generalizing depth i with
  | ind n ih =>
    rw [assignedIndex]
    by_cases hlt : i < stop
    · rcases exists_place hlt hstop with ⟨place, rfl, hmem, hspan⟩
      have hbehind := fun depth => ih (stop - (place.index + 1)) (by omega) depth _ rfl
      rw [if_pos hlt, (standing_of_mem hmem).1, hspan, Checked.bind_some]
      by_cases hword : place.isSignificant
      · rw [significant_cons_of_pos hword, assignedValue.eq_def]
        cases hkind : place.token.kind
        case ident =>
          simp only [hkind]
          -- Only a name on the level of the block can be the one that is looked for.
          by_cases hvalue : (depth = 0 && place.token.text = "value") = true
          · rw [if_pos hvalue, if_pos hvalue]
            rcases nextSignificant_cases tokens (place.index + 1) stop with
              ⟨hnext, hwords⟩ | ⟨sign, hnext, hmem', -, -, hwords⟩
            · rw [hnext, hwords]
              rfl
            · simp only [hnext, Checked.bind_some, (standing_of_mem hmem').1, hwords]
              split
              · -- A sign is behind it, and the value behind the sign.
                exact nextSignificant_eq tokens (sign.index + 1) stop
              · rw [← hwords]
                exact hbehind depth
          · rw [if_neg hvalue, if_neg hvalue]
            exact hbehind depth
        all_goals
          simp only [hkind]
          exact hbehind _
      · rw [significant_cons_of_neg hword, kind_of_comment hword]
        exact hbehind depth
    · rw [if_neg hlt, span_of_le tokens (Nat.le_of_not_lt hlt)]
      rfl

/-- A literal is told by its first word, or by a sign and the number behind it. -/
theorem literalType_eq {start stop : Nat} {place : Occurrence} {places : List Occurrence}
    (h : place :: places <:+ significant (span tokens start stop)) :
    literalType tokens place.index stop = some (StackScript.literalType (place :: places)) := by
  rcases word_cons h with ⟨hmem, hlt, hplaces⟩
  rw [literalType, (standing_of_mem hmem).1, Checked.bind_some, StackScript.literalType.eq_def]
  dsimp only
  cases hkind : place.token.kind
  case operator =>
    dsimp only
    rcases nextSignificant_cases tokens (place.index + 1) stop with
      ⟨hnext, hwords⟩ | ⟨digits, hnext, hmem', -, -, hwords⟩
    · rw [hnext, hplaces, hwords]
      split <;> rfl
    · rw [hnext, hplaces, hwords]
      simp only [Checked.bind_some, (standing_of_mem hmem').1, Option.pure_def,
        Bool.and_eq_true, decide_eq_true_eq]
      by_cases hminus : place.token.text = "-" <;> simp [hminus]
  case ident =>
    dsimp only
    split <;> rfl
  all_goals rfl

/-- The type of a variable is that of the value in the block behind its name. -/
theorem blockType_eq {start stop : Nat} (hstop : stop ≤ tokens.length) {places : List Occurrence}
    (h : places <:+ significant (span tokens start stop)) :
    blockType tokens (places.head?.map Occurrence.index) stop =
      some (StackScript.blockType places) := by
  cases places with
  | nil => rfl
  | cons opening places =>
      rcases word_cons h with ⟨hmem, hlt, hplaces⟩
      simp only [List.head?_cons, Option.map_some, blockType, (standing_of_mem hmem).1,
        Checked.bind_some, StackScript.blockType]
      by_cases hbrace : opening.token.kind = .lBrace
      · -- The range that is searched is the block, cut off at the end of the stack.
        have hbody := (untilClose_words hmem hbrace hlt rfl).1
        have hstop' : min ((blockEnd tokens opening.index).getD stop) stop ≤ tokens.length :=
          Nat.le_trans (Nat.min_le_right _ _) hstop
        have hsuffix := assignedValue_suffix 0 (untilClose 0 places).body
        rw [if_pos hbrace, if_pos hbrace, assignedIndex_eq _ _ hstop', ← hbody, ← hplaces]
        rw [← hplaces] at hbody
        rw [hbody] at hsuffix ⊢
        generalize (assignedValue 0 _).getD [] = value at hsuffix ⊢
        cases value with
        | nil => rfl
        | cons place rest => exact literalType_eq hsuffix
      · rw [if_neg hbrace, if_neg hbrace]
        rfl

/-! ## The bindings of a stack -/

/-- A variable is bound alike, with its mark and its type. -/
theorem varBinding_eq {start stop : Nat} (hstop : stop ≤ tokens.length) {word name : Occurrence}
    {places : List Occurrence} (hword : word ∈ occurrences tokens)
    (h : name :: places <:+ significant (span tokens start stop)) :
    varBinding tokens word.index name.index stop = some (Binding.ofVar word name.token places) := by
  rcases word_cons h with ⟨hmem, hlt, hplaces⟩
  have hbehind := (List.suffix_cons name places).trans h
  rw [varBinding, (standing_of_mem hmem).1]
  simp only [Checked.bind_some, description_eq hword, nextSignificant_eq]
  have hmark := isAt_head .question (subset_words hbehind)
  rw [List.head?_map] at hmark
  rw [← hplaces, hmark, Checked.bind_some, Binding.ofVar]
  cases places with
  | nil => rfl
  | cons sign rest =>
      have hrest := (word_cons hbehind).2.2
      have hoptional : startsWith .question (sign :: rest) = decide (sign.token.kind = .question) :=
        rfl
      simp only [List.head?_cons, Option.map_some, Option.any_some, hoptional]
      -- The block is behind the mark if there is one, and behind the name otherwise.
      by_cases hsign : sign.token.kind = .question
      · have hblock := blockType_eq hstop ((List.suffix_cons sign rest).trans hbehind)
        simp only [hsign, decide_true, if_true, ← hrest, Checked.bind_some, hblock]
        rfl
      · have hblock := blockType_eq hstop hbehind
        rw [List.head?_cons, Option.map_some] at hblock
        simp only [hsign, decide_false, Bool.false_eq_true, if_false, Checked.bind_some, hblock,
          Option.pure_def]

/-- The program reads the bindings of a stack. -/
theorem bindings_eq {stop : Nat} (hstop : stop ≤ tokens.length) (known : OrderedTable Binding)
    (i : Nat) :
    bindings tokens stop known i =
      some (readBindings known (significant (span tokens i stop))) := by
  induction hn : stop - i using Nat.strongRecOn generalizing known i with
  | ind n ih =>
    rw [bindings]
    by_cases hlt : i < stop
    · rcases exists_place hlt hstop with ⟨place, rfl, hmem, hspan⟩
      have hbehind := fun known => ih (stop - (place.index + 1)) (by omega) known _ rfl
      rw [if_pos hlt, (standing_of_mem hmem).1, hspan, Checked.bind_some]
      -- Only a name binds, and only the variable right behind it.
      by_cases hident : place.token.kind = .ident
      · have hword : place.isSignificant := by
          simp [Occurrence.isSignificant, Token.isSignificant, TokenKind.isTrivia, hident]
        rw [significant_cons_of_pos hword, if_neg (by simp [hident])]
        rcases nextSignificant_cases tokens (place.index + 1) stop with
          ⟨hnext, hwords⟩ | ⟨name, hnext, hmem', hle, hlt', hwords⟩
        · rw [hnext, hwords]
          have hnone := hbehind known
          rwa [hwords] at hnone
        · rw [hnext, hwords, readBindings]
          simp only [Checked.bind_some, (standing_of_mem hmem').1, Token.isIdent, hident,
            decide_true, Bool.true_and]
          by_cases hvariable : name.token.kind = .variable
          · have hbinding := varBinding_eq hstop hmem ⟨[], hwords.symm⟩
            have hname : name.token.kind ≠ .ident := by simp [hvariable]
            -- The program goes on behind the variable, and the variable itself binds
            -- nothing.
            have hothers := fun known =>
              (ih (stop - (name.index + 1)) (by omega) known _ rfl).trans
                (congrArg some (readBindings_cons known _ hname).symm)
            rw [if_neg (by simp [hvariable]), if_pos (Nat.lt_of_succ_le hle)]
            simp only [hbinding, hvariable, Checked.bind_some, hothers, decide_true,
              Bool.true_and, decide_eq_true_eq]
            split
            · rfl
            · split <;> rfl
          · rw [if_pos hvariable, hbehind, hwords]
            simp [hvariable]
      · rw [if_pos hident]
        refine (hbehind known).trans (congrArg some ?_)
        by_cases hword : place.isSignificant
        · rw [significant_cons_of_pos hword, readBindings_cons known _ hident]
        · rw [significant_cons_of_neg hword]
    · rw [if_neg hlt, span_of_le tokens (Nat.le_of_not_lt hlt)]
      rfl

end Indexed

end StackScript
