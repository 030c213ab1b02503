import StackScript.Proofs.Symbols.Bound

/-!
# Types of Values

A variable that is declared with `var` has the type of its value, if the value is a literal.
The reader of types never looks at a value as a whole. It searches the block of the variable
for an equals sign behind `value`, passing over groups of all kinds, and then goes by the one
or two words that it finds there.

What is found is said here in two steps that do not know of the search. `FirstAssigned` is
about the block: the words behind the first assignment that stands in no group. `IsLiteral` is
about these words: a literal from its first word to its last one. The type is that of the
literal that the words begin with, whatever they go on with, and of nothing else.

## Main definitions

* `FirstAssigned`: What a block assigns to `value`.
* `Balanced`, `IsLiteral`, `BeginsLiteral`: Literals and what begins with one.
* `Bound.Assigns`: What is assigned to a variable.
* `Bound.TypedBy`: A type is that of the value of a variable.

## Theorems

* `assignedValue_eq_some_iff`: The search finds what a block assigns.
* `literalType_of_begins`, `literalType_of_not_begins`: The type of some words.
* `Bound.typedBy`: The type of a variable.
-/

namespace StackScript

/-! ## Assignments -/

/-- How many groups are open behind a token; a closing sign outside of all groups closes
    nothing. -/
def groupsBehind (depth : Nat) (place : Occurrence) : Nat :=
  match place.token.kind with
  | .lBrace | .lBracket | .lParen => depth + 1
  | .rBrace | .rBracket | .rParen => depth - 1
  | _ => depth

/-- Behind `front`, where no group is open, words are assigned to `value`. -/
structure AssignsBehind (depth : Nat) (block front words : List Occurrence) : Prop where
  /-- The name and the equals sign stand between them. -/
  exists_sign : ∃ name sign, block = front ++ name :: sign :: words ∧
    name.token.isIdent "value" ∧ sign.token.kind = .eq
  /-- No group is open. -/
  level : front.foldl groupsBehind depth = 0

/-- The words behind the first assignment to `value`. -/
def FirstAssigned (depth : Nat) (block words : List Occurrence) : Prop :=
  ∃ front, AssignsBehind depth block front words ∧
    ∀ front' words', AssignsBehind depth block front' words' → front.length ≤ front'.length

section Assigned

variable {depth : Nat} {place : Occurrence} {places words : List Occurrence}

/-- The words begin with an assignment to `value`. -/
def beginsAssignment (depth : Nat) (place : Occurrence) (places : List Occurrence) : Bool :=
  depth = 0 && place.token.isIdent "value" && startsWith .eq places

/-- The search stops at an assignment and otherwise remembers the groups that are open. -/
theorem assignedValue_cons (depth : Nat) (place : Occurrence) (places : List Occurrence) :
    assignedValue depth (place :: places) =
      if beginsAssignment depth place places then
        some (places.drop 1)
      else
        assignedValue (groupsBehind depth place) places := by
  rw [assignedValue.eq_def, beginsAssignment, groupsBehind, Token.isIdent]
  cases hkind : place.token.kind
  case ident =>
    simp only [hkind, decide_true, Bool.true_and]
    cases hvalue : decide (depth = 0) && decide (place.token.text = "value") with
    | false => rfl
    | true =>
        cases places with
        | nil => rfl
        | cons sign places =>
            by_cases hsign : sign.token.kind = .eq <;> simp [startsWith, hsign]
  -- No other kind of word begins an assignment.
  all_goals simp [hkind]

/-- With nothing in front, the assignment begins here. -/
theorem assignsBehind_nil : AssignsBehind depth (place :: places) [] words ↔
    beginsAssignment depth place places ∧ words = places.drop 1 := by
  rw [beginsAssignment]
  constructor
  · rintro ⟨⟨name, sign, hsplit, hname, hsign⟩, hlevel⟩
    cases hsplit
    have hdepth : depth = 0 := hlevel
    exact ⟨by simp [hdepth, hname, startsWith, hsign], rfl⟩
  · rintro ⟨hbegins, rfl⟩
    simp only [Bool.and_eq_true, decide_eq_true_eq] at hbegins
    rcases hbegins with ⟨⟨hdepth, hname⟩, hstarts⟩
    cases places with
    | nil => cases hstarts
    | cons sign places =>
        exact ⟨⟨place, sign, rfl, hname, of_decide_eq_true hstarts⟩, hdepth⟩

/-- Otherwise it begins further on, with the first word behind it. -/
theorem assignsBehind_cons {first : Occurrence} {front : List Occurrence} :
    AssignsBehind depth (place :: places) (first :: front) words ↔
      first = place ∧ AssignsBehind (groupsBehind depth place) places front words := by
  constructor
  · rintro ⟨⟨name, sign, hsplit, hassigns⟩, hlevel⟩
    cases hsplit
    exact ⟨rfl, ⟨name, sign, rfl, hassigns⟩, hlevel⟩
  · rintro ⟨rfl, ⟨name, sign, rfl, hassigns⟩, hlevel⟩
    exact ⟨⟨name, sign, rfl, hassigns⟩, hlevel⟩

/-- The first assignment is the one at the front, or the first one behind. -/
theorem firstAssigned_cons : FirstAssigned depth (place :: places) words ↔
    if beginsAssignment depth place places then
      words = places.drop 1
    else
      FirstAssigned (groupsBehind depth place) places words := by
  split
  · -- An assignment that begins here is the first there is.
    next hbegins =>
    constructor
    · rintro ⟨front, hassigns, hfirst⟩
      have hnil := hfirst [] _ (assignsBehind_nil.mpr ⟨hbegins, rfl⟩)
      rw [List.length_nil, Nat.le_zero, List.length_eq_zero_iff] at hnil
      rw [hnil] at hassigns
      exact (assignsBehind_nil.mp hassigns).2
    · rintro rfl
      exact ⟨[], assignsBehind_nil.mpr ⟨hbegins, rfl⟩, fun _ _ _ => Nat.zero_le _⟩
  · -- None begins here, so the first of the rest is the first.
    next hbegins =>
    constructor
    · rintro ⟨_ | ⟨first, front⟩, hassigns, hfirst⟩
      · exact absurd (assignsBehind_nil.mp hassigns).1 hbegins
      · refine ⟨front, (assignsBehind_cons.mp hassigns).2, fun front' words' hassigns' => ?_⟩
        exact Nat.le_of_succ_le_succ
          (hfirst (place :: front') words' (assignsBehind_cons.mpr ⟨rfl, hassigns'⟩))
    · rintro ⟨front, hassigns, hfirst⟩
      refine ⟨place :: front, assignsBehind_cons.mpr ⟨rfl, hassigns⟩, ?_⟩
      rintro (_ | ⟨first, front'⟩) words' hassigns'
      · exact absurd (assignsBehind_nil.mp hassigns').1 hbegins
      · exact Nat.succ_le_succ (hfirst front' words' (assignsBehind_cons.mp hassigns').2)

/-- The search finds what a block assigns. -/
theorem assignedValue_eq_some_iff {depth : Nat} {block words : List Occurrence} :
    assignedValue depth block = some words ↔ FirstAssigned depth block words := by
  induction block generalizing depth with
  | nil =>
      refine ⟨nofun, ?_⟩
      rintro ⟨front, ⟨⟨name, sign, hsplit, -⟩, -⟩, -⟩
      exact absurd hsplit (by simp)
  | cons place places ih =>
      rw [assignedValue_cons, firstAssigned_cons]
      split
      · rw [Option.some.injEq, eq_comm]
      · exact ih

end Assigned

/-! ## Literals -/

/-- Each opening sign has its closing sign. -/
def TokenKind.partner? : TokenKind → Option TokenKind
  | .lBrace => some .rBrace
  | .lBracket => some .rBracket
  | .lParen => some .rParen
  | _ => none

/-- Words in which every group is closed. -/
inductive Balanced : List Occurrence → Prop where
  | nil : Balanced []
  | word {place : Occurrence} {places : List Occurrence}
      (h : place.token.kind ∉
        [.lBrace, .rBrace, .lBracket, .rBracket, .lParen, .rParen]) :
      Balanced places → Balanced (place :: places)
  | group {opening closing : Occurrence} {inside places : List Occurrence}
      (h : opening.token.kind.partner? = some closing.token.kind) :
      Balanced inside → Balanced places → Balanced (opening :: (inside ++ closing :: places))

/-- A literal, with its type and whether it is null. -/
inductive IsLiteral : List Occurrence → String × Bool → Prop where
  | number {digits : Occurrence} (h : digits.token.kind = .number) :
      IsLiteral [digits] (numberType digits.token.text, false)
  | negative {sign digits : Occurrence} (hsign : sign.token.kind = .operator)
      (hminus : sign.token.text = "-") (h : digits.token.kind = .number) :
      IsLiteral [sign, digits] (numberType digits.token.text, false)
  | text {place : Occurrence} (h : place.token.kind = .string) : IsLiteral [place] ("text", false)
  | bool {place : Occurrence} (h : place.token.isIdent "true" ∨ place.token.isIdent "false") :
      IsLiteral [place] ("bool", false)
  | null {place : Occurrence} (h : place.token.isIdent "null") : IsLiteral [place] ("any", true)
  | object {opening closing : Occurrence} {inside : List Occurrence}
      (hopening : opening.token.kind = .lBrace) (hclosing : closing.token.kind = .rBrace)
      (hinside : Balanced inside) : IsLiteral (opening :: (inside ++ [closing])) ("object", false)
  | list {opening closing : Occurrence} {inside : List Occurrence}
      (hopening : opening.token.kind = .lBracket) (hclosing : closing.token.kind = .rBracket)
      (hinside : Balanced inside) : IsLiteral (opening :: (inside ++ [closing])) ("array", false)

/-- The words begin with a sign that opens an object or a list. -/
def OpensLiteral (words : List Occurrence) (type : String × Bool) : Prop :=
  ∃ opening places, words = opening :: places ∧
    (opening.token.kind = .lBrace ∧ type = ("object", false) ∨
      opening.token.kind = .lBracket ∧ type = ("array", false))

/-- The words begin with a literal, or with an object or a list that is never closed. -/
def BeginsLiteral (words : List Occurrence) (type : String × Bool) : Prop :=
  (∃ literal places, words = literal ++ places ∧ IsLiteral literal type) ∨ OpensLiteral words type

/-- The first words of a literal settle its type. -/
theorem literalType_append {literal : List Occurrence} {type : String × Bool}
    (h : IsLiteral literal type) (places : List Occurrence) :
    literalType (literal ++ places) = type := by
  cases h with
  | number h => simp [literalType, h]
  | negative hsign hminus h => simp [literalType, hsign, hminus, h]
  | text h => simp [literalType, h]
  | bool h =>
      simp only [Token.isIdent, Bool.and_eq_true, decide_eq_true_eq] at h
      rcases h with ⟨hkind, htext⟩ | ⟨hkind, htext⟩ <;> simp [literalType, hkind, htext]
  | null h =>
      simp only [Token.isIdent, Bool.and_eq_true, decide_eq_true_eq] at h
      simp [literalType, h]
  | object hopening => simp [literalType, hopening]
  | list hopening => simp [literalType, hopening]

/-- The type is that of the literal that the words begin with, whatever follows. -/
theorem literalType_of_begins {words : List Occurrence} {type : String × Bool}
    (h : BeginsLiteral words type) : literalType words = type := by
  rcases h with ⟨literal, places, rfl, hliteral⟩ |
    ⟨opening, places, rfl, ⟨hkind, rfl⟩ | ⟨hkind, rfl⟩⟩
  · exact literalType_append hliteral places
  · simp [literalType, hkind]
  · simp [literalType, hkind]

/-- Words that begin with no literal have no type. -/
theorem literalType_of_not_begins {words : List Occurrence}
    (h : ∀ type, ¬ BeginsLiteral words type) : literalType words = ("any", false) := by
  -- Whatever the words begin with, it is no literal.
  have hliteral : ∀ literal places type, words = literal ++ places → ¬ IsLiteral literal type :=
    fun literal places type hsplit hliteral => h type (Or.inl ⟨literal, places, hsplit, hliteral⟩)
  cases words with
  | nil => rfl
  | cons place places =>
      rw [literalType.eq_def]
      cases hkind : place.token.kind
      case number => exact absurd (.number hkind) (hliteral [place] places _ rfl)
      case string => exact absurd (.text hkind) (hliteral [place] places _ rfl)
      case lBrace => exact absurd (Or.inr ⟨place, places, rfl, Or.inl ⟨hkind, rfl⟩⟩) (h _)
      case lBracket => exact absurd (Or.inr ⟨place, places, rfl, Or.inr ⟨hkind, rfl⟩⟩) (h _)
      case operator =>
        cases places with
        | nil => simp only [hkind]
        | cons digits places =>
            simp only [hkind]
            refine if_neg fun hnegative => ?_
            simp only [Bool.and_eq_true, decide_eq_true_eq] at hnegative
            exact hliteral [place, digits] places _ rfl (.negative hkind hnegative.1 hnegative.2)
      case ident =>
        have hword : ∀ word, place.token.text = word → place.token.isIdent word := fun word htext =>
          Bool.and_eq_true_iff.mpr ⟨decide_eq_true hkind, decide_eq_true htext⟩
        have hbool : ¬ (place.token.text = "true" ∨ place.token.text = "false") := fun htext =>
          hliteral [place] places _ rfl (.bool (htext.imp (hword _) (hword _)))
        have hnull : place.token.text ≠ "null" := fun htext =>
          hliteral [place] places _ rfl (.null (hword _ htext))
        simp only [hkind]
        rw [if_neg (by simpa using hbool), decide_eq_false hnull]
      all_goals simp [hkind]

/-! ## Values of variables -/

/-- The inside of the block that the words begin with. -/
def blockAhead? : List Occurrence → Option (List Occurrence)
  | [] => none
  | opening :: places =>
      if opening.token.kind = .lBrace then some (untilClose 0 places).body else none

/-- There is a block if a brace comes next. -/
theorem blockAhead?_eq_some_iff {words body : List Occurrence} :
    blockAhead? words = some body ↔ ∃ opening places, words = opening :: places ∧
      opening.token.kind = .lBrace ∧ (untilClose 0 places).body = body := by
  constructor
  · intro h
    unfold blockAhead? at h
    split at h
    · cases h
    · next opening places =>
      split at h
      · next hbrace => exact ⟨opening, places, rfl, hbrace, Option.some.inj h⟩
      · cases h
  · rintro ⟨opening, places, rfl, hbrace, rfl⟩
    exact if_pos hbrace

/-- The type of a block is that of what is assigned in it. -/
theorem blockType_eq (words : List Occurrence) :
    blockType words = literalType (((blockAhead? words).bind (assignedValue 0)).getD []) := by
  cases words with
  | nil => rfl
  | cons opening places =>
      rw [blockType, blockAhead?]
      split <;> rfl

namespace Bound

variable {bound : Bound} {words : List Occurrence}

/-- The words behind the variable and its question mark. -/
def behindMark (bound : Bound) : List Occurrence :=
  if startsWith .question bound.behind then bound.behind.drop 1 else bound.behind

/-- The words are assigned to `value` in the block behind the variable. -/
def Assigns (bound : Bound) (words : List Occurrence) : Prop :=
  ∃ mark opening places, bound.behind = mark ++ opening :: places ∧
    (mark = [] ∨ ∃ question, mark = [question] ∧ question.token.kind = .question) ∧
      opening.token.kind = .lBrace ∧ FirstAssigned 0 (untilClose 0 places).body words

/-- A type is that of the literal that the value of the variable begins with. -/
structure TypedBy (bound : Bound) (type : String × Bool) : Prop where
  /-- It makes no difference what follows the literal. -/
  literal : ∀ words type', bound.Assigns words → BeginsLiteral words type' → type = type'
  /-- A variable without a value or with another one has no type. -/
  other : (∀ words type', bound.Assigns words → ¬ BeginsLiteral words type') →
    type = ("any", false)

/-- The mark of an optional variable may stand in front of its block. -/
theorem behindMark_eq_cons_iff {opening : Occurrence} {places : List Occurrence}
    (hbrace : opening.token.kind = .lBrace) :
    bound.behindMark = opening :: places ↔ ∃ mark, bound.behind = mark ++ opening :: places ∧
      (mark = [] ∨ ∃ question, mark = [question] ∧ question.token.kind = .question) := by
  unfold behindMark
  constructor
  · intro h
    split at h
    · next hstarts =>
      cases hbehind : bound.behind with
      | nil =>
          rw [hbehind] at hstarts
          cases hstarts
      | cons question rest =>
          rw [hbehind] at h hstarts
          exact ⟨[question], congrArg (question :: ·) h,
            Or.inr ⟨question, rfl, of_decide_eq_true hstarts⟩⟩
    · exact ⟨[], h, Or.inl rfl⟩
  · rintro ⟨mark, hbehind, rfl | ⟨question, rfl, hquestion⟩⟩
    · have hother : ¬ startsWith .question bound.behind := by
        simp [hbehind, startsWith, hbrace]
      rw [if_neg hother, hbehind]
      rfl
    · have hstarts : startsWith .question bound.behind := by
        simp [hbehind, startsWith, hquestion]
      rw [if_pos hstarts, hbehind]
      rfl

/-- What is assigned to a variable is what the search finds in its block. -/
theorem assigns_iff :
    bound.Assigns words ↔ (blockAhead? bound.behindMark).bind (assignedValue 0) = some words := by
  rw [Option.bind_eq_some_iff]
  constructor
  · rintro ⟨mark, opening, places, hbehind, hmark, hbrace, hassigned⟩
    have hsplit := (behindMark_eq_cons_iff hbrace).mpr ⟨mark, hbehind, hmark⟩
    exact ⟨_, blockAhead?_eq_some_iff.mpr ⟨opening, places, hsplit, hbrace, rfl⟩,
      assignedValue_eq_some_iff.mpr hassigned⟩
  · rintro ⟨body, hblock, hassigned⟩
    rcases blockAhead?_eq_some_iff.mp hblock with ⟨opening, places, hsplit, hbrace, rfl⟩
    rcases (behindMark_eq_cons_iff hbrace).mp hsplit with ⟨mark, hbehind, hmark⟩
    exact ⟨mark, opening, places, hbehind, hmark, hbrace, assignedValue_eq_some_iff.mp hassigned⟩

theorem type_binding (h : bound.isVar) :
    (bound.binding.type, bound.binding.nullable) = blockType bound.behindMark := by
  rw [binding, if_pos h]
  rfl

/-- The type of a variable is that of its value. -/
theorem typedBy (h : bound.isVar) :
    bound.TypedBy (bound.binding.type, bound.binding.nullable) := by
  rw [type_binding h, blockType_eq]
  constructor
  · intro words type hassigns hbegins
    rw [assigns_iff.mp hassigns]
    exact literalType_of_begins hbegins
  · intro hother
    cases hassigned : (blockAhead? bound.behindMark).bind (assignedValue 0) with
    | none => rfl
    | some words =>
        exact literalType_of_not_begins fun type => hother words type (assigns_iff.mpr hassigned)

end Bound

end StackScript
