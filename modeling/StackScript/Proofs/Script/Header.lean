import StackScript.Proofs.Script.Object

/-!
# Headers

A header is a line `query "brands/{id}" verb=GET {`, and it is read word by word, with
no more than a look at what follows `verb`. Two questions about it are answered here.

The first is where it ends. It ends at an opening brace, but not at any: the word behind
`verb =` is taken for a verb whatever it is, so an opening brace there is passed over and
the next one is taken for the brace of the object. `isVerb` tells from the words in front
of a word whether that happens, without reading the header, and `openingOf` finds the
brace by it.

The second is what a header means that is written as it should be. The reader takes the
first name or string for the name of the object and does not look whether a sign follows.
So a line without a name is read as if the key of its first attribute was the name,
`HeaderLine.read`, and the attribute is lost. With a name, or without attributes, the
header is what the line says.

## Main definitions

* `isVerb`: A word stands where the reader takes it for the verb.
* `openingOf`: The opening brace of the object, by the words in front of it.
* `IsReadUpTo`: What is known of a header in the middle of its words.
* `Attribute`, `HeaderLine`: A header line as it should be written.
* `HeaderLine.header`: What the line says.
* `HeaderLine.read`: The line that is read.

## Theorems

* `IsReadUpTo.takeName`, `IsReadUpTo.takeVerb`: A name or a verb is read.
* `readHeader_opening`: A header ends at the opening brace of the object.
* `readHeader_attributes`: The last `verb` among some attributes is the verb.
* `HeaderLine.readHeader_words`: A header line is read as `HeaderLine.read` says.
-/

namespace StackScript

/-! ## The end of a header -/

/-- The word can be the name of an object. -/
def Token.isName (token : Token) : Bool :=
  token.kind = .ident || token.kind = .string

/-- A word of a header stands where the reader takes it for the verb, if the words between
    the keyword and it are these, the nearest first. It stands behind a sign and that behind
    a word `verb` which is not the name, and not a verb itself. -/
def isVerb : List Token → Bool
  | sign :: key :: before =>
      decide (sign.kind = .eq) && key.isIdent "verb" && before.any Token.isName && !isVerb before
  | _ => false

/-- The first opening brace that the reader does not take for the verb, behind the words
    `before`. -/
def openingOf (before : List Token) : List Occurrence → Option Occurrence
  | [] => none
  | place :: places =>
      if place.token.kind = .lBrace && !isVerb before then
        some place
      else
        openingOf (place.token :: before) places

/-- A verb is announced by a sign. -/
theorem isVerb_cons_of_ne {sign : Token} (h : sign.kind ≠ .eq) (before : List Token) :
    isVerb (sign :: before) = false := by
  unfold isVerb
  split
  · next heq =>
    rw [← (List.cons.inj heq).1, decide_eq_false h, Bool.false_and, Bool.false_and,
      Bool.false_and]
  · rfl

theorem isVerb_of_ne {key : Token} (h : key.isIdent "verb" = false) (sign : Token)
    (before : List Token) : isVerb (sign :: key :: before) = false := by
  rw [isVerb, h, Bool.and_false, Bool.false_and, Bool.false_and]

theorem isVerb_of_unnamed {before : List Token} (h : before.any Token.isName = false)
    (sign key : Token) : isVerb (sign :: key :: before) = false := by
  rw [isVerb, h, Bool.and_false, Bool.false_and]

-- The word behind `verb =` is the verb, if the object has a name by then.
theorem isVerb_of_named {sign key : Token} {before : List Token} (hsign : sign.kind = .eq)
    (hkey : key.isIdent "verb") (hname : before.any Token.isName) (hverb : isVerb before = false) :
    isVerb (sign :: key :: before) = true := by
  rw [isVerb, decide_eq_true hsign, hkey, hname, hverb]
  rfl

theorem openingOf_of_ne {place : Occurrence} (h : place.token.kind ≠ .lBrace)
    (before : List Token) (places : List Occurrence) :
    openingOf before (place :: places) = openingOf (place.token :: before) places := by
  rw [openingOf, decide_eq_false h, Bool.false_and]
  rfl

theorem openingOf_of_isVerb {before : List Token} (h : isVerb before = true)
    (place : Occurrence) (places : List Occurrence) :
    openingOf before (place :: places) = openingOf (place.token :: before) places := by
  rw [openingOf, h, Bool.not_true, Bool.and_false]
  rfl

-- A word with a certain name is a name.
theorem Token.kind_of_isIdent {token : Token} {text : String} (h : token.isIdent text) :
    token.kind = .ident := by
  rw [isIdent, Bool.and_eq_true, decide_eq_true_eq] at h
  exact h.1

/-- Behind a word that is not taken for the name the object has one, if the word could have
    been it. -/
theorem isSome_name_of_passed {header : Header} {token : Token} {before : List Token}
    (hname : header.name.isSome = before.any Token.isName)
    (h : ¬ (header.name = none && (token.kind = .ident || token.kind = .string))) :
    header.name.isSome = (token :: before).any Token.isName := by
  cases hheader : header.name with
  | none =>
      rw [hheader] at h hname
      rw [List.any_cons, ← hname]
      simpa [Token.isName] using h
  | some name =>
      rw [hheader] at hname
      rw [List.any_cons, ← hname]
      simp

/-- A header has been read as far as the words `before`, the nearest first, and the words
    `places` are ahead. -/
structure IsReadUpTo (header : Header) (before : List Token) (places : List Occurrence) :
    Prop where
  /-- The object has its name if one of the words behind can be it. -/
  name : header.name.isSome = before.any Token.isName
  /-- The next word is not taken for the verb. -/
  first : isVerb before = false
  /-- Nor is the word behind it, if there are more. -/
  second : ∀ sign value rest, places = sign :: value :: rest →
    isVerb (sign.token :: before) = false

namespace IsReadUpTo

variable {header : Header} {before : List Token} {place : Occurrence} {places : List Occurrence}

/-- A name has been read. A word is taken for a verb only if the name stands in front of
    the word `verb`, so no verb can follow at once. -/
theorem takeName (h : IsReadUpTo header before (place :: places)) (hnone : header.name = none)
    (hword : place.token.isName) (name : String) :
    IsReadUpTo { header with name := some name } (place.token :: before) places := by
  have hunnamed : before.any Token.isName = false := by
    rw [← h.name, hnone]
    rfl
  have hsign : place.token.kind ≠ .eq := by
    intro hkind
    rw [Token.isName, hkind] at hword
    cases hword
  refine ⟨?_, isVerb_cons_of_ne hsign _, fun _ _ _ _ => isVerb_of_unnamed hunnamed _ _⟩
  rw [List.any_cons, hword]
  rfl

section Verb

variable {key sign value : Occurrence}

/-- A word `verb` can be a name, so it is one unless the object has another. -/
theorem any_isName (h : IsReadUpTo header before (key :: places))
    (hpassed : ¬ (header.name = none && (key.token.kind = .ident || key.token.kind = .string)))
    (hkey : key.token.isIdent "verb") : before.any Token.isName = true := by
  rw [← h.name, isSome_name_of_passed h.name hpassed, List.any_cons, Token.isName,
    Token.kind_of_isIdent hkey]
  rfl

/-- The verb has been read, with its key and its sign. A second attribute can begin behind
    it, but not with it, even if the verb is the word `verb`. -/
theorem takeVerb (h : IsReadUpTo header before (key :: sign :: value :: places))
    (hnamed : before.any Token.isName) (hkey : key.token.isIdent "verb")
    (hsign : sign.token.kind = .eq) (verb : String) :
    IsReadUpTo { header with verb := some verb }
      (value.token :: sign.token :: key.token :: before) places := by
  have hsignKey : sign.token.isIdent "verb" = false := by
    rw [Token.isIdent, hsign]
    rfl
  refine ⟨?_, isVerb_of_ne hsignKey _ _, fun _ _ _ _ => ?_⟩
  · simp [h.name, hnamed]
  · rw [isVerb, isVerb_of_named hsign hkey hnamed h.first, Bool.not_true, Bool.and_false]

end Verb

end IsReadUpTo

/-- A header ends at the opening brace of the object. The induction goes the way of the
    reader, and what is handed on from word to word is that no verb has been passed: an
    opening brace where the reader looks for one is then the brace of the object. -/
theorem readHeader_opening (header : Header) (words : List Occurrence) :
    ∀ before : List Token, IsReadUpTo header before words →
      (readHeader header words).2 = openingOf before words := by
  fun_induction readHeader header words with
  | case1 => exact fun _ _ => rfl
  | case2 header place places token hbrace =>
      intro before h
      rw [openingOf, h.first, decide_eq_true hbrace]
      rfl
  | case3 header place places token hbrace hisName ih =>
      intro before h
      rw [Bool.and_eq_true, decide_eq_true_eq] at hisName
      rw [openingOf_of_ne hbrace]
      exact ih _ (h.takeName hisName.1 hisName.2 _)
  | case4 header place token hbrace hisName hverb sign value rest hsign ih =>
      intro before h
      -- An attribute is read whole, and `openingOf` walks through its three words.
      have hnamed := h.any_isName hisName hverb
      have hvalue := isVerb_of_named hsign hverb hnamed h.first
      rw [openingOf_of_ne hbrace, openingOf_of_ne (by rw [hsign]; exact TokenKind.noConfusion),
        openingOf_of_isVerb hvalue]
      exact ih _ (h.takeVerb hnamed hverb hsign _)
  -- A word `verb` without a sign behind it is passed over, and what follows it is no verb.
  | case5 header place token hbrace hisName hverb sign value rest hsign ih =>
      intro before h
      have hkind : token.kind ≠ .eq := by
        rw [Token.kind_of_isIdent hverb]
        exact TokenKind.noConfusion
      rw [openingOf_of_ne hbrace]
      refine ih _ ⟨isSome_name_of_passed h.name hisName, isVerb_cons_of_ne hkind _, ?_⟩
      intro sign' value' rest' heq
      rw [List.cons.injEq] at heq
      exact isVerb_cons_of_ne (heq.1 ▸ hsign) _
  -- The words end behind it, or with one word more.
  | case6 header place token hbrace hisName hverb rest hshort ih =>
      intro before h
      have hkind : token.kind ≠ .eq := by
        rw [Token.kind_of_isIdent hverb]
        exact TokenKind.noConfusion
      rw [openingOf_of_ne hbrace]
      exact ih _ ⟨isSome_name_of_passed h.name hisName, isVerb_cons_of_ne hkind _,
        fun sign value rest' heq => absurd heq (hshort sign value rest')⟩
  | case7 header place places token hbrace hisName hverb ih =>
      intro before h
      rw [openingOf_of_ne hbrace]
      cases places with
      | nil => rfl
      | cons next places =>
          exact ih _ ⟨isSome_name_of_passed h.name hisName, h.second _ _ _ rfl,
            fun sign _ _ _ => isVerb_of_ne (Bool.eq_false_iff.mpr hverb) _ _⟩

/-! ## A line as it should be written -/

/-- An attribute of a header, as `verb=GET`. -/
structure Attribute where
  /-- What it is about. -/
  key : Token
  /-- The equals sign. -/
  sign : Token
  /-- What it says. -/
  value : Token
  kind_key : key.kind = .ident
  kind_sign : sign.kind = .eq
  isArgument_value : value.kind.isArgument

/-- The words of the attribute. -/
def Attribute.words (item : Attribute) : List Token :=
  [item.key, item.sign, item.value]

/-- The attribute gives the verb. -/
def Attribute.isVerb (item : Attribute) : Bool :=
  item.key.isIdent "verb"

/-- The value of the attribute, if it is read as a verb. -/
def Attribute.verb (item : Attribute) : String :=
  (Text.unquote item.value.text).toUpper

/-- The verb that some attributes give: the last one counts. -/
def verbOf (attributes : List Attribute) : Option String :=
  (attributes.filter Attribute.isVerb).getLast?.map Attribute.verb

/-- A header line up to the opening brace. -/
structure HeaderLine where
  /-- The word that declares the object. -/
  keyword : Token
  /-- The name of the object. -/
  name : Option Token
  /-- The attributes. -/
  attributes : List Attribute
  declares : keyword.declares?.isSome
  isName_name : ∀ token ∈ name, token.isName

namespace HeaderLine

/-- The words behind the keyword. -/
def words (line : HeaderLine) : List Token :=
  line.name.toList ++ line.attributes.flatMap Attribute.words

/-- What the line says. -/
def header (line : HeaderLine) : Header where
  keyword := line.keyword.text
  name := line.name.map fun token => Text.unquote token.text
  verb := verbOf line.attributes
  position := line.keyword.position

/-- The line that is read. Where the name is missing, the key of the first attribute is
    taken for it. -/
def read (line : HeaderLine) : HeaderLine :=
  match line.name, line.attributes with
  | none, item :: attributes =>
      { line with
        name := some item.key
        attributes := attributes
        isName_name := by
          intro token htoken
          rw [Option.mem_some_iff] at htoken
          rw [← htoken, Token.isName, item.kind_key]
          rfl }
  | _, _ => line

/-- A line with a name, or without attributes, is read as it is. -/
theorem read_of_name {line : HeaderLine} (h : line.name.isSome ∨ line.attributes = []) :
    line.read = line := by
  unfold read
  split
  · next hname hattributes =>
    rw [hname, hattributes] at h
    rcases h with h | h <;> cases h
  · rfl

end HeaderLine

/-- A later verb replaces an earlier one. -/
theorem verbOf_cons (item : Attribute) (attributes : List Attribute) :
    verbOf (item :: attributes) =
      (verbOf attributes).or (if item.isVerb then some item.verb else none) := by
  unfold verbOf
  by_cases hverb : item.isVerb
  · rw [List.filter_cons_of_pos hverb, List.getLast?_cons, if_pos hverb]
    cases (attributes.filter Attribute.isVerb).getLast? <;> rfl
  · rw [List.filter_cons_of_neg hverb, if_neg hverb, Option.or_none]

/-- A word that is not taken for the name, and begins no verb, is passed over. -/
theorem readHeader_pass {header : Header} {place : Occurrence} {places : List Occurrence}
    (hbrace : place.token.kind ≠ .lBrace)
    (hname : ¬ (header.name = none && (place.token.kind = .ident || place.token.kind = .string)))
    (hverb : place.token.isIdent "verb" →
      ∀ sign value rest, places = sign :: value :: rest → sign.token.kind ≠ .eq) :
    readHeader header (place :: places) = readHeader header places := by
  rw [readHeader.eq_def]
  dsimp only
  rw [if_neg hbrace, if_neg hname]
  split
  · next hident =>
    split
    · next sign value rest => rw [if_neg (hverb hident sign value rest rfl)]
    · rfl
  · rfl

/-- The first word that can be the name is the name. -/
theorem readHeader_takeName {header : Header} {place : Occurrence} (places : List Occurrence)
    (hnone : header.name = none) (hname : place.token.isName) :
    readHeader header (place :: places) =
      readHeader { header with name := some (Text.unquote place.token.text) } places := by
  have hbrace : place.token.kind ≠ .lBrace := by
    intro hkind
    rw [Token.isName, hkind] at hname
    cases hname
  rw [readHeader.eq_def]
  dsimp only
  rw [if_neg hbrace, if_pos (by rw [hnone]; exact hname)]

/-- An attribute `verb` gives the verb. -/
theorem readHeader_takeVerb {header : Header} {key sign value : Occurrence}
    (places : List Occurrence) (hname : header.name.isSome) (hkey : key.token.isIdent "verb")
    (hsign : sign.token.kind = .eq) :
    readHeader header (key :: sign :: value :: places) =
      readHeader { header with verb := some (Text.unquote value.token.text).toUpper } places := by
  have hbrace : key.token.kind ≠ .lBrace := by
    rw [Token.kind_of_isIdent hkey]
    exact TokenKind.noConfusion
  have hnamed : ¬ (header.name = none &&
      (key.token.kind = .ident || key.token.kind = .string)) := by
    rw [Option.isSome_iff_ne_none] at hname
    simp [hname]
  rw [readHeader.eq_def]
  dsimp only
  rw [if_neg hbrace, if_neg hnamed, if_pos hkey, if_pos hsign]

section Line

variable {opening : Token} {behind : List Token}

/-- No attribute begins with a sign, and neither does what follows the last one. -/
theorem kind_ne_eq_of_attributes {attributes : List Attribute} {words : List Occurrence}
    (h : words.map Occurrence.token = attributes.flatMap Attribute.words ++ opening :: behind)
    (hopen : opening.kind = .lBrace) :
    ∀ sign value rest, words = sign :: value :: rest → sign.token.kind ≠ .eq := by
  rintro sign value rest rfl
  cases attributes with
  | nil =>
      rw [List.flatMap_nil, List.nil_append, List.map_cons, List.cons.injEq] at h
      rw [h.1, hopen]
      exact TokenKind.noConfusion
  | cons item attributes =>
      rw [List.flatMap_cons, Attribute.words, List.cons_append, List.cons_append, List.map_cons,
        List.cons.injEq] at h
      rw [h.1, item.kind_key]
      exact TokenKind.noConfusion

/-- The sign and the value of an attribute are passed over, if its key is the name. -/
theorem readHeader_signValue {header : Header} (hname : header.name.isSome)
    {sign value : Occurrence} (hsign : sign.token.kind = .eq)
    (hvalue : value.token.kind.isArgument) {words : List Occurrence}
    (hwords : ∀ sign value rest, words = sign :: value :: rest → sign.token.kind ≠ .eq) :
    readHeader header (sign :: value :: words) = readHeader header words := by
  rw [Option.isSome_iff_ne_none] at hname
  have hvalueBrace : value.token.kind ≠ .lBrace := by
    intro hkind
    rw [hkind] at hvalue
    cases hvalue
  -- The object has a name, so neither of the two words is taken for one.
  rw [readHeader_pass (by rw [hsign]; exact TokenKind.noConfusion) (by simp [hname]) ?_,
    readHeader_pass hvalueBrace (by simp [hname]) fun _ => hwords]
  intro hverb
  rw [Token.kind_of_isIdent hverb] at hsign
  cases hsign

/-- The last `verb` among some attributes is the verb. -/
theorem readHeader_attributes {header : Header} (hname : header.name.isSome)
    {attributes : List Attribute} {words : List Occurrence}
    (h : words.map Occurrence.token = attributes.flatMap Attribute.words ++ opening :: behind)
    (hopen : opening.kind = .lBrace) :
    (readHeader header words).1 =
      { header with verb := (verbOf attributes).or header.verb } := by
  induction attributes generalizing header words with
  | nil =>
      rcases List.map_eq_cons_iff.mp h with ⟨place, places, rfl, rfl, -⟩
      rw [readHeader.eq_def]
      dsimp only
      rw [if_pos hopen]
      rfl
  | cons item attributes ih =>
      -- An attribute is three words, and it is taken as a whole or passed over word by
      -- word.
      rcases List.map_eq_cons_iff.mp h with ⟨key, words, rfl, hkey, h⟩
      rcases List.map_eq_cons_iff.mp h with ⟨sign, words, rfl, hsign, h⟩
      rcases List.map_eq_cons_iff.mp h with ⟨value, words, rfl, hvalue, h⟩
      have hsignKind : sign.token.kind = .eq := hsign ▸ item.kind_sign
      rw [verbOf_cons, Option.or_assoc]
      by_cases hverb : item.isVerb
      · rw [readHeader_takeVerb words hname (hkey ▸ hverb) hsignKind, ih (by exact hname) h,
          if_pos hverb, Attribute.verb, hvalue]
        rfl
      · have hpassed : key.token.isIdent "verb" → ∀ sign' value' rest,
            sign :: value :: words = sign' :: value' :: rest → sign'.token.kind ≠ .eq :=
          fun hident => absurd (by rwa [hkey] at hident) hverb
        have hkeyBrace : key.token.kind ≠ .lBrace := by
          rw [hkey, item.kind_key]
          exact TokenKind.noConfusion
        have hnamed := Option.isSome_iff_ne_none.mp hname
        rw [readHeader_pass hkeyBrace (by simp [hnamed]) hpassed,
          readHeader_signValue hname hsignKind (hvalue ▸ item.isArgument_value)
            (kind_ne_eq_of_attributes h hopen), ih hname h, if_neg hverb, Option.none_or]

/-- A header line is read as the line that has a name. -/
theorem HeaderLine.readHeader_words (line : HeaderLine) {words : List Occurrence}
    (h : words.map Occurrence.token = line.words ++ opening :: behind)
    (hopen : opening.kind = .lBrace) :
    (readHeader ⟨line.keyword.text, none, none, line.keyword.position⟩ words).1 =
      line.read.header := by
  rw [HeaderLine.words, List.append_assoc] at h
  unfold HeaderLine.read
  split
  · next item attributes hname hattributes =>
    -- The key of the first attribute is taken for the name.
    rw [hname, hattributes] at h
    rcases List.map_eq_cons_iff.mp h with ⟨key, words, rfl, hkey, h⟩
    rcases List.map_eq_cons_iff.mp h with ⟨sign, words, rfl, hsign, h⟩
    rcases List.map_eq_cons_iff.mp h with ⟨value, words, rfl, hvalue, h⟩
    have hisName : key.token.isName := by
      rw [hkey, Token.isName, item.kind_key]
      rfl
    rw [readHeader_takeName _ rfl hisName, readHeader_signValue rfl (hsign ▸ item.kind_sign)
      (hvalue ▸ item.isArgument_value) (kind_ne_eq_of_attributes h hopen),
      readHeader_attributes rfl h hopen, Option.or_none, hkey]
    rfl
  · -- With a name the reader takes it, and reads the attributes behind it.
    next hnamed =>
    cases hname : line.name with
    | some name =>
        rw [hname] at h
        rcases List.map_eq_cons_iff.mp h with ⟨place, words, rfl, hplace, h⟩
        have hisName : place.token.isName := hplace ▸ line.isName_name name hname
        rw [readHeader_takeName _ rfl hisName, readHeader_attributes rfl h hopen, Option.or_none,
          HeaderLine.header, hname, hplace]
        rfl
    | none =>
        cases hattributes : line.attributes with
        | cons item attributes =>
            exact absurd hattributes (hnamed item attributes hname)
        | nil =>
            rw [hname, hattributes] at h
            rcases List.map_eq_cons_iff.mp h with ⟨place, words, rfl, rfl, -⟩
            rw [readHeader.eq_def, HeaderLine.header, hname, hattributes]
            dsimp only
            rw [if_pos hopen]
            rfl

end Line

end StackScript
