import Mathlib.Computability.Language
import Mathlib.Data.List.TakeWhile
import StackScript.Proofs.Text.Quoted
import StackScript.Proofs.Token.Tiling

/-!
# The Rules of Words

What a word of each kind looks like, said without saying how it is read: a rule is a
language, put together from characters and fixed words by union, concatenation and
repetition. The words of a script are read by functions that count characters from the
front, `lexeme`, and know nothing of languages.

`Munches` ties one to the other. It has two halves, because a counter may take too little
as well as too much: no word of the language at the front of a text is longer than the
count, and what is counted is a word of the language. Counters are put together like
languages, `Munches.seq`, as long as the second language begins with what the first cannot
go on with. That is where a number is more than its parts: `1.` and `1e+` go on with a
part that is never finished, and the counter has to come back to the last end it has passed.

Names have two languages. `names` is what a name should be, words with single dots between
them and perhaps a dot at the end. `readNames` is what is read as a name, and has double
dots as well: behind every word but a first one of a single character.

## Main definitions

* `Rule`, `rules`, `unknownSigns`: The rules of words.
* `names`, `readNames`: What a name should be, and what is read as one.
* `Munches`: A counter takes the longest word of a language.
* `EndsUnfinished`: Where a text without its closing quote ends.

## Theorems

* `munches_name`, `munches_number`, `take_number_mem`: The counters of names and numbers.
* `quotedLength_le`, `quotedLength_mem`: The counter of texts in quotes.
* `names_le_readNames`, `mem_names_iff`: The two languages of names.
-/

namespace StackScript

open scoped Computability

/-- A rule of words. -/
structure Rule where
  /-- The kind of the words; spaces are no words and have none. -/
  kind : Option TokenKind
  /-- What the rule matches. -/
  words : Language Char

namespace Rule

/-! ## The rules -/

/-- One character of a class. -/
def oneOf (p : Char → Bool) : Language Char :=
  {word | ∃ c, p c ∧ word = [c]}

/-- One word and no other. -/
def only (word : String) : Language Char :=
  {word.toList}

/-- The spaces between words. -/
def spaces : Language Char :=
  oneOf Lexeme.isSpace * (oneOf Lexeme.isSpace)∗

/-- Two slashes and the rest of the line. -/
def comments : Language Char :=
  only "//" * (oneOf (· ≠ '\n'))∗

/-- A name without dots. -/
def segments : Language Char :=
  oneOf Lexeme.isNameStart * (oneOf Lexeme.isNameChar)∗

/-- What a name should be. -/
def names : Language Char :=
  segments * ((only "." * segments)∗ * (1 + only "."))

/-- What is read behind a segment of a name: further segments with one dot or two in front
    of each, and one dot or two at the end. -/
def nameEndings : Language Char :=
  ((only "." + only "..") * segments)∗ * (1 + (only "." + only ".."))

/-- What is read as a name. Behind a first segment of a single character there is no double
    dot. -/
def readNames : Language Char :=
  oneOf Lexeme.isNameStart *
    (1 + (only "." * (1 + segments * nameEndings) +
      oneOf Lexeme.isNameChar * ((oneOf Lexeme.isNameChar)∗ * nameEndings)))

/-- A name behind a dollar sign. -/
def variableNames : Language Char :=
  only "$" * segments

/-- Digits, at least one. -/
def digits : Language Char :=
  oneOf Char.isDigit * (oneOf Char.isDigit)∗

/-- The fraction of a number. -/
def fractions : Language Char :=
  only "." * digits

/-- The exponent of a number. -/
def exponents : Language Char :=
  oneOf (fun c => c = 'e' || c = 'E') * ((1 + oneOf fun c => c = '+' || c = '-') * digits)

/-- Digits, perhaps a fraction, perhaps an exponent. -/
def numbers : Language Char :=
  digits * ((1 + fractions) * (1 + exponents))

/-- What may stand in the quotes: characters of the line, and behind a backslash the quote
    and the backslash too. -/
def quotedChars (quote : Char) : Language Char :=
  (oneOf (fun c => c ≠ quote && c ≠ '\\' && c ≠ '\n') + only "\\" * oneOf (· ≠ '\n'))∗

/-- A text without its closing quote. -/
def unfinishedTexts (quote : Char) : Language Char :=
  oneOf (· = quote) * quotedChars quote

/-- A text in quotes. -/
def quotedTexts (quote : Char) : Language Char :=
  oneOf (· = quote) * (quotedChars quote * oneOf (· = quote))

/-- The signs and operators, each with its kind. -/
def signs : List (TokenKind × String) :=
  [(.lBrace, "\x7b"), (.rBrace, "\x7d"), (.lBracket, "["), (.rBracket, "]"), (.lParen, "("),
   (.rParen, ")"), (.dot, "."), (.comma, ","), (.colon, ":"), (.semicolon, ";"), (.eq, "="),
   (.question, "?"), (.pipe, "|"),
   (.operator, "=="), (.operator, "!="), (.operator, "<="), (.operator, ">="),
   (.operator, "&&"), (.operator, "||"), (.operator, "??"), (.operator, "=>"),
   (.operator, "->"), (.operator, "+="), (.operator, "-="), (.operator, "*="),
   (.operator, "/="), (.operator, "+"), (.operator, "-"), (.operator, "*"), (.operator, "/"),
   (.operator, "%"), (.operator, "<"), (.operator, ">"), (.operator, "!"), (.operator, "~"),
   (.operator, "^"), (.operator, "&"), (.operator, "@"), (.operator, "#")]

/-- The rules of words other than names. -/
def otherRules : List Rule :=
  [⟨none, spaces⟩, ⟨some .comment, comments⟩, ⟨some .variable, variableNames⟩,
   ⟨some .number, numbers⟩, ⟨some .string, quotedTexts '"'⟩, ⟨some .string, quotedTexts '\''⟩,
   ⟨some .error, unfinishedTexts '"'⟩, ⟨some .error, unfinishedTexts '\''⟩] ++
    signs.map fun sign => ⟨some sign.1, only sign.2⟩

/-- The rules of words, for a language of names. -/
def rules (named : Language Char) : List Rule :=
  ⟨some .ident, named⟩ :: otherRules

/-- The rule for what no other rule matches: any single character of a line. -/
def unknownSigns : Rule :=
  ⟨some .error, oneOf (· ≠ '\n')⟩

/-! ## Languages of characters -/

variable {p : Char → Bool}

-- A language of single characters, and how it goes in front of another.
theorem singleton_mem_oneOf {c : Char} (h : p c) : [c] ∈ oneOf p :=
  ⟨c, h, rfl⟩

theorem cons_mem_oneOf_mul {l : Language Char} {c : Char} {w : List Char} (h : p c)
    (hw : w ∈ l) : c :: w ∈ oneOf p * l :=
  Language.append_mem_mul (singleton_mem_oneOf h) hw

theorem mem_oneOf_mul {l : Language Char} {w : List Char} :
    w ∈ oneOf p * l ↔ ∃ c v, p c ∧ v ∈ l ∧ w = c :: v := by
  constructor
  · rintro ⟨-, ⟨c, hc, rfl⟩, v, hv, rfl⟩
    exact ⟨c, v, hc, hv, rfl⟩
  · rintro ⟨c, v, hc, hv, rfl⟩
    exact cons_mem_oneOf_mul hc hv

theorem mem_only_mul {word : String} {l : Language Char} {w : List Char} :
    w ∈ only word * l ↔ ∃ v ∈ l, w = word.toList ++ v := by
  constructor
  · rintro ⟨-, rfl, v, hv, rfl⟩
    exact ⟨v, hv, rfl⟩
  · rintro ⟨v, hv, rfl⟩
    exact Language.append_mem_mul rfl hv

theorem append_mem_kstar {l : Language Char} {w v : List Char} (hw : w ∈ l) (hv : v ∈ l∗) :
    w ++ v ∈ l∗ := by
  rw [← Language.one_add_self_mul_kstar_eq_kstar]
  exact Or.inr (Language.append_mem_mul hw hv)

/-- What holds of nothing and of one word more holds of a repetition. -/
theorem kstar_induction {l : Language Char} {motive : List Char → Prop} (nil : motive [])
    (append : ∀ w ∈ l, ∀ v, motive v → motive (w ++ v)) : ∀ w ∈ l∗, motive w := by
  rintro - ⟨pieces, rfl, hpieces⟩
  induction pieces with
  | nil => exact nil
  | cons piece pieces ih =>
      rw [List.flatten_cons]
      exact append piece (hpieces piece List.mem_cons_self) _
        (ih fun other hother => hpieces other (List.mem_cons_of_mem _ hother))

/-- Characters repeated are a text of these characters. -/
theorem mem_kstar_oneOf {w : List Char} : w ∈ (oneOf p)∗ ↔ ∀ c ∈ w, p c := by
  constructor
  · refine kstar_induction (motive := fun w => ∀ c ∈ w, p c) (by simp) ?_ w
    rintro - ⟨c, hc, rfl⟩ v hv d hd
    rcases List.mem_cons.mp hd with rfl | hd
    · exact hc
    · exact hv d hd
  · intro h
    induction w with
    | nil => exact Language.nil_mem_kstar _
    | cons c w ih =>
        exact append_mem_kstar (singleton_mem_oneOf (h c List.mem_cons_self))
          (ih fun d hd => h d (List.mem_cons_of_mem c hd))

/-! ## Counters -/

/-- The counter takes the longest word of the language from the front of a text. -/
structure Munches (count : List Char → Nat) (words : Language Char) : Prop where
  /-- No word at the front is longer. -/
  le : ∀ word ∈ words, ∀ rest, word.length ≤ count (word ++ rest)
  /-- What is taken is a word. -/
  mem : ∀ cs : List Char, cs.take (count cs) ∈ words

/-- Two counters one after the other, where no word of the first language goes on with a
    word of the second. -/
theorem Munches.seq {f g : List Char → Nat} {l m : Language Char} (hf : Munches f l)
    (hg : Munches g m)
    (hends : ∀ w ∈ l, ∀ v ∈ m, v ≠ [] → ∀ rest, f (w ++ (v ++ rest)) = w.length) :
    Munches (fun cs => f cs + g (cs.drop (f cs))) (l * m) where
  le := by
    rintro - ⟨w, hw, v, hv, rfl⟩ rest
    rw [List.length_append, List.append_assoc]
    by_cases hnil : v = []
    · rw [hnil]
      exact Nat.le_add_right_of_le (hf.le w hw _)
    · rw [hends w hw v hv hnil, List.drop_left]
      exact Nat.add_le_add_left (hg.le v hv rest) _
  mem cs := by
    rw [List.take_add]
    exact Language.append_mem_mul (hf.mem cs) (hg.mem _)

theorem countWhile_append {w : List Char} (h : ∀ c ∈ w, p c) (rest : List Char) :
    Lexeme.countWhile p (w ++ rest) = w.length + Lexeme.countWhile p rest := by
  rw [Lexeme.countWhile, List.takeWhile_append_of_pos h, List.length_append]
  rfl

-- A count ends in front of a character that does not count.
theorem countWhile_append_of_head {w : List Char} (h : ∀ c ∈ w, p c) {d : Char} (hd : p d = false)
    (rest : List Char) : Lexeme.countWhile p (w ++ d :: rest) = w.length := by
  rw [countWhile_append h, Lexeme.countWhile_cons, hd]
  rfl

theorem forall_mem_take_countWhile (p : Char → Bool) (cs : List Char) :
    ∀ c ∈ cs.take (Lexeme.countWhile p cs), p c := by
  rw [Lexeme.countWhile, ← List.prefix_iff_eq_take.mp (List.takeWhile_prefix p)]
  exact fun c hc => List.mem_takeWhile_imp hc

/-- Counting characters munches their repetition. -/
theorem munches_countWhile (p : Char → Bool) :
    Munches (Lexeme.countWhile p) (oneOf p)∗ where
  le word hword rest := by
    rw [countWhile_append (mem_kstar_oneOf.mp hword)]
    exact Nat.le_add_right _ _
  mem cs := mem_kstar_oneOf.mpr (forall_mem_take_countWhile p cs)

/-! ## Numbers -/

/-- Digits are at least one. -/
theorem mem_digits {w : List Char} : w ∈ digits ↔ w ≠ [] ∧ ∀ c ∈ w, c.isDigit := by
  rw [digits, mem_oneOf_mul]
  constructor
  · rintro ⟨c, v, hc, hv, rfl⟩
    exact ⟨List.cons_ne_nil c v, List.forall_mem_cons.mpr ⟨hc, mem_kstar_oneOf.mp hv⟩⟩
  · rintro ⟨hnil, h⟩
    rcases List.exists_cons_of_ne_nil hnil with ⟨c, v, rfl⟩
    rw [List.forall_mem_cons] at h
    exact ⟨c, v, h.1, mem_kstar_oneOf.mpr h.2, rfl⟩

theorem take_digits_mem {cs : List Char} (h : Lexeme.countWhile Char.isDigit cs ≠ 0) :
    cs.take (Lexeme.countWhile Char.isDigit cs) ∈ digits := by
  refine mem_digits.mpr ⟨fun hnil => h ?_, forall_mem_take_countWhile _ cs⟩
  have hlength := congrArg List.length hnil
  rwa [List.length_take, Nat.min_eq_left (Lexeme.countWhile_le_length _ cs)] at hlength

/-- A point without digits behind it is no part of the number. -/
theorem munches_fraction : Munches Lexeme.fractionLength (1 + fractions) where
  le := by
    rintro word (rfl | hword) rest
    · exact Nat.zero_le _
    · rcases mem_only_mul.mp hword with ⟨ds, hds, rfl⟩
      -- Behind the dot there is a digit, so the counter does not come back to the dot.
      rcases mem_digits.mp hds with ⟨hnil, hdigits⟩
      have hlength := List.length_pos_of_ne_nil hnil
      change ds.length + 1 ≤ Lexeme.fractionLength ('.' :: (ds ++ rest))
      rw [Lexeme.fractionLength_dot, countWhile_append hdigits, if_neg (by omega)]
      omega
  mem cs := by
    cases cs with
    | nil => exact Or.inl rfl
    | cons c cs =>
        by_cases hc : c = '.'
        · rw [hc, Lexeme.fractionLength_dot]
          split
          · exact Or.inl rfl
          · next h => exact Or.inr (mem_only_mul.mpr ⟨_, take_digits_mem h, rfl⟩)
        · rw [Lexeme.fractionLength_of_ne hc]
          exact Or.inl rfl

/-- An exponent without digits behind its mark and its sign is no part of it either. -/
theorem munches_exponent : Munches Lexeme.exponentLength (1 + exponents) where
  le := by
    rintro word (rfl | hword) rest
    · exact Nat.zero_le _
    · rcases mem_oneOf_mul.mp hword with ⟨c, v, hc, ⟨sign, hsign, ds, hds, rfl⟩, rfl⟩
      rcases mem_digits.mp hds with ⟨hnil, hdigits⟩
      rcases List.exists_cons_of_ne_nil hnil with ⟨d, ds, rfl⟩
      -- A sign is skipped if there is one, and a digit is none.
      have hskip : Lexeme.signLength (sign ++ (d :: ds ++ rest)) = sign.length := by
        rcases hsign with rfl | ⟨s, hs, rfl⟩
        · have hd : d.isDigit := hdigits d List.mem_cons_self
          refine if_neg fun h => ?_
          rcases (by simpa using h : d = '+' ∨ d = '-') with rfl | rfl <;> cases hd
        · exact if_pos hs
      have hcount := countWhile_append hdigits rest
      rw [List.cons_append, List.append_assoc, Lexeme.exponentLength_cons,
        Lexeme.exponentTailLength, hskip, List.drop_left, hcount,
        if_pos ⟨by simpa using hc, by simp⟩, List.length_cons, List.length_append]
      omega
  mem cs := by
    cases cs with
    | nil => exact Or.inl rfl
    | cons c cs =>
        rw [Lexeme.exponentLength_cons]
        split
        · next h =>
          refine Or.inr (cons_mem_oneOf_mul (by simpa using h.1) ?_)
          rw [Lexeme.exponentTailLength, List.take_add]
          refine Language.append_mem_mul ?_ (take_digits_mem h.2)
          cases cs with
          | nil => exact Or.inl rfl
          | cons s cs =>
              rw [Lexeme.signLength]
              split
              · next hs => exact Or.inr (singleton_mem_oneOf hs)
              · exact Or.inl rfl
        · exact Or.inl rfl

/-- An exponent goes on with nothing that a number or a fraction goes on with. -/
theorem head_of_mem_exponents {v : List Char} (h : v ∈ exponents) :
    ∃ c w, v = c :: w ∧ c.isDigit = false ∧ c ≠ '.' := by
  rcases mem_oneOf_mul.mp h with ⟨c, w, hc, -, rfl⟩
  refine ⟨c, w, rfl, ?_⟩
  rcases (by simpa using hc : c = 'e' ∨ c = 'E') with rfl | rfl <;> decide

/-- A fraction ends where an exponent begins. -/
theorem munches_numberTail :
    Munches (fun cs => Lexeme.fractionLength cs +
      Lexeme.exponentLength (cs.drop (Lexeme.fractionLength cs)))
      ((1 + fractions) * (1 + exponents)) := by
  refine munches_fraction.seq munches_exponent ?_
  rintro f hf e (rfl | he) hnil rest
  · exact absurd rfl hnil
  · rcases head_of_mem_exponents he with ⟨d, v, rfl, hd, hdot⟩
    rcases hf with rfl | hf
    · exact Lexeme.fractionLength_of_ne hdot _
    · rcases mem_only_mul.mp hf with ⟨ds, hds, rfl⟩
      rcases mem_digits.mp hds with ⟨hne, hdigits⟩
      have hlength := List.length_pos_of_ne_nil hne
      change Lexeme.fractionLength ('.' :: (ds ++ d :: (v ++ rest))) = ds.length + 1
      rw [Lexeme.fractionLength_dot, countWhile_append_of_head hdigits hd, if_neg (by omega)]

/-- A fraction begins with a point and an exponent with its mark. -/
theorem head_of_mem_numberTail {v : List Char} (h : v ∈ (1 + fractions) * (1 + exponents))
    (hnil : v ≠ []) : ∃ d w, v = d :: w ∧ d.isDigit = false := by
  rcases h with ⟨f, rfl | hf, e, he, rfl⟩
  · rcases he with rfl | he
    · exact absurd rfl hnil
    · rcases head_of_mem_exponents he with ⟨d, w, rfl, hd, -⟩
      exact ⟨d, w, rfl, hd⟩
  · rcases mem_only_mul.mp hf with ⟨ds, -, rfl⟩
    exact ⟨'.', ds ++ e, rfl, rfl⟩

/-- The counter of numbers, which does not ask for a first digit. -/
theorem munches_number :
    Munches Lexeme.numberLength ((oneOf Char.isDigit)∗ * ((1 + fractions) * (1 + exponents))) := by
  have h := (munches_countWhile Char.isDigit).seq munches_numberTail ?_
  · rwa [← funext Lexeme.numberLength_eq] at h
  · rintro w hw v hv hnil rest
    rcases head_of_mem_numberTail hv hnil with ⟨d, v, rfl, hd⟩
    rw [List.cons_append, countWhile_append_of_head (mem_kstar_oneOf.mp hw) hd]

/-- What is counted behind a first digit is a number. -/
theorem take_number_mem {c : Char} (h : c.isDigit) (cs : List Char) :
    (c :: cs).take (Lexeme.numberLength (c :: cs)) ∈ numbers := by
  have hcount : Lexeme.countWhile Char.isDigit (c :: cs) ≠ 0 := by
    rw [Lexeme.countWhile_cons, if_pos h]
    exact Nat.succ_ne_zero _
  rw [Lexeme.numberLength_eq, List.take_add]
  exact Language.append_mem_mul (take_digits_mem hcount) (munches_numberTail.mem _)

/-! ## Names -/

theorem goes_kstar {w : List Char} (h : w ∈ (oneOf Lexeme.isNameChar)∗) :
    Lexeme.Goes .segment w .segment :=
  Lexeme.goes_chars (mem_kstar_oneOf.mp h)

/-- Behind a dot of either kind a segment may follow. -/
theorem goes_segment {state : Lexeme.NameState} (hstate : state = .dot ∨ state = .lastDot)
    {w : List Char} (h : w ∈ segments) : Lexeme.Goes state w .segment := by
  rcases mem_oneOf_mul.mp h with ⟨c, v, hc, hv, rfl⟩
  rcases hstate with rfl | rfl
  · exact (goes_kstar hv).cons (if_pos hc)
  · exact (goes_kstar hv).cons (if_pos hc)

/-- One dot or two lead out of it. -/
theorem goes_dots {w : List Char} (h : w ∈ only "." + only "..") :
    ∃ next, (next = .dot ∨ next = .lastDot) ∧ Lexeme.Goes .segment w next := by
  rcases h with rfl | rfl
  · exact ⟨.dot, Or.inl rfl, (Lexeme.goes_nil .dot).cons rfl⟩
  · exact ⟨.lastDot, Or.inr rfl, ((Lexeme.goes_nil .lastDot).cons rfl).cons rfl⟩

theorem goes_endings {w : List Char} (h : w ∈ nameEndings) :
    ∃ next, Lexeme.Goes .segment w next := by
  rcases h with ⟨v, hv, dots, hdots, rfl⟩
  have hsegments : Lexeme.Goes .segment v .segment := by
    refine kstar_induction (motive := fun v => Lexeme.Goes .segment v .segment)
      (Lexeme.goes_nil _) ?_ v hv
    rintro - ⟨mark, hmark, segment, hsegment, rfl⟩ more hmore
    rcases goes_dots hmark with ⟨between, hbetween, hgoes⟩
    exact (hgoes.append (goes_segment hbetween hsegment)).append hmore
  rcases hdots with rfl | hdots
  · exact ⟨.segment, hsegments.append (Lexeme.goes_nil _)⟩
  · rcases goes_dots hdots with ⟨next, -, hgoes⟩
    exact ⟨next, hsegments.append hgoes⟩

/-- What the reading of a name takes behind what it has read already. -/
def nameRests : Lexeme.NameState → Language Char
  | .opened =>
      1 + (only "." * (1 + segments * nameEndings) +
        oneOf Lexeme.isNameChar * ((oneOf Lexeme.isNameChar)∗ * nameEndings))
  | .segment => (oneOf Lexeme.isNameChar)∗ * nameEndings
  | .dot => 1 + (only "." * (1 + segments * nameEndings) + segments * nameEndings)
  | .lastDot => 1 + segments * nameEndings

/-- The reader of names gets through each word of the language of its state. -/
theorem exists_goes {state : Lexeme.NameState} {w : List Char} (h : w ∈ nameRests state) :
    ∃ next, Lexeme.Goes state w next := by
  have hlast : ∀ {state : Lexeme.NameState}, (state = .dot ∨ state = .lastDot) →
      ∀ {v : List Char}, v ∈ segments * nameEndings → ∃ next, Lexeme.Goes state v next := by
    rintro state hstate - ⟨segment, hsegment, ending, hending, rfl⟩
    rcases goes_endings hending with ⟨next, hgoes⟩
    exact ⟨next, (goes_segment hstate hsegment).append hgoes⟩
  have hdot : ∀ {state : Lexeme.NameState}, state.step '.' = some .lastDot →
      ∀ {v : List Char}, v ∈ only "." * (1 + segments * nameEndings) →
        ∃ next, Lexeme.Goes state v next := by
    intro state hstep v hv
    rcases mem_only_mul.mp hv with ⟨more, rfl | hmore, rfl⟩
    · exact ⟨.lastDot, (Lexeme.goes_nil _).cons hstep⟩
    · rcases hlast (Or.inr rfl) hmore with ⟨next, hgoes⟩
      exact ⟨next, hgoes.cons hstep⟩
  have hchars : ∀ {v : List Char}, v ∈ (oneOf Lexeme.isNameChar)∗ * nameEndings →
      ∃ next, Lexeme.Goes .segment v next := by
    rintro - ⟨chars, hchars, ending, hending, rfl⟩
    rcases goes_endings hending with ⟨next, hgoes⟩
    exact ⟨next, (goes_kstar hchars).append hgoes⟩
  -- The language of a state says what may come first, and each of these is a step.
  cases state with
  | opened =>
      rcases h with rfl | h | h
      · exact ⟨.opened, Lexeme.goes_nil _⟩
      · exact hdot rfl h
      · rcases mem_oneOf_mul.mp h with ⟨c, v, hc, hv, rfl⟩
        rcases hchars hv with ⟨next, hgoes⟩
        exact ⟨next, hgoes.cons (if_pos hc)⟩
  | segment => exact hchars h
  | dot =>
      rcases h with rfl | h | h
      · exact ⟨.dot, Lexeme.goes_nil _⟩
      · exact hdot rfl h
      · exact hlast (Or.inl rfl) h
  | lastDot =>
      rcases h with rfl | h
      · exact ⟨.lastDot, Lexeme.goes_nil _⟩
      · exact hlast (Or.inr rfl) h

/-- Dots behind a segment, with what may follow them. -/
theorem dots_append_mem {dots v : List Char} (hdots : dots ∈ only "." + only "..")
    (hv : v ∈ 1 + segments * nameEndings) : dots ++ v ∈ nameEndings := by
  rcases hv with rfl | ⟨segment, hsegment, -, ⟨more, hmore, last, hlast, rfl⟩, rfl⟩
  · exact ⟨[], Language.nil_mem_kstar _, _, Or.inr hdots, List.append_nil _ ▸ rfl⟩
  · refine ⟨_, append_mem_kstar (Language.append_mem_mul hdots hsegment) hmore, last, hlast, ?_⟩
    simp only [List.append_assoc]

/-- The characters that begin a segment of a name, or go on with one. -/
def segmentChars : Lexeme.NameState → Char → Bool
  | .opened => Lexeme.isNameChar
  | .segment => Lexeme.isNameChar
  | .dot => Lexeme.isNameStart
  | .lastDot => Lexeme.isNameStart

/-- A name goes on with a segment or with a dot. -/
theorem step_cases {state next : Lexeme.NameState} {c : Char} (hstep : state.step c = some next) :
    segmentChars state c ∧ next = .segment ∨ c = '.' ∧ state.step '.' = some next := by
  cases state with
  | opened | segment | dot =>
      simp only [Lexeme.NameState.step] at hstep
      split at hstep
      · next hc => exact Or.inl ⟨hc, (Option.some.inj hstep).symm⟩
      · split at hstep
        · next hc => exact Or.inr ⟨hc, hstep⟩
        · cases hstep
  | lastDot =>
      simp only [Lexeme.NameState.step] at hstep
      split at hstep
      · next hc => exact Or.inl ⟨hc, (Option.some.inj hstep).symm⟩
      · cases hstep

/-- In front of a segment a character makes the segment longer, or is its first one. -/
theorem segment_cons_mem_nameRests {state : Lexeme.NameState} {c : Char} {w : List Char}
    (hc : segmentChars state c) (hw : w ∈ nameRests .segment) : c :: w ∈ nameRests state := by
  cases state with
  | opened => exact Or.inr (Or.inr (cons_mem_oneOf_mul hc hw))
  | segment =>
      rcases hw with ⟨chars, hchars, ending, hending, rfl⟩
      exact Language.append_mem_mul (append_mem_kstar (singleton_mem_oneOf hc) hchars) hending
  | dot =>
      refine Or.inr (Or.inr ?_)
      rw [segments, mul_assoc]
      exact cons_mem_oneOf_mul hc hw
  | lastDot =>
      refine Or.inr ?_
      rw [segments, mul_assoc]
      exact cons_mem_oneOf_mul hc hw

/-- Behind a segment one dot or two go to the endings. Anywhere else a dot is the last one
    that the name can have in a row. -/
theorem dot_cons_mem_nameRests {state next : Lexeme.NameState} {w : List Char}
    (hstep : state.step '.' = some next) (hw : w ∈ nameRests next) :
    '.' :: w ∈ nameRests state := by
  cases state with
  | opened | dot =>
      obtain rfl : .lastDot = next := Option.some.inj hstep
      exact Or.inr (Or.inl (mem_only_mul.mpr ⟨w, hw, rfl⟩))
  | segment =>
      obtain rfl : .dot = next := Option.some.inj hstep
      -- Behind a segment the first dot may be one of two.
      have hone : ∀ {v : List Char}, v ∈ 1 + segments * nameEndings → '.' :: v ∈ nameEndings :=
        fun hv => dots_append_mem (Or.inl rfl) hv
      refine Language.append_mem_mul (Language.nil_mem_kstar _) ?_
      rcases hw with rfl | hw | hw
      · exact hone (Or.inl rfl)
      · rcases mem_only_mul.mp hw with ⟨v, hv, rfl⟩
        exact dots_append_mem (Or.inr rfl) hv
      · exact hone (Or.inr hw)
  | lastDot => cases hstep

/-- One step of the reader puts a character in front of what it takes afterwards. -/
theorem cons_mem_nameRests {state next : Lexeme.NameState} {c : Char} {w : List Char}
    (hstep : state.step c = some next) (hw : w ∈ nameRests next) : c :: w ∈ nameRests state := by
  rcases step_cases hstep with ⟨hc, rfl⟩ | ⟨rfl, hdot⟩
  · exact segment_cons_mem_nameRests hc hw
  · exact dot_cons_mem_nameRests hdot hw

/-- A name may end in any state. -/
theorem nil_mem_nameRests (state : Lexeme.NameState) : [] ∈ nameRests state := by
  cases state with
  | segment =>
      have hending : [] ∈ nameEndings := ⟨[], Language.nil_mem_kstar _, [], Or.inl rfl, rfl⟩
      exact ⟨[], Language.nil_mem_kstar _, [], hending, rfl⟩
  | opened => exact Or.inl rfl
  | dot => exact Or.inl rfl
  | lastDot => exact Or.inl rfl

/-- The counter of names, behind what it has read already. -/
theorem munches_name (state : Lexeme.NameState) :
    Munches (Lexeme.nameTailLength state) (nameRests state) where
  le word hword rest := by
    rcases exists_goes hword with ⟨next, hgoes⟩
    rw [hgoes rest]
    exact Nat.le_add_right _ _
  mem cs := by
    induction cs generalizing state with
    | nil => exact nil_mem_nameRests state
    | cons c cs ih =>
        rw [Lexeme.nameTailLength]
        cases hstep : state.step c with
        | none => exact nil_mem_nameRests state
        | some next => exact cons_mem_nameRests hstep (ih next)

/-! ## What a name should be -/

/-- Two dots stand in a row. -/
def HasDoubleDot (w : List Char) : Prop :=
  ['.', '.'] <:+: w

/-- Segments have no dots. -/
theorem dot_notMem_of_mem_segments {w : List Char} (h : w ∈ segments) : '.' ∉ w := by
  rcases mem_oneOf_mul.mp h with ⟨c, v, hc, hv, rfl⟩
  rw [List.mem_cons, not_or]
  refine ⟨?_, fun hmem => absurd (mem_kstar_oneOf.mp hv '.' hmem) (by decide)⟩
  rintro rfl
  exact absurd hc (by decide)

/-- Characters other than dots in front make no double dot. -/
theorem not_hasDoubleDot_append {w v : List Char} (hw : '.' ∉ w) (hv : ¬ HasDoubleDot v) :
    ¬ HasDoubleDot (w ++ v) := by
  induction w with
  | nil => exact hv
  | cons c w ih =>
      rw [List.mem_cons, not_or] at hw
      rw [List.cons_append, HasDoubleDot, List.infix_cons_iff]
      rintro (hfront | hmore)
      · exact hw.1 (List.cons_prefix_cons.mp hfront).1
      · exact ih hw.2 hmore

/-- In what a name should be, a segment stands behind each dot but the last. -/
theorem not_hasDoubleDot_of_mem_names {w : List Char} (h : w ∈ names) : ¬ HasDoubleDot w := by
  rcases h with ⟨first, hfirst, -, ⟨more, hmore, last, hlast, rfl⟩, rfl⟩
  refine not_hasDoubleDot_append (dot_notMem_of_mem_segments hfirst) ?_
  refine kstar_induction (motive := fun more => ¬ HasDoubleDot (more ++ last)) ?_ ?_ more hmore
  · rcases hlast with rfl | rfl
    · rintro hdots
      exact absurd (List.infix_nil.mp hdots) (by decide)
    · exact fun hdots => absurd hdots.length_le (by decide)
  · intro piece hpiece more hmore
    rcases mem_only_mul.mp hpiece with ⟨segment, hsegment, rfl⟩
    have hdot := dot_notMem_of_mem_segments hsegment
    have hrest := not_hasDoubleDot_append hdot hmore
    rcases mem_oneOf_mul.mp hsegment with ⟨c, v, -, -, rfl⟩
    change ¬ HasDoubleDot ('.' :: (c :: v ++ more) ++ last)
    rw [List.cons_append, List.append_assoc, HasDoubleDot, List.infix_cons_iff]
    rintro (hfront | hinside)
    · have hc : '.' = c := (List.cons_prefix_cons.mp (List.cons_prefix_cons.mp hfront).2).1
      exact hdot (hc ▸ List.mem_cons_self)
    · exact hrest hinside

-- A double dot is one in any longer text.
theorem HasDoubleDot.mono {w v : List Char} (h : HasDoubleDot w) (hinside : w <:+: v) :
    HasDoubleDot v :=
  List.IsInfix.trans h hinside

/-- Without a double dot the dots behind a segment are those of a name. -/
theorem mem_endings_of_not_hasDoubleDot {w : List Char} (h : w ∈ nameEndings)
    (hdots : ¬ HasDoubleDot w) : w ∈ (only "." * segments)∗ * (1 + only ".") := by
  rcases h with ⟨more, hmore, last, hlast, rfl⟩
  have hlast' : last ∈ 1 + only "." := by
    rcases hlast with hnil | hdot | rfl
    · exact Or.inl hnil
    · exact Or.inr hdot
    · exact absurd (List.suffix_append _ _).isInfix hdots
  refine ⟨more, ?_, last, hlast', rfl⟩
  -- A piece with two dots in front would be a double dot of the whole.
  refine kstar_induction (motive := fun more => ¬ HasDoubleDot (more ++ last) →
    more ∈ (only "." * segments)∗) ?_ ?_ more hmore hdots
  · exact fun _ => Language.nil_mem_kstar _
  · rintro - ⟨mark, hmark, segment, hsegment, rfl⟩ more ih hdots
    have hmore := ih fun h => hdots <| h.mono <| List.IsSuffix.isInfix
      ⟨mark ++ segment, (List.append_assoc _ _ _).symm⟩
    rcases hmark with hmark | rfl
    · exact append_mem_kstar (Language.append_mem_mul hmark hsegment) hmore
    · refine absurd (List.IsPrefix.isInfix ⟨segment ++ (more ++ last), ?_⟩) hdots
      exact (List.append_assoc _ _ _).trans (congrArg (_ ++ ·) (List.append_assoc _ _ _)) |>.symm

/-- What is read as a name is segments with dots between them. -/
theorem readNames_le {w : List Char} (h : w ∈ readNames) : w ∈ segments * nameEndings := by
  rcases mem_oneOf_mul.mp h with ⟨c, v, hc, hv, rfl⟩
  have hone : [c] ∈ segments := cons_mem_oneOf_mul hc (Language.nil_mem_kstar _)
  rcases hv with rfl | hv | hv
  · exact ⟨[c], hone, [], ⟨[], Language.nil_mem_kstar _, [], Or.inl rfl, rfl⟩, rfl⟩
  · rcases mem_only_mul.mp hv with ⟨more, hmore, rfl⟩
    exact ⟨[c], hone, _, dots_append_mem (Or.inl rfl) hmore, rfl⟩
  · rcases mem_oneOf_mul.mp hv with ⟨d, -, hd, ⟨chars, hchars, ending, hending, rfl⟩, rfl⟩
    have hall := append_mem_kstar (singleton_mem_oneOf hd) hchars
    exact ⟨c :: d :: chars, cons_mem_oneOf_mul hc hall, ending, hending, rfl⟩

/-- Single dots are among the marks that are read. -/
theorem kstar_marks {w : List Char} (h : w ∈ (only "." * segments)∗) :
    w ∈ ((only "." + only "..") * segments)∗ := by
  refine kstar_induction (motive := (· ∈ ((only "." + only "..") * segments)∗))
    (Language.nil_mem_kstar _) ?_ w h
  rintro - ⟨mark, hmark, segment, hsegment, rfl⟩ rest hrest
  exact append_mem_kstar (Language.append_mem_mul (Or.inl hmark) hsegment) hrest

/-- What should be a name is read as one. -/
theorem names_le_readNames {w : List Char} (h : w ∈ names) : w ∈ readNames := by
  rcases h with ⟨first, hfirst, -, ⟨more, hmore, last, hlast, rfl⟩, rfl⟩
  rcases mem_oneOf_mul.mp hfirst with ⟨c, chars, hc, hchars, rfl⟩
  have hlast' : last ∈ 1 + (only "." + only "..") := hlast.imp id Or.inl
  have hending : more ++ last ∈ nameEndings := Language.append_mem_mul (kstar_marks hmore) hlast'
  refine cons_mem_oneOf_mul hc ?_
  cases chars with
  -- With a second character the name is in its segment before any dot comes.
  | cons d chars =>
      have hall := mem_kstar_oneOf.mp hchars
      rw [List.forall_mem_cons] at hall
      exact Or.inr (Or.inr (cons_mem_oneOf_mul hall.1
        (Language.append_mem_mul (mem_kstar_oneOf.mpr hall.2) hending)))
  | nil =>
      -- Behind a single character the first dot is looked at apart.
      rw [← Language.one_add_self_mul_kstar_eq_kstar] at hmore
      rcases hmore with rfl | ⟨-, ⟨-, rfl, segment, hsegment, rfl⟩, rest, hrest, rfl⟩
      · rcases hlast with rfl | rfl
        · exact Or.inl rfl
        · exact Or.inr (Or.inl (mem_only_mul.mpr ⟨[], Or.inl rfl, rfl⟩))
      · refine Or.inr (Or.inl (mem_only_mul.mpr ⟨segment ++ (rest ++ last), Or.inr ?_, ?_⟩))
        · exact Language.append_mem_mul hsegment
            (Language.append_mem_mul (kstar_marks hrest) hlast')
        · simp only [List.append_assoc]
          rfl

/-- What is read as a name should be one if no two dots stand in a row. -/
theorem mem_names_iff {w : List Char} (h : w ∈ readNames) : w ∈ names ↔ ¬ HasDoubleDot w := by
  refine ⟨not_hasDoubleDot_of_mem_names, fun hdots => ?_⟩
  rcases readNames_le h with ⟨first, hfirst, ending, hending, rfl⟩
  exact Language.append_mem_mul hfirst <| mem_endings_of_not_hasDoubleDot hending fun h =>
    hdots (h.mono (List.suffix_append _ _).isInfix)

/-! ## Texts in quotes -/

/-- The line is over. -/
def EndsLine (behind : List Char) : Prop :=
  ∀ c ∈ behind.head?, c = '\n'

/-- The line is over, but for a backslash perhaps. -/
def EndsUnfinished (behind : List Char) : Prop :=
  EndsLine behind ∨ ∃ more, behind = '\\' :: more ∧ EndsLine more

-- The end of the text ends a line, and so does a line feed.
theorem endsLine_nil : EndsLine [] :=
  fun c hc => absurd hc (Option.not_mem_none c)

theorem endsLine_newline (behind : List Char) : EndsLine ('\n' :: behind) :=
  fun _ hc => (Option.some.inj hc).symm

section Quoted

variable {quote : Char}

/-- Behind characters that stand in quotes the reader goes on looking for the quote. -/
theorem quotedLength_append {w : List Char} (h : w ∈ quotedChars quote) (rest : List Char) :
    Lexeme.quotedLength quote (w ++ rest) = (Lexeme.quotedLength quote rest).shift w.length := by
  refine kstar_induction (motive := fun w => Lexeme.quotedLength quote (w ++ rest) =
    (Lexeme.quotedLength quote rest).shift w.length) rfl ?_ w h
  rintro piece (⟨c, hc, rfl⟩ | hescape) v hv
  · have hplain : c ≠ quote ∧ c ≠ '\\' ∧ c ≠ '\n' := by simpa [and_assoc] using hc
    rw [List.singleton_append, List.cons_append, Lexeme.quotedLength_of_ne quote hplain.2.1,
      if_neg hplain.2.2, if_neg hplain.1, hv]
    rfl
  · rcases mem_only_mul.mp hescape with ⟨-, ⟨c, hc, rfl⟩, rfl⟩
    change Lexeme.quotedLength quote ('\\' :: c :: (v ++ rest)) = _
    rw [Lexeme.quotedLength, if_neg (of_decide_eq_true hc), hv]
    rfl

/-- No text in quotes is longer than what is counted, be it closed or not. -/
theorem quotedLength_le (hquote : Text.IsQuote quote) {w : List Char}
    (h : w ∈ quotedChars quote + quotedChars quote * oneOf (· = quote)) (rest : List Char) :
    w.length ≤ (Lexeme.quotedLength quote (w ++ rest)).length := by
  rcases h with h | ⟨v, hv, -, ⟨c, hc, rfl⟩, rfl⟩
  · rw [quotedLength_append h]
    exact Nat.le_add_left _ _
  · obtain rfl : c = quote := of_decide_eq_true hc
    have hplain : c ≠ '\\' ∧ c ≠ '\n' := by
      rcases hquote with rfl | rfl <;> decide
    rw [List.append_assoc, quotedLength_append hv, List.singleton_append,
      Lexeme.quotedLength_of_ne c hplain.1, if_neg hplain.2, if_pos rfl, List.length_append]
    exact Nat.le_of_eq (Nat.add_comm _ _)

/-- What is counted is a text with its closing quote, or one that ends with its line. -/
theorem quotedLength_mem (quote : Char) (cs : List Char) :
    (Lexeme.quotedLength quote cs).closed = true ∧
        cs.take (Lexeme.quotedLength quote cs).length ∈ quotedChars quote * oneOf (· = quote) ∨
      (Lexeme.quotedLength quote cs).closed = false ∧
        cs.take (Lexeme.quotedLength quote cs).length ∈ quotedChars quote ∧
          EndsUnfinished (cs.drop (Lexeme.quotedLength quote cs).length) := by
  fun_induction Lexeme.quotedLength quote cs with
  | case1 => exact Or.inr ⟨rfl, Language.nil_mem_kstar _, Or.inl endsLine_nil⟩
  | case2 cs =>
      exact Or.inr ⟨rfl, Language.nil_mem_kstar _, Or.inr ⟨_, rfl, endsLine_newline cs⟩⟩
  | case3 c cs hc ih =>
      have hpair : ['\\', c] ∈ only "\\" * oneOf (· ≠ '\n') :=
        mem_only_mul.mpr ⟨[c], singleton_mem_oneOf (decide_eq_true hc), rfl⟩
      refine ih.imp ?_ ?_
      · rintro ⟨hclosed, v, hv, last, hlast, hsplit⟩
        refine ⟨hclosed, _, append_mem_kstar (Or.inr hpair) hv, last, hlast, ?_⟩
        exact congrArg (['\\', c] ++ ·) hsplit
      · rintro ⟨hclosed, hv, hends⟩
        exact ⟨hclosed, append_mem_kstar (Or.inr hpair) hv, hends⟩
  | case4 c cs hend hc =>
      refine Or.inr ⟨rfl, Language.nil_mem_kstar _, ?_⟩
      rcases (by simpa using hc : c = '\n' ∨ c = '\\') with rfl | rfl
      · exact Or.inl (endsLine_newline cs)
      · -- A backslash that takes nothing with it stands at the very end.
        cases cs with
        | nil => exact Or.inr ⟨[], rfl, endsLine_nil⟩
        | cons d ds => exact (hend d ds rfl rfl).elim
  | case5 cs _ hc =>
      exact Or.inl ⟨rfl, [], Language.nil_mem_kstar _, [quote], ⟨quote, by simp, rfl⟩, rfl⟩
  -- A plain character goes in front of whatever was found behind it.
  | case6 c cs _ hc hquote ih =>
      have hplain : [c] ∈ oneOf fun c => c ≠ quote && c ≠ '\\' && c ≠ '\n' :=
        singleton_mem_oneOf (by simp_all)
      refine ih.imp ?_ ?_
      · rintro ⟨hclosed, v, hv, last, hlast, hsplit⟩
        refine ⟨hclosed, _, append_mem_kstar (Or.inl hplain) hv, last, hlast, ?_⟩
        exact congrArg ([c] ++ ·) hsplit
      · rintro ⟨hclosed, hv, hends⟩
        exact ⟨hclosed, append_mem_kstar (Or.inl hplain) hv, hends⟩

end Quoted

end Rule

end StackScript
