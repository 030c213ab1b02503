import Mathlib.Data.List.TakeWhile
import StackScript.Json.Parse

/-!
# Texts and Numbers in JSON

A text is escaped character by character, and whoever reads the string back goes
through it twice: once to find its closing quote, and once to resolve the
escapes. Neither looks back, so both follow from what they make of the escape of
a single character. There are three kinds of these, `escapeChar_cases`: the
character itself, a backslash with a letter, and a backslash with four digits.

A number is written in decimal digits without a zero in front, which is what the
reader asks for.

## Theorems

* `unescape?_escape`: A string that was written for a text denotes it.
* `scanString?_escape`: It ends at the quote behind it.
* `natOfDigits?_toDigits`: Decimal digits are worth what they were written for.
* `isNumber_toDigits`: They write a number.
* `text?_ofText`, `natBelow?_ofNat`: Texts and numbers as values.
-/

namespace StackScript

namespace Json

/-! ## Texts -/

theorem fourHex?_hexDigit : ∀ n < 0x20,
    fourHex? '0' '0' (hexDigit (n / 16)) (hexDigit (n % 16)) = some n := by
  decide

/-- A character is written as itself, behind a backslash by a letter that stands for it, or
    by its number. -/
theorem escapeChar_cases (c : Char) :
    (escapeChar c = [c] ∧ ¬ c.toNat < 0x20 ∧ c ≠ '"' ∧ c ≠ '\\') ∨
      (∃ d, escapeChar c = ['\\', d] ∧ shortEscape? d = some c ∧ d ≠ 'u') ∨
        ∃ d e, escapeChar c = ['\\', 'u', '0', '0', d, e] ∧ fourHex? '0' '0' d e = some c.toNat ∧
          c.toNat < 0x20 := by
  unfold escapeChar
  split
  · exact Or.inr (Or.inl ⟨_, rfl, rfl, by decide⟩)
  · exact Or.inr (Or.inl ⟨_, rfl, rfl, by decide⟩)
  · exact Or.inr (Or.inl ⟨_, rfl, rfl, by decide⟩)
  · exact Or.inr (Or.inl ⟨_, rfl, rfl, by decide⟩)
  · exact Or.inr (Or.inl ⟨_, rfl, rfl, by decide⟩)
  · exact Or.inr (Or.inl ⟨_, rfl, rfl, by decide⟩)
  · exact Or.inr (Or.inl ⟨_, rfl, rfl, by decide⟩)
  · next hquote hslash _ _ _ _ _ =>
    -- What has no letter of its own is escaped by its number, if it is a control character.
    by_cases hsmall : c.toNat < 0x20
    · rw [if_pos hsmall]
      exact Or.inr (Or.inr ⟨_, _, rfl, fourHex?_hexDigit _ hsmall, hsmall⟩)
    · rw [if_neg hsmall]
      exact Or.inl ⟨rfl, hsmall, hquote, hslash⟩

theorem escape_cons (c : Char) (cs : List Char) : escape (c :: cs) = escapeChar c ++ escape cs :=
  List.flatMap_cons

/-- A character that is no backslash stands for itself. -/
theorem unescape?_of_ne {c : Char} (h : c ≠ '\\') (cs : List Char) :
    unescape? (c :: cs) = (unescape? cs).map (c :: ·) := by
  rw [unescape?]
  · cases unescape? cs <;> rfl
  · rintro a b d e rest rfl
    exact absurd rfl h
  · rintro a rest rfl
    exact absurd rfl h
  · rintro rfl
    exact absurd rfl h

/-- A backslash with a letter stands for one character. -/
theorem unescape?_short {c d : Char} (h : shortEscape? d = some c) (hd : d ≠ 'u')
    (cs : List Char) : unescape? ('\\' :: d :: cs) = (unescape? cs).map (c :: ·) := by
  rw [unescape?]
  · rw [h]
    cases unescape? cs <;> rfl
  · rintro a b d e rest rfl
    exact absurd rfl hd

theorem unescape?_small {c d e : Char} (h : fourHex? '0' '0' d e = some c.toNat)
    (hc : c.toNat < 0x20) (cs : List Char) :
    unescape? ('\\' :: 'u' :: '0' :: '0' :: d :: e :: cs) = (unescape? cs).map (c :: ·) := by
  have hlow : isLowSurrogate c.toNat = false := by
    rw [isLowSurrogate, decide_eq_false (by omega)]
    rfl
  have hhigh : isHighSurrogate c.toNat = false := by
    rw [isHighSurrogate, decide_eq_false (by omega)]
    rfl
  rw [unescape?, h]
  change (if isLowSurrogate c.toNat = true then none else _) = _
  rw [hlow, hhigh, if_neg Bool.false_ne_true, if_neg Bool.false_ne_true, Char.ofNat_toNat]
  cases unescape? cs <;> rfl

/-- A string that was written for a text denotes this text. -/
theorem unescape?_escape (cs : List Char) : unescape? (escape cs) = some cs := by
  induction cs with
  | nil => rfl
  | cons c cs ih =>
      rw [escape_cons]
      rcases escapeChar_cases c with
        ⟨hchar, -, -, hslash⟩ | ⟨d, hchar, hshort, hd⟩ | ⟨d, e, hchar, hhex, hsmall⟩
      · rw [hchar, List.singleton_append, unescape?_of_ne hslash, ih]
        rfl
      · rw [hchar]
        refine (unescape?_short hshort hd (escape cs)).trans ?_
        rw [ih]
        rfl
      · rw [hchar]
        refine (unescape?_small hhex hsmall (escape cs)).trans ?_
        rw [ih]
        rfl

/-- The scan goes on behind a character that is neither the quote nor a backslash. -/
theorem scanString?_of_ne {c : Char} (hlarge : ¬ c.toNat < 0x20) (hquote : c ≠ '"') (hslash : c ≠ '\\')
    (cs : List Char) :
    scanString? (c :: cs) = (scanString? cs).map fun (written, behind) => (c :: written, behind) := by
  rw [scanString?]
  · rw [if_neg (by simp [hlarge, hslash])]
  · exact fun h => absurd h hquote
  · rintro a b d e rest rfl
    exact absurd rfl hslash
  · rintro a rest rfl
    exact absurd rfl hslash

/-- The scan passes over a backslash together with its letter, so a quote behind one is no end. -/
theorem scanString?_short {c d : Char} (h : shortEscape? d = some c) (hd : d ≠ 'u')
    (cs : List Char) : scanString? ('\\' :: d :: cs) =
      (scanString? cs).map fun (written, behind) => ('\\' :: d :: written, behind) := by
  rw [scanString?]
  · rw [if_pos (by rw [h]; rfl)]
  · rintro a b d e rest rfl
    exact absurd rfl hd

theorem scanString?_hex {n : Nat} {a b d e : Char} (h : fourHex? a b d e = some n) (cs : List Char) :
    scanString? ('\\' :: 'u' :: a :: b :: d :: e :: cs) =
      (scanString? cs).map fun (written, behind) =>
        ('\\' :: 'u' :: a :: b :: d :: e :: written, behind) := by
  rw [scanString?, if_pos (by rw [h]; rfl)]

/-- The scan ends at the quote behind an escaped text. -/
theorem scanString?_escape (cs rest : List Char) :
    scanString? (escape cs ++ '"' :: rest) = some (escape cs, rest) := by
  induction cs with
  | nil => rfl
  | cons c cs ih =>
      rw [escape_cons]
      rcases escapeChar_cases c with
        ⟨hchar, hlarge, hquote, hslash⟩ | ⟨d, hchar, hshort, hd⟩ | ⟨d, e, hchar, hhex, -⟩
      · rw [hchar, List.singleton_append, List.cons_append,
          scanString?_of_ne hlarge hquote hslash, ih]
        rfl
      · rw [hchar]
        refine (scanString?_short hshort hd (escape cs ++ '"' :: rest)).trans ?_
        rw [ih]
        rfl
      · rw [hchar]
        refine (scanString?_hex hhex (escape cs ++ '"' :: rest)).trans ?_
        rw [ih]
        rfl

/-! ## Numbers -/

theorem isDigit_of_mem_toDigits {n : Nat} {c : Char} (h : c ∈ Nat.toDigits 10 n) :
    c.isDigit = true :=
  Nat.isDigit_of_mem_toDigits (by decide) (by decide) h

theorem digitChar_ne_zero : ∀ n < 10, 0 < n → Nat.digitChar n ≠ '0' := by
  decide

/-- The first digit is that of the number without its last one. -/
theorem head_toDigits {n : Nat} (h : 0 < n) {c : Char} {cs : List Char}
    (hdigits : Nat.toDigits 10 n = c :: cs) : c ≠ '0' := by
  induction n using Nat.strongRecOn generalizing cs with
  | ind n ih =>
      -- A longer number begins as its tenth part does.
      by_cases hsmall : n < 10
      · rw [Nat.toDigits_of_lt_base hsmall] at hdigits
        rw [← (List.cons.inj hdigits).1]
        exact digitChar_ne_zero n hsmall h
      · rw [Nat.toDigits_of_base_le (by decide) (by omega)] at hdigits
        cases hfront : Nat.toDigits 10 (n / 10) with
        | nil => exact absurd hfront Nat.toDigits_ne_nil
        | cons d ds =>
            rw [hfront] at hdigits
            rw [(List.cons.inj hdigits).1] at hfront
            exact ih (n / 10) (by omega) (by omega) hfront

/-- Decimal digits are worth the number that they were written for. -/
theorem natOfDigits?_toDigits (n : Nat) : natOfDigits? (Nat.toDigits 10 n) = some n := by
  have hvalue := Nat.ofDigitChars_ten_toDigits (n := n)
  unfold natOfDigits?
  split
  · next hnil => exact absurd hnil Nat.toDigits_ne_nil
  · next hzero =>
    rw [hzero] at hvalue
    rw [← hvalue]
    rfl
  · -- A number of several digits does not begin with a zero.
    next rest hrest hzero =>
    rcases Nat.eq_zero_or_pos n with rfl | hpos
    · exact absurd (List.cons.inj hzero.symm).2 hrest
    · exact absurd rfl (head_toDigits hpos hzero)
  · rw [if_pos (List.all_eq_true.mpr fun c hc => isDigit_of_mem_toDigits hc), hvalue]

/-- There is no sign in front, and no zero unless it is alone. -/
theorem isNumber_toDigits (n : Nat) : isNumber (Nat.toDigits 10 n) = true := by
  rcases Nat.eq_zero_or_pos n with rfl | hpos
  · decide
  cases hdigits : Nat.toDigits 10 n with
  | nil => exact absurd hdigits Nat.toDigits_ne_nil
  | cons c cs =>
      have hall : ∀ d ∈ c :: cs, d.isDigit = true := by
        rw [← hdigits]
        exact fun d hd => isDigit_of_mem_toDigits hd
      have hc : c.isDigit = true := hall c (List.mem_cons_self ..)
      have hzero : c ≠ '0' := head_toDigits hpos hdigits
      have hsign : c ≠ '-' := by
        rintro rfl
        exact absurd hc (by decide)
      -- Behind the first digit there are digits only, and nothing is left.
      have hcs : cs.dropWhile Char.isDigit = [] :=
        List.dropWhile_eq_nil_iff.mpr fun d hd => hall d (List.mem_cons_of_mem c hd)
      unfold isNumber
      dsimp only
      split
      · next rest hminus => exact absurd (List.cons.inj hminus).1 hsign
      · rw [dropWhole?, dropDigits?, if_pos hc, hcs]
        · rfl
        · exact fun rest hrest => hzero (List.cons.inj hrest).1

/-! ## Values -/

theorem text?_ofText (text : String) : (ofText text).text? = some text := by
  rw [ofText, text?, unescape?_escape, Option.map_some, String.ofList_toList]

theorem natBelow?_ofNat {n limit : Nat} (h : n < limit) : natBelow? limit (ofNat n) = some n := by
  rw [ofNat, natBelow?, natOfDigits?_toDigits, Option.filter_some, if_pos (decide_eq_true h)]

end Json

end StackScript
