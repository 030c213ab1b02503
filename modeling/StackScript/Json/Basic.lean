/-!
# JSON Values

The values of a JSON text. Numbers and strings are kept as they are written:
what a number is worth and which text a string denotes is asked for by whoever
needs it, and a value that nobody needs is never judged. A string that escapes
half of a surrogate pair, for example, is correct JSON and denotes no text.

## Main definitions

* `Json`: A value.
* `Json.ofText`, `Json.ofNat`: Writing a text or a number.
* `Json.text?`, `Json.natBelow?`: Reading a text or a number.
-/

namespace StackScript

/-- A JSON value. -/
inductive Json where
  | null
  | bool (value : Bool)
  /-- A number as it is written. -/
  | number (written : List Char)
  /-- A string as it is written between its quotes. -/
  | string (written : List Char)
  | array (items : List Json)
  /-- An object, with its names as they are written between their quotes. -/
  | object (members : List (List Char × Json))

namespace Json

/-- The hexadecimal digits in lower case, by their values. -/
def hexDigit (value : Nat) : Char :=
  if value < 10 then Char.ofNat (0x30 + value) else Char.ofNat (0x57 + value)

/-- The value of a hexadecimal digit in either case. -/
def hexValue? (c : Char) : Option Nat :=
  let n := c.toNat
  if 0x30 ≤ n && n ≤ 0x39 then some (n - 0x30)
  else if 0x41 ≤ n && n ≤ 0x46 then some (n - 0x37)
  else if 0x61 ≤ n && n ≤ 0x66 then some (n - 0x57)
  else none

/-- How a character is written in a string. Quotes, backslashes and the
    characters below the space are escaped, all others stand for themselves. -/
def escapeChar (c : Char) : List Char :=
  match c with
  | '"' => ['\\', '"']
  | '\\' => ['\\', '\\']
  | '\x08' => ['\\', 'b']
  | '\x0c' => ['\\', 'f']
  | '\n' => ['\\', 'n']
  | '\r' => ['\\', 'r']
  | '\t' => ['\\', 't']
  | c =>
      if c.toNat < 0x20 then
        ['\\', 'u', '0', '0', hexDigit (c.toNat / 16), hexDigit (c.toNat % 16)]
      else
        [c]

/-- How a text is written in a string. -/
def escape (cs : List Char) : List Char :=
  cs.flatMap escapeChar

/-- What a backslash makes of the letter behind it, the letter `u` apart. -/
def shortEscape? : Char → Option Char
  | '"' => some '"'
  | '\\' => some '\\'
  | '/' => some '/'
  | 'b' => some '\x08'
  | 'f' => some '\x0c'
  | 'n' => some '\n'
  | 'r' => some '\r'
  | 't' => some '\t'
  | _ => none

/-- The value of four hexadecimal digits. -/
def fourHex? (a b c d : Char) : Option Nat := do
  let a ← hexValue? a
  let b ← hexValue? b
  let c ← hexValue? c
  let d ← hexValue? d
  return ((a * 16 + b) * 16 + c) * 16 + d

/-- The number is the first half of a surrogate pair. -/
def isHighSurrogate (unit : Nat) : Bool :=
  0xD800 ≤ unit && unit ≤ 0xDBFF

/-- The number is the second half of a surrogate pair. -/
def isLowSurrogate (unit : Nat) : Bool :=
  0xDC00 ≤ unit && unit ≤ 0xDFFF

/-- The character that a surrogate pair stands for. -/
def ofSurrogates (high low : Nat) : Char :=
  Char.ofNat (0x10000 + (high - 0xD800) * 0x400 + (low - 0xDC00))

/-- The text that a written string denotes. Half a surrogate pair denotes
    nothing. -/
def unescape? : List Char → Option (List Char)
  | [] => some []
  | '\\' :: 'u' :: a :: b :: c :: d :: rest => do
      let unit ← fourHex? a b c d
      if isLowSurrogate unit then
        none
      else if isHighSurrogate unit then
        match rest with
        | '\\' :: 'u' :: e :: f :: g :: h :: behind =>
            let low ← fourHex? e f g h
            if isLowSurrogate low then
              return ofSurrogates unit low :: (← unescape? behind)
            else
              none
        | _ => none
      else
        return Char.ofNat unit :: (← unescape? rest)
  | '\\' :: c :: rest => do
      return (← shortEscape? c) :: (← unescape? rest)
  | ['\\'] => none
  | c :: rest => do
      return c :: (← unescape? rest)

/-- The string that denotes a text. -/
def ofText (text : String) : Json :=
  string (escape text.toList)

/-- The number in decimal digits. -/
def ofNat (n : Nat) : Json :=
  number (Nat.toDigits 10 n)

/-- The text that a string denotes. -/
def text? : Json → Option String
  | string written => (unescape? written).map String.ofList
  | _ => none

/-- The truth value. -/
def bool? : Json → Option Bool
  | bool value => some value
  | _ => none

/-- The items of an array. -/
def items? : Json → Option (List Json)
  | array items => some items
  | _ => none

/-- The natural number that some digits write, if there is no superfluous zero
    in front. -/
def natOfDigits? (digits : List Char) : Option Nat :=
  match digits with
  | [] => none
  | ['0'] => some 0
  | '0' :: _ => none
  | _ => if digits.all Char.isDigit then some (Nat.ofDigitChars 10 digits 0) else none

/-- The natural number below `limit` that a number without fraction, exponent
    and sign is worth. -/
def natBelow? (limit : Nat) : Json → Option Nat
  | number written => (natOfDigits? written).filter (· < limit)
  | _ => none

end Json

end StackScript
