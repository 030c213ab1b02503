import StackScript.Proofs.Source.Position
import StackScript.Scheme

/-!
# The Same Words Elsewhere

The same words can stand in two texts at different places. `TokenShift` says
what a reader may rely on when it is shown them in the other text: the kinds
and the texts of the words are the same, and every line has grown by the same
number. Byte offsets are left open, because no reader looks at them.

## Main definitions

* `Position.down`: A position some lines further down.
* `TokenShift`: The same words some lines further down.
* `TokenShift.unplaced`: The same words at the same lines.
-/

namespace StackScript

namespace Position

/-- The position some lines further down. -/
def down (lines : Nat) (p : Position) : Position :=
  ⟨p.line + lines, p.column⟩

@[simp]
theorem line_down (lines : Nat) (p : Position) : (p.down lines).line = p.line + lines := rfl

end Position

/-- The same words some lines further down. -/
structure TokenShift where
  /-- How many lines they are further down. -/
  lines : Nat
  /-- A word in the other text. -/
  token : Token → Token
  kind_token : ∀ word, (token word).kind = word.kind
  text_token : ∀ word, (token word).text = word.text
  position_token : ∀ word, (token word).position = word.position.down lines

namespace TokenShift

attribute [simp] kind_token text_token position_token

variable (shift : TokenShift)

-- Tests of kind and text have the same outcome.
@[simp]
theorem isIdent_token (word : Token) (text : String) :
    (shift.token word).isIdent text = word.isIdent text := by
  simp [Token.isIdent]

@[simp]
theorem isSignificant_token (word : Token) :
    (shift.token word).isSignificant = word.isSignificant := by
  simp [Token.isSignificant]

@[simp]
theorem isUnterminatedString_token (word : Token) :
    (shift.token word).isUnterminatedString = word.isUnterminatedString := by
  simp [Token.isUnterminatedString]

@[simp]
theorem declares?_token (word : Token) : (shift.token word).declares? = word.declares? := by
  simp [Token.declares?]

end TokenShift

/-- The token without its byte offset. -/
def Token.unplaced (token : Token) : Token :=
  { token with offset := 0 }

/-- The same words at the same lines, whatever their byte offsets. -/
def TokenShift.unplaced : TokenShift where
  lines := 0
  token := Token.unplaced
  kind_token _ := rfl
  text_token _ := rfl
  position_token _ := rfl

end StackScript
