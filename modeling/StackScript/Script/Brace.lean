import StackScript.Script.Occurrence

/-!
# Partners of Braces

Nothing in a token says which brace closes which. Two readers find out. One
starts at an opening brace and counts until the count is back at nothing; it
tells where a single block ends, also in a script whose other braces are in
disorder. The other keeps the open braces of the whole script on a stack and
reports those without a partner.

`untilClose` is the first reader once more, for who walks on from the opening
brace anyway: it cuts what follows into the inside of the block and the rest.

## Main definitions

* `blockEnd`: The index of the brace that closes a block.
* `BraceIssue`, `checkBraces`: The braces of a script without a partner.
* `Block`, `untilClose`: What follows an opening brace, cut at its partner.
-/

namespace StackScript

/-- How many tokens lie in front of the brace that closes the outermost of
    `depth` open blocks. A closing brace with no block open counts as closing
    one. -/
def closingDistance (depth : Nat) : List Token → Option Nat
  | [] => none
  | token :: tokens =>
      match token.kind with
      | .lBrace => (closingDistance (depth + 1) tokens).map (· + 1)
      | .rBrace =>
          -- with no block open the difference is nothing too, and the reader stops
          if depth - 1 = 0 then some 0 else (closingDistance (depth - 1) tokens).map (· + 1)
      | _ => (closingDistance depth tokens).map (· + 1)

/-- The index of the brace that closes the block opened at `start`, or `none`
    if the script ends first. -/
def blockEnd (tokens : List Token) (start : Nat) : Option Nat :=
  (closingDistance 0 (tokens.drop start)).map (start + ·)

/-- A brace without a partner. -/
inductive BraceIssue where
  /-- The opening brace at this index is never closed. -/
  | unterminated (index : Nat)
  /-- The closing brace at this index closes nothing. -/
  | unmatched (index : Nat)
  deriving DecidableEq, Repr

/-- The index of the brace. -/
def BraceIssue.index : BraceIssue → Nat
  | unterminated index => index
  | unmatched index => index

/-- The braces that a reader has not paired. -/
structure LooseBraces where
  /-- The opening braces still to be closed, the innermost first. -/
  openings : List Nat
  /-- The closing braces that closed nothing, the last first. -/
  closings : List Nat

/-- The reader passes one token, whose index is `index`. -/
def LooseBraces.pass (loose : LooseBraces) (kind : TokenKind) (index : Nat) : LooseBraces :=
  match kind, loose.openings with
  | .lBrace, openings => { loose with openings := index :: openings }
  | .rBrace, [] => { loose with closings := index :: loose.closings }
  | .rBrace, _ :: outer => { loose with openings := outer }
  | _, _ => loose

/-- The braces left without a partner behind the tokens, the first of which
    has the index `index`. -/
def LooseBraces.passAll (loose : LooseBraces) (index : Nat) : List Token → LooseBraces
  | [] => loose
  | token :: tokens => (loose.pass token.kind index).passAll (index + 1) tokens

/-- The braces of a script without a partner, in the order of the script. -/
def checkBraces (tokens : List Token) : List BraceIssue :=
  let loose := LooseBraces.passAll ⟨[], []⟩ 0 tokens
  (loose.closings.map BraceIssue.unmatched ++
    loose.openings.map BraceIssue.unterminated).mergeSort
    fun a b => a.index ≤ b.index

/-- What follows an opening brace. -/
structure Block where
  /-- The inside of the block. -/
  body : List Occurrence
  /-- The closing brace with what follows it, unless the script ends first. -/
  ending : Option (Occurrence × List Occurrence)

namespace Block

/-- The block with one more occurrence at the front of its inside. -/
def cons (place : Occurrence) (block : Block) : Block :=
  { block with body := place :: block.body }

/-- The closing brace. -/
def close? (block : Block) : Option Occurrence :=
  block.ending.map (·.1)

/-- What follows the block. -/
def rest (block : Block) : List Occurrence :=
  match block.ending with
  | some (_, rest) => rest
  | none => []

end Block

/-- What follows an opening brace, cut at its partner, with `depth` blocks open
    inside it. -/
def untilClose (depth : Nat) : List Occurrence → Block
  | [] => ⟨[], none⟩
  | place :: places =>
      match place.token.kind, depth with
      | .rBrace, 0 => ⟨[], some (place, places)⟩
      | .rBrace, outer + 1 => (untilClose outer places).cons place
      | .lBrace, depth => (untilClose (depth + 1) places).cons place
      | _, depth => (untilClose depth places).cons place

/-- What follows a block is a part of what follows its opening brace. -/
theorem untilClose_rest_length_le (depth : Nat) (places : List Occurrence) :
    (untilClose depth places).rest.length ≤ places.length := by
  fun_induction untilClose depth places with
  | case1 => simp [Block.rest]
  | case2 => simp [Block.rest]
  | case3 _ _ _ _ ih => exact Nat.le_succ_of_le ih
  | case4 _ _ _ _ ih => exact Nat.le_succ_of_le ih
  | case5 _ _ _ _ _ _ ih => exact Nat.le_succ_of_le ih

end StackScript
