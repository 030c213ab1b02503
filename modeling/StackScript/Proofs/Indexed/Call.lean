import StackScript.Proofs.Indexed.Reference
import StackScript.Proofs.Script.Brace

/-!
# Calls in Open Blocks

The reader for calls keeps a stack of its own: for each block that is open it knows
whether declarations are in it. It pushes at every opening brace and pops at every closing
one, whether these have partners or not, and asks `blockEnd` for nothing.

`openBraces` is a third reader of braces beside `checkBraces` and `blockEnd`. It is the
first of them stopped at an index, so what is known of the fate of an opening brace says
that it stands for the second one, too: the braces on its stack are those whose blocks
have not ended, `mem_openBraces`. The stack of the reader for calls is the same stack with
each brace replaced by an answer, `declares`, and so the reader can be forgotten: what it
makes of a token depends on the place of the token only, `readCalls_eq`.

## Main definitions

* `openBraces`: The opening braces in front of an index whose blocks are open there.
* `Encloses`: The block of an opening brace reaches over a token.
* `declares`: The stack of the reader for calls.
* `callAt`: The call at an index.

## Theorems

* `mem_openBraces`: A brace is on the stack as long as its block goes on.
* `head?_declares`: Declarations are in a block that is opened for them, and in all in it.
* `readCalls_eq`: The calls of a script, place by place.
-/

namespace StackScript

variable {tokens : List Token} {i : Nat}

/-! ## Open braces -/

/-- The opening braces in front of an index whose blocks are open there, the innermost
    first. -/
def openBraces (tokens : List Token) (i : Nat) : List Nat :=
  (LooseBraces.passAll ⟨[], []⟩ 0 (tokens.take i)).openings

/-- The block of an opening brace reaches over the token at an index. It ends behind the
    token, or never. -/
def Encloses (tokens : List Token) (opening i : Nat) : Prop :=
  kindAt tokens opening = some .lBrace ∧ opening < i ∧
    ∀ close, blockEnd tokens opening = some close → i < close

/-- A token more opens a block, or closes the innermost one, or changes nothing. -/
theorem openBraces_succ {token : Token} (hget : tokens[i]? = some token) :
    openBraces tokens (i + 1) = match token.kind with
      | .lBrace => i :: openBraces tokens i
      | .rBrace => (openBraces tokens i).tail
      | _ => openBraces tokens i := by
  have hlt := (List.getElem?_eq_some_iff.mp hget).1
  rw [openBraces, List.take_add_one, hget, Option.toList_some, passAll_append, List.length_take,
    Nat.min_eq_left (Nat.le_of_lt hlt), Nat.zero_add, LooseBraces.passAll, LooseBraces.passAll,
    LooseBraces.pass.eq_def, openBraces]
  cases token.kind <;> try rfl
  -- A closing brace that closes nothing leaves the empty stack as it is.
  rcases LooseBraces.passAll ⟨[], []⟩ 0 (tokens.take i) with ⟨_ | ⟨opening, outer⟩, closings⟩
  · rfl
  · rfl

/-- The fate of an opening brace, by the end of its block. -/
theorem mem_openings_iff {token : Token} (hl : token.kind = .lBrace)
    (before behind rest : List Token) :
    before.length ∈ (LooseBraces.passAll ⟨[], []⟩ 0 (before ++ token :: behind)).openings ↔
      ∀ close, blockEnd (before ++ token :: (behind ++ rest)) before.length = some close →
        before.length + 1 + behind.length ≤ close := by
  rw [blockEnd_append hl]
  -- Either the brace is held, and its partner is not among the tokens in front, or it is
  -- not, and it is.
  rcases fate_of_split hl before behind with
    ⟨inner, -, hopenings, hcount⟩ | ⟨hgone, n, hn, hcount⟩
  · refine iff_of_true ?_ fun close hclose => ?_
    · rw [hopenings]
      exact List.mem_append_right _ List.mem_cons_self
    · rw [hcount, Option.map_map] at hclose
      rcases Option.map_eq_some_iff.mp hclose with ⟨distance, -, rfl⟩
      simp only [Function.comp_apply]
      omega
  · refine iff_of_false hgone fun h => ?_
    have hle := h (before.length + 1 + n) (by rw [hcount, Option.map_some])
    omega

/-- A brace is on the stack as long as its block goes on. -/
theorem mem_openBraces {opening : Nat} :
    opening ∈ openBraces tokens i ↔ kindAt tokens opening = some .lBrace ∧ opening < i ∧
      ∀ close, blockEnd tokens opening = some close → i ≤ close := by
  by_cases hkind : kindAt (tokens.take i) opening = some .lBrace
  · have hlt := lt_of_kindAt hkind
    rw [List.length_take] at hlt
    have hkind' := hkind
    rw [kindAt, List.getElem?_take_of_lt (by omega), ← kindAt] at hkind'
    rcases exists_split_of_kindAt hkind with ⟨before, token, behind, htake, rfl, hl⟩
    have hlength := congrArg List.length htake
    rw [List.length_take, List.length_append, List.length_cons] at hlength
    -- The script is cut at the brace and at the index.
    have htokens : tokens = before ++ token :: (behind ++ tokens.drop i) := by
      rw [← List.cons_append, ← List.append_assoc, ← htake, List.take_append_drop]
    rw [openBraces, htake, mem_openings_iff hl before behind (tokens.drop i), ← htokens]
    constructor
    · intro h
      refine ⟨hkind', by omega, fun close hclose => ?_⟩
      have hle := h close hclose
      have hend := lt_of_kindAt (kindAt_blockEnd hclose)
      omega
    · intro h close hclose
      have hle := h.2.2 close hclose
      omega
  · refine iff_of_false (fun h => hkind (kindAt_of_mem_openings h)) fun h => hkind ?_
    rw [kindAt, List.getElem?_take_of_lt h.2.1, ← kindAt]
    exact h.1

/-- The blocks that are open at a token that is no closing brace are those that reach over
    it. -/
theorem mem_openBraces_iff_encloses {token : Token} (hget : tokens[i]? = some token)
    (hkind : token.kind ≠ .rBrace) {opening : Nat} :
    opening ∈ openBraces tokens i ↔ Encloses tokens opening i := by
  have hend : ∀ close, blockEnd tokens opening = some close → close ≠ i := by
    rintro close hclose rfl
    have hbrace := kindAt_blockEnd hclose
    rw [kindAt, hget, Option.map_some, Option.some.injEq] at hbrace
    exact hkind hbrace
  rw [mem_openBraces, Encloses]
  constructor
  · rintro ⟨hopen, hlt, hle⟩
    exact ⟨hopen, hlt, fun close hclose =>
      Nat.lt_of_le_of_ne (hle close hclose) (hend close hclose).symm⟩
  · rintro ⟨hopen, hlt, hbehind⟩
    exact ⟨hopen, hlt, fun close hclose => Nat.le_of_lt (hbehind close hclose)⟩

/-! ## The stack of the reader -/

/-- For each brace of a stack, whether the reader for calls takes its block to hold
    declarations: it is opened for them, or the block around it holds them. -/
def declares (tokens : List Token) : List Nat → List Bool
  | [] => []
  | opening :: outer =>
      (decide ((declares tokens outer).head? = some true) ||
        opensDeclarations (wordsBefore tokens opening)) :: declares tokens outer

-- The answer for a block does not depend on what is open inside of it.
theorem declares_tail (openings : List Nat) :
    declares tokens openings.tail = (declares tokens openings).tail := by
  cases openings <;> rfl

/-- Declarations are in a block that is opened for them, and in all blocks in it. -/
theorem head?_declares (openings : List Nat) :
    (declares tokens openings).head? = some true ↔
      ∃ opening ∈ openings, opensDeclarations (wordsBefore tokens opening) := by
  induction openings with
  | nil => simp [declares]
  | cons opening outer ih =>
      rw [declares, List.head?_cons, Option.some.injEq, Bool.or_eq_true, decide_eq_true_eq, ih,
        or_comm]
      simp only [List.mem_cons, exists_eq_or_imp]

/-- Whether the token at an index is among declarations. -/
def isDeclaring (tokens : List Token) (i : Nat) : Bool :=
  (declares tokens (openBraces tokens i)).head? = some true

/-- The call at an index. -/
def callAt (tokens : List Token) (i : Nat) : Option Call :=
  match tokens[i]? with
  | none => none
  | some word =>
      if word.kind = .ident then
        (called? (isDeclaring tokens i) (wordsBefore tokens i) word
          (wordsFrom tokens (i + 1))).map fun kind => ⟨word.text, word.position, kind⟩
      else
        none

/-- One step of the reader for calls: it goes on with the stack behind the word, and lists
    the call of the word. -/
theorem callsAfter_cons {word : Token} (hget : tokens[i]? = some word) (after : List Token)
    (hafter : after = wordsFrom tokens (i + 1)) :
    callsAfter (declares tokens (openBraces tokens i)) (wordsBefore tokens i) (word :: after) =
      (callAt tokens i).toList ++
        callsAfter (declares tokens (openBraces tokens (i + 1)))
          (word :: wordsBefore tokens i) after := by
  -- A name may be a call, anything else changes the stack at most.
  by_cases hident : word.kind = .ident
  · rw [callsAfter_ident _ _ hident, callAt, hget, openBraces_succ hget, hident]
    dsimp only
    rw [if_pos hident, ← hafter, isDeclaring]
    cases called? (decide ((declares tokens (openBraces tokens i)).head? = some true))
      (wordsBefore tokens i) word after <;> rfl
  · have hnone : callAt tokens i = none := by
      rw [callAt, hget]
      dsimp only
      rw [if_neg hident]
    rw [hnone, Option.toList_none, List.nil_append, openBraces_succ hget, callsAfter.eq_def]
    dsimp only
    cases hkind : word.kind <;> try rfl
    · exact absurd hkind hident
    · dsimp only
      rw [declares_tail]

/-- From an index on the reader lists the calls of the tokens there, place by place. -/
theorem callsAfter_eq (tokens : List Token) (i : Nat) :
    callsAfter (declares tokens (openBraces tokens i)) (wordsBefore tokens i)
        (wordsFrom tokens i) =
      (List.range' i (tokens.length - i)).filterMap (callAt tokens) := by
  induction hn : tokens.length - i generalizing i with
  | zero =>
      rw [wordsFrom_of_length_le (Nat.le_of_sub_eq_zero hn)]
      rfl
  | succ n ih =>
      have hlt : i < tokens.length := Nat.lt_of_sub_pos (by omega)
      have hget := List.getElem?_eq_getElem hlt
      have hbehind := ih (i + 1) (by omega)
      rw [wordsBefore_succ hlt] at hbehind
      rw [wordsFrom_of_lt hlt, List.range'_succ, List.filterMap_cons]
      -- The reader sees words only, so a comment changes neither its stack nor its list.
      by_cases hword : tokens[i].isSignificant
      · rw [if_pos hword] at hbehind ⊢
        rw [callsAfter_cons hget _ rfl, hbehind]
        cases callAt tokens i <;> rfl
      · have hkind := kind_of_comment hword
        have hnone : callAt tokens i = none := by
          rw [callAt, hget]
          dsimp only
          rw [hkind]
          rfl
        rw [if_neg hword, openBraces_succ hget, hkind] at hbehind
        rw [if_neg hword, hnone, hbehind]

/-- The calls of a script, place by place. -/
theorem readCalls_eq (tokens : List Token) :
    readCalls tokens = (List.range tokens.length).filterMap (callAt tokens) := by
  have hall := callsAfter_eq tokens 0
  rw [Nat.sub_zero, ← List.range_eq_range'] at hall
  exact hall

end StackScript
