import StackScript.Script.Brace

/-!
# The Two Readers of Braces Agree

`blockEnd` starts at one opening brace and counts; `checkBraces` reads the
whole script with a stack. Neither knows of the other, and scripts may be
unbalanced in any way, so that they say the same about every brace has to be
proved.

The link is the fate of a single opening brace on the stack, `passAll_opening`.
Take a reader whose stack holds the brace somewhere, with some braces inside
of it that are still open. While the reader passes further tokens, the count
that started at the brace is always one more than the number of open braces
inside. So either the brace is still on the stack at the end, and the count
goes on at the height of the stack above it, or it has been closed on the way,
and the count has come to nothing at the same token.

That braces nest needs no stack: `closingDistance_inner` says that a count
that has not come to its end yet passes over whole blocks only.

## Main definitions

* `kindAt`: The kind of the token at an index.
* `IsGroup`: An opening brace with the brace that closes it.
* `BracesAgree`: What the two readers have to do with each other.

## Theorems

* `closingDistance_add`: A count over two levels is one count after the other.
* `closingDistance_inner`: A block that begins inside a block ends inside it.
* `passAll_opening`: The fate of an opening brace.
* `unterminated_mem_checkBraces`: The opening braces that are reported.
* `unmatched_mem_checkBraces`: The closing braces that are reported.
* `bracesAgree`: The two readers agree on every list of tokens.
-/

namespace StackScript

/-- The kind of the token at an index. -/
def kindAt (tokens : List Token) (index : Nat) : Option TokenKind :=
  tokens[index]?.map Token.kind

/-- The script can be cut at an index. -/
theorem exists_split_of_kindAt {tokens : List Token} {index : Nat} {kind : TokenKind}
    (h : kindAt tokens index = some kind) :
    ∃ before token behind, tokens = before ++ token :: behind ∧ before.length = index ∧
      token.kind = kind := by
  rcases Option.map_eq_some_iff.mp h with ⟨token, hget, hkind⟩
  rcases List.getElem?_eq_some_iff.mp hget with ⟨hlt, hget⟩
  refine ⟨tokens.take index, token, tokens.drop (index + 1), ?_, ?_, hkind⟩
  · rw [← hget, List.getElem_cons_drop, List.take_append_drop]
  · rw [List.length_take, Nat.min_eq_left (Nat.le_of_lt hlt)]

theorem lt_of_kindAt {tokens : List Token} {index : Nat} {kind : TokenKind}
    (h : kindAt tokens index = some kind) : index < tokens.length := by
  rcases Option.map_eq_some_iff.mp h with ⟨token, hget, -⟩
  exact (List.getElem?_eq_some_iff.mp hget).1

-- The token behind a front has its length for an index.
theorem kindAt_append (before : List Token) (token : Token) (behind : List Token) :
    kindAt (before ++ token :: behind) before.length = some token.kind := by
  rw [kindAt, List.getElem?_append_right (Nat.le_refl _), Nat.sub_self]
  rfl

/-! ## Counting from an opening brace -/

section Counting

variable {token : Token} (depth : Nat) (tokens : List Token)

-- An opening brace has to be closed as well.
theorem closingDistance_lBrace (h : token.kind = .lBrace) :
    closingDistance depth (token :: tokens) = (closingDistance (depth + 1) tokens).map (· + 1) := by
  rw [closingDistance, h]

theorem closingDistance_rBrace_one (h : token.kind = .rBrace) :
    closingDistance 1 (token :: tokens) = some 0 := by
  rw [closingDistance, h]
  rfl

-- A closing brace closes one that is further inside.
theorem closingDistance_rBrace (h : token.kind = .rBrace) :
    closingDistance (depth + 2) (token :: tokens) =
      (closingDistance (depth + 1) tokens).map (· + 1) := by
  rw [closingDistance, h]
  rfl

/-- Any other token is passed over. -/
theorem closingDistance_of_ne (hl : token.kind ≠ .lBrace) (hr : token.kind ≠ .rBrace) :
    closingDistance depth (token :: tokens) = (closingDistance depth tokens).map (· + 1) := by
  rw [closingDistance]
  split
  · next h => exact absurd h hl
  · next h => exact absurd h hr
  · rfl

end Counting

/-- A count over two levels comes to the end of the inner one first and then
    counts the outer one from there. -/
theorem closingDistance_add (inner outer : Nat) (tokens : List Token) :
    closingDistance (inner + 1 + (outer + 1)) tokens =
      (closingDistance (inner + 1) tokens).bind fun n =>
        (closingDistance (outer + 1) (tokens.drop (n + 1))).map (· + (n + 1)) := by
  induction tokens generalizing inner with
  | nil => rfl
  | cons token tokens ih =>
      -- Where the first token closes nothing, everything is found one further on.
      have hlater : ∀ first : Option Nat,
          (first.bind fun n =>
              (closingDistance (outer + 1) (tokens.drop (n + 1))).map (· + (n + 1))).map (· + 1) =
            (first.map (· + 1)).bind fun n =>
              (closingDistance (outer + 1) ((token :: tokens).drop (n + 1))).map (· + (n + 1)) := by
        intro first
        cases first with
        | none => rfl
        | some n =>
            simp only [Option.bind_some, Option.map_some, List.drop_succ_cons, Option.map_map]
            rfl
      by_cases hl : token.kind = .lBrace
      · have hdeeper : inner + 1 + (outer + 1) + 1 = inner + 1 + 1 + (outer + 1) := by omega
        rw [closingDistance_lBrace _ _ hl, closingDistance_lBrace _ _ hl, hdeeper, ih]
        exact hlater _
      by_cases hr : token.kind = .rBrace
      · cases inner with
        | zero =>
            have hdeep : 0 + 1 + (outer + 1) = outer + 2 := by omega
            rw [hdeep, closingDistance_rBrace _ _ hr, closingDistance_rBrace_one _ hr]
            rfl
        | succ inner =>
            have hdeep : inner + 1 + 1 + (outer + 1) = inner + 1 + outer + 2 := by omega
            rw [hdeep, closingDistance_rBrace _ _ hr, closingDistance_rBrace _ _ hr,
              show inner + 1 + outer + 1 = inner + 1 + (outer + 1) by omega, ih]
            exact hlater _
      · rw [closingDistance_of_ne _ _ hl hr, closingDistance_of_ne _ _ hl hr, ih]
        exact hlater _

/-- A block that begins inside a block ends inside it: where a count has not
    come to its end yet, an opening brace has its partner in front of that
    end. -/
theorem closingDistance_inner {depth n i : Nat} {tokens : List Token}
    (hcount : closingDistance (depth + 1) tokens = some n) (hi : i < n)
    (hopen : kindAt tokens i = some .lBrace) :
    ∃ m, closingDistance 0 (tokens.drop i) = some m ∧ i + m < n := by
  induction tokens generalizing depth n i with
  | nil => cases hcount
  | cons token tokens ih =>
      have hrest : ∀ {d}, (closingDistance (d + 1) tokens).map (· + 1) = some n → 0 < i →
          ∃ m, closingDistance 0 ((token :: tokens).drop i) = some m ∧ i + m < n := by
        intro d hmap hpos
        rcases Option.map_eq_some_iff.mp hmap with ⟨n', hn', rfl⟩
        rcases Nat.exists_eq_add_of_lt hpos with ⟨i', rfl⟩
        rw [Nat.zero_add] at hi hopen ⊢
        rcases ih hn' (Nat.lt_of_succ_lt_succ hi) hopen with ⟨m, hm, hlt⟩
        exact ⟨m, hm, by omega⟩
      by_cases hl : token.kind = .lBrace
      · rw [closingDistance_lBrace _ _ hl] at hcount
        rcases Nat.eq_zero_or_pos i with rfl | hpos
        · -- The block begins here, and the count passes over it first.
          rcases Option.map_eq_some_iff.mp hcount with ⟨n', hn', rfl⟩
          rw [show depth + 1 + 1 = 0 + 1 + (depth + 1) by omega, closingDistance_add] at hn'
          rcases Option.bind_eq_some_iff.mp hn' with ⟨m, hm, hmap⟩
          rcases Option.map_eq_some_iff.mp hmap with ⟨k, -, rfl⟩
          refine ⟨m + 1, ?_, by omega⟩
          rw [List.drop_zero, closingDistance_lBrace _ _ hl, hm]
          rfl
        · exact hrest hcount hpos
      have hpos : 0 < i := by
        rcases Nat.eq_zero_or_pos i with rfl | hpos
        · exact absurd (Option.some.inj hopen) hl
        · exact hpos
      by_cases hr : token.kind = .rBrace
      · cases depth with
        | zero =>
            rw [closingDistance_rBrace_one _ hr, Option.some.injEq] at hcount
            omega
        | succ depth =>
            rw [closingDistance_rBrace _ _ hr] at hcount
            exact hrest hcount hpos
      · rw [closingDistance_of_ne _ _ hl hr] at hcount
        exact hrest hcount hpos

/-! ## Passing tokens with a stack -/

/-- Passing two lists is passing the one and then the other. -/
theorem passAll_append (loose : LooseBraces) (index : Nat) (before behind : List Token) :
    loose.passAll index (before ++ behind) =
      (loose.passAll index before).passAll (index + before.length) behind := by
  induction before generalizing loose index with
  | nil => rfl
  | cons token before ih =>
      rw [List.cons_append, LooseBraces.passAll, ih, LooseBraces.passAll, List.length_cons,
        Nat.add_assoc, Nat.add_comm 1]

/-- Only a brace changes what the reader holds. -/
theorem pass_of_ne (loose : LooseBraces) {kind : TokenKind} (index : Nat)
    (hl : kind ≠ .lBrace) (hr : kind ≠ .rBrace) : loose.pass kind index = loose := by
  unfold LooseBraces.pass
  split
  · exact absurd rfl hl
  · exact absurd rfl hr
  · exact absurd rfl hr
  · rfl

/-- A step puts nothing on the stack but the opening brace that it passes. -/
theorem mem_openings_pass {loose : LooseBraces} {kind : TokenKind} {index i : Nat}
    (h : i ∈ (loose.pass kind index).openings) :
    i ∈ loose.openings ∨ i = index ∧ kind = .lBrace := by
  unfold LooseBraces.pass at h
  split at h
  · exact (List.mem_cons.mp h).symm.imp_right fun heq => ⟨heq, rfl⟩
  · exact Or.inl h
  · next heq =>
    rw [heq]
    exact Or.inl (List.mem_cons_of_mem _ h)
  · exact Or.inl h

/-- A step reports nothing but the closing brace that it passes. -/
theorem mem_closings_pass {loose : LooseBraces} {kind : TokenKind} {index j : Nat}
    (h : j ∈ (loose.pass kind index).closings) :
    j ∈ loose.closings ∨ j = index ∧ kind = .rBrace := by
  unfold LooseBraces.pass at h
  split at h
  · exact Or.inl h
  · exact (List.mem_cons.mp h).symm.imp_right fun heq => ⟨heq, rfl⟩
  · exact Or.inl h
  · exact Or.inl h

/-- What has been reported stays reported. -/
theorem mem_closings_pass_of_mem {loose : LooseBraces} (kind : TokenKind) (index : Nat) {j : Nat}
    (h : j ∈ loose.closings) : j ∈ (loose.pass kind index).closings := by
  unfold LooseBraces.pass
  split
  · exact h
  · exact List.mem_cons_of_mem _ h
  · exact h
  · exact h

/-- What a reader of braces has kept it had before, or it has got it at a token that it has
    passed. The list is that of the opening braces or that of the closing ones, and `hstep`
    says where a single step takes an entry of it from. -/
theorem mem_passAll (list : LooseBraces → List Nat) {kind : TokenKind}
    (hstep : ∀ (loose : LooseBraces) (other : TokenKind) (index i : Nat),
      i ∈ list (loose.pass other index) → i ∈ list loose ∨ i = index ∧ other = kind)
    {loose : LooseBraces} {index i : Nat} {tokens : List Token}
    (h : i ∈ list (loose.passAll index tokens)) :
    i ∈ list loose ∨ index ≤ i ∧ kindAt tokens (i - index) = some kind := by
  induction tokens generalizing loose index with
  | nil => exact Or.inl h
  | cons token tokens ih =>
      -- An index that is added later stands behind, and one that is there has been there or
      -- is this one.
      rcases ih h with hmem | ⟨hle, hkind⟩
      · refine (hstep _ _ _ _ hmem).imp_right ?_
        rintro ⟨rfl, hkind⟩
        refine ⟨Nat.le_refl i, ?_⟩
        rw [Nat.sub_self, ← hkind]
        rfl
      · refine Or.inr ⟨by omega, ?_⟩
        rw [show i - index = i - (index + 1) + 1 by omega]
        exact hkind

theorem mem_openings_passAll {loose : LooseBraces} {index i : Nat} {tokens : List Token}
    (h : i ∈ (loose.passAll index tokens).openings) :
    i ∈ loose.openings ∨ index ≤ i ∧ kindAt tokens (i - index) = some .lBrace :=
  mem_passAll LooseBraces.openings (fun _ _ _ _ => mem_openings_pass) h

theorem mem_closings_passAll {loose : LooseBraces} {index j : Nat} {tokens : List Token}
    (h : j ∈ (loose.passAll index tokens).closings) :
    j ∈ loose.closings ∨ index ≤ j ∧ kindAt tokens (j - index) = some .rBrace :=
  mem_passAll LooseBraces.closings (fun _ _ _ _ => mem_closings_pass) h

/-- What has been reported stays reported. -/
theorem mem_closings_passAll_of_mem {loose : LooseBraces} (index : Nat) {j : Nat}
    (tokens : List Token) (h : j ∈ loose.closings) : j ∈ (loose.passAll index tokens).closings := by
  induction tokens generalizing loose index with
  | nil => exact h
  | cons token tokens ih => exact ih (index + 1) (mem_closings_pass_of_mem _ _ h)

/-- What the reader of a script holds are opening braces of the script, and what it reports
    are closing braces. -/
theorem kindAt_of_mem_openings {tokens : List Token} {i : Nat}
    (h : i ∈ (LooseBraces.passAll ⟨[], []⟩ 0 tokens).openings) :
    kindAt tokens i = some .lBrace := by
  rcases mem_openings_passAll h with hmem | ⟨-, hkind⟩
  · cases hmem
  · exact hkind

/-- From an empty stack all that is reported is a closing brace of the script. -/
theorem kindAt_of_mem_closings {tokens : List Token} {j : Nat}
    (h : j ∈ (LooseBraces.passAll ⟨[], []⟩ 0 tokens).closings) :
    kindAt tokens j = some .rBrace := by
  rcases mem_closings_passAll h with hmem | ⟨-, hkind⟩
  · cases hmem
  · exact hkind

/-- What has become of the opening brace `i` behind some tokens, when a count
    that started at it stood at `depth` in front of them and the reader is at
    `loose` now. Either the brace is still on the stack, and the count goes on
    at its height there; or it has been closed among the tokens, and the count
    has ended there, whatever follows. -/
def Fate (i depth : Nat) (outer : List Nat) (loose : LooseBraces) (tokens : List Token) : Prop :=
  (∃ inner, i ∉ inner ∧ loose.openings = inner ++ i :: outer ∧
    ∀ rest, closingDistance depth (tokens ++ rest) =
      (closingDistance (inner.length + 1) rest).map (· + tokens.length)) ∨
  (i ∉ loose.openings ∧
    ∃ n < tokens.length, ∀ rest, closingDistance depth (tokens ++ rest) = some n)

/-- A token that leaves the brace open moves its count by one. -/
theorem Fate.cons {i depth depth' : Nat} {outer : List Nat} {loose : LooseBraces} {token : Token}
    {tokens : List Token} (h : Fate i depth' outer loose tokens)
    (hcount : ∀ rest, closingDistance depth (token :: rest) =
      (closingDistance depth' rest).map (· + 1)) :
    Fate i depth outer loose (token :: tokens) := by
  rcases h with ⟨inner, hmem, hopenings, hrest⟩ | ⟨hmem, n, hn, hrest⟩
  · refine Or.inl ⟨inner, hmem, hopenings, fun rest => ?_⟩
    rw [List.cons_append, hcount, hrest, Option.map_map, List.length_cons]
    rfl
  · refine Or.inr ⟨hmem, n + 1, Nat.succ_lt_succ hn, fun rest => ?_⟩
    rw [List.cons_append, hcount, hrest]
    rfl

/-- The fate of an opening brace that is on the stack with the braces `inner`
    inside of it: a count that started at the brace stands at one more than
    their number. -/
theorem passAll_opening (tokens : List Token) {index i : Nat} {inner outer closings : List Nat}
    (hi : i < index) (hinner : i ∉ inner) (houter : i ∉ outer) :
    Fate i (inner.length + 1) outer
      (LooseBraces.passAll ⟨inner ++ i :: outer, closings⟩ index tokens) tokens := by
  induction tokens generalizing index inner closings with
  | nil =>
      refine Or.inl ⟨inner, hinner, rfl, fun rest => ?_⟩
      rw [List.nil_append, List.length_nil]
      exact Option.map_id'.symm
  | cons token tokens ih =>
      have hi' : i < index + 1 := Nat.lt_succ_of_lt hi
      by_cases hl : token.kind = .lBrace
      · -- One brace more is held inside of this one.
        have hdeeper : i ∉ index :: inner := by
          rw [List.mem_cons, not_or]
          exact ⟨Nat.ne_of_lt hi, hinner⟩
        rw [LooseBraces.passAll, hl]
        exact (ih hi' hdeeper).cons fun rest => closingDistance_lBrace _ rest hl
      by_cases hr : token.kind = .rBrace
      · rw [LooseBraces.passAll, hr]
        cases inner with
        | nil =>
            -- The brace itself is closed.
            refine Or.inr ⟨fun hmem => ?_, 0, Nat.succ_pos _, fun rest => ?_⟩
            · rcases mem_openings_passAll hmem with hmem | ⟨hle, -⟩
              · exact houter hmem
              · omega
            · exact closingDistance_rBrace_one _ hr
        | cons j inner =>
            have hshallower : i ∉ inner := List.not_mem_of_not_mem_cons hinner
            exact (ih hi' hshallower).cons fun rest => closingDistance_rBrace _ rest hr
      · rw [LooseBraces.passAll, pass_of_ne _ _ hl hr]
        exact (ih hi' hinner).cons fun rest => closingDistance_of_ne _ rest hl hr

/-! ## The reports -/

-- What is held at the end is reported as unterminated.
theorem unterminated_mem_checkBraces (tokens : List Token) (i : Nat) :
    .unterminated i ∈ checkBraces tokens ↔
      i ∈ (LooseBraces.passAll ⟨[], []⟩ 0 tokens).openings := by
  rw [checkBraces, List.mem_mergeSort, List.mem_append]
  simp

theorem unmatched_mem_checkBraces (tokens : List Token) (j : Nat) :
    .unmatched j ∈ checkBraces tokens ↔
      j ∈ (LooseBraces.passAll ⟨[], []⟩ 0 tokens).closings := by
  rw [checkBraces, List.mem_mergeSort, List.mem_append]
  simp

/-- From its opening brace on a block is counted behind that brace. -/
theorem blockEnd_append {token : Token} (h : token.kind = .lBrace) (before behind : List Token) :
    blockEnd (before ++ token :: behind) before.length =
      (closingDistance 1 behind).map (before.length + 1 + ·) := by
  rw [blockEnd, List.drop_left, closingDistance_lBrace _ _ h, Option.map_map]
  congr 1
  funext n
  simp only [Function.comp_apply]
  omega

/-- An opening brace with the brace that closes it. -/
def IsGroup (tokens : List Token) (first last : Nat) : Prop :=
  kindAt tokens first = some .lBrace ∧ blockEnd tokens first = some last

/-- A count ends at a closing brace. -/
theorem kindAt_closingDistance {depth n : Nat} {tokens : List Token}
    (h : closingDistance depth tokens = some n) : kindAt tokens n = some .rBrace := by
  induction tokens generalizing depth n with
  | nil => cases h
  | cons token tokens ih =>
      rw [closingDistance] at h
      split at h
      · rcases Option.map_eq_some_iff.mp h with ⟨m, hm, rfl⟩
        exact ih hm
      · next hr =>
        split at h
        · rw [← Option.some.inj h, ← hr]
          rfl
        · rcases Option.map_eq_some_iff.mp h with ⟨m, hm, rfl⟩
          exact ih hm
      · rcases Option.map_eq_some_iff.mp h with ⟨m, hm, rfl⟩
        exact ih hm

theorem kindAt_drop (tokens : List Token) (i n : Nat) :
    kindAt (tokens.drop i) n = kindAt tokens (i + n) := by
  rw [kindAt, kindAt, List.getElem?_drop]

/-- A block ends at a closing brace. -/
theorem kindAt_blockEnd {tokens : List Token} {i j : Nat} (h : blockEnd tokens i = some j) :
    kindAt tokens j = some .rBrace := by
  rcases Option.map_eq_some_iff.mp h with ⟨n, hn, rfl⟩
  rw [← kindAt_drop]
  exact kindAt_closingDistance hn

/-- The partner is found behind the brace. -/
theorem IsGroup.lt {tokens : List Token} {i j : Nat} (h : IsGroup tokens i j) : i < j := by
  rcases h with ⟨hopen, hend⟩
  have hclose := kindAt_blockEnd hend
  rcases Option.map_eq_some_iff.mp hend with ⟨n, -, rfl⟩
  rcases Nat.eq_zero_or_pos n with rfl | hpos
  · -- One token is not both an opening and a closing brace.
    rw [Nat.add_zero, hopen] at hclose
    cases hclose
  · exact Nat.lt_add_of_pos_right hpos

/-- A block that begins inside another ends inside it. -/
theorem IsGroup.inner {tokens : List Token} {i j i' : Nat} (h : IsGroup tokens i j)
    (hopen : kindAt tokens i' = some .lBrace) (hi : i < i') (hj : i' < j) :
    ∃ j', blockEnd tokens i' = some j' ∧ j' < j := by
  rcases h with ⟨hfirst, hend⟩
  rcases exists_split_of_kindAt hfirst with ⟨before, token, behind, rfl, rfl, hkind⟩
  rw [blockEnd_append hkind] at hend
  rcases Option.map_eq_some_iff.mp hend with ⟨n, hn, rfl⟩
  rcases Nat.exists_eq_add_of_lt hi with ⟨k, rfl⟩
  have hdrop : (before ++ token :: behind).drop (before.length + k + 1) = behind.drop k := by
    rw [Nat.add_assoc, List.drop_append, List.drop_eq_nil_of_le (by omega), List.nil_append,
      Nat.add_sub_cancel_left, List.drop_succ_cons]
  -- The inner brace, counted from behind the outer one.
  have hkindAt : kindAt behind k = some .lBrace := by
    have hhead := kindAt_drop behind k 0
    rw [← hdrop, kindAt_drop, Nat.add_zero, Nat.add_zero, hopen] at hhead
    exact hhead.symm
  rcases closingDistance_inner hn (by omega) hkindAt with ⟨m, hm, hlt⟩
  refine ⟨before.length + k + 1 + m, ?_, by omega⟩
  rw [blockEnd, hdrop, hm]
  rfl

/-- The fate of an opening brace of a script. -/
theorem fate_of_split {token : Token} (h : token.kind = .lBrace) (before behind : List Token) :
    Fate before.length 1 (LooseBraces.passAll ⟨[], []⟩ 0 before).openings
      (LooseBraces.passAll ⟨[], []⟩ 0 (before ++ token :: behind)) behind := by
  have hmem : before.length ∉ (LooseBraces.passAll ⟨[], []⟩ 0 before).openings :=
    fun hmem => Nat.lt_irrefl _ (lt_of_kindAt (kindAt_of_mem_openings hmem))
  rw [passAll_append, LooseBraces.passAll, h, Nat.zero_add]
  exact passAll_opening behind (Nat.lt_succ_self _) List.not_mem_nil hmem

/-- A closing brace closes the brace on the top of the stack. -/
theorem isGroup_of_top {before behind : List Token} {token : Token} {i : Nat} {outer : List Nat}
    (hr : token.kind = .rBrace)
    (htop : (LooseBraces.passAll ⟨[], []⟩ 0 before).openings = i :: outer) :
    IsGroup (before ++ token :: behind) i before.length := by
  have hmem : i ∈ (LooseBraces.passAll ⟨[], []⟩ 0 before).openings := by
    rw [htop]
    exact List.mem_cons_self
  rcases exists_split_of_kindAt (kindAt_of_mem_openings hmem) with
    ⟨first, opening, inside, rfl, rfl, hl⟩
  have hassoc : first ++ opening :: inside ++ token :: behind =
      first ++ opening :: (inside ++ token :: behind) := by
    rw [List.append_assoc, List.cons_append]
  rw [hassoc]
  refine ⟨?_, ?_⟩
  · rw [kindAt_append, hl]
  rcases fate_of_split hl first inside with ⟨inner, hinner, hopenings, hcount⟩ | ⟨hgone, -⟩
  · -- The brace on top has no open brace inside of it.
    have hnil : inner = [] := by
      cases inner with
      | nil => rfl
      | cons k inner =>
          rw [htop, List.cons_append, List.cons.injEq] at hopenings
          exact absurd (hopenings.1 ▸ List.mem_cons_self) hinner
    rw [blockEnd_append hl, hcount, hnil, List.length_nil,
      closingDistance_rBrace_one _ hr, List.length_append, List.length_cons]
    simp only [Option.map_some, Option.some.injEq]
    omega
  · exact absurd hmem hgone

/-- A closing brace that ends a block has met a stack that is not empty. -/
theorem openings_ne_nil_of_isGroup {before behind : List Token} {token : Token} {i : Nat}
    (h : IsGroup (before ++ token :: behind) i before.length) :
    (LooseBraces.passAll ⟨[], []⟩ 0 before).openings ≠ [] := by
  have hopen : kindAt before i = some .lBrace := by
    rw [← h.1, kindAt, kindAt, List.getElem?_append_left h.lt]
  rcases exists_split_of_kindAt hopen with ⟨first, opening, inside, rfl, rfl, hl⟩
  intro hnil
  -- The brace is held still, or its block has ended.
  rcases fate_of_split hl first inside with ⟨inner, -, hopenings, -⟩ | ⟨-, n, hn, hcount⟩
  · rw [hnil] at hopenings
    exact List.append_ne_nil_of_right_ne_nil inner (List.cons_ne_nil _ _) hopenings.symm
  · -- The block has ended in front of the brace.
    have hend := h.2
    rw [List.append_assoc, List.cons_append, blockEnd_append hl, hcount, Option.map_some,
      Option.some.injEq, List.length_append, List.length_cons] at hend
    omega

/-- What the two readers of braces have to do with each other. -/
structure BracesAgree (tokens : List Token) : Prop where
  /-- An opening brace is reported if it has no end. -/
  unterminated : ∀ i, kindAt tokens i = some .lBrace →
    (.unterminated i ∈ checkBraces tokens ↔ blockEnd tokens i = none)
  /-- A closing brace is reported if it is no end. -/
  unmatched : ∀ j, kindAt tokens j = some .rBrace →
    (.unmatched j ∈ checkBraces tokens ↔ ¬ ∃ i, IsGroup tokens i j)
  /-- No brace closes two blocks. -/
  opening_unique : ∀ i i' j, IsGroup tokens i j → IsGroup tokens i' j → i = i'
  /-- Of two blocks the later lies behind the earlier or strictly inside it. -/
  nested : ∀ i j i' j', IsGroup tokens i j → IsGroup tokens i' j' → i < i' →
    j < i' ∨ j' < j

/-- The two readers agree on every list of tokens. -/
theorem bracesAgree (tokens : List Token) : BracesAgree tokens where
  unterminated i hopen := by
    rcases exists_split_of_kindAt hopen with ⟨before, token, behind, rfl, rfl, hl⟩
    rw [unterminated_mem_checkBraces, blockEnd_append hl, Option.map_eq_none_iff]
    rcases fate_of_split hl before behind with ⟨inner, -, hopenings, hcount⟩ | ⟨hgone, n, -, hcount⟩
    · have hnone := hcount []
      rw [List.append_nil] at hnone
      rw [hopenings, hnone]
      exact iff_of_true (List.mem_append_right _ List.mem_cons_self) rfl
    · have hsome := hcount []
      rw [List.append_nil] at hsome
      rw [hsome]
      exact iff_of_false hgone (Option.some_ne_none n)
  unmatched j hclose := by
    rcases exists_split_of_kindAt hclose with ⟨before, token, behind, rfl, rfl, hr⟩
    rw [unmatched_mem_checkBraces, passAll_append, LooseBraces.passAll, hr, Nat.zero_add]
    -- A closing brace is reported if nothing is open in front of it, and else it closes
    -- what is on top.
    rcases htop : (LooseBraces.passAll ⟨[], []⟩ 0 before) with ⟨openings, closings⟩
    cases openings with
    | nil =>
        refine iff_of_true (mem_closings_passAll_of_mem _ _ List.mem_cons_self) ?_
        rintro ⟨i, hgroup⟩
        exact openings_ne_nil_of_isGroup hgroup (by rw [htop])
    | cons i outer =>
        refine iff_of_false (fun hmem => ?_) fun h => h ⟨i, isGroup_of_top hr (by rw [htop])⟩
        rcases mem_closings_passAll hmem with hmem | ⟨hle, -⟩
        · -- What was reported in front of the brace lies in front of it.
          have hfront : before.length ∈ (LooseBraces.passAll ⟨[], []⟩ 0 before).closings := by
            rw [htop]
            exact hmem
          exact Nat.lt_irrefl _ (lt_of_kindAt (kindAt_of_mem_closings hfront))
        · omega
  opening_unique i i' j h h' := by
    -- Of two braces with one partner the second would be inside of the first, and so would
    -- its partner.
    have hfirst : ∀ {a b}, IsGroup tokens a j → IsGroup tokens b j → ¬ a < b := by
      intro a b ha hb hlt
      rcases ha.inner hb.1 hlt hb.lt with ⟨j', hend, hj'⟩
      rw [hb.2, Option.some.injEq] at hend
      omega
    exact Nat.le_antisymm (Nat.le_of_not_lt (hfirst h' h)) (Nat.le_of_not_lt (hfirst h h'))
  nested i j i' j' h h' hlt := by
    -- The second block begins inside of the first, or behind it, but not at its closing
    -- brace.
    rcases Nat.lt_trichotomy i' j with hin | heq | hout
    · rcases h.inner h'.1 hlt hin with ⟨j'', hend, hj''⟩
      rw [h'.2, Option.some.injEq] at hend
      exact Or.inr (hend ▸ hj'')
    · have hclose := kindAt_blockEnd h.2
      rw [← heq, h'.1] at hclose
      cases hclose
    · exact Or.inl hout

end StackScript
