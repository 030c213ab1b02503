import Mathlib.Combinatorics.Enumerative.DyckWord
import Mathlib.Data.Nat.Dist
import StackScript.Proofs.Script.Loose

/-!
# Loose Braces as a Repair

The braces that are reported are the ones to delete: without them the script is in order,
and no fewer deletions put it in order. The reader takes every decision at once and never
comes back to one, so neither is to be seen in a single step.

That the deletions do put the script in order follows from what the reader knows in the
end. Run a second reader over what is left of the script, next to the first one. It holds
those opening braces of the first that will still be closed, `LooseBraces.Mirrors`, and a
closing brace that the first has no partner for never comes to it.

That fewer deletions do not, needs no look at which braces they are. Two readers that hold
different numbers of braces come no further apart when they pass the same token, and by one
at most when only one of them passes a token. So with `n` deletions the counts at the end
differ by `n` at most, and without loose braces on the one side there are `n` at most on the
other.

Scripts in order are those whose braces are a Dyck word.

## Main definitions

* `withoutAt`: A script without the tokens at some indices.
* `braceSteps`, `BracesBalanced`: The braces of a script as steps up and down.
* `LooseBraces.distance`: How far two readers are apart.
* `MinimalRepair`: What the reports say about a script.

## Theorems

* `checkBraces_eq_nil_iff`: Nothing is reported exactly if the braces are balanced.
* `passAll_withoutAt_distance`: Deletions take two readers apart by their number at most.
* `Mirrors.passAll`: Without the loose braces nothing is loose.
* `checkBraces_minimalRepair`: The reports are a minimal repair.
-/

namespace StackScript

/-- The tokens whose indices are not among the given ones; the first has the index
    `index`. -/
def withoutAt (indices : Finset Nat) (index : Nat) : List Token → List Token
  | [] => []
  | token :: tokens =>
      if index ∈ indices then withoutAt indices (index + 1) tokens
      else token :: withoutAt indices (index + 1) tokens

/-- A brace as a step up or down. -/
def TokenKind.braceStep? : TokenKind → Option DyckStep
  | .lBrace => some .U
  | .rBrace => some .D
  | _ => none

/-- The braces of a script as steps up and down. -/
def braceSteps (tokens : List Token) : List DyckStep :=
  tokens.filterMap fun token => token.kind.braceStep?

/-- Every brace has its partner. -/
def BracesBalanced (tokens : List Token) : Prop :=
  ∃ word : DyckWord, word.toList = braceSteps tokens

/-! ## Nothing is reported -/

section Steps

variable {token : Token} (tokens : List Token)

theorem braceSteps_lBrace (h : token.kind = .lBrace) :
    braceSteps (token :: tokens) = .U :: braceSteps tokens := by
  rw [braceSteps, List.filterMap_cons_some (b := .U) (by rw [h]; rfl)]
  rfl

theorem braceSteps_rBrace (h : token.kind = .rBrace) :
    braceSteps (token :: tokens) = .D :: braceSteps tokens := by
  rw [braceSteps, List.filterMap_cons_some (b := .D) (by rw [h]; rfl)]
  rfl

theorem braceSteps_of_ne (hl : token.kind ≠ .lBrace) (hr : token.kind ≠ .rBrace) :
    braceSteps (token :: tokens) = braceSteps tokens := by
  refine List.filterMap_cons_none ?_
  unfold TokenKind.braceStep?
  split
  · contradiction
  · contradiction
  · rfl

end Steps

namespace LooseBraces

-- An opening brace is loose until its partner comes.
theorem length_pass_lBrace (loose : LooseBraces) (index : Nat) :
    (loose.pass .lBrace index).openings.length = loose.openings.length + 1 ∧
      (loose.pass .lBrace index).closings.length = loose.closings.length :=
  ⟨rfl, rfl⟩

/-- A closing brace with nothing open stays loose. -/
theorem pass_rBrace_of_nil {loose : LooseBraces} {index : Nat} (h : loose.openings = []) :
    loose.pass .rBrace index = ⟨[], index :: loose.closings⟩ := by
  rcases loose with ⟨openings, closings⟩
  cases h
  rfl

/-- With something open it closes the innermost. -/
theorem pass_rBrace_of_cons {loose : LooseBraces} {index i : Nat} {outer : List Nat}
    (h : loose.openings = i :: outer) :
    loose.pass .rBrace index = ⟨outer, loose.closings⟩ := by
  rcases loose with ⟨openings, closings⟩
  cases h
  rfl

/-- A closing brace takes an opening one off the stack or, if there is none, is loose
    itself. -/
theorem length_pass_rBrace (loose : LooseBraces) (index : Nat) :
    (loose.pass .rBrace index).openings.length = loose.openings.length - 1 ∧
      (loose.pass .rBrace index).closings.length =
        loose.closings.length + (1 - loose.openings.length) := by
  rcases hopen : loose.openings with _ | ⟨i, outer⟩
  · rw [pass_rBrace_of_nil hopen]
    exact ⟨rfl, rfl⟩
  · rw [pass_rBrace_of_cons hopen, List.length_cons]
    refine ⟨rfl, ?_⟩
    rw [Nat.sub_eq_zero_of_le (Nat.le_add_left _ _), Nat.add_zero]

/-- Every brace is paired or loose. -/
theorem passAll_count (loose : LooseBraces) (index : Nat) (tokens : List Token) :
    (loose.passAll index tokens).openings.length + loose.closings.length +
        (braceSteps tokens).count .D =
      (loose.passAll index tokens).closings.length + loose.openings.length +
        (braceSteps tokens).count .U := by
  -- Both sides grow together at a brace, whether it finds a partner or not.
  induction tokens generalizing loose index with
  | nil =>
      rw [passAll, braceSteps, List.filterMap_nil, List.count_nil, List.count_nil]
      omega
  | cons token tokens ih =>
      have hrest := ih (loose.pass token.kind index) (index + 1)
      rw [passAll]
      by_cases hl : token.kind = .lBrace
      · have hpass := length_pass_lBrace loose index
        rw [braceSteps_lBrace _ hl, List.count_cons_self, List.count_cons_of_ne (by decide)]
        rw [hl] at hrest ⊢
        omega
      by_cases hr : token.kind = .rBrace
      · have hpass := length_pass_rBrace loose index
        rw [braceSteps_rBrace _ hr, List.count_cons_self, List.count_cons_of_ne (by decide)]
        rw [hr] at hrest ⊢
        omega
      · rw [braceSteps_of_ne _ hl hr]
        rwa [pass_of_ne _ _ hl hr] at hrest ⊢

/-- Where no first part of the tokens closes more than is open, no closing brace is loose. -/
theorem length_closings_passAll {loose : LooseBraces} (index : Nat) {tokens : List Token}
    (h : ∀ front, front <+: tokens →
      (braceSteps front).count .D ≤ (braceSteps front).count .U + loose.openings.length) :
    (loose.passAll index tokens).closings.length = loose.closings.length := by
  induction tokens generalizing loose index with
  | nil => rfl
  | cons token tokens ih =>
      have hfront : ∀ front, front <+: tokens → (braceSteps (token :: front)).count .D ≤
          (braceSteps (token :: front)).count .U + loose.openings.length :=
        fun front hprefix => h _ ((List.prefix_cons_inj token).mpr hprefix)
      rw [passAll]
      by_cases hl : token.kind = .lBrace
      · have hpass := length_pass_lBrace loose index
        rw [hl, ih, hpass.2]
        intro front hprefix
        have hcount := hfront front hprefix
        rw [braceSteps_lBrace _ hl, List.count_cons_self, List.count_cons_of_ne (by decide)]
          at hcount
        omega
      -- A closing brace is affordable, because the prefix that ends with it is.
      by_cases hr : token.kind = .rBrace
      · have hcount : ∀ front, front <+: tokens → (braceSteps front).count .D + 1 ≤
            (braceSteps front).count .U + loose.openings.length := by
          intro front hprefix
          have hcount := hfront front hprefix
          rwa [braceSteps_rBrace _ hr, List.count_cons_self, List.count_cons_of_ne (by decide)]
            at hcount
        have hopen := hcount [] List.nil_prefix
        rw [braceSteps, List.filterMap_nil, List.count_nil, List.count_nil] at hopen
        have hpass := length_pass_rBrace loose index
        rw [hr, ih]
        · omega
        · intro front hprefix
          have := hcount front hprefix
          omega
      · rw [pass_of_ne _ _ hl hr, ih]
        intro front hprefix
        have hcount := hfront front hprefix
        rwa [braceSteps_of_ne _ hl hr] at hcount

end LooseBraces

/-- The braces that are loose at the end of a script. -/
def looseBraces (tokens : List Token) : LooseBraces :=
  LooseBraces.passAll ⟨[], []⟩ 0 tokens

/-- Each loose brace is reported once. -/
theorem checkBraces_length (tokens : List Token) :
    (checkBraces tokens).length =
      (looseBraces tokens).closings.length + (looseBraces tokens).openings.length := by
  rw [checkBraces_eq, List.length_append, List.length_map, List.length_map, List.length_reverse,
    List.length_reverse]
  rfl

/-- A first part of the steps are the steps of a first part. -/
theorem exists_front_of_take (tokens : List Token) (n : Nat) :
    ∃ front, front <+: tokens ∧ (braceSteps tokens).take n = braceSteps front := by
  rcases List.prefix_filterMap_iff.mp (List.take_prefix n (braceSteps tokens)) with
    ⟨front, hprefix, hsteps⟩
  exact ⟨front, hprefix, hsteps⟩

/-- Nothing is reported exactly if the braces are balanced. -/
theorem checkBraces_eq_nil_iff (tokens : List Token) :
    checkBraces tokens = [] ↔ BracesBalanced tokens := by
  have hcount : ∀ front, (looseBraces front).openings.length + (braceSteps front).count .D =
      (looseBraces front).closings.length + (braceSteps front).count .U :=
    fun front => LooseBraces.passAll_count ⟨[], []⟩ 0 front
  rw [← List.length_eq_zero_iff, checkBraces_length]
  constructor
  · intro h
    have hall := hcount tokens
    refine ⟨⟨braceSteps tokens, by omega, fun n => ?_⟩, rfl⟩
    -- What was loose in a first part would be loose still.
    rcases exists_front_of_take tokens n with ⟨front, ⟨rest, rfl⟩, hsteps⟩
    have hnone : (looseBraces front).closings = [] := by
      refine List.eq_nil_iff_forall_not_mem.mpr fun j hj => ?_
      have hmem := mem_closings_passAll_of_mem (0 + front.length) rest hj
      rw [looseBraces, ← passAll_append] at hmem
      have hpos := List.length_pos_of_mem hmem
      rw [looseBraces] at h
      omega
    have hfront := hcount front
    rw [hsteps]
    rw [hnone, List.length_nil] at hfront
    omega
  · rintro ⟨word, hword⟩
    have hnone : (looseBraces tokens).closings.length = 0 := by
      refine LooseBraces.length_closings_passAll 0 fun front hprefix => ?_
      have hsteps : braceSteps front <+: braceSteps tokens := hprefix.filterMap _
      rw [← hword, List.prefix_iff_eq_take] at hsteps
      rw [hsteps]
      exact word.count_D_le_count_U _
    have hall := hcount tokens
    rw [← hword, ← word.count_U_eq_count_D, hnone] at hall
    omega

/-! ## Fewer deletions -/

namespace LooseBraces

/-- How far two readers are apart: by how many braces the numbers differ that they hold. -/
def distance (a b : LooseBraces) : Nat :=
  Nat.dist a.openings.length b.openings.length + Nat.dist a.closings.length b.closings.length

/-- A reader that passes a token moves by one at most. -/
theorem distance_pass_le (a b : LooseBraces) (kind : TokenKind) (i : Nat) :
    distance (a.pass kind i) b ≤ distance a b + 1 := by
  unfold distance Nat.dist
  by_cases hl : kind = .lBrace
  · have hpass := length_pass_lBrace a i
    rw [hl]
    omega
  by_cases hr : kind = .rBrace
  · have hpass := length_pass_rBrace a i
    rw [hr]
    omega
  · rw [pass_of_ne _ _ hl hr]
    omega

/-- Two readers that pass the same token come no further apart. -/
theorem distance_pass_pass_le (a b : LooseBraces) (kind : TokenKind) (i j : Nat) :
    distance (a.pass kind i) (b.pass kind j) ≤ distance a b := by
  unfold distance Nat.dist
  by_cases hl : kind = .lBrace
  · have hpass := length_pass_lBrace a i
    have hpass' := length_pass_lBrace b j
    rw [hl]
    omega
  by_cases hr : kind = .rBrace
  · have hpass := length_pass_rBrace a i
    have hpass' := length_pass_rBrace b j
    rw [hr]
    omega
  · rw [pass_of_ne _ _ hl hr, pass_of_ne _ _ hl hr]

/-- An index among those from it on is one more than those behind it. -/
theorem card_filter_of_mem {indices : Finset Nat} {i : Nat} (h : i ∈ indices) :
    (indices.filter (i ≤ ·)).card = (indices.filter (i + 1 ≤ ·)).card + 1 := by
  have hsplit : indices.filter (i ≤ ·) = insert i (indices.filter (i + 1 ≤ ·)) := by
    ext k
    rw [Finset.mem_insert, Finset.mem_filter, Finset.mem_filter]
    constructor
    · rintro ⟨hk, hle⟩
      exact (Nat.eq_or_lt_of_le hle).imp Eq.symm fun hlt => ⟨hk, hlt⟩
    · rintro (rfl | ⟨hk, hlt⟩)
      · exact ⟨h, Nat.le_refl _⟩
      · exact ⟨hk, Nat.le_of_lt hlt⟩
  rw [hsplit, Finset.card_insert_of_notMem]
  exact fun hmem => Nat.not_succ_le_self i (Finset.mem_filter.mp hmem).2

/-- Deletions take two readers apart by their number at most. -/
theorem passAll_withoutAt_distance (indices : Finset Nat) (a b : LooseBraces) (i j : Nat)
    (tokens : List Token) :
    distance (a.passAll i tokens) (b.passAll j (withoutAt indices i tokens)) ≤
      distance a b + (indices.filter (i ≤ ·)).card := by
  induction tokens generalizing a b i j with
  | nil => exact Nat.le_add_right _ _
  | cons token tokens ih =>
      rw [withoutAt, passAll]
      -- A deleted token sets the readers apart by one, any other not at all.
      by_cases hi : i ∈ indices
      · have hcard := card_filter_of_mem hi
        have hrest := ih (a.pass token.kind i) b (i + 1) j
        have hstep := distance_pass_le a b token.kind i
        rw [if_pos hi]
        omega
      · have hcard : (indices.filter (i + 1 ≤ ·)).card ≤ (indices.filter (i ≤ ·)).card :=
          Finset.card_le_card (Finset.monotone_filter_right _ fun _ _ => Nat.le_of_succ_le)
        have hrest := ih (a.pass token.kind i) (b.pass token.kind j) (i + 1) (j + 1)
        have hstep := distance_pass_pass_le a b token.kind i j
        rw [if_neg hi, passAll]
        omega

/-! ## The reported deletions -/

/-- A reader of what is left of a script holds as many opening braces as another holds of
    those that are not deleted, and no closing brace is loose. -/
def Mirrors (indices : Finset Nat) (kept loose : LooseBraces) : Prop :=
  kept.closings = [] ∧ kept.openings.length = (loose.openings.filter (· ∉ indices)).length

/-- What a reader does not hold any more it will not hold again. -/
theorem notMem_passAll (loose : LooseBraces) {index i : Nat} (h : i < index)
    (hheld : i ∉ loose.openings ++ loose.closings) (tokens : List Token) :
    i ∉ (loose.passAll index tokens).openings ∧ i ∉ (loose.passAll index tokens).closings := by
  rw [List.mem_append, not_or] at hheld
  refine ⟨fun hmem => ?_, fun hmem => ?_⟩
  · rcases mem_openings_passAll hmem with hmem | ⟨hle, -⟩
    · exact hheld.1 hmem
    · exact Nat.not_le_of_lt h hle
  · rcases mem_closings_passAll hmem with hmem | ⟨hle, -⟩
    · exact hheld.2 hmem
    · exact Nat.not_le_of_lt h hle

/-- Of two partners neither is held in the end. -/
theorem notMem_passAll_of_closes {loose : LooseBraces} {index i k : Nat} {outer : List Nat}
    (horder : loose.InOrder index) (htop : loose.openings = i :: outer)
    (hk : k = i ∨ k = index) (tokens : List Token) :
    k ∉ ((loose.pass .rBrace index).passAll (index + 1) tokens).openings ∧
      k ∉ ((loose.pass .rBrace index).passAll (index + 1) tokens).closings := by
  rcases horder with ⟨hrising, hpassed⟩
  rw [htop, List.cons_append] at hrising hpassed
  rw [pass_rBrace_of_cons htop]
  rcases hk with rfl | rfl
  · refine notMem_passAll _ (Nat.lt_succ_of_lt (hpassed k List.mem_cons_self)) (fun hin => ?_) _
    exact Nat.lt_irrefl k ((List.pairwise_cons.mp hrising).1 k hin)
  · refine notMem_passAll _ (Nat.lt_succ_self k) (fun hin => ?_) _
    exact Nat.lt_irrefl k (hpassed k (List.mem_cons_of_mem i hin))

section Mirrors

variable {indices : Finset Nat} {kept loose : LooseBraces} {index : Nat} (index' : Nat)

/-- An opening brace that is deleted will not be closed, so the second reader misses
    nothing. -/
theorem Mirrors.opens_deleted (h : Mirrors indices kept loose) (hi : index ∈ indices) :
    Mirrors indices kept (loose.pass .lBrace index) := by
  refine ⟨h.1, ?_⟩
  change _ = ((index :: loose.openings).filter (· ∉ indices)).length
  rw [List.filter_cons_of_neg (by simpa using hi)]
  exact h.2

/-- A brace that stays is opened by both. -/
theorem Mirrors.opens (h : Mirrors indices kept loose) (hi : index ∉ indices) :
    Mirrors indices (kept.pass .lBrace index') (loose.pass .lBrace index) := by
  refine ⟨h.1, ?_⟩
  change kept.openings.length + 1 = ((index :: loose.openings).filter (· ∉ indices)).length
  rw [List.filter_cons_of_pos (by simpa using hi), List.length_cons, h.2]

/-- A closing brace without a partner is deleted. -/
theorem Mirrors.strays (h : Mirrors indices kept loose) (hnone : loose.openings = []) :
    Mirrors indices kept (loose.pass .rBrace index) := by
  rw [pass_rBrace_of_nil hnone]
  rw [Mirrors, hnone] at h
  exact h

/-- Two partners stay both, and each reader closes its innermost brace. -/
theorem Mirrors.closes {i : Nat} {outer : List Nat} (h : Mirrors indices kept loose)
    (htop : loose.openings = i :: outer) (hi : i ∉ indices) :
    Mirrors indices (kept.pass .rBrace index') (loose.pass .rBrace index) := by
  rcases h with ⟨hclosings, hopenings⟩
  rw [htop, List.filter_cons_of_pos (by simpa using hi), List.length_cons] at hopenings
  -- The brace that is closed is not deleted, so the other reader holds one too.
  rcases hopen : kept.openings with _ | ⟨j, outer'⟩
  · rw [hopen] at hopenings
    cases hopenings
  · rw [hopen] at hopenings
    rw [pass_rBrace_of_cons htop, pass_rBrace_of_cons hopen]
    exact ⟨hclosings, Nat.succ.inj hopenings⟩

/-- A reader of what is left goes on like the other, if all that is deleted are the braces
    which that one holds in the end. -/
theorem Mirrors.passAll {tokens : List Token}
    (hindices : ∀ i, i ∈ indices ↔ i ∈ (loose.passAll index tokens).openings ∨
      i ∈ (loose.passAll index tokens).closings)
    (horder : loose.InOrder index) (h : Mirrors indices kept loose) :
    Mirrors indices (kept.passAll index' (withoutAt indices index tokens))
      (loose.passAll index tokens) := by
  induction tokens generalizing kept loose index index' with
  | nil => exact h
  | cons token tokens ih =>
      have horder' := horder.pass token.kind
      rw [LooseBraces.passAll] at hindices ⊢
      rw [withoutAt]
      -- Whether a brace is deleted is known from the end, where it is loose or not.
      by_cases hl : token.kind = .lBrace
      · rw [hl] at hindices horder' ⊢
        by_cases hi : index ∈ indices
        · rw [if_pos hi]
          exact ih index' hindices horder' (h.opens_deleted hi)
        · rw [if_neg hi, LooseBraces.passAll, hl]
          exact ih (index' + 1) hindices horder' (h.opens index' hi)
      by_cases hr : token.kind = .rBrace
      · rw [hr] at hindices horder' ⊢
        rcases hopen : loose.openings with _ | ⟨i, outer⟩
        · -- With nothing open the brace is loose for good.
          have hi : index ∈ indices := by
            refine (hindices index).mpr (Or.inr (mem_closings_passAll_of_mem _ tokens ?_))
            rw [pass_rBrace_of_nil hopen]
            exact List.mem_cons_self
          rw [if_pos hi]
          exact ih index' hindices horder' (h.strays hopen)
        · -- The two braces are partners, so neither is held any more.
          have hgone : ∀ k, k = i ∨ k = index → k ∉ indices := by
            intro k hk hmem
            have hnot := notMem_passAll_of_closes horder hopen hk tokens
            exact ((hindices k).mp hmem).elim hnot.1 hnot.2
          rw [if_neg (hgone index (Or.inr rfl)), LooseBraces.passAll, hr]
          exact ih (index' + 1) hindices horder' (h.closes index' hopen (hgone i (Or.inl rfl)))
      · rw [pass_of_ne _ _ hl hr] at hindices horder' ⊢
        split
        · exact ih index' hindices horder' h
        · rw [LooseBraces.passAll, pass_of_ne _ _ hl hr]
          exact ih (index' + 1) hindices horder' h

end Mirrors

end LooseBraces

/-! ## The repair -/

/-- The indices of the braces that are reported. -/
def reportedAt (issues : List BraceIssue) : Finset Nat :=
  (issues.map BraceIssue.index).toFinset

/-- What the reports say about a script. -/
structure MinimalRepair (tokens : List Token) (issues : List BraceIssue) : Prop where
  /-- The reports come in the order of the script. -/
  rising : issues.Pairwise fun a b => a.index < b.index
  /-- All closing braces come before all opening ones. -/
  closingsFirst : ∃ closings openings : List Nat,
    issues = closings.map .unmatched ++ openings.map .unterminated
  /-- What is reported is a closing or an opening brace, as the report says. -/
  braces : ∀ i, (.unmatched i ∈ issues → kindAt tokens i = some .rBrace) ∧
    (.unterminated i ∈ issues → kindAt tokens i = some .lBrace)
  /-- Without what is reported nothing is. -/
  repairs : checkBraces (withoutAt (reportedAt issues) 0 tokens) = []
  /-- No fewer deletions have that effect. -/
  minimal : ∀ indices : Finset Nat, checkBraces (withoutAt indices 0 tokens) = [] →
    issues.length ≤ indices.card
  /-- Nothing is reported exactly if the braces are balanced. -/
  balanced : issues = [] ↔ BracesBalanced tokens

/-- Reported are the braces that are loose at the end. -/
theorem mem_reportedAt (tokens : List Token) (i : Nat) :
    i ∈ reportedAt (checkBraces tokens) ↔
      i ∈ (looseBraces tokens).openings ∨ i ∈ (looseBraces tokens).closings := by
  rw [reportedAt, List.mem_toFinset, List.mem_map]
  constructor
  · rintro ⟨issue, hmem, rfl⟩
    cases issue with
    | unterminated i => exact Or.inl ((unterminated_mem_checkBraces tokens i).mp hmem)
    | unmatched i => exact Or.inr ((unmatched_mem_checkBraces tokens i).mp hmem)
  · rintro (hmem | hmem)
    · exact ⟨.unterminated i, (unterminated_mem_checkBraces tokens i).mpr hmem, rfl⟩
    · exact ⟨.unmatched i, (unmatched_mem_checkBraces tokens i).mpr hmem, rfl⟩

/-- Without the reported braces nothing is reported. -/
theorem checkBraces_repairs (tokens : List Token) :
    checkBraces (withoutAt (reportedAt (checkBraces tokens)) 0 tokens) = [] := by
  have hstart : LooseBraces.Mirrors (reportedAt (checkBraces tokens)) ⟨[], []⟩ ⟨[], []⟩ :=
    ⟨rfl, rfl⟩
  have horder : LooseBraces.InOrder ⟨[], []⟩ 0 := ⟨.nil, fun i hi => by cases hi⟩
  rcases LooseBraces.Mirrors.passAll 0 (mem_reportedAt tokens) horder hstart with
    ⟨hclosings, hopenings⟩
  -- What is open at the end is deleted, so nothing is left for the second reader.
  have hnone : (looseBraces tokens).openings.filter
      (· ∉ reportedAt (checkBraces tokens)) = [] := by
    refine List.filter_eq_nil_iff.mpr fun i hi => ?_
    simpa using (mem_reportedAt tokens i).mpr (Or.inl hi)
  rw [looseBraces] at hnone
  rw [hnone, List.length_nil] at hopenings
  rw [← List.length_eq_zero_iff, checkBraces_length, looseBraces, hclosings, hopenings]
  rfl

/-- Whatever deletions put the script in order, they are as many as the reports at least. -/
theorem checkBraces_minimal (tokens : List Token) {indices : Finset Nat}
    (h : checkBraces (withoutAt indices 0 tokens) = []) :
    (checkBraces tokens).length ≤ indices.card := by
  have hdistance := LooseBraces.passAll_withoutAt_distance indices ⟨[], []⟩ ⟨[], []⟩ 0 0 tokens
  have hcard := Finset.card_filter_le indices (0 ≤ ·)
  rw [← List.length_eq_zero_iff, checkBraces_length, looseBraces] at h
  rw [checkBraces_length, looseBraces]
  unfold LooseBraces.distance Nat.dist at hdistance
  simp only [List.length_nil] at hdistance
  omega

/-- The reports are a minimal repair. -/
theorem checkBraces_minimalRepair (tokens : List Token) :
    MinimalRepair tokens (checkBraces tokens) where
  rising := checkBraces_pairwise tokens
  closingsFirst := ⟨_, _, checkBraces_eq tokens⟩
  braces i := by
    rw [unmatched_mem_checkBraces, unterminated_mem_checkBraces]
    exact ⟨kindAt_of_mem_closings, kindAt_of_mem_openings⟩
  repairs := checkBraces_repairs tokens
  minimal _ := checkBraces_minimal tokens
  balanced := checkBraces_eq_nil_iff tokens

end StackScript
