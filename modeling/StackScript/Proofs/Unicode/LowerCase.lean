import StackScript.Unicode.FinalSigma

/-!
# Small Letters Stay Small

A text that has been lower-cased stays as it is when it is lower-cased again.
Keys of routes rely on it, since the one that is asked for may have gone through
this more often than the one it is compared with.

Lower-casing looks up a character in a table of capitals, so everything comes
down to the table: no small letter that it leads to may be a capital itself.
Two of its runs can be compared without going through their letters. Either the
small letters of the one lie beside the capitals of the other, or they lie
between them.

## Main definitions

* `IsSmall`: A character that lower-casing leaves alone.
* `CaseRun.avoids`: No small letter of a run is a capital of another.

## Theorems

* `isSmall_of_mem_lowerChar`: Lower-casing leads to small characters.
* `lowerText_lowerText`: Lower-casing twice is lower-casing once.
-/

namespace StackScript

namespace Unicode

/-- Lower-casing leaves the character alone. -/
def IsSmall (c : Char) : Prop :=
  lowerChar c = [c]

instance (c : Char) : Decidable (IsSmall c) :=
  inferInstanceAs (Decidable (lowerChar c = [c]))

namespace CaseRun

/-- The first small letter of a run. -/
def firstSmall (run : CaseRun) : Nat :=
  (run.first + run.distance).toNat

/-- The last small letter of a run. -/
def lastSmall (run : CaseRun) : Nat :=
  (run.last + run.distance).toNat

/-- The small letters of the run never meet the capitals of the other, because
    the steps from one to the next are in time with each other. -/
def isOffbeat (run other : CaseRun) : Bool :=
  (run.first = run.last || run.spacing % other.spacing = 0) &&
    (run.first + run.distance - other.first) % other.spacing ≠ 0

/-- The small letters of the run lie in front of the capitals of the other,
    behind them, or in the gaps between them. -/
def avoids (run other : CaseRun) : Bool :=
  Nat.blt run.lastSmall other.first || Nat.blt other.last run.firstSmall || run.isOffbeat other

theorem covers_iff {run : CaseRun} {n : Nat} :
    run.covers n = true ↔ run.first ≤ n ∧ n ≤ run.last ∧ run.spacing ∣ n - run.first := by
  rw [covers, Bool.and_eq_true, Bool.and_eq_true, decide_eq_true_eq, decide_eq_true_eq, beq_iff_eq,
    Nat.dvd_iff_mod_eq_zero, and_assoc]

theorem avoids_iff {run other : CaseRun} :
    run.avoids other = true ↔ run.lastSmall < other.first ∨ other.last < run.firstSmall ∨
      (run.first = run.last ∨ other.spacing ∣ run.spacing) ∧
        ¬ (other.spacing : Int) ∣ run.first + run.distance - other.first := by
  rw [avoids, isOffbeat, Bool.or_eq_true, Bool.or_eq_true, Nat.blt_eq, Nat.blt_eq,
    Bool.and_eq_true, Bool.or_eq_true, decide_eq_true_eq, decide_eq_true_eq, decide_eq_true_eq,
    Nat.dvd_iff_mod_eq_zero, Int.dvd_iff_emod_eq_zero, or_assoc]

/-- The letter at the distance of a run from one of its capitals is no capital
    of a run that it avoids. -/
theorem not_covers_of_avoids {run other : CaseRun} (h : run.avoids other = true) {n m : Nat}
    (hn : run.covers n = true) (hm : (m : Int) = n + run.distance) : other.covers m = false := by
  rw [Bool.eq_false_iff]
  intro hcovers
  rcases covers_iff.mp hn with ⟨hfirst, hlast, hstep⟩
  rcases covers_iff.mp hcovers with ⟨hfirst', hlast', hstep'⟩
  rcases avoids_iff.mp h with hbefore | hbehind | ⟨hspacing, hbetween⟩
  · unfold lastSmall at hbefore
    omega
  · unfold firstSmall at hbehind
    omega
  · -- If the small letter were a capital, its place in the other run would be a multiple.
    refine hbetween ?_
    have hrun : (other.spacing : Int) ∣ n - run.first := by
      rcases hspacing with hsingle | hspacing
      · rw [show (n : Int) - run.first = 0 by omega]
        exact Int.dvd_zero _
      · rw [← Int.ofNat_sub hfirst]
        exact Int.natCast_dvd_natCast.mpr (Nat.dvd_trans hspacing hstep)
    have hother : (other.spacing : Int) ∣ m - other.first := by
      rw [← Int.ofNat_sub hfirst']
      exact Int.natCast_dvd_natCast.mpr hstep'
    have hdiff : (run.first : Int) + run.distance - other.first =
        (m - other.first) - (n - run.first) := by
      omega
    rw [hdiff]
    exact Int.dvd_sub hother hrun

end CaseRun

/-- The capital that stands outside of the table, as a run of its own. -/
def dottedCapital : CaseRun :=
  ⟨0x130, 0x130, 1, 0⟩

-- The table keeps its small letters apart from its capitals.
theorem caseRuns_avoid :
    (caseRuns.all fun run => (dottedCapital :: caseRuns).all run.avoids) = true := by
  decide +kernel

/-- A letter is small if no run has it. -/
theorem isSmall_of_not_covers {c : Char}
    (h : ∀ run ∈ dottedCapital :: caseRuns, run.covers c.toNat = false) : IsSmall c := by
  have hdotted : c.toNat ≠ 0x130 := by
    intro hc
    have hcovers := h dottedCapital (List.mem_cons_self ..)
    rw [hc] at hcovers
    exact absurd hcovers (by decide)
  have hfind : caseRuns.find? (·.covers c.toNat) = none :=
    List.find?_eq_none.mpr fun run hrun =>
      Bool.eq_false_iff.mp (h run (List.mem_cons_of_mem _ hrun))
  rw [IsSmall, lowerChar, if_neg hdotted, hfind]

/-- The letter at the distance of a run, unless there is no such character. -/
theorem toNat_shifted (n : Nat) (distance : Int) :
    (Char.ofNat (n + distance).toNat).toNat = 0 ∨
      ((Char.ofNat (n + distance).toNat).toNat : Int) = n + distance := by
  by_cases hvalid : (n + distance).toNat.isValidChar
  · rw [Char.ofNat, dif_pos hvalid]
    change ((n + distance).toNat : Nat) = 0 ∨ (((n + distance).toNat : Nat) : Int) = n + distance
    omega
  · rw [Char.ofNat, dif_neg hvalid]
    exact Or.inl rfl

/-- The characters that lower-casing leads to are small. -/
theorem isSmall_of_mem_lowerChar {c d : Char} (h : d ∈ lowerChar c) : IsSmall d := by
  unfold lowerChar at h
  by_cases hdotted : c.toNat = 0x130
  · rw [if_pos hdotted, List.mem_cons, List.mem_singleton] at h
    rcases h with rfl | rfl
    · decide +kernel
    · decide +kernel
  rw [if_neg hdotted] at h
  cases hfind : caseRuns.find? (·.covers c.toNat) with
  | none =>
      rw [hfind] at h
      rw [List.mem_singleton.mp h, IsSmall, lowerChar, if_neg hdotted, hfind]
  | some run =>
      rw [hfind] at h
      rw [List.mem_singleton.mp h]
      have hcapital := List.find?_some hfind
      rcases toNat_shifted c.toNat run.distance with hzero | hshifted
      · rw [← Char.ofNat_toNat (Char.ofNat _), hzero]
        decide +kernel
      · -- The small letter of a run is a capital in no run, as all runs avoid each other.
        refine isSmall_of_not_covers fun other hother => ?_
        have havoids := List.all_eq_true.mp
          (List.all_eq_true.mp caseRuns_avoid run (List.mem_of_find?_eq_some hfind)) other hother
        exact CaseRun.not_covers_of_avoids havoids hcapital hshifted

/-! ## Texts -/

-- The capital sigma is the one character whose small form depends on the text
-- around it, and it is not small.
theorem IsSmall.ne_sigma {c : Char} (h : IsSmall c) : c ≠ 'Σ' := by
  rintro rfl
  exact absurd h (by decide +kernel)

/-- Small letters stay. -/
theorem lowerAfter_of_isSmall {cs : List Char} (h : ∀ c ∈ cs, IsSmall c) (before : List Char) :
    lowerAfter before cs = cs := by
  induction cs generalizing before with
  | nil => rfl
  | cons c cs ih =>
      have hc : IsSmall c := h c (List.mem_cons_self ..)
      rw [lowerAfter, if_neg hc.ne_sigma, hc, ih fun d hd => h d (List.mem_cons_of_mem c hd)]
      rfl

/-- Whatever a letter becomes is small. -/
theorem isSmall_of_mem_lowerAfter {before cs : List Char} :
    ∀ d ∈ lowerAfter before cs, IsSmall d := by
  induction cs generalizing before with
  | nil => exact List.forall_mem_nil _
  | cons c cs ih =>
      intro d hd
      rw [lowerAfter, List.mem_append] at hd
      rcases hd with hd | hd
      · split at hd
        · split at hd
          · rw [List.mem_singleton.mp hd]
            decide +kernel
          · rw [List.mem_singleton.mp hd]
            decide +kernel
        · exact isSmall_of_mem_lowerChar hd
      · exact ih d hd

/-- Lower-casing a text twice is lower-casing it once. -/
theorem lowerText_lowerText (text : String) : lowerText (lowerText text) = lowerText text := by
  rw [lowerText, lowerText, String.toList_ofList, lowerAfter_of_isSmall isSmall_of_mem_lowerAfter]

end Unicode

end StackScript
