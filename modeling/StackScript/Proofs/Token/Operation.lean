import StackScript.Proofs.Token.Munch
import StackScript.Proofs.Token.Print
import StackScript.Proofs.Token.Space

/-!
# Names behind a Mark

An operation is what a name has behind `db` and a dot. One expects a name there as well, and
a complete one, with a segment behind each of its dots, for a dot is in a name only to join
two segments. The reader of words is not so strict. It leaves a dot at the end of a name, and
two dots in a row in the middle, and the mark of an operation ends with a dot: so there may be
another dot right behind it, and there may be nothing.

What is read behind the mark does not have to be found by going over the words once more. The
reader of names is in one state behind each first part of a name, and what it takes from there
on has a language of its own, so a character that is known may be taken off the front of that
language, `cons_mem_nameRests_iff`. Three steps lead to `operations`.

Whether an operation is a complete name can be seen of the whole word, `mem_completeNames_iff`,
because a complete name stays complete behind a segment and a dot, and only then.

## Main definitions

* `Rule.completeNames`: Names with a segment behind each dot.
* `Rule.operations`: What is read behind the mark of an operation.

## Theorems

* `Rule.mem_completeNames_iff`: The names that are complete.
* `Rule.segment_append_mem_completeNames_iff`: A complete name behind a segment and a dot.
* `Rule.mark_append_mem_readNames_iff`: A name that begins with the mark.
* `Rule.reads_operation`: Whatever is in the language is read behind the mark.
* `mem_readNames_of_mem_tokenize`: The names of a text.
-/

namespace StackScript

open scoped Computability

namespace Rule

variable {w : List Char}

/-! ## Complete names -/

/-- A name with a segment behind each of its dots. -/
def completeNames : Language Char :=
  segments * (only "." * segments)∗

/-- A name is a complete one, perhaps with a dot at the end. -/
theorem names_eq : names = completeNames * (1 + only ".") :=
  (mul_assoc _ _ _).symm

/-- A segment has a character at least. -/
theorem nil_notMem_segments : [] ∉ segments := by
  intro h
  rcases mem_oneOf_mul.mp h with ⟨c, v, -, -, hnil⟩
  cases hnil

theorem nil_notMem_completeNames : [] ∉ completeNames := by
  rintro ⟨first, hfirst, more, -, hnil⟩
  obtain rfl : first = [] := (List.append_eq_nil_iff.mp hnil).1
  exact nil_notMem_segments hfirst

/-- A segment has a last character, and that is no dot. -/
theorem getLast?_append_segment {segment : List Char} (h : segment ∈ segments)
    (front : List Char) : (front ++ segment).getLast? ≠ some '.' := by
  have hne : segment ≠ [] := by
    rintro rfl
    exact nil_notMem_segments h
  rw [List.getLast?_append_of_ne_nil front hne]
  exact fun hlast => dot_notMem_of_mem_segments h (List.mem_of_getLast? hlast)

theorem getLast?_of_mem_completeNames (h : w ∈ completeNames) : w.getLast? ≠ some '.' := by
  rcases Language.mem_mul.mp h with ⟨first, hfirst, more, hmore, rfl⟩
  rw [← Language.one_add_kstar_mul_self_eq_kstar] at hmore
  rcases hmore with rfl | hmore
  · rw [List.append_nil]
    exact getLast?_append_segment hfirst []
  · rcases Language.mem_mul.mp hmore with ⟨front, -, last, hlast, rfl⟩
    rcases mem_only_mul.mp hlast with ⟨segment, hsegment, rfl⟩
    rw [← List.append_assoc, ← List.append_assoc]
    exact getLast?_append_segment hsegment _

/-- What is read as a name is complete if no two dots stand in a row and none at the end. -/
theorem mem_completeNames_iff (h : w ∈ readNames) :
    w ∈ completeNames ↔ ¬ HasDoubleDot w ∧ w.getLast? ≠ some '.' := by
  constructor
  · intro hw
    have hname : w ∈ names := by
      rw [names_eq]
      exact ⟨w, hw, [], Or.inl rfl, List.append_nil w⟩
    exact ⟨not_hasDoubleDot_of_mem_names hname, getLast?_of_mem_completeNames hw⟩
  · rintro ⟨hdots, hlast⟩
    have hname := (mem_names_iff h).mpr hdots
    rw [names_eq] at hname
    rcases Language.mem_mul.mp hname with ⟨v, hv, ending, rfl | rfl, rfl⟩
    · rwa [List.append_nil]
    · exact absurd List.getLast?_concat hlast

/-- The first dot is found whatever stands behind it. -/
theorem dropWhile_dot {front : List Char} (h : '.' ∉ front) (w : List Char) :
    (front ++ '.' :: w).dropWhile (· ≠ '.') = '.' :: w := by
  have hfront : ∀ c ∈ front, decide (c ≠ '.') = true := by
    intro c hc
    rw [decide_eq_true_eq]
    rintro rfl
    exact h hc
  rw [List.dropWhile_append_of_pos hfront, List.dropWhile_cons_of_neg (by simp)]

/-- Behind a segment and a dot a name is complete if it is complete alone. -/
theorem segment_append_mem_completeNames_iff {segment : List Char} (h : segment ∈ segments) :
    segment ++ '.' :: w ∈ completeNames ↔ w ∈ completeNames := by
  constructor
  · intro hw
    rcases Language.mem_mul.mp hw with ⟨first, hfirst, more, hmore, hsplit⟩
    have hdot := dot_notMem_of_mem_segments hfirst
    -- A name of one segment has no dot, so there is a second segment.
    rw [← Language.one_add_self_mul_kstar_eq_kstar] at hmore
    rcases hmore with rfl | hmore
    · rw [List.append_nil] at hsplit
      exact absurd (hsplit ▸ List.mem_append_right _ List.mem_cons_self) hdot
    · rcases Language.mem_mul.mp hmore with ⟨piece, hpiece, rest, hrest, rfl⟩
      rcases mem_only_mul.mp hpiece with ⟨next, hnext, rfl⟩
      change first ++ '.' :: (next ++ rest) = segment ++ '.' :: w at hsplit
      -- The first dot is the one behind the segment.
      have hsame := congrArg (List.dropWhile (· ≠ '.')) hsplit
      rw [dropWhile_dot hdot, dropWhile_dot (dot_notMem_of_mem_segments h)] at hsame
      exact (List.cons.inj hsame).2 ▸ Language.append_mem_mul hnext hrest
  · intro hw
    rcases Language.mem_mul.mp hw with ⟨first, hfirst, more, hmore, rfl⟩
    refine Language.append_mem_mul h ?_
    exact append_mem_kstar (mem_only_mul.mpr ⟨first, hfirst, rfl⟩) hmore

/-! ## Operations -/

/-- What is read behind the mark of an operation: perhaps a second dot, and then perhaps
    segments. -/
def operations : Language Char :=
  (1 + only ".") * (1 + segments * nameEndings)

theorem operations_eq : operations = nameRests .dot := by
  rw [operations, nameRests, add_mul, one_mul, add_assoc, add_comm (segments * nameEndings)]

/-- What is read behind a character is what is read from the next state on. -/
theorem cons_mem_nameRests_iff {state next : Lexeme.NameState} {c : Char}
    (hstep : state.step c = some next) : c :: w ∈ nameRests state ↔ w ∈ nameRests next := by
  refine ⟨fun h => ?_, cons_mem_nameRests hstep⟩
  rcases exists_goes h with ⟨last, hgoes⟩
  have hcount : Lexeme.nameTailLength next w = w.length := by
    have hall := hgoes []
    rw [List.append_nil, Lexeme.nameTailLength.eq_def] at hall
    simp only [hstep] at hall
    exact Nat.succ.inj hall
  have hmem := (munches_name next).mem w
  rwa [hcount, List.take_length] at hmem

/-- The mark is three characters, and each leads to a state of its own. -/
theorem mark_mem_nameRests_iff : 'b' :: '.' :: w ∈ nameRests .opened ↔ w ∈ operations := by
  have hchar : Lexeme.NameState.opened.step 'b' = some .segment := rfl
  have hdot : Lexeme.NameState.segment.step '.' = some .dot := rfl
  rw [cons_mem_nameRests_iff hchar, cons_mem_nameRests_iff hdot, operations_eq]

/-- What begins with the mark is read as a name if it goes on as an operation. -/
theorem mark_append_mem_readNames_iff : "db.".toList ++ w ∈ readNames ↔ w ∈ operations := by
  rw [← mark_mem_nameRests_iff]
  change 'd' :: 'b' :: '.' :: w ∈ readNames ↔ _
  refine ⟨fun h => ?_, cons_mem_oneOf_mul (by decide)⟩
  rcases mem_oneOf_mul.mp h with ⟨c, v, -, hv, hsplit⟩
  exact (List.cons.inj hsplit).2 ▸ hv

/-- The mark is a segment and a dot. -/
theorem mark_append_mem_completeNames_iff :
    "db.".toList ++ w ∈ completeNames ↔ w ∈ completeNames := by
  have hmark : ['d', 'b'] ∈ segments :=
    cons_mem_oneOf_mul (by decide) (mem_kstar_oneOf.mpr (List.forall_mem_singleton.mpr rfl))
  exact segment_append_mem_completeNames_iff hmark

/-- The operation is read with its mark in front of a space. -/
theorem reads_operation (h : w ∈ operations) {rest : List Char} (hrest : EndsWord rest) :
    Reads .ident ("db.".toList ++ w) rest := by
  rcases exists_goes (mark_mem_nameRests_iff.mpr h) with ⟨last, hgoes⟩
  have hend : Lexeme.nameTailLength last rest = 0 := by
    cases rest with
    | nil => rfl
    | cons c cs => rw [Lexeme.nameTailLength, last.step_space (hrest c rfl)]
  refine ⟨'d', 'b' :: '.' :: w, rfl, by decide, ?_⟩
  rw [lexeme_nameStart (by decide), Lexeme.nameLength, hgoes rest, hend]

end Rule

/-- A token that is a name is read as one. -/
theorem mem_readNames_of_mem_tokenize {text : String} {token : Token} (h : token ∈ tokenize text)
    (hkind : token.kind = .ident) : token.text.toList ∈ Rule.readNames := by
  rcases exists_word_of_mem h with ⟨before, c, cs, -, -, rfl⟩
  rw [Token.toList_wordAt]
  change (lexeme c cs).1 = .ident at hkind
  have hne : (lexeme c cs).1 ≠ .error := by
    rw [hkind]
    exact TokenKind.noConfusion
  rcases Rule.exists_rule_of_kind_ne hne with ⟨rule, hrule, hsame, hword⟩
  rw [hkind] at hsame
  rcases Token.mem_rules.mp hrule with rfl | hother
  · exact hword
  · exact absurd hsame (Token.kind_ne_ident_of_mem_otherRules hother)

end StackScript
