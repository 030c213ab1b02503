import StackScript.Proofs.Wire.Basic
import StackScript.Proofs.Workspace.Snapshot
import StackScript.Wire.Workspace

/-!
# Workspaces Read Back

The law of written forms for what is said about a workspace. A kind of object
can be written if it is what its own word means, which every kind is that was
read from a word. Files by indices can be written if the indices rise, because
the reader puts them in this order, whatever order the members come in.

## Main definitions

* `ObjectKind.Fits`: A kind that its word means.
* `Rising`: Files by indices, in order.

## Theorems

* `readsBack_object`, `readsBack_match`: Objects and matches.
* `readsBack_resolvedRefs`: Files by indices.
* `readsBack_docEntry`: Entries of the documentation.
-/

namespace StackScript

/-- The word that is written for the kind means it. -/
def ObjectKind.Fits (kind : ObjectKind) : Prop :=
  ofText kind.text = kind

/-- The indices rise, and are numbers of 64 bits. -/
structure Rising (entries : List (Nat × String)) : Prop where
  pairwise : entries.Pairwise fun entry other => entry.1 < other.1
  lt : ∀ entry ∈ entries, entry.1 < Wire.largeLimit

namespace Wire

/-! ## Objects and matches -/

/-- A kind is read from its word, so it fits if it is what the word means. -/
theorem readsBack_kind : ReadsBack ObjectKind ObjectKind.Fits where
  proper _ := Json.proper_ofText _
  ne_null _ := nofun
  ofJson?_toJson kind h := (required_kind kind).trans (congrArg some h)
  fits json kind h := by
    rcases Option.map_eq_some_iff.mp h with ⟨word, -, rfl⟩
    exact ObjectKind.ofText_text_ofText word

/-- Only the kind of an object may fail to fit. -/
theorem readsBack_object : ReadsBack WorkspaceObject fun object => object.kind.Fits where
  proper := proper_object
  ne_null _ := nofun
  ofJson?_toJson object h := by
    rw [ofJson?_object, WorkspaceObject.reread_eq ⟨_, h.symm⟩]
  fits json object h := by
    rcases Option.bind_eq_some_iff.mp h with ⟨found, -, h⟩
    split at h
    · simp only [Option.bind_eq_bind, Option.bind_eq_some_iff, Option.pure_def,
        Option.some.injEq] at h
      obtain ⟨id, -, path, -, kind, hkind, contentHash, -, rfl⟩ := h
      exact fits_required readsBack_kind hkind
    · cases h

theorem readsBack_matchKind : ReadsBack MatchKind fun _ => True :=
  readsBack_named MatchKind.all MatchKind.name (fun _ => rfl) (fun _ => rfl)
    fun kind => by cases kind <;> decide

/-- A match has the kind of its object. -/
theorem readsBack_match : ReadsBack Match fun found => found.kind.Fits := by
  refine readsBack_record ["filePath", "name", "type", "matchKind"] 0
    (fun found =>
      [("filePath", some (toJson found.path)), ("name", some (toJson found.name)),
       ("type", some (toJson found.kind)), ("matchKind", some (toJson found.found))])
    (by decide) (fun _ => rfl) (fun _ => rfl) (fun _ => rfl) ?proper ?back ?fits
  case proper =>
    intro found
    simp only [List.forall_mem_cons]
    exact ⟨readsBack_text.proper_some _, readsBack_text.proper_some _,
      readsBack_kind.proper_some _, readsBack_matchKind.proper_some _, nofun⟩
  case back =>
    intro found h
    simp only [List.map_cons, List.map_nil]
    rw [required_text, required_text, required_toJson readsBack_kind h,
      required_toJson readsBack_matchKind trivial]
    rfl
  case fits =>
    intro fields found h
    split at h
    · simp only [Option.bind_eq_bind, Option.bind_eq_some_iff, Option.pure_def,
        Option.some.injEq] at h
      obtain ⟨path, -, name, -, kind, hkind, way, -, rfl⟩ := h
      exact fits_required readsBack_kind hkind
    · cases h

/-! ## Files by indices -/

/-- Inserting adds one entry and no other. -/
theorem mem_insertIndexed {index : Nat} {path : String} {entries : List (Nat × String)}
    {entry : Nat × String} (h : entry ∈ insertIndexed index path entries) :
    entry = (index, path) ∨ entry ∈ entries := by
  fun_induction insertIndexed index path entries with
  | case1 => exact Or.inl (List.mem_singleton.mp h)
  | case2 first entries hlt => exact List.mem_cons.mp h
  | case3 first entries hlt hsame =>
      exact (List.mem_cons.mp h).imp id (List.mem_cons_of_mem first)
  | case4 first entries hlt hsame ih =>
      rcases List.mem_cons.mp h with rfl | h
      · exact Or.inr List.mem_cons_self
      · exact (ih h).imp id (List.mem_cons_of_mem first)

/-- An entry goes in where its index is, and replaces one that is there. -/
theorem pairwise_insertIndexed {index : Nat} {path : String} {entries : List (Nat × String)}
    (h : entries.Pairwise fun entry other => entry.1 < other.1) :
    (insertIndexed index path entries).Pairwise fun entry other => entry.1 < other.1 := by
  fun_induction insertIndexed index path entries with
  | case1 => exact List.pairwise_singleton _ _
  | case2 first entries hlt =>
      refine List.pairwise_cons.mpr ⟨fun entry hentry => ?_, h⟩
      rcases List.mem_cons.mp hentry with rfl | hbehind
      · exact hlt
      · exact hlt.trans ((List.pairwise_cons.mp h).1 entry hbehind)
  -- The new entry has the index of the old one, so nothing is out of order.
  | case3 first entries hlt hsame =>
      rw [List.pairwise_cons] at h ⊢
      rwa [hsame]
  | case4 first entries hlt hsame ih =>
      rw [List.pairwise_cons] at h
      refine List.pairwise_cons.mpr ⟨fun entry hentry => ?_, ih h.2⟩
      rcases mem_insertIndexed hentry with rfl | hold
      · exact lt_of_le_of_ne (Nat.not_lt.mp hlt) (Ne.symm hsame)
      · exact h.1 entry hold

/-- An index above all others comes last. -/
theorem insertIndexed_of_lt {index : Nat} {path : String} {entries : List (Nat × String)}
    (h : ∀ entry ∈ entries, entry.1 < index) :
    insertIndexed index path entries = entries ++ [(index, path)] := by
  induction entries with
  | nil => rfl
  | cons entry entries ih =>
      rw [List.forall_mem_cons] at h
      rw [insertIndexed, if_neg (Nat.not_lt.mpr h.1.le), if_neg h.1.ne', ih h.2]
      rfl

/-- Files that are in order already stay as they are. -/
theorem foldl_insertIndexed {entries : List (Nat × String)}
    (h : entries.Pairwise fun entry other => entry.1 < other.1) :
    entries.foldl (fun sorted entry => insertIndexed entry.1 entry.2 sorted) [] = entries := by
  induction entries using List.reverseRecOn with
  | nil => rfl
  | append_singleton entries entry ih =>
      rw [List.pairwise_append] at h
      rw [List.foldl_append, ih h.1]
      exact insertIndexed_of_lt fun other hother => h.2.2 other hother entry List.mem_cons_self

/-- Files in whatever order are put in order. -/
theorem rising_foldl {entries : List (Nat × String)}
    (h : ∀ entry ∈ entries, entry.1 < largeLimit) :
    Rising (entries.foldl (fun sorted entry => insertIndexed entry.1 entry.2 sorted) []) := by
  induction entries using List.reverseRecOn with
  | nil => exact ⟨List.Pairwise.nil, nofun⟩
  | append_singleton entries entry ih =>
      rw [List.forall_mem_append] at h
      rw [List.foldl_append]
      refine ⟨pairwise_insertIndexed (ih h.1).pairwise, fun other hother => ?_⟩
      rcases mem_insertIndexed hother with rfl | hold
      · exact h.2 _ List.mem_cons_self
      · exact (ih h.1).lt other hold

/-- Digits stand for themselves in a text. -/
theorem isStringText_of_isDigit {cs : List Char} (h : ∀ c ∈ cs, c.isDigit = true) :
    Json.IsStringText cs := by
  intro rest
  induction cs with
  | nil => rfl
  | cons c cs ih =>
      rw [List.forall_mem_cons] at h
      -- A digit is no control character.
      have hlarge : ¬ c.toNat < 0x20 := by
        have hdigit := h.1
        simp only [Char.isDigit, Bool.and_eq_true, decide_eq_true_iff] at hdigit
        have hzero : 48 ≤ c.toNat := hdigit.1
        omega
      have hquote : c ≠ '"' := by
        rintro rfl
        exact absurd h.1 (by decide)
      have hslash : c ≠ '\\' := by
        rintro rfl
        exact absurd h.1 (by decide)
      rw [List.cons_append, Json.scanString?_of_ne hlarge hquote hslash, ih h.2]
      rfl

-- An index is the name of a member, so its digits have to be a text.
theorem proper_indexedToJson (entries : List (Nat × String)) : (indexedToJson entries).Proper := by
  refine .object (fun member hmember => ?_) fun member hmember => ?_
  · rcases List.mem_map.mp hmember with ⟨entry, -, rfl⟩
    exact isStringText_of_isDigit fun c hc => Json.isDigit_of_mem_toDigits hc
  · rcases List.mem_map.mp hmember with ⟨entry, -, rfl⟩
    exact Json.proper_ofText entry.2

/-- Entries that rise are read in the order in which they stand. -/
theorem indexedOfJson?_toJson {entries : List (Nat × String)} (h : Rising entries) :
    indexedOfJson? (indexedToJson entries) = some entries := by
  have hmembers : (entries.map fun entry => (Nat.toDigits 10 entry.1, toJson entry.2)).mapM
      indexedMember? = some entries := by
    refine mapM_map_eq_some fun entry hentry => ?_
    refine Option.bind_eq_some_iff.mpr ⟨entry.1, ?_, ?_⟩
    · rw [Json.natOfDigits?_toDigits, Option.filter_some,
        if_pos (decide_eq_true (h.lt entry hentry))]
    · exact Option.bind_eq_some_iff.mpr ⟨entry.2, Json.text?_ofText entry.2, rfl⟩
  refine Option.bind_eq_some_iff.mpr ⟨_, hmembers, ?_⟩
  exact congrArg some (foldl_insertIndexed h.pairwise)

/-- In whatever order entries stand, they rise once they are read. -/
theorem rising_of_indexedOfJson? {json : Json} {entries : List (Nat × String)}
    (h : indexedOfJson? json = some entries) : Rising entries := by
  unfold indexedOfJson? at h
  split at h
  · rcases Option.bind_eq_some_iff.mp h with ⟨found, hfound, h⟩
    cases h
    refine rising_foldl (forall_mem_of_mapM (fun member entry hentry => ?_) hfound)
    rcases Option.bind_eq_some_iff.mp hentry with ⟨index, hindex, hentry⟩
    rcases Option.bind_eq_some_iff.mp hentry with ⟨path, -, hentry⟩
    cases hentry
    exact of_decide_eq_true (Option.filter_eq_some_iff.mp hindex).2
  · cases h

/-- Resolved references fit if their indices rise. -/
theorem readsBack_resolvedRefs :
    ReadsBack ResolvedRefs fun refs => Rising refs.tables ∧ Rising refs.runs := by
  refine readsBack_record ["db", "functionRuns"] 0
    (fun refs =>
      [("db", some (indexedToJson refs.tables)), ("functionRuns", some (indexedToJson refs.runs))])
    (by decide) (fun _ => rfl) (fun _ => rfl) (fun _ => rfl) ?proper ?back ?fits
  case proper =>
    intro refs
    simp only [List.forall_mem_cons, Option.mem_some_iff, forall_eq']
    exact ⟨proper_indexedToJson _, proper_indexedToJson _, nofun⟩
  case back =>
    intro refs h
    simp only [List.map_cons, List.map_nil, Option.bind_eq_bind, Option.bind_some]
    rw [indexedOfJson?_toJson h.1, indexedOfJson?_toJson h.2]
    rfl
  case fits =>
    intro found refs h
    split at h
    · simp only [Option.bind_eq_bind, Option.bind_eq_some_iff, Option.pure_def,
        Option.some.injEq] at h
      obtain ⟨tables, ⟨json, -, htables⟩, runs, ⟨other, -, hruns⟩, rfl⟩ := h
      exact ⟨rising_of_indexedOfJson? htables, rising_of_indexedOfJson? hruns⟩
    · cases h

/-! ## Documentation -/

/-- An entry of documentation has texts only. -/
theorem readsBack_docEntry : ReadsBack DocEntry fun _ => True := by
  refine readsBack_record ["name", "body"] 0
    (fun entry => [("name", some (toJson entry.name)), ("body", some (toJson entry.body))])
    (by decide) (fun _ => rfl) (fun _ => rfl) (fun _ => rfl) ?proper ?back fun _ _ _ => trivial
  case proper =>
    intro entry
    simp only [List.forall_mem_cons]
    exact ⟨readsBack_text.proper_some _, readsBack_text.proper_some _, nofun⟩
  case back =>
    intro entry _
    simp only [List.map_cons, List.map_nil]
    rw [required_text, required_text]
    rfl

end Wire

end StackScript
