import Mathlib.Data.List.Induction
import Mathlib.Data.String.Basic
import StackScript.Docs.Registry
import StackScript.Proofs.Text.ByteOrder

/-!
# Searching the Registry

A search for the names with a certain beginning does not look at the whole registry. It
starts where the beginning itself would stand among the names, and stops at the first name
that begins otherwise.

Nothing is missed, because such names have no other name between them: a text that is not
in front of the beginning, but in front of a text that begins with it, begins with it too,
`prefix_of_between`. So the first name that begins otherwise is behind all of them.

The registry itself is filled entry by entry, and an entry takes the place of the one with
its name. This keeps the names in order, and of the entries with one name the last is left.

## Main definitions

* `NamesRise`: Entries in the order of their names.
* `Registry.lastNamed`: The last entry of a name.
* `Registry.FindsExactly`: What a search should find.

## Theorems

* `prefix_of_between`: Texts with one beginning stand together.
* `mem_ofEntries`: The registry of a list has the last entry of each name.
* `search_eq_filter`: The search finds what a look at all entries finds.
* `search_findsExactly`: A search finds the last entries of the names with a beginning.
-/

namespace StackScript

/-! ## Texts with one beginning -/

/-- A text that is not in front of a beginning, but in front of some text with it, has that
    beginning. -/
theorem prefix_of_between {beginning cs more : List Char} (hfrom : ¬ cs < beginning)
    (hbelow : cs < beginning ++ more) : beginning <+: cs := by
  induction beginning generalizing cs with
  | nil => exact List.nil_prefix
  | cons c beginning ih =>
      cases cs with
      | nil => exact absurd (List.nil_lt_cons c beginning) hfrom
      | cons d cs =>
          rw [List.cons_lt_cons_iff, not_or] at hfrom
          rcases List.cons_lt_cons_iff.mp hbelow with hlt | ⟨rfl, hrest⟩
          · exact absurd hlt hfrom.1
          · have hrestFrom : ¬ cs < beginning := fun h => hfrom.2 ⟨rfl, h⟩
            exact List.cons_prefix_cons.mpr ⟨rfl, ih hrestFrom hrest⟩

namespace Registry

variable {entries : List DocEntry} {beginning : String}

theorem nameBeginsWith_iff {entry : DocEntry} :
    nameBeginsWith beginning entry ↔ beginning.toList <+: entry.name.toList :=
  List.isPrefixOf_iff_prefix

theorem not_lt_of_nameBeginsWith {entry : DocEntry} (h : nameBeginsWith beginning entry) :
    ¬ entry.name < beginning := by
  rw [String.lt_iff_toList_lt, List.not_lt]
  exact (nameBeginsWith_iff.mp h).le

/-! ## Filling the registry -/

/-- The entries are in the order of their names, and no name comes twice. -/
def NamesRise (entries : List DocEntry) : Prop :=
  entries.Pairwise fun a b => a.name < b.name

/-- The first name is smaller than all others, so none of them is the same. -/
theorem NamesRise.name_ne {entry other : DocEntry} (h : NamesRise (entry :: entries))
    (hother : other ∈ entries) : other.name ≠ entry.name := by
  intro hsame
  have hlt := (List.pairwise_cons.mp h).1 other hother
  rw [hsame] at hlt
  exact String.lt_irrefl _ hlt

/-- A new entry comes in, and the one that had its name goes. -/
theorem mem_insertEntry (h : NamesRise entries) (entry found : DocEntry) :
    found ∈ insertEntry entry entries ↔
      found = entry ∨ found ∈ entries ∧ found.name ≠ entry.name := by
  fun_induction insertEntry entry entries with
  | case1 => simp
  | case2 other others hlt =>
      rw [List.mem_cons]
      -- Behind the new entry all names are larger, so none of them is replaced.
      refine or_congr_right ⟨fun hmem => ⟨hmem, fun hsame => ?_⟩, And.left⟩
      rcases List.mem_cons.mp hmem with rfl | hmem
      · exact String.lt_irrefl _ (hsame ▸ hlt)
      · have hbehind := String.lt_trans hlt ((List.pairwise_cons.mp h).1 found hmem)
        exact String.lt_irrefl _ (hsame ▸ hbehind)
  | case3 other others _ hsame =>
      rw [List.mem_cons, hsame]
      refine or_congr_right ⟨fun hmem => ⟨.tail _ hmem, h.name_ne hmem⟩, fun hmem => ?_⟩
      exact (List.mem_cons.mp hmem.1).resolve_left fun heq => hmem.2 (congrArg _ heq)
  | case4 other others _ hne ih =>
      rw [List.mem_cons, ih (List.pairwise_cons.mp h).2, List.mem_cons]
      constructor
      · rintro (rfl | heq | hmem)
        · exact .inr ⟨.inl rfl, Ne.symm hne⟩
        · exact .inl heq
        · exact .inr ⟨.inr hmem.1, hmem.2⟩
      · rintro (heq | ⟨heq | hmem, hname⟩)
        · exact .inr (.inl heq)
        · exact .inl heq
        · exact .inr (.inr ⟨hmem, hname⟩)

/-- An entry is put in front of the first larger name, and takes the place of its own name
    if it meets it. So the names rise afterwards as well. -/
theorem NamesRise.insertEntry (h : NamesRise entries) (entry : DocEntry) :
    NamesRise (insertEntry entry entries) := by
  fun_induction Registry.insertEntry entry entries with
  | case1 => exact List.pairwise_singleton _ _
  | case2 other others hlt =>
      refine List.pairwise_cons.mpr ⟨fun found hfound => ?_, h⟩
      rcases List.mem_cons.mp hfound with rfl | hbehind
      · exact hlt
      · exact String.lt_trans hlt ((List.pairwise_cons.mp h).1 found hbehind)
  | case3 other others _ hsame =>
      have hrise := List.pairwise_cons.mp h
      exact List.pairwise_cons.mpr ⟨fun found hfound => hsame ▸ hrise.1 found hfound, hrise.2⟩
  | case4 other others hle hne ih =>
      have hrise := List.pairwise_cons.mp h
      refine List.pairwise_cons.mpr ⟨fun found hfound => ?_, ih hrise.2⟩
      -- What comes behind is the new entry or an old one.
      rcases (mem_insertEntry hrise.2 entry found).mp hfound with rfl | hold
      · exact lt_of_le_of_ne (not_lt.mp hle) (Ne.symm hne)
      · exact hrise.1 found hold.1

/-- The last entry of a name in a list in which names may repeat. -/
def lastNamed (entries : List DocEntry) (name : String) : Option DocEntry :=
  (entries.filter fun entry => entry.name = name).getLast?

/-- An entry at the end is the last one of its name. -/
theorem lastNamed_append_singleton (entries : List DocEntry) (entry : DocEntry) (name : String) :
    lastNamed (entries ++ [entry]) name =
      if entry.name = name then some entry else lastNamed entries name := by
  unfold lastNamed
  rw [List.filter_append]
  by_cases hname : entry.name = name
  · rw [if_pos hname, List.filter_cons_of_pos (by simpa using hname), List.filter_nil,
      List.getLast?_concat]
  · rw [if_neg hname, List.filter_cons_of_neg (by simpa using hname), List.filter_nil,
      List.append_nil]

-- The registry is filled from the front, so the last entry is put in last.
theorem ofEntries_append_singleton (entries : List DocEntry) (entry : DocEntry) :
    (ofEntries (entries ++ [entry])).entries = insertEntry entry (ofEntries entries).entries :=
  List.foldl_append

/-- Every step keeps the order, `NamesRise.insertEntry`. -/
theorem namesRise_ofEntries (entries : List DocEntry) : NamesRise (ofEntries entries).entries := by
  induction entries using List.reverseRecOn with
  | nil => exact List.Pairwise.nil
  | append_singleton entries entry ih =>
      rw [ofEntries_append_singleton]
      exact ih.insertEntry entry

/-- The registry of a list has the last entry of each name, and no others. -/
theorem mem_ofEntries (entries : List DocEntry) (found : DocEntry) :
    found ∈ (ofEntries entries).entries ↔ lastNamed entries found.name = some found := by
  induction entries using List.reverseRecOn with
  | nil => exact ⟨nofun, nofun⟩
  | append_singleton entries entry ih =>
      rw [ofEntries_append_singleton, mem_insertEntry (namesRise_ofEntries entries), ih,
        lastNamed_append_singleton]
      by_cases hname : entry.name = found.name
      · rw [if_pos hname, Option.some.injEq]
        exact ⟨fun h => (h.resolve_right fun hold => hold.2 hname.symm).symm, fun h => .inl h.symm⟩
      · rw [if_neg hname]
        refine ⟨fun h => (h.resolve_left fun heq => hname (congrArg _ heq.symm)).1, fun h => ?_⟩
        exact .inr ⟨h, Ne.symm hname⟩

/-! ## Searching it -/

/-- Where the reading begins, no name is in front of the beginning any more. -/
theorem not_lt_of_mem_dropWhile (h : NamesRise entries) :
    ∀ entry ∈ entries.dropWhile fun entry => entry.name < beginning,
      ¬ entry.name < beginning := by
  induction entries with
  | nil => exact nofun
  | cons first entries ih =>
      have hrise := List.pairwise_cons.mp h
      by_cases hfirst : first.name < beginning
      · rw [List.dropWhile_cons_of_pos (by simpa using hfirst)]
        exact ih hrise.2
      · rw [List.dropWhile_cons_of_neg (by simpa using hfirst)]
        refine List.forall_mem_cons.mpr ⟨hfirst, fun entry hentry hlt => hfirst ?_⟩
        exact String.lt_trans (hrise.1 entry hentry) hlt

/-- Where it ends, no name with the beginning is left. -/
theorem takeWhile_eq_filter (h : NamesRise entries)
    (hfrom : ∀ entry ∈ entries, ¬ entry.name < beginning) :
    entries.takeWhile (nameBeginsWith beginning) = entries.filter (nameBeginsWith beginning) := by
  induction entries with
  | nil => rfl
  | cons first entries ih =>
      have hrise := List.pairwise_cons.mp h
      rw [List.forall_mem_cons] at hfrom
      by_cases hfirst : nameBeginsWith beginning first
      · rw [List.takeWhile_cons_of_pos hfirst, List.filter_cons_of_pos hfirst,
          ih hrise.2 hfrom.2]
      · rw [List.takeWhile_cons_of_neg hfirst, List.filter_cons_of_neg hfirst,
          List.filter_eq_nil_iff.mpr]
        intro entry hentry hbegins
        -- An entry behind this one that begins so would enclose it between itself and the
        -- beginning.
        rcases nameBeginsWith_iff.mp hbegins with ⟨more, hmore⟩
        have hlt := String.lt_iff_toList_lt.mp (hrise.1 entry hentry)
        have hnot := mt String.lt_iff_toList_lt.mpr hfrom.1
        rw [← hmore] at hlt
        exact hfirst (nameBeginsWith_iff.mpr (prefix_of_between hnot hlt))

/-- The stretch that a search reads has all entries whose names have the beginning. -/
theorem search_eq_filter {registry : Registry} (h : NamesRise registry.entries)
    (beginning : String) :
    registry.search beginning = registry.entries.filter (nameBeginsWith beginning) := by
  let isBefore : DocEntry → Bool := fun entry => entry.name < beginning
  have hskipped : (registry.entries.takeWhile isBefore).filter (nameBeginsWith beginning) = [] := by
    refine List.filter_eq_nil_iff.mpr fun entry hentry hbegins => ?_
    have hlt : isBefore entry := List.mem_takeWhile_imp hentry
    exact not_lt_of_nameBeginsWith hbegins (of_decide_eq_true hlt)
  calc registry.search beginning
      = (registry.entries.dropWhile isBefore).takeWhile (nameBeginsWith beginning) := rfl
    _ = (registry.entries.dropWhile isBefore).filter (nameBeginsWith beginning) :=
        takeWhile_eq_filter (h.sublist (List.dropWhile_sublist _)) (not_lt_of_mem_dropWhile h)
    _ = registry.entries.filter (nameBeginsWith beginning) := by
        conv => rhs; rw [← @List.takeWhile_append_dropWhile _ isBefore registry.entries]
        rw [List.filter_append, hskipped, List.nil_append]

/-- Some entries are those that a search for the names with a beginning should find in a
    list of entries. -/
structure FindsExactly (entries : List DocEntry) (beginning : String)
    (found : List DocEntry) : Prop where
  /-- They are the last entries of the names that have the beginning. -/
  mem_iff : ∀ entry, entry ∈ found ↔
    beginning.toList <+: entry.name.toList ∧ lastNamed entries entry.name = some entry
  /-- No name comes twice. -/
  nodup_names : (found.map DocEntry.name).Nodup
  /-- The bytes of the names are in strictly increasing order. -/
  rising : found.Pairwise fun a b => encode a.name.toList < encode b.name.toList

/-- A search finds the last entry of each name that has the beginning, in the order of the
    bytes of the names. -/
theorem search_findsExactly (entries : List DocEntry) (beginning : String) :
    FindsExactly entries beginning ((ofEntries entries).search beginning) := by
  have hrise := namesRise_ofEntries entries
  rw [search_eq_filter hrise]
  have hfound := hrise.sublist (List.filter_sublist (p := nameBeginsWith beginning))
  refine ⟨fun entry => ?_, ?_, ?_⟩
  · rw [List.mem_filter, mem_ofEntries, nameBeginsWith_iff, and_comm]
  · exact List.pairwise_map.mpr (hfound.imp fun hlt => ne_of_lt hlt)
  · exact hfound.imp fun hlt => encode_lt (String.lt_iff_toList_lt.mp hlt)

end Registry

end StackScript
