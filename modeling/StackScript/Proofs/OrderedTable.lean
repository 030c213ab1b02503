import Mathlib.Data.List.Basic
import Mathlib.Data.List.Induction
import Mathlib.Data.List.Nodup
import StackScript.OrderedTable

/-!
# Tables Made from Lists

A list in which names may repeat becomes a table one entry at a time, and each
entry may replace one that came before. What the table holds in the end can be
said without going through all of these steps: every name stands where it came
first and has the value that came last.

Both halves are inductions from the end of the list, because that is where the
table was touched last.

The same holds without a table of things that have a name each, as long as the
names differ: looking for the first thing of a name finds them all.

A table that grows entry by entry keeps to whatever holds of all entries.

## Main definitions

* `OrderedTable.repeats`: The entries of a list whose name has come before.
* `OrderedTable.Holds`: A table without repetitions in which all values are such.

## Theorems

* `filter_name_eq_toList`: Things with different names.
* `names_ofList`: The names, each in its first place.
* `get?_ofList`: The value of a name is its last one.
* `values_eq`: The values are those of the names, in their order.
* `ofList_of_nodup`: A list without repetitions is its own table.
* `Holds.insert`, `holds_ofList`: Tables of such values.
-/

namespace StackScript

variable {α : Type}

-- The name is not among those of the values, so none of them has it.
theorem name_ne_of_notMem {name : α → String} {value other : α} {values : List α}
    (h : name value ∉ values.map name) (hother : other ∈ values) : name other ≠ name value :=
  fun hsame => h (List.mem_map.mpr ⟨other, hother, hsame⟩)

/-- Of things with different names, at most one has a given name. -/
theorem filter_name_eq_toList {name : α → String} {values : List α} (h : (values.map name).Nodup)
    (asked : String) :
    (values.filter fun value => name value = asked) =
      (values.find? fun value => name value = asked).toList := by
  induction values with
  | nil => rfl
  | cons value values ih =>
      rw [List.map_cons, List.nodup_cons] at h
      by_cases hname : name value = asked
      · -- The names differ, so behind the first value of the name there is no other.
        have hothers : values.filter (fun value => name value = asked) = [] := by
          rw [List.filter_eq_nil_iff]
          exact fun other hother hsame =>
            name_ne_of_notMem h.1 hother ((of_decide_eq_true hsame).trans hname.symm)
        rw [List.find?_cons_of_pos (by simp [hname]), List.filter_cons_of_pos (by simp [hname]),
          hothers]
        rfl
      · rw [List.find?_cons_of_neg (by simpa using hname),
          List.filter_cons_of_neg (by simpa using hname), ih h.2]

namespace OrderedTable

-- The last entry is put into the table of the others.
theorem ofList_append_singleton (entries : List (String × α)) (entry : String × α) :
    ofList (entries ++ [entry]) = (ofList entries).insert entry.1 entry.2 := by
  rw [ofList, List.foldl_append]
  rfl

/-- One name more: it is new, or its first place is further in front. -/
theorem eraseDups_append_singleton (names : List String) (name : String) :
    (names ++ [name]).eraseDups =
      if name ∈ names.eraseDups then names.eraseDups else names.eraseDups ++ [name] := by
  rw [List.eraseDups_append]
  by_cases h : name ∈ names
  · rw [if_pos (List.mem_eraseDups.mpr h), List.removeAll,
      List.filter_cons_of_neg (by simpa using h)]
    exact List.append_nil _
  · rw [if_neg (mt List.mem_eraseDups.mp h), List.removeAll,
      List.filter_cons_of_pos (by simpa using h)]
    rfl

/-- The names of a table are those of the list, each in its first place. -/
theorem names_ofList (entries : List (String × α)) :
    (ofList entries).names = (entries.map (·.1)).eraseDups := by
  induction entries using List.reverseRecOn with
  | nil => rfl
  | append_singleton entries entry ih =>
      rw [ofList_append_singleton, names_insert, ih, List.map_append, List.map_singleton,
        eraseDups_append_singleton]

/-- The value of a name is the last one that the list gives it. -/
theorem get?_ofList (entries : List (String × α)) (name : String) :
    (ofList entries).get? name =
      (entries.reverse.find? fun entry => entry.1 = name).map (·.2) := by
  induction entries using List.reverseRecOn with
  | nil => rfl
  | append_singleton entries entry ih =>
      rw [ofList_append_singleton, get?_insert, List.reverse_append, List.reverse_singleton,
        List.singleton_append]
      by_cases h : name = entry.1
      · rw [if_pos h, List.find?_cons_of_pos (by simp [h])]
        rfl
      · rw [if_neg h, List.find?_cons_of_neg (by simpa using Ne.symm h), ih]

/-- The name of the entry at an index has come before. -/
def comesAgain (entries : List (String × α)) (indexed : (String × α) × Nat) : Bool :=
  ((entries.take indexed.2).map (·.1)).contains indexed.1.1

/-- The entries of a list whose name has come before. -/
def repeats (entries : List (String × α)) : List (String × α) :=
  (entries.zipIdx.filter (comesAgain entries)).map (·.1)

theorem mem_of_mem_repeats {entries : List (String × α)} {entry : String × α}
    (h : entry ∈ repeats entries) : entry ∈ entries := by
  rcases List.mem_map.mp h with ⟨indexed, hindexed, rfl⟩
  exact List.fst_mem_of_mem_zipIdx (List.mem_filter.mp hindexed).1

/-- Whether an entry is a repetition depends on the entries in front of it. So an entry more
    at the end changes nothing about the others, and is one itself if its name is known. -/
theorem repeats_append_singleton (entries : List (String × α)) (entry : String × α) :
    repeats (entries ++ [entry]) =
      repeats entries ++ if entry.1 ∈ entries.map (·.1) then [entry] else [] := by
  have hfront : entries.zipIdx.filter (comesAgain (entries ++ [entry])) =
      entries.zipIdx.filter (comesAgain entries) := by
    refine List.filter_congr fun indexed hindexed => ?_
    have hlt : indexed.2 < entries.length := List.snd_lt_of_mem_zipIdx hindexed
    rw [comesAgain, comesAgain, List.take_append_of_le_length (Nat.le_of_lt hlt)]
  -- The last entry has all others in front of it.
  have hlast : comesAgain (entries ++ [entry]) (entry, entries.length) ↔
      entry.1 ∈ entries.map (·.1) := by
    rw [comesAgain, List.take_left, List.contains_iff_mem]
  rw [repeats, List.zipIdx_append, List.filter_append, List.map_append, hfront, Nat.zero_add,
    List.zipIdx_singleton, ← repeats]
  by_cases hentry : entry.1 ∈ entries.map (·.1)
  · rw [if_pos hentry, List.filter_cons_of_pos (hlast.mpr hentry)]
    rfl
  · rw [if_neg hentry, List.filter_cons_of_neg (mt hlast.mp hentry)]
    rfl

/-- A known name keeps its place, and a new one is put at the end. -/
theorem nodup_names_insert {table : OrderedTable α} (h : table.names.Nodup) (name : String)
    (value : α) : (table.insert name value).names.Nodup := by
  rw [names_insert]
  split
  · exact h
  · next hnew => simpa using List.Nodup.concat hnew h

/-- The table of a list has each name once, however often the list has it. -/
theorem nodup_names_ofList (entries : List (String × α)) : (ofList entries).names.Nodup := by
  induction entries using List.reverseRecOn with
  | nil => exact List.nodup_nil
  | append_singleton entries entry ih =>
      rw [ofList_append_singleton]
      exact nodup_names_insert ih _ _

/-- The values of a table are those of its names, in their order. -/
theorem values_eq {table : OrderedTable α} (h : table.names.Nodup) :
    table.values = table.names.filterMap table.get? := by
  rcases table with ⟨entries⟩
  induction entries with
  | nil => rfl
  | cons entry entries ih =>
      rw [names, List.map_cons, List.nodup_cons] at h
      have hfirst : (OrderedTable.mk (entry :: entries)).get? entry.1 = some entry.2 := by
        rw [get?, List.find?_cons_of_pos (by simp)]
        rfl
      -- The first name does not come again, so it hides none of the other entries.
      have hothers : ∀ name ∈ entries.map (·.1),
          (OrderedTable.mk (entry :: entries)).get? name = (OrderedTable.mk entries).get? name := by
        intro name hname
        have hne : entry.1 ≠ name := fun heq => h.1 (heq ▸ hname)
        rw [get?, get?, List.find?_cons_of_neg (by simpa using hne)]
      rw [names, List.map_cons, List.filterMap_cons_some hfirst, List.filterMap_congr hothers,
        ← names, ← ih h.2]
      rfl

/-- A list in which no name comes twice is its own table. -/
theorem ofList_of_nodup {entries : List (String × α)} (h : (entries.map (·.1)).Nodup) :
    ofList entries = ⟨entries⟩ := by
  induction entries using List.reverseRecOn with
  | nil => rfl
  | append_singleton entries entry ih =>
      rw [List.map_append, List.map_singleton, List.nodup_append] at h
      have hnew : entry.1 ∉ (OrderedTable.mk entries).names :=
        fun hmem => h.2.2 _ hmem _ (List.mem_singleton_self _) rfl
      rw [ofList_append_singleton, ih h.1, insert_of_notMem _ hnew]

/-! ## What holds of all values -/

/-- The table has no name twice, and all of its values have the property. -/
structure Holds (p : α → Prop) (table : OrderedTable α) : Prop where
  /-- The names are different. -/
  nodup_names : table.names.Nodup
  /-- The values have the property. -/
  values : ∀ entry ∈ table.entries, p entry.2

variable {p : α → Prop} {table : OrderedTable α}

theorem holds_empty : (empty : OrderedTable α).Holds p :=
  ⟨List.nodup_nil, nofun⟩

theorem mem_entries_insert {name : String} {value : α} {entry : String × α}
    (h : entry ∈ (table.insert name value).entries) :
    entry = (name, value) ∨ entry ∈ table.entries := by
  rcases table with ⟨entries⟩
  change entry ∈ insertEntry name value entries at h
  fun_induction insertEntry name value entries with
  | case1 => exact Or.inl (List.mem_singleton.mp h)
  | case2 first entries hname =>
      rcases List.mem_cons.mp h with h | h
      · exact Or.inl h
      · exact Or.inr (List.mem_cons_of_mem first h)
  | case3 first entries hname ih =>
      rcases List.mem_cons.mp h with rfl | h
      · exact Or.inr List.mem_cons_self
      · exact (ih h).imp id (List.mem_cons_of_mem first)

/-- What a table holds has been put into it. -/
theorem mem_of_mem_entries_ofList {entries : List (String × α)} {entry : String × α}
    (h : entry ∈ (ofList entries).entries) : entry ∈ entries := by
  induction entries using List.reverseRecOn with
  | nil => exact h
  | append_singleton entries last ih =>
      rw [ofList_append_singleton] at h
      rcases mem_entries_insert h with rfl | h
      · exact List.mem_append_right _ List.mem_cons_self
      · exact List.mem_append_left _ (ih h)

/-- A table stays as it is with one more value of the kind. -/
theorem Holds.insert (h : table.Holds p) (name : String) {value : α} (hvalue : p value) :
    (table.insert name value).Holds p := by
  refine ⟨nodup_names_insert h.nodup_names name value, fun entry hentry => ?_⟩
  rcases mem_entries_insert hentry with rfl | hold
  · exact hvalue
  · exact h.values entry hold

/-- A value that is not put in does no harm, and one that is put in is a good one. -/
theorem Holds.insertNew (h : table.Holds p) (name : String) {value : α} (hvalue : p value) :
    (table.insertNew name value).Holds p := by
  unfold OrderedTable.insertNew
  split
  · exact h
  · exact h.insert name hvalue

-- This is an induction over the entries, from the end of the list.
theorem holds_ofList {entries : List (String × α)} (h : ∀ entry ∈ entries, p entry.2) :
    (ofList entries).Holds p := by
  induction entries using List.reverseRecOn with
  | nil => exact holds_empty
  | append_singleton entries entry ih =>
      rw [List.forall_mem_append] at h
      rw [ofList_append_singleton]
      exact (ih h.1).insert entry.1 (h.2 entry List.mem_cons_self)

end OrderedTable

end StackScript
