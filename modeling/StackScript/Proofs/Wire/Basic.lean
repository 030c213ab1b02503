import StackScript.Proofs.Json.Compact
import StackScript.Proofs.Json.Record
import StackScript.Wire.Basic

/-!
# Written Forms Read Back

A reader takes more than its writer writes: records may come as arrays, fields
in any order, unknown fields between them. What it makes of all this is still a
value that the writer can write, and of the written form it makes the value
again. `ReadsBack` says both, for a condition `Fits` that tells which values can
be written at all: a line has to be a number of 32 bits, the names of a table
have to differ. That no written form denotes any other value is what makes a
value that has been read once come back unchanged from then on.

The types are put together from texts, numbers, words, lists, tables and
records, so the law is shown for each way of putting together, and whoever
defines a written form says what its fields are.

## Main definitions

* `ReadsBack`: The written forms of a type are read back.
* `RoundTrips`: A value is written, read and written again.

## Theorems

* `ReadsBack.roundTrips`: A value that fits survives being written.
* `readsBack_named`: Words from a list.
* `readsBack_list`, `readsBack_table`: Lists and tables.
* `readsBack_record`: Records, by their fields.
-/

namespace StackScript

/-- A line and a column are numbers of 32 bits. -/
def Position.Fits (position : Position) : Prop :=
  position.line < Wire.smallLimit ∧ position.column < Wire.smallLimit

instance (position : Position) : Decidable position.Fits :=
  inferInstanceAs (Decidable (_ ∧ _))

namespace Wire

section Law

variable {α : Type} [Wire α] {Fits : α → Prop} {value : α}

/-- The values that fit, and no others, are denoted by written forms, each by
    its own. -/
structure ReadsBack (α : Type) [Wire α] (Fits : α → Prop) : Prop where
  /-- What is written is JSON. -/
  proper : ∀ value : α, (toJson value).Proper
  /-- No value is written like a missing one. -/
  ne_null : ∀ value : α, toJson value ≠ .null
  /-- What is written is read back. -/
  ofJson?_toJson : ∀ value : α, Fits value → ofJson? (toJson value) = some value
  /-- What is read can be written. -/
  fits : ∀ (json : Json) (value : α), ofJson? json = some value → Fits value

/-- The text of a value is read as what is kept of the value, and this has the
    same text. -/
def RoundTrips (kept : α → α) (value : α) : Prop :=
  decode? (encode value) = some (kept value) ∧ encode (kept value) = encode value

/-- A value that fits comes back from its text. -/
theorem ReadsBack.decode?_encode (h : ReadsBack α Fits) (hvalue : Fits value) :
    decode? (encode value) = some value := by
  rw [decode?, encode, Json.parse?_compact (h.proper value)]
  exact h.ofJson?_toJson value hvalue

theorem ReadsBack.fits_of_decode? (h : ReadsBack α Fits) {text : String}
    (hvalue : decode? text = some value) : Fits value := by
  rcases Option.bind_eq_some_iff.mp hvalue with ⟨json, -, hjson⟩
  exact h.fits json value hjson

/-- A value survives being written, but for what is not written of it. -/
theorem ReadsBack.roundTrips (h : ReadsBack α Fits) {kept : α → α} (hfits : Fits (kept value))
    (hkept : toJson (kept value) = toJson value) : RoundTrips kept value := by
  have hsame : encode (kept value) = encode value := congrArg Json.compact hkept
  refine ⟨?_, hsame⟩
  rw [← hsame]
  exact h.decode?_encode hfits

/-! ## Fields -/

theorem required_toJson (h : ReadsBack α Fits) (hvalue : Fits value) :
    required (some (toJson value)) = some value :=
  h.ofJson?_toJson value hvalue

theorem fits_required (h : ReadsBack α Fits) {field : Option Json}
    (hvalue : required field = some value) : Fits value := by
  rcases Option.bind_eq_some_iff.mp hvalue with ⟨json, -, hjson⟩
  exact h.fits json value hjson

/-- An optional field may be missing, which is read as no value. -/
theorem optional_toJson (h : ReadsBack α Fits) {value : Option α} (hvalue : ∀ v ∈ value, Fits v) :
    optional (value.map toJson) = some value := by
  cases value with
  | none => rfl
  | some value =>
      have hback := h.ofJson?_toJson value (hvalue value rfl)
      rw [Option.map_some]
      unfold optional
      split
      · next hnone => cases hnone
      · next hnull => exact absurd (Option.some.inj hnull) (h.ne_null value)
      · next json _ hjson =>
        rw [← Option.some.inj hjson, hback]
        rfl

theorem fits_optional (h : ReadsBack α Fits) {field : Option Json} {value : Option α}
    (hvalue : optional field = some value) : ∀ v ∈ value, Fits v := by
  unfold optional at hvalue
  split at hvalue
  · cases hvalue
    exact nofun
  · cases hvalue
    exact nofun
  · next json _ =>
    rcases Option.map_eq_some_iff.mp hvalue with ⟨found, hfound, rfl⟩
    intro v hv
    cases hv
    exact h.fits json found hfound

/-- A field is JSON if its value is. -/
theorem ReadsBack.proper_some (h : ReadsBack α Fits) (value : α) :
    ∀ json ∈ some (toJson value), json.Proper := by
  intro json hjson
  cases hjson
  exact h.proper value

theorem ReadsBack.proper_map (h : ReadsBack α Fits) (value : Option α) :
    ∀ json ∈ value.map toJson, json.Proper := by
  intro json hjson
  rcases Option.map_eq_some_iff.mp hjson with ⟨found, -, rfl⟩
  exact h.proper found

theorem proper_number (n : Nat) : ∀ json ∈ some (Json.ofNat n), json.Proper := by
  intro json hjson
  cases hjson
  exact Json.proper_ofNat n

end Law

theorem smallNat_ofNat {n : Nat} (h : n < smallLimit) : smallNat (some (.ofNat n)) = some n :=
  Json.natBelow?_ofNat h

theorem largeNat_ofNat {n : Nat} (h : n < largeLimit) : largeNat (some (.ofNat n)) = some n :=
  Json.natBelow?_ofNat h

theorem lt_of_natBelow? {limit n : Nat} {field : Option Json}
    (h : field >>= Json.natBelow? limit = some n) : n < limit := by
  rcases Option.bind_eq_some_iff.mp h with ⟨json, -, hjson⟩
  unfold Json.natBelow? at hjson
  split at hjson
  · exact of_decide_eq_true (Option.filter_eq_some_iff.mp hjson).2
  · cases hjson

theorem positionFields_ofNat {position : Position} (h : position.Fits) :
    positionFields (some (.ofNat position.line)) (some (.ofNat position.column)) =
      some position := by
  rw [positionFields, smallNat_ofNat h.1, smallNat_ofNat h.2]
  rfl

theorem fits_positionFields {line column : Option Json} {position : Position}
    (h : positionFields line column = some position) : position.Fits := by
  rcases Option.bind_eq_some_iff.mp h with ⟨n, hline, h⟩
  rcases Option.bind_eq_some_iff.mp h with ⟨m, hcolumn, h⟩
  cases h
  exact ⟨lt_of_natBelow? hline, lt_of_natBelow? hcolumn⟩

/-! ## Texts, truth values and words -/

/-- Texts and truth values all fit. -/
theorem readsBack_text : ReadsBack String fun _ => True where
  proper := Json.proper_ofText
  ne_null _ := nofun
  ofJson?_toJson text _ := Json.text?_ofText text
  fits _ _ _ := trivial

theorem required_text (text : String) : required (some (toJson text)) = some text :=
  required_toJson readsBack_text trivial

theorem optional_text (text : Option String) : optional (text.map toJson) = some text :=
  optional_toJson readsBack_text fun _ _ => trivial

theorem readsBack_bool : ReadsBack Bool fun _ => True where
  proper := .bool
  ne_null _ := nofun
  ofJson?_toJson _ _ := rfl
  fits _ _ _ := trivial

theorem word?_ofText (text : String) : (Json.ofText text).word? = some text :=
  Json.text?_ofText text

/-- Values that are written by their names are read back if no two of them share
    a name. -/
theorem readsBack_named {α : Type} [Wire α] (all : List α) (name : α → String)
    (hwrite : ∀ value : α, toJson value = .ofText (name value))
    (hread : ∀ json, ofJson? json = named all name json)
    (hnames : ∀ value, (all.find? fun other => name other = name value) = some value) :
    ReadsBack α fun _ => True where
  proper value := by
    rw [hwrite]
    exact Json.proper_ofText _
  ne_null value := by
    rw [hwrite]
    exact nofun
  ofJson?_toJson value _ := by
    rw [hread, hwrite, named, word?_ofText]
    exact hnames value
  fits _ _ _ := trivial

/-! ## Lists and tables -/

section Many

variable {α β : Type}

/-- A list is read if all its items are. -/
theorem mapM_map_eq_some {f : β → Option α} {g : α → β} {values : List α}
    (h : ∀ value ∈ values, f (g value) = some value) : (values.map g).mapM f = some values := by
  induction values with
  | nil => rfl
  | cons value values ih =>
      rw [List.forall_mem_cons] at h
      rw [List.map_cons, List.mapM_cons, h.1, ih h.2]
      rfl

theorem forall_mem_of_mapM {f : β → Option α} {p : α → Prop}
    (h : ∀ item value, f item = some value → p value) {items : List β} {values : List α}
    (hvalues : items.mapM f = some values) : ∀ value ∈ values, p value := by
  induction items generalizing values with
  | nil =>
      cases hvalues
      exact fun value hvalue => by cases hvalue
  | cons item items ih =>
      rw [List.mapM_cons] at hvalues
      rcases Option.bind_eq_some_iff.mp hvalues with ⟨value, hvalue, hrest⟩
      rcases Option.bind_eq_some_iff.mp hrest with ⟨others, hothers, hcons⟩
      cases hcons
      exact List.forall_mem_cons.mpr ⟨h item value hvalue, ih hothers⟩

variable [Wire α] {Fits : α → Prop}

/-- A list comes back if its members do. -/
theorem readsBack_list (h : ReadsBack α Fits) :
    ReadsBack (List α) fun values => ∀ value ∈ values, Fits value where
  proper values := by
    refine .array fun item hitem => ?_
    rcases List.mem_map.mp hitem with ⟨value, -, rfl⟩
    exact h.proper value
  ne_null _ := nofun
  ofJson?_toJson values hvalues :=
    mapM_map_eq_some fun value hvalue => h.ofJson?_toJson value (hvalues value hvalue)
  fits json values hvalues := by
    rcases Option.bind_eq_some_iff.mp hvalues with ⟨items, -, hitems⟩
    exact forall_mem_of_mapM h.fits hitems

theorem optional_texts (texts : Option (List String)) :
    optional (texts.map toJson) = some texts :=
  optional_toJson (readsBack_list readsBack_text) fun _ _ _ _ => trivial

/-- A table comes back if its values do and no name comes twice. -/
theorem readsBack_table (h : ReadsBack α Fits) :
    ReadsBack (OrderedTable α) (OrderedTable.Holds Fits) where
  proper table := by
    refine Json.proper_record fun member hmember => ?_
    rcases List.mem_map.mp hmember with ⟨entry, -, rfl⟩
    exact h.proper entry.2
  ne_null _ := nofun
  ofJson?_toJson table htable := by
    -- Each member is read as its name with the value that was written.
    have hentries : (table.entries.map fun entry => (entry.1, toJson entry.2)).mapM
        (fun member => (ofJson? member.2 : Option α).map fun value => (member.1, value)) =
          some table.entries := by
      refine mapM_map_eq_some fun entry hentry => ?_
      rw [h.ofJson?_toJson entry.2 (htable.values entry hentry)]
      rfl
    refine Option.bind_eq_some_iff.mpr ⟨_, Json.members?_record _, ?_⟩
    refine Option.bind_eq_some_iff.mpr ⟨_, hentries, ?_⟩
    exact congrArg some (OrderedTable.ofList_of_nodup htable.nodup_names)
  fits json table htable := by
    rcases Option.bind_eq_some_iff.mp htable with ⟨members, -, htable⟩
    rcases Option.bind_eq_some_iff.mp htable with ⟨entries, hentries, htable⟩
    cases htable
    -- Whatever the members are, a table that was read has each name once.
    refine OrderedTable.holds_ofList (forall_mem_of_mapM (fun member entry hentry => ?_) hentries)
    rcases Option.map_eq_some_iff.mp hentry with ⟨value, hvalue, rfl⟩
    exact h.fits member.2 value hvalue

end Many

/-! ## Records -/

/-- A record is read back if its fields are: `fields` is what is written of a
    value, with the fields that it does not have, and `read` puts a value
    together from the fields that are found. -/
theorem readsBack_record {α : Type} [Wire α] {Fits : α → Prop} (names : List String)
    (droppable : Nat)
    (fields : α → List (String × Option Json)) {read : List (Option Json) → Option α}
    (hnames : names.Nodup) (hfields : ∀ value, (fields value).map (·.1) = names)
    (hwrite : ∀ value, toJson value = .record (Json.slots (fields value)))
    (hread : ∀ json, ofJson? json = json.fields? names droppable >>= read)
    (proper : ∀ value, ∀ field ∈ fields value, ∀ json ∈ field.2, json.Proper)
    (back : ∀ value, Fits value → read ((fields value).map (·.2)) = some value)
    (fits : ∀ found value, read found = some value → Fits value) : ReadsBack α Fits where
  proper value := by
    rw [hwrite]
    exact Json.proper_slots (proper value)
  ne_null value := by
    rw [hwrite]
    exact nofun
  ofJson?_toJson value hvalue := by
    -- Each field has a name of its own, so it is found again.
    have hdistinct : ((fields value).map (·.1)).Nodup := by rwa [hfields]
    rw [hread, hwrite, ← hfields value, Json.fields?_slots hdistinct]
    exact back value hvalue
  fits json value hvalue := by
    rw [hread] at hvalue
    rcases Option.bind_eq_some_iff.mp hvalue with ⟨found, -, hfound⟩
    exact fits found value hfound

end Wire

end StackScript
