import Endpoints.Proofs.ForStd
import Endpoints.Schema.Document
import Mathlib.Data.List.Nodup

/-!
# Fields of documents

A document writes the fields of an object in a fixed order, but as a value the object is a map from
names to values: that is its normal form. Here the fields that an object may have stand in a table,
each with its name and with its value if it is there.
-/

namespace Endpoints

variable {α β : Type}

/-! ## Look-ups -/

/-- `lookupEntry` gives nothing iff there is no entry of that name. -/
theorem lookupEntry_eq_none_iff {key : String} {entries : List (String × α)} :
    lookupEntry key entries = none ↔ key ∉ entries.map (·.1) := by
  induction entries with
  | nil => simp [lookupEntry]
  | cons entry entries ih =>
    by_cases hkey : key = entry.1
    · simp [lookupEntry, hkey]
    · simp [lookupEntry, hkey, ih]

/-- `lookupEntry` in a table whose values are written in another way. -/
private theorem lookupEntry_map (write : α → β) (key : String) (entries : List (String × α)) :
    lookupEntry key (entries.map fun (name, value) => (name, write value)) =
      (lookupEntry key entries).map write := by
  induction entries with
  | nil => rfl
  | cons entry entries ih =>
    by_cases hkey : key = entry.1
    · simp [lookupEntry, hkey]
    · simp [lookupEntry, hkey, ih]

/-- In `a ++ b`, `lookupEntry` looks into `a` first. -/
theorem lookupEntry_append (key : String) (a b : List (String × α)) :
    lookupEntry key (a ++ b) = (lookupEntry key a).or (lookupEntry key b) := by
  induction a with
  | nil => rfl
  | cons entry a ih =>
    by_cases hkey : key = entry.1
    · simp [lookupEntry, hkey]
    · simp [lookupEntry, hkey, ih]

private theorem names_map (write : α → β) (entries : List (String × α)) :
    (entries.map fun (name, value) => (name, write value)).map (·.1) = entries.map (·.1) := by
  rw [List.map_map]
  rfl

private theorem Ordered.nodup {entries : List (String × α)} (h : Ordered entries) :
    (entries.map (·.1)).Nodup := by
  refine List.pairwise_map.2 (h.imp ?_)
  intro a b hlt heq
  exact String.lt_irrefl _ (heq ▸ hlt)

namespace Dict

/-- `Dict.ofList` has no entries but those of the list. -/
private theorem mem_ofList {entries : List (String × α)} {entry : String × α}
    (h : entry ∈ (ofList entries).entries) : entry ∈ entries := by
  -- The dictionary grows along the list, so the start is left open for the induction.
  suffices hfold : ∀ d : Dict α,
      entry ∈ (entries.foldl (fun d (key, value) => d.insert key value) d).entries →
        entry ∈ d.entries ∨ entry ∈ entries by
    exact (hfold empty h).resolve_left List.not_mem_nil
  clear h
  intro d hmem
  induction entries generalizing d with
  | nil => exact .inl hmem
  | cons first entries ih =>
    rcases ih (d.insert first.1 first.2) hmem with hmem | hmem
    · rcases mem_insertEntry hmem with rfl | hmem
      · exact .inr List.mem_cons_self
      · exact .inl hmem
    · exact .inr (List.mem_cons_of_mem _ hmem)

/-- If the names differ, it does not matter which of two entries with one name counts. -/
theorem get?_ofList {entries : List (String × α)} (h : (entries.map (·.1)).Nodup) (key : String) :
    (ofList entries).get? key = lookupEntry key entries := by
  -- For the induction the dictionary that is extended may be any; entries of the list win over its
  -- own.
  suffices hfold : ∀ d : Dict α,
      (entries.foldl (fun d (key, value) => d.insert key value) d).get? key =
        (lookupEntry key entries).or (d.get? key) by
    simpa [ofList] using hfold empty
  intro d
  induction entries generalizing d with
  | nil => rfl
  | cons first entries ih =>
    obtain ⟨hfirst, h⟩ := List.nodup_cons.1 h
    rw [List.foldl_cons, ih h, get?_insert]
    by_cases hkey : key = first.1
    · simp [lookupEntry, hkey, lookupEntry_eq_none_iff.2 hfirst]
    · simp [lookupEntry, hkey]

end Dict

namespace Json

/-! ## Normal forms -/

/-- A document that is a value: its objects list their fields by name, and no name twice. -/
def Normal (value : Json) : Prop :=
  value.normalize = value

private theorem normalizeList_eq_map (items : List Json) :
    normalizeList items = items.map normalize := by
  induction items with
  | nil => rfl
  | cons item items ih => simp [normalizeList, ih]

private theorem normalizeFields_eq_map (fields : List (String × Json)) :
    normalizeFields fields = fields.map fun (name, value) => (name, value.normalize) := by
  induction fields with
  | nil => rfl
  | cons field fields ih => simp [normalizeFields, ih]

theorem normalize_array_inj {a b : List Json} :
    (array a).normalize = (array b).normalize ↔ a.map normalize = b.map normalize := by
  simp [normalize, normalizeList_eq_map]

variable {write : α → Json}

theorem array_eq_of_normalize_eq {as bs : List α}
    (hwrite : ∀ a ∈ as, ∀ b ∈ bs, (write a).normalize = (write b).normalize → a = b)
    (h : (array (as.map write)).normalize = (array (bs.map write)).normalize) : as = bs := by
  rw [normalize_array_inj, List.map_map, List.map_map] at h
  exact List.eq_of_map_eq hwrite h

/-- Objects with one value give the same under every name, if no name repeats. -/
private theorem lookup_eq_of_normalize_eq {a b : List (String × Json)} (ha : (a.map (·.1)).Nodup)
    (hb : (b.map (·.1)).Nodup) (h : (object a).normalize = (object b).normalize) (name : String) :
    (lookupEntry name a).map normalize = (lookupEntry name b).map normalize := by
  -- The normal form of an object is the list of entries of a dictionary.
  have hdict : (Dict.ofList (normalizeFields a)).get? name =
      (Dict.ofList (normalizeFields b)).get? name := by
    simp only [normalize, ofFields, object.injEq] at h
    rw [Dict.get?, h, ← Dict.get?]
  rwa [normalizeFields_eq_map, normalizeFields_eq_map, Dict.get?_ofList (by rwa [names_map]),
    Dict.get?_ofList (by rwa [names_map]), lookupEntry_map, lookupEntry_map] at hdict

/-- Dictionaries with the same value are equal, if their entries can be told apart by their
values. -/
theorem dict_eq_of_normalize_eq {d e : Dict α}
    (hwrite : ∀ a ∈ d.entries.map (·.2), ∀ b ∈ e.entries.map (·.2),
      (write a).normalize = (write b).normalize → a = b)
    (h : (object (d.entries.map fun (name, value) => (name, write value))).normalize =
      (object (e.entries.map fun (name, value) => (name, write value))).normalize) : d = e := by
  apply Dict.ext_get?
  intro key
  have hkey := lookup_eq_of_normalize_eq (by rw [names_map]; exact d.ordered.nodup)
    (by rw [names_map]; exact e.ordered.nodup) h key
  rw [lookupEntry_map, lookupEntry_map, Option.map_map, Option.map_map] at hkey
  refine Option.eq_of_map_eq (fun a ha b hb => hwrite a ?_ b ?_) hkey
  · exact List.mem_map_of_mem (mem_of_lookupEntry ha)
  · exact List.mem_map_of_mem (mem_of_lookupEntry hb)

/-! ## Tables of fields -/

/-- The fields of a table that are there. -/
def present (table : List (String × Option Json)) : List (String × Json) :=
  table.flatMap fun (name, value) => optionalField name id value

private theorem names_optionalField (name : String) (write : α → Json) (value : Option α) :
    ((optionalField name write value).map (·.1)).Sublist [name] := by
  cases value with
  | none => exact List.nil_sublist _
  | some value => exact .refl _

private theorem names_present (table : List (String × Option Json)) :
    ((present table).map (·.1)).Sublist (table.map (·.1)) := by
  induction table with
  | nil => exact .slnil
  | cons entry table ih =>
    rw [present, List.flatMap_cons, List.map_append]
    exact (names_optionalField entry.1 id entry.2).append ih

/-- Under a name of the table, `present table` has the value of its entry. -/
private theorem lookup_present {table : List (String × Option Json)}
    (hnames : (table.map (·.1)).Nodup)
    {name : String} {value : Option Json} (h : (name, value) ∈ table) :
    lookupEntry name (present table) = value := by
  induction table with
  | nil => simp at h
  | cons entry table ih =>
    obtain ⟨hentry, hnames⟩ := List.nodup_cons.1 hnames
    rcases List.mem_cons.1 h with rfl | h
    -- The name is not in the rest of the table, so the rest does not supply what is absent here.
    · have hrest : lookupEntry name (present table) = none :=
        lookupEntry_eq_none_iff.2 fun hmem => hentry ((names_present table).subset hmem)
      cases value with
      | none => exact hrest
      | some value => simp [present, optionalField, lookupEntry]
    -- Another name stands first, so the first field is passed over.
    · have hne : name ≠ entry.1 := by
        rintro rfl
        exact hentry (List.mem_map.2 ⟨_, h, rfl⟩)
      have hfirst : lookupEntry name (optionalField entry.1 id entry.2) = none :=
        lookupEntry_eq_none_iff.2 fun hmem =>
          hne (by simpa using (names_optionalField _ _ _).subset hmem)
      rw [present, List.flatMap_cons, lookupEntry_append, hfirst, Option.none_or]
      exact ih hnames h

theorem entry_eq_of_normalize_eq {a b : List (String × Option Json)} (ha : (a.map (·.1)).Nodup)
    (hb : (b.map (·.1)).Nodup) (h : (object (present a)).normalize = (object (present b)).normalize)
    {name : String} {x y : Option Json} (hx : (name, x) ∈ a) (hy : (name, y) ∈ b) :
    x.map normalize = y.map normalize := by
  rw [← lookup_present ha hx, ← lookup_present hb hy]
  exact lookup_eq_of_normalize_eq (ha.sublist (names_present a)) (hb.sublist (names_present b)) h
    name

/-- Tables with the same names, all different, have the same entries if the objects have the same
value. -/
theorem table_eq_of_normalize_eq {a b : List (String × Option Json)}
    (ha : (a.map (·.1)).Nodup) (hnames : a.map (·.1) = b.map (·.1))
    (h : (object (present a)).normalize = (object (present b)).normalize) :
    a.map (·.2.map normalize) = b.map (·.2.map normalize) := by
  have hb := hnames ▸ ha
  -- The second column of a table is read off the object, name by name.
  have hvalues : ∀ table : List (String × Option Json), (table.map (·.1)).Nodup →
      table.map (·.2.map normalize) =
        (table.map (·.1)).map fun name => (lookupEntry name (present table)).map normalize := by
    intro table htable
    rw [List.map_map]
    refine List.map_congr_left fun entry hentry => ?_
    rw [Function.comp, lookup_present htable hentry]
  rw [hvalues a ha, hvalues b hb, hnames]
  exact List.map_congr_left fun name _ => lookup_eq_of_normalize_eq
    (ha.sublist (names_present a)) (hb.sublist (names_present b)) h name

/-! ## Documents without repeated names -/

/-- No object in the document has two fields of one name. -/
inductive Distinct : Json → Prop where
  | null : Distinct .null
  | bool (value : Bool) : Distinct (.bool value)
  | number (value : Number) : Distinct (.number value)
  | string (value : String) : Distinct (.string value)
  | array {items : List Json} (hitems : ∀ item ∈ items, item.Distinct) : Distinct (.array items)
  | object {fields : List (String × Json)} (hnames : (fields.map (·.1)).Nodup)
      (hvalues : ∀ field ∈ fields, field.2.Distinct) : Distinct (.object fields)

mutual

/-- In a normal form no object has two fields of one name. -/
private theorem distinct_normalize : (value : Json) → value.normalize.Distinct
  | .null => .null
  | .bool value => .bool value
  | .number value => .number value
  | .string value => .string value
  | .array items => .array (distinct_normalizeList items)
  | .object fields => .object (Dict.ofList (normalizeFields fields)).ordered.nodup
      fun field hfield => distinct_normalizeFields fields field (Dict.mem_ofList hfield)

private theorem distinct_normalizeList :
    (items : List Json) → ∀ item ∈ normalizeList items, item.Distinct
  | [], _, h => nomatch h
  | first :: items, item, h => by
    rcases List.mem_cons.1 h with rfl | h
    · exact distinct_normalize first
    · exact distinct_normalizeList items item h

private theorem distinct_normalizeFields :
    (fields : List (String × Json)) → ∀ field ∈ normalizeFields fields, field.2.Distinct
  | [], _, h => nomatch h
  | (_, value) :: fields, field, h => by
    rcases List.mem_cons.1 h with rfl | h
    · exact distinct_normalize value
    · exact distinct_normalizeFields fields field h

end

theorem Normal.distinct {value : Json} (h : value.Normal) : value.Distinct := by
  rw [← h]
  exact distinct_normalize value

theorem distinct_some {value : Json} : (∀ v ∈ some value, v.Distinct) ↔ value.Distinct := by
  simp

theorem distinct_map {value : Option α} (h : ∀ a ∈ value, (write a).Distinct) :
    ∀ v ∈ value.map write, v.Distinct := by
  intro v hv
  obtain ⟨a, ha, rfl⟩ := Option.map_eq_some_iff.1 hv
  exact h a ha

theorem distinct_array {items : List α} (h : ∀ a ∈ items, (write a).Distinct) :
    (array (items.map write)).Distinct :=
  .array (List.forall_mem_map.2 h)

theorem distinct_texts (texts : List String) : (array (texts.map string)).Distinct :=
  distinct_array fun text _ => .string text

theorem distinct_dict {d : Dict α} (h : ∀ entry ∈ d.entries, (write entry.2).Distinct) :
    (object (d.entries.map fun (name, value) => (name, write value))).Distinct :=
  .object (by rw [names_map]; exact d.ordered.nodup) (List.forall_mem_map.2 h)

/-- The document of a table whose names differ, if the values in the table are such documents. -/
theorem distinct_present {table : List (String × Option Json)} (hnames : (table.map (·.1)).Nodup)
    (hvalues : ∀ entry ∈ table, ∀ value ∈ entry.2, value.Distinct) :
    (object (present table)).Distinct := by
  refine .object (hnames.sublist (names_present table)) fun field hfield => ?_
  obtain ⟨⟨name, value⟩, hentry, hfield⟩ := List.mem_flatMap.1 hfield
  cases value with
  | none => exact nomatch hfield
  | some value =>
    rw [List.mem_singleton.1 hfield]
    exact hvalues _ hentry value rfl

end Json

end Endpoints
