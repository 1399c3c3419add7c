import Endpoints.Proofs.LiteralUnion

/-!
# Keys of records

A record over a union of literals has one property for each value, named by its text, whatever kind
of literal it is. A selection of properties by keys (`Pick`, `Omit`) looks at the texts of string
literals only. So the two agree on a key exactly if its text is also a string among the keys, which
a number or a boolean need not have beside it.
-/

namespace Endpoints

/-! ## Properties of a record -/

/-- The record that has a property of one type for each of some keys. -/
def Schema.ofKeys (keys : List Json) (value : Schema) : Schema :=
  .ofKind (.object (keys.map fun key => .plain key.keyText value true) none)

private theorem recordSchema_of_enum {key : Schema} {keys : List Json} (h : key.kind = .enum keys)
    (value : Schema) : recordSchema key value = .ofKeys keys value := by
  rw [recordSchema, h]
  rfl

private theorem Schema.shape_ofKeys (c : Context) (keys : List Json) (value : Schema) :
    c.shapeOf (.ofKeys keys value) =
      .ok ⟨keys.map fun key => .plain key.keyText value true, none⟩ :=
  rfl

/-- The keys are determined by the record, up to their texts. -/
theorem Schema.ofKeys_inj {keys others : List Json} {value : Schema}
    (h : ofKeys keys value = ofKeys others value) :
    keys.map Json.keyText = others.map Json.keyText := by
  have hkinds : (ofKeys keys value).kind = (ofKeys others value).kind := congrArg Schema.kind h
  -- The names of the properties are the texts of the keys.
  have hproperties := (Kind.object.inj hkinds).1
  have hnames := congrArg (List.map Property.name) hproperties
  rwa [List.map_map, List.map_map] at hnames

/-! ## Keys that are selected -/

/-- The texts by which keys select properties: those of the strings among them. -/
def selectedNames (keys : List Json) : List String := keys.filterMap (·.asString?)

/-- Whether the property of a key is among those that the keys select. -/
def isSelected (keys : List Json) (key : Json) : Bool := (selectedNames keys).contains key.keyText

theorem isSelected_iff {keys : List Json} {key : Json} :
    isSelected keys key = true ↔ Json.string key.keyText ∈ keys := by
  have hstring (other : Json) (text : String) :
      other.asString? = some text ↔ other = .string text := by
    cases other <;> simp [Json.asString?]
  rw [isSelected, List.contains_iff_mem, selectedNames, List.mem_filterMap]
  simp only [hstring, exists_eq_right]

private theorem filter_properties (keys : List Json) (value : Schema) (keep : Bool) :
    (keys.map fun key => Property.plain key.keyText value true).filter
        (fun property => (selectedNames keys).contains property.name == keep) =
      (keys.filter fun key => isSelected keys key == keep).map fun key =>
        .plain key.keyText value true :=
  List.filter_map

/-- All keys are selected iff the record of the selected ones is the whole record. -/
private theorem ofKeys_selected {keys : List Json} {value : Schema} :
    Schema.ofKeys (keys.filter (isSelected keys)) value = .ofKeys keys value ↔
      ∀ key ∈ keys, Json.string key.keyText ∈ keys := by
  constructor
  · intro h key hkey
    -- A list that keeps its length under a filter keeps all its items.
    have hlength := congrArg List.length (Schema.ofKeys_inj h)
    rw [List.length_map, List.length_map] at hlength
    exact isSelected_iff.1 (List.length_filter_eq_length_iff.1 hlength key hkey)
  · intro h
    rw [List.filter_eq_self.2 fun key hkey => isSelected_iff.2 (h key hkey)]

theorem rest_eq_nil {keys : List Json} :
    keys.filter (!isSelected keys ·) = [] ↔ ∀ key ∈ keys, Json.string key.keyText ∈ keys := by
  simp [List.filter_eq_nil_iff, isSelected_iff]

/-! ## Library types -/

namespace Resolver

open Resolve

variable {r : Resolver} {s t u : Session}

/-- A name that is not declared and has no dot is that of a library type. -/
private theorem resolve_library {name : String} (hfind : r.index.find name = [])
    (hdot : splitLast? name = none) (arguments : List TypeExpr) (hints : Hints) :
    r.resolve (.reference name arguments) hints = library r.resolve name arguments hints := by
  have hmember : r.enumMember? name = none := by
    rw [enumMember?, hdot]
    rfl
  rw [resolve_eq_step]
  show r.reference r.resolve name arguments hints = _
  simp only [reference, hfind, hmember]

/-- `Record` resolves the type of its values first, and then the type of its keys. -/
theorem run_record (hfind : r.index.find "Record" = []) {K V : TypeExpr} {key value : Schema}
    (hV : (r.resolve V .none).run s = (.ok value, t))
    (hK : (r.resolve K .none).run t = (.ok key, u)) (hints : Hints) :
    (r.resolve (.reference "Record" [K, V]) hints).run s = (.ok (recordSchema key value), u) := by
  rw [resolve_library hfind rfl]
  show (do
    let value ← r.resolve V .none
    let key ← r.resolve K .none
    return recordSchema key value : Resolve Schema).run s = _
  rw [run_bind_of_ok hV, run_bind_of_ok hK]
  rfl

/-- What is selected from an object of known shape by keys that list their values. -/
private theorem run_selectProperties {name : String} {target K : TypeExpr} {schema key : Schema}
    {shape : ObjectShape} {keys : List Json} (keep : Bool)
    (htarget : (r.resolve target .none).run s = (.ok schema, t))
    (hshape : t.context.shapeOf schema = .ok shape)
    (hK : (r.resolve K .none).run t = (.ok key, u)) (hkind : key.kind = .enum keys) :
    (selectProperties r.resolve name target K keep).run s =
      (.ok (.ofKind (.object
        (shape.properties.filter fun property =>
          (selectedNames keys).contains property.name == keep)
        (if keep then none else shape.additional))), u) := by
  -- The shape of the target is known before the keys are resolved.
  have hshapeRun : (shapeOfType r.resolve target).run s = (.ok shape, t) := by
    rw [shapeOfType, run_bind_of_ok htarget]
    exact run_shapeOf_ok.2 ⟨hshape, rfl⟩
  rw [selectProperties, run_bind_of_ok hshapeRun, run_bind_of_ok hK]
  simp only [hkind]
  rfl

/-- A selection from a record by its own keys is the record of some of them. -/
theorem run_selectFromRecord (name : String) {record K : TypeExpr} {value key : Schema}
    {keys : List Json} (keep : Bool)
    (hrecord : (r.resolve record .none).run s = (.ok (.ofKeys keys value), t))
    (hK : (r.resolve K .none).run t = (.ok key, u)) (hkind : key.kind = .enum keys) :
    (selectProperties r.resolve name record K keep).run s =
      (.ok (.ofKeys (keys.filter fun key => isSelected keys key == keep) value), u) := by
  have hshape := Schema.shape_ofKeys t.context keys value
  rw [run_selectProperties keep hrecord hshape hK hkind, filter_properties]
  -- The record has no further properties that the rest could keep.
  cases keep <;> rfl

private theorem LiteralUnion.run_keys {K : TypeExpr} (hK : r.LiteralUnion K)
    (hliteral : literalValues (r.leaves K) ≠ []) (s : Session) :
    ∃ key, (r.resolve K .none).run s = (.ok key, s) ∧
      key.kind = .enum (literalValues (r.leaves K)).eraseDups :=
  ⟨_, hK.flat.run .none s, by rw [Schema.ofLeaves_of_ne_nil hliteral]⟩

end Resolver

/-- A program that declares none of the three names, a union of literals as key type and a value
type that is resolved. The record has a property for each different value of the literals, named by
its text. `Pick` of the record by the same keys has the properties whose name is a string among the
keys, and `Omit` the others. So `Pick` gives the whole record, and `Omit` no property, exactly if
the text of every key is also a string among the keys; all of them lead to the same session as the
value type. -/
theorem selections_by_record_keys (r : Resolver) (hrecord : r.index.find "Record" = [])
    (hpick : r.index.find "Pick" = []) (homit : r.index.find "Omit" = []) {K V : TypeExpr}
    (hK : r.LiteralUnion K) (hliteral : literalValues (r.leaves K) ≠ []) {s t : Session}
    {value : Schema} (hV : (r.resolve V .none).run s = (.ok value, t)) (hints : Hints) :
    let keys := (literalValues (r.leaves K)).eraseDups
    let picked := keys.filter (isSelected keys)
    let omitted := keys.filter (!isSelected keys ·)
    let record := TypeExpr.reference "Record" [K, V]
    (r.resolve record hints).run s = (.ok (.ofKeys keys value), t) ∧
    (r.resolve (.reference "Pick" [record, K]) hints).run s = (.ok (.ofKeys picked value), t) ∧
    (r.resolve (.reference "Omit" [record, K]) hints).run s = (.ok (.ofKeys omitted value), t) ∧
    (Schema.ofKeys picked value = .ofKeys keys value ↔
      ∀ key ∈ keys, Json.string key.keyText ∈ keys) ∧
    (omitted = [] ↔ ∀ key ∈ keys, Json.string key.keyText ∈ keys) := by
  intro keys picked omitted record
  obtain ⟨key, hkey, hkind⟩ := hK.run_keys hliteral t
  have hrun (hints : Hints) : (r.resolve record hints).run s = (.ok (.ofKeys keys value), t) := by
    rw [← recordSchema_of_enum hkind]
    exact Resolver.run_record hrecord hV hkey hints
  -- Both selections resolve the record without hints, and then the keys once more.
  have hselect (name : String) (keep : Bool) :=
    Resolver.run_selectFromRecord name keep (hrun .none) hkey hkind
  refine ⟨hrun hints, ?_, ?_, ofKeys_selected, rest_eq_nil⟩
  · rw [Resolver.resolve_library hpick rfl]
    show (Resolver.selectProperties r.resolve "Pick" record K true).run s = _
    simpa using hselect "Pick" true
  · rw [Resolver.resolve_library homit rfl]
    show (Resolver.selectProperties r.resolve "Omit" record K false).run s = _
    simpa using hselect "Omit" false

/-- A number among the keys: `Pick` loses its property and `Omit` keeps it. -/
theorem number_key_lost :
    let r : Resolver := ⟨.ofProgram [], .ofSettings .default⟩
    let K := TypeExpr.union [.literal (.number "1"), .literal (.string "a")]
    let record := TypeExpr.reference "Record" [K, .keyword .string]
    let one := Property.plain "1" .string true
    let a := Property.plain "a" .string true
    (r.resolve record .none).run .empty = (.ok (.ofKind (.object [one, a] none)), .empty) ∧
    (r.resolve (.reference "Pick" [record, K]) .none).run .empty =
      (.ok (.ofKind (.object [a] none)), .empty) ∧
    (r.resolve (.reference "Omit" [record, K]) .none).run .empty =
      (.ok (.ofKind (.object [one] none)), .empty) ∧
    ¬ ∀ key ∈ [Json.int 1, .string "a"], Json.string key.keyText ∈ [Json.int 1, .string "a"] := by
  intro r K record one a
  have hK : r.LiteralUnion K := .union (by simp [Resolver.LiteralUnion.literal])
  have hV : (r.resolve (.keyword .string) .none).run .empty = (.ok .string, .empty) := by
    rw [Resolver.resolve_eq_step]
    rfl
  have hkeys : (literalValues (r.leaves K)).eraseDups = [.int 1, .string "a"] := rfl
  obtain ⟨hrecord, hpick, homit, hwhole, -⟩ :=
    selections_by_record_keys r rfl rfl rfl hK (by decide) hV .none
  rw [hkeys] at hrecord hpick homit hwhole
  refine ⟨hrecord, hpick, homit, fun h => ?_⟩
  -- If every text were a string among the keys, then the two records would have the same keys.
  have hnames := Schema.ofKeys_inj (hwhole.2 h)
  exact absurd hnames (by decide)

end Endpoints
