import Endpoints.Proofs.Field

/-!
# What documents tell

The document of a schema or of a named type has fields that are always there, fields that are left
out where there is nothing to tell, and the fields of a part that has no object of its own.
-/

namespace Endpoints

open Json

variable {α : Type}

/-! ### Fields -/

@[simp] theorem optionalField_some (name : String) (write : α → Json) (value : α) :
    optionalField name write (some value) = [(name, write value)] := rfl

@[simp] theorem optionalField_none (name : String) (write : α → Json) :
    optionalField name write none = [] := rfl

@[simp] theorem optionalField_id_map (name : String) (write : α → Json) (value : Option α) :
    optionalField name id (value.map write) = optionalField name write value := by
  cases value <;> rfl

@[simp] theorem present_nil : present [] = [] := rfl

@[simp] theorem present_cons (name : String) (value : Option Json)
    (table : List (String × Option Json)) :
    present ((name, value) :: table) = optionalField name id value ++ present table := rfl

/-- The value of a field that is only there if set. -/
def flagValue (flag : Bool) : Option Json :=
  if flag then some (.bool true) else none

@[simp] theorem optionalField_flagValue (name : String) (flag : Bool) :
    optionalField name id (flagValue flag) = flagField name flag := by
  cases flag <;> rfl

theorem distinct_flagValue (flag : Bool) : ∀ value ∈ flagValue flag, value.Distinct := by
  cases flag <;> simp [flagValue, Distinct.bool]

/-- The value of the field of validators. -/
def validatorsValue (validators : Validators) : Option Json :=
  if validators.isEmpty then none
  else some (.object (validators.entries.map fun (name, validator) => (name, validator.toJson)))

@[simp] theorem optionalField_validatorsValue (validators : Validators) :
    optionalField "validators" id (validatorsValue validators) = validatorsField validators := by
  unfold validatorsField validatorsValue
  cases validators.isEmpty <;> rfl

namespace Json

@[simp] theorem normalize_string (value : String) : (string value).normalize = string value := rfl

@[simp] theorem normalize_bool (value : Bool) : (bool value).normalize = bool value := rfl

@[simp] theorem map_normalize_string (value : Option String) :
    value.map (Json.normalize ∘ string) = value.map string := rfl

@[simp] theorem map_string_inj {a b : Option String} : a.map string = b.map string ↔ a = b :=
  (Option.map_injective fun _ _ => string.inj).eq_iff

/-- Lists of texts have the same value only if they are equal. -/
theorem texts_inj {a b : List String} :
    (array (a.map string)).normalize = (array (b.map string)).normalize ↔ a = b := by
  rw [normalize_array_inj, List.map_map, List.map_map]
  exact (List.map_injective_iff.2 fun _ _ => string.inj).eq_iff

@[simp] theorem map_normalize_bool (value : Option Bool) :
    value.map (Json.normalize ∘ bool) = value.map bool := rfl

@[simp] theorem map_bool_inj {a b : Option Bool} : a.map bool = b.map bool ↔ a = b :=
  (Option.map_injective fun _ _ => bool.inj).eq_iff

@[simp] theorem flagValue_inj {a b : Bool} :
    (flagValue a).map Json.normalize = (flagValue b).map Json.normalize ↔ a = b := by
  cases a <;> cases b <;> simp [flagValue]

theorem list_eq_of_normal {a b : List Json} (ha : ∀ v ∈ a, v.Normal) (hb : ∀ v ∈ b, v.Normal)
    (h : a.map Json.normalize = b.map Json.normalize) : a = b :=
  List.eq_of_map_eq (fun v hv w hw hvw => (ha v hv).symm.trans (hvw.trans (hb w hw))) h

theorem option_eq_of_normal {a b : Option Json} (ha : ∀ v ∈ a, v.Normal) (hb : ∀ v ∈ b, v.Normal)
    (h : a.map Json.normalize = b.map Json.normalize) : a = b :=
  Option.eq_of_map_eq (fun v hv w hw hvw => (ha v hv).symm.trans (hvw.trans (hb w hw))) h

end Json

/-! ### Validators -/

/-- The fields of a validator. -/
def Validator.table (v : Validator) : List (String × Option Json) :=
  [("value", some v.value), ("errorMsg", v.message.map .string)]

theorem Validator.toJson_eq (v : Validator) : v.toJson = .object (present v.table) := by
  simp [Validator.toJson, Validator.table]

/-- The document of a validator has no repeated names if its limit has none. -/
theorem Validator.distinct_toJson {v : Validator} (h : v.value.Distinct) : v.toJson.Distinct := by
  rw [toJson_eq]
  refine distinct_present (by simp [table]) ?_
  simp [table, h, Distinct.string]

/-- A validator is known from the value of its document. -/
theorem Validator.eq_of_document {a b : Validator} (ha : a.value.Normal) (hb : b.value.Normal)
    (h : a.toJson.normalize = b.toJson.normalize) : a = b := by
  rw [toJson_eq, toJson_eq] at h
  have htable : a.value.normalize = b.value.normalize ∧ a.message = b.message := by
    simpa [table] using table_eq_of_normalize_eq (by simp [table]) (by simp [table]) h
  rw [ha, hb] at htable
  cases a
  cases b
  simp_all

/-- The limits of validators. -/
def validatorsValues (validators : Validators) : List Json :=
  validators.entries.map (·.2.value)

/-- The field of validators has no repeated names if the limits have none. -/
private theorem distinct_validatorsValue {validators : Validators}
    (h : ∀ v ∈ validatorsValues validators, v.Distinct) :
    ∀ value ∈ validatorsValue validators, value.Distinct := by
  intro value hvalue
  unfold validatorsValue at hvalue
  cases hempty : validators.isEmpty with
  | true => simp [hempty] at hvalue
  | false =>
    simp only [hempty, Bool.false_eq_true, if_false, Option.mem_some_iff] at hvalue
    subst hvalue
    exact distinct_dict fun entry hentry =>
      Validator.distinct_toJson (h _ (List.mem_map_of_mem hentry))

/-- Validators can be told from their field, also from a field that is not there. -/
private theorem validators_eq_of_document {a b : Validators}
    (ha : ∀ v ∈ validatorsValues a, v.Normal) (hb : ∀ v ∈ validatorsValues b, v.Normal)
    (h : (validatorsValue a).map Json.normalize = (validatorsValue b).map Json.normalize) :
    a = b := by
  have hnil : ∀ d : Validators, d.isEmpty = true → d.entries = [] := fun d hd =>
    List.isEmpty_iff.1 hd
  unfold validatorsValue at h
  -- The field is there on both sides or on neither; otherwise `h` is absurd.
  cases hempty : a.isEmpty <;> cases hempty' : b.isEmpty <;>
    simp only [hempty, hempty', Bool.false_eq_true, if_true, if_false, Option.map_some,
      Option.map_none, Option.some.injEq, reduceCtorEq] at h
  · refine dict_eq_of_normalize_eq (fun v hv w hw => ?_) h
    obtain ⟨entry, hentry, rfl⟩ := List.mem_map.1 hv
    obtain ⟨entry', hentry', rfl⟩ := List.mem_map.1 hw
    exact Validator.eq_of_document (ha _ (List.mem_map_of_mem hentry))
      (hb _ (List.mem_map_of_mem hentry'))
  · exact Dict.ext ((hnil a hempty).trans (hnil b hempty').symm)

/-! ### Values within metadata -/

mutual

/-- The values in a schema. -/
def Schema.values : Schema → List Json
  | ⟨kind, _⟩ => kind.values

def Kind.values : Kind → List Json
  | .scalar _ => []
  | .array element => element.values
  | .enum members => members
  | .union types => schemasValues types
  | .intersection types => schemasValues types
  | .object properties additional => propertiesValues properties ++ schemaValues? additional
  | .reference _ _ => []

def schemasValues : List Schema → List Json
  | [] => []
  | schema :: schemas => schema.values ++ schemasValues schemas

def schemaValues? : Option Schema → List Json
  | some schema => schema.values
  | none => []

def Property.values : Property → List Json
  | ⟨_, type, _, _, default, _, sample, validators, _⟩ =>
    type.values ++ default.toList ++ sample.toList ++ validatorsValues validators

def propertiesValues : List Property → List Json
  | [] => []
  | property :: properties => property.values ++ propertiesValues properties

end

/-! ### Schemas -/

/-- The fields that go with the name of a kind. -/
def Kind.table : Kind → List (String × Option Json)
  | .scalar _ => []
  | .array element => [("elementType", some element.toJson)]
  | .enum members => [("members", some (.array members))]
  | .union types => [("types", some (.array (schemasToJson types)))]
  | .intersection types => [("types", some (.array (schemasToJson types)))]
  | .object properties additional =>
    [("properties", some (.array (propertiesToJson properties))),
     ("additionalProperties", additional.map (·.toJson))]
  | .reference _ name => [("refName", some (.string name))]

/-- The fields of a schema. -/
def Schema.table (schema : Schema) : List (String × Option Json) :=
  ("typeName", some (.string schema.kind.name)) :: schema.kind.table ++
    [("nullable", flagValue schema.nullable)]

/-- The fields of a property. -/
def Property.table (p : Property) : List (String × Option Json) :=
  [("name", some (.string p.name)), ("type", some p.type.toJson),
   ("required", some (.bool p.required)), ("description", p.description.map .string),
   ("default", p.default), ("format", p.format.map .string), ("example", p.sample),
   ("validators", validatorsValue p.validators), ("deprecated", flagValue p.deprecated)]

/-- The document of a schema, by its table. -/
theorem Schema.toJson_eq (schema : Schema) : schema.toJson = .object (present schema.table) := by
  obtain ⟨kind, nullable⟩ := schema
  cases kind with
  | object properties additional =>
    cases additional <;> simp [toJson, table, Kind.fields, Kind.table, Kind.name, additionalField]
  | _ => simp [toJson, table, Kind.fields, Kind.table, Kind.name]

theorem Property.toJson_eq (p : Property) : p.toJson = .object (present p.table) := by
  obtain ⟨name, type, required, description, default, format, sample, validators, deprecated⟩ := p
  simp [toJson, table]

private theorem Schema.nodup_table (schema : Schema) : (schema.table.map (·.1)).Nodup := by
  obtain ⟨kind, nullable⟩ := schema
  cases kind <;> simp [table, Kind.table]

private theorem Property.nodup_table (p : Property) : (p.table.map (·.1)).Nodup := by
  simp [table]

mutual

/-- The document of a schema has no repeated names if the values in the schema have none. -/
theorem Schema.distinct_toJson (schema : Schema) (h : ∀ v ∈ schema.values, v.Distinct) :
    schema.toJson.Distinct := by
  match schema with
  | ⟨kind, nullable⟩ =>
    rw [Schema.toJson_eq]
    refine distinct_present (Schema.nodup_table _) ?_
    have hname : ∀ value ∈ some (Json.string kind.name), value.Distinct := by
      simp [Distinct.string]
    exact List.forall_mem_cons.2 ⟨hname, List.forall_mem_append.2
      ⟨kind.distinct_table h, List.forall_mem_singleton.2 (distinct_flagValue nullable)⟩⟩

/-- The values in the table of a kind have no repeated names. -/
private theorem Kind.distinct_table (kind : Kind) (h : ∀ v ∈ kind.values, v.Distinct) :
    ∀ entry ∈ kind.table, ∀ value ∈ entry.2, value.Distinct := by
  match kind with
  | .scalar _ => simp [Kind.table]
  | .reference _ _ => simp [Kind.table, Distinct.string]
  | .array element => simpa [Kind.table] using element.distinct_toJson h
  | .enum members =>
    have harray : (Json.array members).Distinct := .array h
    simpa [Kind.table] using harray
  | .union types => simpa [Kind.table] using Distinct.array (distinct_schemasToJson types h)
  | .intersection types =>
    simpa [Kind.table] using Distinct.array (distinct_schemasToJson types h)
  -- An object has the values of its properties and those of the schema for other keys.
  | .object properties additional =>
    obtain ⟨hproperties, hadditional⟩ := List.forall_mem_append.1 h
    have harray := Distinct.array (distinct_propertiesToJson properties hproperties)
    match additional with
    | none => simpa [Kind.table] using harray
    | some schema => simpa [Kind.table] using ⟨harray, schema.distinct_toJson hadditional⟩

/-- `Schema.distinct_toJson` for several schemas. -/
private theorem distinct_schemasToJson (schemas : List Schema)
    (h : ∀ v ∈ schemasValues schemas, v.Distinct) :
    ∀ document ∈ schemasToJson schemas, document.Distinct := by
  match schemas with
  | [] => simp [schemasToJson]
  | schema :: schemas =>
    obtain ⟨hschema, hschemas⟩ := List.forall_mem_append.1 h
    simpa [schemasToJson] using
      ⟨schema.distinct_toJson hschema, distinct_schemasToJson schemas hschemas⟩

/-- The document of a property has no repeated names if the values in the property have none. -/
theorem Property.distinct_toJson (p : Property) (h : ∀ v ∈ p.values, v.Distinct) :
    p.toJson.Distinct := by
  match p with
  | ⟨name, type, required, description, default, format, sample, validators, deprecated⟩ =>
    simp only [Property.values, List.forall_mem_append] at h
    obtain ⟨⟨⟨htype, hdefault⟩, hsample⟩, hvalidators⟩ := h
    rw [Property.toJson_eq]
    refine distinct_present (Property.nodup_table _) ?_
    have htype := type.distinct_toJson htype
    have hvalidators := distinct_validatorsValue hvalidators
    have hdeprecated := distinct_flagValue deprecated
    simp_all [Property.table, Distinct.string, Distinct.bool]

/-- `Property.distinct_toJson` for several properties. -/
private theorem distinct_propertiesToJson (properties : List Property)
    (h : ∀ v ∈ propertiesValues properties, v.Distinct) :
    ∀ document ∈ propertiesToJson properties, document.Distinct := by
  match properties with
  | [] => simp [propertiesToJson]
  | property :: properties =>
    obtain ⟨hproperty, hproperties⟩ := List.forall_mem_append.1 h
    simpa [propertiesToJson] using
      ⟨property.distinct_toJson hproperty, distinct_propertiesToJson properties hproperties⟩

end

/-- Which of the kinds a name is of. -/
def Kind.indexOfName : String → Nat
  | "array" => 1
  | "enum" => 2
  | "union" => 3
  | "intersection" => 4
  | "nestedObjectLiteral" => 5
  | "refObject" | "refEnum" | "refAlias" => 6
  | _ => 0

/-- `Kind.indexOfName` reads the constructor off the name of a kind. -/
private theorem Kind.indexOfName_name (kind : Kind) : indexOfName kind.name = kind.ctorIdx := by
  cases kind with
  | scalar s => cases s <;> rfl
  | reference referent name => cases referent <;> rfl
  | _ => rfl

private theorem Kind.ctorIdx_eq_of_name {a b : Kind} (h : a.name = b.name) :
    a.ctorIdx = b.ctorIdx := by
  rw [← indexOfName_name, ← indexOfName_name, h]

/-- Kinds with the same name have the same fields. -/
private theorem Kind.names_table_eq {a b : Kind} (h : a.name = b.name) :
    a.table.map (·.1) = b.table.map (·.1) := by
  have hindex := ctorIdx_eq_of_name h
  cases a <;> cases b <;> first | rfl | exact nomatch hindex

theorem Scalar.name_inj {a b : Scalar} (h : a.name = b.name) : a = b := by
  cases a <;> cases b <;> first | rfl | exact absurd h (by decide)

theorem Referent.name_inj {a b : Referent} (h : a.name = b.name) : a = b := by
  cases a <;> cases b <;> first | rfl | exact absurd h (by decide)

mutual

/-- A schema is known from the value of its document. -/
theorem Schema.eq_of_document (a b : Schema) (ha : ∀ v ∈ a.values, v.Normal)
    (hb : ∀ v ∈ b.values, v.Normal) (h : a.toJson.normalize = b.toJson.normalize) : a = b := by
  match a, b with
  | ⟨kind, nullable⟩, ⟨kind', nullable'⟩ =>
    rw [Schema.toJson_eq, Schema.toJson_eq] at h
    -- The name of the kind is read first. It fixes the fields that the tables have.
    have hname : kind.name = kind'.name := by
      simpa using entry_eq_of_normalize_eq (Schema.nodup_table _) (Schema.nodup_table _) h
        (List.mem_cons_self) (List.mem_cons_self)
    have htable := table_eq_of_normalize_eq (Schema.nodup_table _)
      (by simp [Schema.table, Kind.names_table_eq hname]) h
    simp only [Schema.table, List.cons_append, List.map_cons, List.map_append, List.map_nil,
      List.cons.injEq] at htable
    obtain ⟨hkind, hnullable⟩ := List.append_inj' htable.2 rfl
    have hkind := kind.eq_of_document kind' ha hb hname hkind
    have hnullable : nullable = nullable' := by simpa using hnullable
    rw [hkind, hnullable]

/-- A kind is known from its name and from the values of its fields. -/
theorem Kind.eq_of_document (a b : Kind) (ha : ∀ v ∈ a.values, v.Normal)
    (hb : ∀ v ∈ b.values, v.Normal) (hname : a.name = b.name)
    (h : a.table.map (·.2.map Json.normalize) = b.table.map (·.2.map Json.normalize)) : a = b := by
  -- The names are equal, so both kinds are of one constructor, and each case has one partner.
  have hindex := Kind.ctorIdx_eq_of_name hname
  match a with
  | .scalar s =>
    cases b with
    | scalar t => rw [Scalar.name_inj hname]
    | _ => exact nomatch hindex
  | .array element =>
    cases b with
    | array element' =>
      have helement : element.toJson.normalize = element'.toJson.normalize := by
        simpa [Kind.table] using h
      rw [element.eq_of_document element' ha hb helement]
    | _ => exact nomatch hindex
  | .enum members =>
    cases b with
    | enum members' =>
      have hmembers : members.map Json.normalize = members'.map Json.normalize := by
        simpa [Kind.table, normalize_array_inj] using h
      exact congrArg Kind.enum (list_eq_of_normal ha hb hmembers)
    | _ => exact nomatch hindex
  | .union types =>
    cases b with
    | union types' =>
      rw [schemas_eq_of_document types types' ha hb
        (by simpa [Kind.table, normalize_array_inj] using h)]
    | _ => exact nomatch hindex
  | .intersection types =>
    cases b with
    | intersection types' =>
      rw [schemas_eq_of_document types types' ha hb
        (by simpa [Kind.table, normalize_array_inj] using h)]
    | _ => exact nomatch hindex
  | .object properties additional =>
    cases b with
    | object properties' additional' =>
      have hparts : (propertiesToJson properties).map Json.normalize =
          (propertiesToJson properties').map Json.normalize ∧
          (additional.map (·.toJson)).map Json.normalize =
            (additional'.map (·.toJson)).map Json.normalize := by
        simpa [Kind.table, normalize_array_inj] using h
      obtain ⟨hproperties, hadditional⟩ := List.forall_mem_append.1 ha
      obtain ⟨hproperties', hadditional'⟩ := List.forall_mem_append.1 hb
      rw [properties_eq_of_document properties properties' hproperties hproperties' hparts.1,
        schema?_eq_of_document additional additional' hadditional hadditional' hparts.2]
    | _ => exact nomatch hindex
  | .reference referent name =>
    cases b with
    | reference referent' name' =>
      have hreferred : name = name' := by simpa [Kind.table] using h
      rw [Referent.name_inj hname, hreferred]
    | _ => exact nomatch hindex

/-- `Schema.eq_of_document` for several schemas. -/
private theorem schemas_eq_of_document (a b : List Schema) (ha : ∀ v ∈ schemasValues a, v.Normal)
    (hb : ∀ v ∈ schemasValues b, v.Normal)
    (h : (schemasToJson a).map Json.normalize = (schemasToJson b).map Json.normalize) : a = b := by
  match a, b with
  | [], [] => rfl
  | [], _ :: _ => exact nomatch h
  | _ :: _, [] => exact nomatch h
  | schema :: schemas, schema' :: schemas' =>
    obtain ⟨hschema, hschemas⟩ := List.forall_mem_append.1 ha
    obtain ⟨hschema', hschemas'⟩ := List.forall_mem_append.1 hb
    obtain ⟨hfirst, hrest⟩ := List.cons.inj h
    rw [schema.eq_of_document schema' hschema hschema' hfirst,
      schemas_eq_of_document schemas schemas' hschemas hschemas' hrest]

/-- `Schema.eq_of_document` for a schema that may be missing. -/
theorem schema?_eq_of_document (a b : Option Schema) (ha : ∀ v ∈ schemaValues? a, v.Normal)
    (hb : ∀ v ∈ schemaValues? b, v.Normal)
    (h : (a.map (·.toJson)).map Json.normalize = (b.map (·.toJson)).map Json.normalize) :
    a = b := by
  match a, b with
  | none, none => rfl
  | none, some _ => exact nomatch h
  | some _, none => exact nomatch h
  | some schema, some schema' =>
    rw [schema.eq_of_document schema' ha hb (Option.some.inj h)]

/-- A property is known from the value of its document. -/
theorem Property.eq_of_document (a b : Property) (ha : ∀ v ∈ a.values, v.Normal)
    (hb : ∀ v ∈ b.values, v.Normal) (h : a.toJson.normalize = b.toJson.normalize) : a = b := by
  match a, b with
  | ⟨name, type, required, description, default, format, sample, validators, deprecated⟩,
    ⟨name', type', required', description', default', format', sample', validators',
      deprecated'⟩ =>
    simp only [Property.values, List.forall_mem_append, Option.mem_toList] at ha hb
    obtain ⟨⟨⟨hatype, hadefault⟩, hasample⟩, havalidators⟩ := ha
    obtain ⟨⟨⟨hbtype, hbdefault⟩, hbsample⟩, hbvalidators⟩ := hb
    rw [Property.toJson_eq, Property.toJson_eq] at h
    have htable := table_eq_of_normalize_eq (Property.nodup_table _)
      (by simp [Property.table]) h
    -- Texts and flags are equal at once; the type and the other values are compared in turn.
    simp only [Property.table, List.map_cons, List.map_nil, List.cons.injEq, Option.map_some,
      Option.some.injEq, normalize_string, normalize_bool, Json.string.injEq,
      Json.bool.injEq, Option.map_map, map_normalize_string, map_string_inj,
      flagValue_inj, and_true] at htable
    obtain ⟨rfl, htype, rfl, rfl, hdefault, rfl, hsample, hvalidators, rfl⟩ := htable
    rw [type.eq_of_document type' hatype hbtype htype,
      option_eq_of_normal hadefault hbdefault hdefault,
      option_eq_of_normal hasample hbsample hsample,
      validators_eq_of_document havalidators hbvalidators hvalidators]

/-- `Property.eq_of_document` for several properties. -/
private theorem properties_eq_of_document (a b : List Property)
    (ha : ∀ v ∈ propertiesValues a, v.Normal) (hb : ∀ v ∈ propertiesValues b, v.Normal)
    (h : (propertiesToJson a).map Json.normalize = (propertiesToJson b).map Json.normalize) :
    a = b := by
  match a, b with
  | [], [] => rfl
  | [], _ :: _ => exact nomatch h
  | _ :: _, [] => exact nomatch h
  | property :: properties, property' :: properties' =>
    -- The first properties have one document, and so have the rests.
    obtain ⟨hproperty, hproperties⟩ := List.forall_mem_append.1 ha
    obtain ⟨hproperty', hproperties'⟩ := List.forall_mem_append.1 hb
    obtain ⟨hfirst, hrest⟩ := List.cons.inj h
    rw [property.eq_of_document property' hproperty hproperty' hfirst,
      properties_eq_of_document properties properties' hproperties hproperties' hrest]

end

/-! ### Reference types -/

def ReferenceShape.values : ReferenceShape → List Json
  | .object properties additional => propertiesValues properties ++ schemaValues? additional
  | .enum members _ => members
  | .typeAlias target _ validators default =>
    target.values ++ validatorsValues validators ++ default.toList

def ReferenceType.values (type : ReferenceType) : List Json :=
  type.sample.toList ++ type.shape.values

/-- The fields that go with the sort of a shape. -/
def ReferenceShape.table : ReferenceShape → List (String × Option Json)
  | .object properties additional =>
    [("properties", some (.array (propertiesToJson properties))),
     ("additionalProperties", additional.map (·.toJson))]
  | .enum members memberNames =>
    [("members", some (.array members)),
     ("memberNames", memberNames.map fun names => .array (names.map .string))]
  | .typeAlias target format validators default =>
    [("aliasedType", some target.toJson), ("format", format.map .string),
     ("validators", validatorsValue validators), ("default", default)]

/-- The fields of a named type. -/
def ReferenceType.table (type : ReferenceType) : List (String × Option Json) :=
  ("refName", some (.string type.name)) :: ("description", type.description.map .string) ::
    ("deprecated", flagValue type.deprecated) :: ("example", type.sample) ::
    ("typeName", some (.string type.shape.referent.name)) :: type.shape.table

/-- The document of a named type, by its table. -/
theorem ReferenceType.toJson_eq (type : ReferenceType) :
    type.toJson = .object (present type.table) := by
  obtain ⟨name, description, deprecated, sample, shape⟩ := type
  cases shape with
  | object properties additional =>
    cases additional <;> simp [toJson, table, ReferenceShape.fields, ReferenceShape.table,
      ReferenceShape.referent, Referent.name, additionalField]
  | _ => simp [toJson, table, ReferenceShape.fields, ReferenceShape.table,
      ReferenceShape.referent, Referent.name]

/-- The fields of a shape are none of those of the type. -/
private theorem ReferenceType.nodup_table (type : ReferenceType) :
    (type.table.map (·.1)).Nodup := by
  obtain ⟨name, description, deprecated, sample, shape⟩ := type
  cases shape <;> simp [table, ReferenceShape.table]

/-- The values in the table of a shape have no repeated names. -/
private theorem ReferenceShape.distinct_table (shape : ReferenceShape)
    (h : ∀ v ∈ shape.values, v.Distinct) :
    ∀ entry ∈ shape.table, ∀ value ∈ entry.2, value.Distinct := by
  cases shape with
  | object properties additional => exact Kind.distinct_table (.object properties additional) h
  | enum members memberNames =>
    have hmembers : (Json.array members).Distinct := .array h
    simp [table, hmembers, distinct_texts]
  -- The values of an alias are those of its target, of its validators and its default.
  | typeAlias target format validators default =>
    simp only [values, List.forall_mem_append] at h
    obtain ⟨⟨htarget, hvalidators⟩, hdefault⟩ := h
    have htarget := target.distinct_toJson htarget
    have hvalidators := distinct_validatorsValue hvalidators
    simp_all [table, Distinct.string]

/-- The document of a named type has no repeated names if the values in the type have none. -/
theorem ReferenceType.distinct_toJson (type : ReferenceType)
    (h : ∀ v ∈ type.values, v.Distinct) : type.toJson.Distinct := by
  obtain ⟨hsample, hshape⟩ := List.forall_mem_append.1 h
  rw [toJson_eq]
  refine distinct_present (nodup_table type) ?_
  simp only [table, List.forall_mem_cons]
  refine ⟨?_, ?_, distinct_flagValue _, by simpa using hsample, ?_,
    type.shape.distinct_table hshape⟩ <;> simp [Distinct.string]

private theorem ReferenceShape.names_table_eq {a b : ReferenceShape} (h : a.referent = b.referent) :
    a.table.map (·.1) = b.table.map (·.1) := by
  cases a <;> cases b <;> first | rfl | exact nomatch h

/-- A shape is known from its sort and from the values of its fields. -/
theorem ReferenceShape.eq_of_document {a b : ReferenceShape} (ha : ∀ v ∈ a.values, v.Normal)
    (hb : ∀ v ∈ b.values, v.Normal) (hreferent : a.referent = b.referent)
    (h : a.table.map (·.2.map Json.normalize) = b.table.map (·.2.map Json.normalize)) : a = b := by
  cases a with
  | object properties additional =>
    cases b with
    | object properties' additional' =>
      -- The fields of an object are those of the kind, so the lemma about kinds applies.
      have hkind := Kind.eq_of_document (.object properties additional)
        (.object properties' additional') ha hb rfl h
      cases hkind
      rfl
    | _ => exact nomatch hreferent
  | enum members memberNames =>
    cases b with
    | enum members' memberNames' =>
      simp only [values] at ha hb
      simp only [table, List.map_cons, List.map_nil, List.cons.injEq, Option.map_some,
        Option.some.injEq, normalize_array_inj, Option.map_map, and_true] at h
      rw [list_eq_of_normal ha hb h.1,
        Option.eq_of_map_eq (fun _ _ _ _ => texts_inj.1) h.2]
    | _ => exact nomatch hreferent
  | typeAlias target format validators default =>
    cases b with
    | typeAlias target' format' validators' default' =>
      simp only [values, List.forall_mem_append, Option.mem_toList] at ha hb
      obtain ⟨⟨hatarget, havalidators⟩, hadefault⟩ := ha
      obtain ⟨⟨hbtarget, hbvalidators⟩, hbdefault⟩ := hb
      simp only [table, List.map_cons, List.map_nil, List.cons.injEq, Option.map_some,
        Option.some.injEq, Option.map_map, map_normalize_string, map_string_inj,
        and_true] at h
      obtain ⟨htarget, rfl, hvalidators, hdefault⟩ := h
      rw [target.eq_of_document target' hatarget hbtarget htarget,
        option_eq_of_normal hadefault hbdefault hdefault,
        validators_eq_of_document havalidators hbvalidators hvalidators]
    | _ => exact nomatch hreferent

/-- A named type is known from the value of its document. -/
theorem ReferenceType.eq_of_document {a b : ReferenceType} (ha : ∀ v ∈ a.values, v.Normal)
    (hb : ∀ v ∈ b.values, v.Normal) (h : a.toJson.normalize = b.toJson.normalize) : a = b := by
  obtain ⟨name, description, deprecated, sample, shape⟩ := a
  obtain ⟨name', description', deprecated', sample', shape'⟩ := b
  simp only [values, List.forall_mem_append, Option.mem_toList] at ha hb
  rw [toJson_eq, toJson_eq] at h
  -- The sort of the shape is read first. It fixes the fields that the tables have.
  have hreferent : shape.referent = shape'.referent := by
    have hentry : ∀ type : ReferenceType,
        ("typeName", some (.string type.shape.referent.name)) ∈ type.table := by simp [table]
    apply Referent.name_inj
    simpa using entry_eq_of_normalize_eq (nodup_table _) (nodup_table _) h
      (hentry _) (hentry _)
  have htable := table_eq_of_normalize_eq (nodup_table _)
    (by simp [table, ReferenceShape.names_table_eq hreferent]) h
  simp only [table, List.map_cons, List.cons.injEq, Option.map_some,
    Option.some.injEq, normalize_string, Json.string.injEq, Option.map_map,
    map_normalize_string, map_string_inj, flagValue_inj] at htable
  obtain ⟨rfl, rfl, rfl, hsample, -, hshape⟩ := htable
  rw [option_eq_of_normal ha.1 hb.1 hsample,
    ReferenceShape.eq_of_document ha.2 hb.2 hreferent hshape]

end Endpoints
