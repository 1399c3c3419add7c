import Endpoints.Endpoint.Document
import Endpoints.Proofs.Document

/-!
# Metadata can be told from its document

The document of metadata is a tree of objects whose fields are partly left out. As a value it still
determines the metadata.
-/

namespace Endpoints

open Json

/-! ### Parameters -/

def Parameter.values (p : Parameter) : List Json :=
  p.type.values ++ p.default.toList ++ p.minItems.toList ++ p.maxItems.toList

def Parameter.table (p : Parameter) : List (String × Option Json) :=
  [("parameterName", some (.string p.sourceName)), ("name", some (.string p.name)),
   ("in", some (.string p.location.text)), ("required", some (.bool p.required)),
   ("type", some p.type.toJson), ("description", p.description.map .string),
   ("default", p.default), ("collectionFormat", p.collectionFormat.map .string),
   ("allowEmptyValue", p.allowEmptyValue.map .bool), ("minItems", p.minItems),
   ("maxItems", p.maxItems)]

theorem Parameter.toJson_eq (p : Parameter) : p.toJson = .object (present p.table) := by
  simp [toJson, table]

/-- The document of a parameter has no repeated names if the values in it have none. -/
theorem Parameter.distinct_toJson {p : Parameter} (h : ∀ v ∈ p.values, v.Distinct) :
    p.toJson.Distinct := by
  simp only [values, List.forall_mem_append, Option.mem_toList] at h
  obtain ⟨⟨⟨htype, hdefault⟩, hmin⟩, hmax⟩ := h
  rw [toJson_eq]
  refine distinct_present (by simp [table]) ?_
  simp only [table, List.forall_mem_cons, distinct_some]
  exact ⟨.string _, .string _, .string _, .bool _, p.type.distinct_toJson htype,
    distinct_map fun _ _ => .string _, hdefault, distinct_map fun _ _ => .string _,
    distinct_map fun _ _ => .bool _, hmin, hmax, List.forall_mem_nil _⟩

theorem Location.text_inj {a b : Location} (h : a.text = b.text) : a = b := by
  cases a <;> cases b <;> first | rfl | exact absurd h (by decide)

/-- A parameter is known from the value of its document. -/
theorem Parameter.eq_of_document {a b : Parameter} (ha : ∀ v ∈ a.values, v.Normal)
    (hb : ∀ v ∈ b.values, v.Normal) (h : a.toJson.normalize = b.toJson.normalize) : a = b := by
  simp only [values, List.forall_mem_append, Option.mem_toList] at ha hb
  obtain ⟨⟨⟨hatype, hadefault⟩, hamin⟩, hamax⟩ := ha
  obtain ⟨⟨⟨hbtype, hbdefault⟩, hbmin⟩, hbmax⟩ := hb
  rw [toJson_eq, toJson_eq] at h
  -- The two tables have the same names, so they agree entry by entry.
  have htable := table_eq_of_normalize_eq (by simp [table]) (by simp [table]) h
  simp only [table, List.map_cons, List.map_nil, List.cons.injEq, Option.map_some,
    Option.some.injEq, normalize_string, normalize_bool, Json.string.injEq,
    Json.bool.injEq, Option.map_map, map_normalize_string, map_string_inj,
    map_normalize_bool, map_bool_inj, and_true] at htable
  obtain ⟨hsource, hname, hlocation, hrequired, htype, hdescription, hdefault, hformat, hallow,
    hmin, hmax⟩ := htable
  have hlocation := Location.text_inj hlocation
  have htype := a.type.eq_of_document b.type hatype hbtype htype
  have hdefault := option_eq_of_normal hadefault hbdefault hdefault
  have hmin := option_eq_of_normal hamin hbmin hmin
  have hmax := option_eq_of_normal hamax hbmax hmax
  cases a
  cases b
  simp_all only

/-! ### Responses and security requirements -/

def Response.values (r : Response) : List Json :=
  schemaValues? r.schema ++ r.samples.getD [] ++ schemaValues? r.headers

def Response.table (r : Response) : List (String × Option Json) :=
  [("status", some (.string r.status)), ("description", some (.string r.description)),
   ("schema", r.schema.map (·.toJson)), ("examples", r.samples.map .array),
   ("headers", r.headers.map (·.toJson))]

theorem Response.toJson_eq (r : Response) : r.toJson = .object (present r.table) := by
  simp [toJson, table]

private theorem distinct_schema? {schema : Option Schema}
    (h : ∀ v ∈ schemaValues? schema, v.Distinct) :
    ∀ document ∈ schema.map (·.toJson), document.Distinct :=
  distinct_map fun s hs => s.distinct_toJson (by rwa [hs] at h)

/-- The document of a response has no repeated names if the values in it have none. -/
theorem Response.distinct_toJson {r : Response} (h : ∀ v ∈ r.values, v.Distinct) :
    r.toJson.Distinct := by
  simp only [values, List.forall_mem_append] at h
  obtain ⟨⟨hschema, hsamples⟩, hheaders⟩ := h
  rw [toJson_eq]
  refine distinct_present (by simp [table]) ?_
  simp only [table, List.forall_mem_cons, distinct_some]
  exact ⟨.string _, .string _, distinct_schema? hschema,
    distinct_map fun samples hsome => .array (by rwa [hsome] at hsamples),
    distinct_schema? hheaders, List.forall_mem_nil _⟩

/-- A response is known from the value of its document. -/
theorem Response.eq_of_document {a b : Response} (ha : ∀ v ∈ a.values, v.Normal)
    (hb : ∀ v ∈ b.values, v.Normal) (h : a.toJson.normalize = b.toJson.normalize) : a = b := by
  simp only [values, List.forall_mem_append] at ha hb
  rw [toJson_eq, toJson_eq] at h
  have htable := table_eq_of_normalize_eq (by simp [table]) (by simp [table]) h
  simp only [table, List.map_cons, List.map_nil, List.cons.injEq, Option.map_some,
    Option.some.injEq, normalize_string, Json.string.injEq, and_true] at htable
  obtain ⟨hstatus, hdescription, hschema, hsamples, hheaders⟩ := htable
  have hschema := schema?_eq_of_document a.schema b.schema ha.1.1 hb.1.1 hschema
  have hheaders := schema?_eq_of_document a.headers b.headers ha.2 hb.2 hheaders
  -- Samples are values themselves. They are equal as they are in normal form.
  have hsamples : a.samples = b.samples := by
    rw [Option.map_map, Option.map_map] at hsamples
    refine Option.eq_of_map_eq (fun xs hxs ys hys hxy => ?_) hsamples
    rw [hxs] at ha
    rw [hys] at hb
    exact list_eq_of_normal ha.1.2 hb.1.2 (normalize_array_inj.1 hxy)
  cases a
  cases b
  simp_all only

/-- The value of the field of security requirements. -/
def securityValue (security : Option (List Security)) : Option Json :=
  security.map fun ways => .array (ways.map fun way =>
    .object (way.entries.map fun (scheme, scopes) => (scheme, textsToJson scopes)))

@[simp] theorem optionalField_securityValue (security : Option (List Security)) :
    optionalField "security" id (securityValue security) = securityField security :=
  optionalField_id_map ..

private theorem distinct_securityValue (security : Option (List Security)) :
    ∀ document ∈ securityValue security, document.Distinct :=
  distinct_map fun _ _ => distinct_array fun _ _ =>
    distinct_dict fun _ _ => distinct_texts _

private theorem security_eq_of_document {a b : Option (List Security)}
    (h : (securityValue a).map Json.normalize = (securityValue b).map Json.normalize) : a = b := by
  rw [securityValue, securityValue, Option.map_map, Option.map_map] at h
  refine Option.eq_of_map_eq (fun ways _ ways' _ hways => ?_) h
  refine array_eq_of_normalize_eq (fun way _ way' _ hway => ?_) hways
  exact dict_eq_of_normalize_eq (fun _ _ _ _ => texts_inj.1) hway

/-! ### Endpoints and controllers -/

def Endpoint.values (e : Endpoint) : List Json :=
  e.parameters.flatMap (·.values) ++ e.responses.flatMap (·.values) ++ e.type.values

def Endpoint.table (e : Endpoint) : List (String × Option Json) :=
  [("name", some (.string e.name)), ("httpVerb", some (.string e.verb.text)),
   ("path", some (.string e.path)), ("description", e.description.map .string),
   ("summary", e.summary.map .string),
   ("parameters", some (.array (e.parameters.map (·.toJson)))),
   ("responses", some (.array (e.responses.map (·.toJson)))), ("tags", some (textsToJson e.tags)),
   ("consumes", some (textsToJson e.consumes)), ("produces", some (textsToJson e.produces)),
   ("security", securityValue e.security), ("deprecated", flagValue e.deprecated),
   ("isHidden", some (.bool e.hidden)), ("operationId", e.operationId.map .string),
   ("type", some e.type.toJson)]

theorem Endpoint.toJson_eq (e : Endpoint) : e.toJson = .object (present e.table) := by
  simp [toJson, table]

/-- The document of an endpoint has no repeated names if the values in it have none. -/
theorem Endpoint.distinct_toJson {e : Endpoint} (h : ∀ v ∈ e.values, v.Distinct) :
    e.toJson.Distinct := by
  simp only [values, List.forall_mem_append, List.forall_mem_flatMap] at h
  obtain ⟨⟨hparameters, hresponses⟩, htype⟩ := h
  rw [toJson_eq]
  refine distinct_present (by simp [table]) ?_
  simp only [table, List.forall_mem_cons, distinct_some]
  -- One fact for each field, in the order of the table.
  exact ⟨.string _, .string _, .string _, distinct_map fun _ _ => .string _,
    distinct_map fun _ _ => .string _,
    distinct_array fun p hp => Parameter.distinct_toJson (hparameters p hp),
    distinct_array fun r hr => Response.distinct_toJson (hresponses r hr),
    distinct_texts _, distinct_texts _, distinct_texts _,
    distinct_securityValue _, distinct_flagValue _, .bool _, distinct_map fun _ _ => .string _,
    e.type.distinct_toJson htype, List.forall_mem_nil _⟩

theorem Verb.text_inj {a b : Verb} (h : a.text = b.text) : a = b := by
  cases a <;> cases b <;> first | rfl | exact absurd h (by decide)

/-- An endpoint is known from the value of its document. -/
theorem Endpoint.eq_of_document {a b : Endpoint} (ha : ∀ v ∈ a.values, v.Normal)
    (hb : ∀ v ∈ b.values, v.Normal) (h : a.toJson.normalize = b.toJson.normalize) : a = b := by
  simp only [values, List.forall_mem_append, List.forall_mem_flatMap] at ha hb
  obtain ⟨⟨haparameters, haresponses⟩, hatype⟩ := ha
  obtain ⟨⟨hbparameters, hbresponses⟩, hbtype⟩ := hb
  rw [toJson_eq, toJson_eq] at h
  have htable := table_eq_of_normalize_eq (by simp [table]) (by simp [table]) h
  simp only [table, List.map_cons, List.map_nil, List.cons.injEq, Option.map_some,
    Option.some.injEq, normalize_string, normalize_bool, Json.string.injEq,
    Json.bool.injEq, Option.map_map, map_normalize_string, map_string_inj,
    flagValue_inj, textsToJson, texts_inj, and_true] at htable
  obtain ⟨hname, hverb, hpath, hdescription, hsummary, hparameters, hresponses, htags, hconsumes,
    hproduces, hsecurity, hdeprecated, hhidden, hoperation, htype⟩ := htable
  -- What is written as a text or a flag is equal by now. The parts with documents of their own are
  -- left.
  have hverb := Verb.text_inj hverb
  have hparameters := array_eq_of_normalize_eq (fun p hp q hq =>
    Parameter.eq_of_document (haparameters p hp) (hbparameters q hq)) hparameters
  have hresponses := array_eq_of_normalize_eq (fun r hr s hs =>
    Response.eq_of_document (haresponses r hr) (hbresponses s hs)) hresponses
  have hsecurity := security_eq_of_document hsecurity
  have htype := a.type.eq_of_document b.type hatype hbtype htype
  cases a
  cases b
  simp_all only

def Controller.values (c : Controller) : List Json :=
  c.endpoints.flatMap (·.values) ++ c.responses.flatMap (·.values)

def Controller.table (c : Controller) : List (String × Option Json) :=
  [("name", some (.string c.name)), ("location", some (.string c.location)),
   ("path", some (.string c.path)), ("methods", some (.array (c.endpoints.map (·.toJson)))),
   ("consumes", some (textsToJson c.consumes)), ("produces", some (textsToJson c.produces)),
   ("tags", some (textsToJson c.tags)),
   ("responses", some (.array (c.responses.map (·.toJson)))),
   ("security", securityValue c.security)]

theorem Controller.toJson_eq (c : Controller) : c.toJson = .object (present c.table) := by
  simp [toJson, table]

/-- The document of a controller has no repeated names if the values in it have none. -/
theorem Controller.distinct_toJson {c : Controller} (h : ∀ v ∈ c.values, v.Distinct) :
    c.toJson.Distinct := by
  simp only [values, List.forall_mem_append, List.forall_mem_flatMap] at h
  rw [toJson_eq]
  refine distinct_present (by simp [table]) ?_
  simp only [table, List.forall_mem_cons, distinct_some]
  exact ⟨.string _, .string _, .string _,
    distinct_array fun e he => Endpoint.distinct_toJson (h.1 e he),
    distinct_texts _, distinct_texts _, distinct_texts _,
    distinct_array fun r hr => Response.distinct_toJson (h.2 r hr),
    distinct_securityValue _, List.forall_mem_nil _⟩

/-- A controller is known from the value of its document. -/
theorem Controller.eq_of_document {a b : Controller} (ha : ∀ v ∈ a.values, v.Normal)
    (hb : ∀ v ∈ b.values, v.Normal) (h : a.toJson.normalize = b.toJson.normalize) : a = b := by
  simp only [values, List.forall_mem_append, List.forall_mem_flatMap] at ha hb
  rw [toJson_eq, toJson_eq] at h
  -- The document determines the value under each key.
  have htable := table_eq_of_normalize_eq (by simp [table]) (by simp [table]) h
  simp only [table, List.map_cons, List.map_nil, List.cons.injEq, Option.map_some,
    Option.some.injEq, normalize_string, Json.string.injEq, textsToJson, texts_inj,
    and_true] at htable
  obtain ⟨hname, hlocation, hpath, hendpoints, hconsumes, hproduces, htags, hresponses,
    hsecurity⟩ := htable
  -- The values below are determined by their own documents.
  have hendpoints := array_eq_of_normalize_eq (fun d hd e he =>
    Endpoint.eq_of_document (ha.1 d hd) (hb.1 e he)) hendpoints
  have hresponses := array_eq_of_normalize_eq (fun r hr s hs =>
    Response.eq_of_document (ha.2 r hr) (hb.2 s hs)) hresponses
  have hsecurity := security_eq_of_document hsecurity
  cases a
  cases b
  simp_all only

/-! ### Metadata -/

namespace Metadata

/-- The values in metadata: defaults, samples, members of enums and limits. -/
def values (m : Metadata) : List Json :=
  m.controllers.flatMap (·.values) ++ m.referenceTypes.entries.flatMap (·.2.values)

def table (m : Metadata) : List (String × Option Json) :=
  [("controllers", some (.array (m.controllers.map (·.toJson)))),
   ("referenceTypes", some (referenceTypesToJson m.referenceTypes))]

theorem toJson_eq (m : Metadata) : m.toJson = .object (present m.table) := rfl

theorem distinct_toJson {m : Metadata} (h : ∀ v ∈ m.values, v.Distinct) : m.toJson.Distinct := by
  simp only [values, List.forall_mem_append, List.forall_mem_flatMap] at h
  rw [toJson_eq]
  refine distinct_present (by simp [table]) ?_
  simp only [table, List.forall_mem_cons, distinct_some]
  exact ⟨distinct_array fun c hc => Controller.distinct_toJson (h.1 c hc),
    distinct_dict fun entry hentry => entry.2.distinct_toJson (h.2 entry hentry),
    List.forall_mem_nil _⟩

/-- Metadata is known from the value of its document. -/
theorem eq_of_document {a b : Metadata} (ha : ∀ v ∈ a.values, v.Normal)
    (hb : ∀ v ∈ b.values, v.Normal) (h : a.toJson.normalize = b.toJson.normalize) : a = b := by
  simp only [values, List.forall_mem_append, List.forall_mem_flatMap] at ha hb
  rw [toJson_eq, toJson_eq] at h
  have htable := table_eq_of_normalize_eq (by simp [table]) (by simp [table]) h
  simp only [table, List.map_cons, List.map_nil, List.cons.injEq, Option.map_some,
    Option.some.injEq, and_true] at htable
  have hcontrollers := array_eq_of_normalize_eq (fun c hc d hd =>
    Controller.eq_of_document (ha.1 c hc) (hb.1 d hd)) htable.1
  -- Named types are told apart by their entries, of which only the second part is written.
  have htypes := dict_eq_of_normalize_eq (fun s hs t ht => by
    obtain ⟨entry, hentry, rfl⟩ := List.mem_map.1 hs
    obtain ⟨entry', hentry', rfl⟩ := List.mem_map.1 ht
    exact ReferenceType.eq_of_document (ha.2 entry hentry) (hb.2 entry' hentry')) htable.2
  cases a
  cases b
  simp_all only

end Metadata

/-- Metadata has the same document, as a value, only if it is the same metadata, and no object of
the document has two fields of one name. What is absent is thus never taken for what is `null`,
false or empty, and the fields of a kind or a shape never for those of the object that they stand
in. -/
theorem metadata_of_document (m n : Metadata) (hm : ∀ v ∈ m.values, v.Normal)
    (hn : ∀ v ∈ n.values, v.Normal) :
    (m.toJson.normalize = n.toJson.normalize ↔ m = n) ∧ m.toJson.Distinct := by
  refine ⟨⟨Metadata.eq_of_document hm hn, fun h => by rw [h]⟩, ?_⟩
  exact Metadata.distinct_toJson fun v hv => (hm v hv).distinct

/-- A sample that is `null` is told from a sample that is absent. -/
theorem null_sample_told :
    let tag (sample : Option Json) : Metadata :=
      ⟨[], .ofList [("Tag", ⟨"Tag", none, false, sample, .enum [.string "a"] none⟩)]⟩
    (tag (some .null)).values = [.null, .string "a"] ∧ (tag none).values = [.string "a"] ∧
      (tag (some .null)).toJson.normalize ≠ (tag none).toJson.normalize := by
  intro tag
  refine ⟨rfl, rfl, fun h => ?_⟩
  have heq := (metadata_of_document (tag (some .null)) (tag none)
    (List.forall_mem_cons.2 ⟨rfl, List.forall_mem_singleton.2 rfl⟩)
    (List.forall_mem_singleton.2 rfl)).1.1 h
  have hsample := congrArg (fun m => m.referenceTypes.entries.map (·.2.sample.isSome)) heq
  exact absurd hsample (by decide)

end Endpoints
