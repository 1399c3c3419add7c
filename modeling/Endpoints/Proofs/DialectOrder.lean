import Endpoints.Proofs.Overload
import Endpoints.Proofs.Recognition

/-!
# The order of dialects

Two dialects have a decorator of the same name for the path of a controller, but read it in
different ways: the one also looks into an object literal for the path, the other takes a literal
only. Where both are active, the first in the list decides how the decorator is read. So the order
of the dialects does not matter for whether a class is a controller, and matters for its path only
where the path stands in an object literal.
-/

namespace Endpoints

/-! ## Reading a path -/

namespace Resolver

/-- The path of the controller that a class is. -/
def controllerPath (r : Resolver) (c : ClassDecl) : String :=
  ((r.roleText? c.decorators .classPath .path).map Route.trim).getD ""

/-- The path that `Resolver.controller` gives to a controller. -/
theorem controller_path {r : Resolver} {c : ClassDecl} {file : String} {controller : Controller}
    {s t : Session} (h : (r.controller c file).run s = (.ok controller, t)) :
    controller.path = r.controllerPath c := by
  obtain ⟨endpoints, u, _, h⟩ := Resolve.run_bind_ok.1 h
  obtain ⟨responses, v, _, h⟩ := Resolve.run_bind_ok.1 h
  obtain ⟨hcontroller, _⟩ := Prod.mk.inj h
  rw [← Except.ok.inj hcontroller]
  rfl

end Resolver

namespace Decorator

variable {d : Decorator} {representation : Representation}

/-- The path that a decorator gives by the rules of a representation. -/
def pathBy (d : Decorator) (representation : Representation) : String :=
  (((RoleMatch.mk representation [d]).text? .path).map Route.trim).getD ""

/-- The path that is the first argument itself; empty if that is no literal. -/
def literalPath (d : Decorator) : String :=
  ((d.arguments.head?.bind (·.literalText?)).map Route.trim).getD ""

/-- The path in an object literal that is the first argument; empty if there is none. -/
def objectPath (d : Decorator) : String :=
  match d.arguments with
  | .object entries :: _ =>
    (((lookupEntry "path" entries).bind (·.literalText?)).map Route.trim).getD ""
  | _ => ""

private theorem pathBy_eq (d : Decorator) (representation : Representation) :
    d.pathBy representation = ((match (representation.rule .path).read? d with
      | some (.expr value) => value.literalText?
      | some (.exprs values) => values.head?.bind (·.literalText?)
      | _ => none).map Route.trim).getD "" :=
  rfl

private theorem objectPath_of_object {entries : List (String × Expr)} {rest : List Expr}
    (hargs : d.arguments = .object entries :: rest) : d.objectPath =
      (((lookupEntry "path" entries).bind (·.literalText?)).map Route.trim).getD "" := by
  simp only [objectPath, hargs]

private theorem literalPath_of_objectPath (h : d.objectPath ≠ "") : d.literalPath = "" := by
  unfold objectPath at h
  split at h
  · next entries rest hargs => simp [literalPath, hargs, Expr.literalText?]
  · exact absurd rfl h

private theorem pathBy_value (h : representation.rule .path = .value 0) :
    d.pathBy representation = d.literalPath := by
  rw [pathBy_eq, h]
  cases hargs : d.arguments <;>
    simp [Rule.read?, Rule.select?, Rule.value, literalPath, hargs]

/-- The rule that looks into object literals: if there is no path in an object literal, the first
argument is taken as it is. -/
theorem pathBy_inField (h : representation.rule .path = .inField "path") :
    d.pathBy representation = if d.objectPath = "" then d.literalPath else d.objectPath := by
  rw [pathBy_eq, h]
  -- The rule looks into the first argument only if that is an object literal.
  by_cases hobject : ∃ entries rest, d.arguments = .object entries :: rest
  · obtain ⟨entries, rest, hargs⟩ := hobject
    have hread : Rule.read? (.inField "path") d = (lookupEntry "path" entries).map .expr := by
      simp [Rule.read?, Rule.select?, Rule.inField, hargs, Expr.field?]
    have hliteral : d.literalPath = "" := by simp [literalPath, hargs, Expr.literalText?]
    rw [hread, hliteral, objectPath_of_object hargs]
    cases lookupEntry "path" entries <;> simp
  · -- Any other argument is read as it stands, with or without the field.
    have hnone : d.objectPath = "" := by
      unfold objectPath
      split
      · next entries rest hargs => exact absurd ⟨entries, rest, hargs⟩ hobject
      · rfl
    rw [if_pos hnone]
    cases hargs : d.arguments with
    | nil => simp [Rule.read?, Rule.select?, Rule.inField, literalPath, hargs]
    | cons first rest =>
      have hselect : Rule.select? (.inField "path") d = some (.expr first) := by
        simp [Rule.select?, Rule.inField, hargs]
      have hread : Rule.read? (.inField "path") d = some (.expr first) := by
        rw [Rule.read?, hselect]
        cases first with
        | object entries => exact absurd ⟨entries, rest, hargs⟩ hobject
        | _ => rfl
      rw [hread]
      simp [literalPath, hargs]

end Decorator

/-! ## Dialects one after the other -/

/-- There are two dialects, so lists of the same ones begin alike if both begin with the one or
neither does. -/
theorem Dialect.head?_eq_iff {dialects others : List Dialect}
    (hsame : ∀ dialect, dialect ∈ dialects ↔ dialect ∈ others) :
    dialects.head? = others.head? ↔
      (dialects.head? = some .nest ↔ others.head? = some .nest) := by
  -- A list without dialects has no first one, and neither has the other.
  cases dialects with
  | nil =>
    have hnil : others = [] := List.eq_nil_iff_forall_not_mem.2 fun dialect hmem =>
      List.not_mem_nil ((hsame dialect).2 hmem)
    simp [hnil]
  | cons first rest =>
    cases others with
    | nil => exact absurd ((hsame first).1 List.mem_cons_self) List.not_mem_nil
    | cons second others => cases first <;> cases second <;> simp

namespace Decorator

variable {d : Decorator}

private theorem isNamed_of_dotless {name : String} (h : '.' ∉ name.toList) :
    d.isNamed name = decide (d.simpleName = name) := by
  rw [Bool.eq_iff_iff, isNamed_iff, decide_eq_true_iff, simpleName_eq_iff, Bears]
  constructor
  · rintro (hname | hpart)
    · exact ⟨h, .inl hname⟩
    · exact hpart
  · exact .inr

/-- The path that a decorator gives as one of a dialect. -/
def pathIn? (d : Decorator) (dialect : Dialect) : Option String :=
  ((dialect.table.lookup .classPath).find? (d.isNamed ·.name)).map d.pathBy

/-- The first dialect has one decorator for paths, which looks into object literals. -/
private theorem pathIn?_nest : d.pathIn? .nest =
    if d.simpleName = "Controller" then
      some (if d.objectPath = "" then d.literalPath else d.objectPath)
    else none := by
  have htable : Dialect.nest.table.lookup .classPath =
      [⟨"Controller", [(.path, .inField "path")]⟩] := rfl
  have hnamed : d.isNamed "Controller" = decide (d.simpleName = "Controller") :=
    isNamed_of_dotless (by decide)
  rw [pathIn?, htable]
  by_cases hname : d.simpleName = "Controller"
  · rw [if_pos hname, List.find?_cons_of_pos (by simp [hnamed, hname]), Option.map_some,
      pathBy_inField rfl]
  · simp [hnamed, hname]

/-- The second dialect has two decorators for paths, which take a literal only. -/
private theorem pathIn?_routingControllers : d.pathIn? .routingControllers =
    if d.simpleName = "JsonController" ∨ d.simpleName = "Controller" then some d.literalPath
    else none := by
  have htable : Dialect.routingControllers.table.lookup .classPath =
      [⟨"JsonController", [(.path, .value 0)]⟩, ⟨"Controller", [(.path, .value 0)]⟩] := rfl
  have hjsonNamed : d.isNamed "JsonController" = decide (d.simpleName = "JsonController") :=
    isNamed_of_dotless (by decide)
  have hnamed : d.isNamed "Controller" = decide (d.simpleName = "Controller") :=
    isNamed_of_dotless (by decide)
  rw [pathIn?, htable]
  -- The two decorators are tried in the order of the table.
  by_cases hjson : d.simpleName = "JsonController"
  · rw [if_pos (.inl hjson), List.find?_cons_of_pos (by simp [hjsonNamed, hjson]),
      Option.map_some, pathBy_value rfl]
  · rw [List.find?_cons_of_neg (by simp [hjsonNamed, hjson])]
    by_cases hname : d.simpleName = "Controller"
    · rw [if_pos (.inr hname), List.find?_cons_of_pos (by simp [hnamed, hname]),
        Option.map_some, pathBy_value rfl]
    · simp [hnamed, hname, hjson]

/-- Dialects that read a path from a decorator read the same one, unless they share the decorator
and the path stands in an object literal. -/
private theorem pathIn?_agree (h : d.simpleName = "Controller" → d.objectPath = "")
    (dialect other : Dialect) (path path' : String) (hpath : d.pathIn? dialect = some path)
    (hother : d.pathIn? other = some path') : path = path' := by
  -- What is read is always the first argument itself.
  have hliteral {dialect : Dialect} {path : String} (hpath : d.pathIn? dialect = some path) :
      path = d.literalPath := by
    cases dialect with
    | nest =>
      rw [pathIn?_nest] at hpath
      split at hpath
      · next hname =>
        rw [if_pos (h hname)] at hpath
        exact (Option.some.inj hpath).symm
      · cases hpath
    | routingControllers =>
      rw [pathIn?_routingControllers] at hpath
      split at hpath
      · exact (Option.some.inj hpath).symm
      · cases hpath
  rw [hliteral hpath, hliteral hother]

/-- The path that a decorator gives as the built-in one. -/
def builtinPath? (d : Decorator) (builtin : Inclusion) : Option String :=
  ((MappingSettings.fromTable .classPath .builtin builtin).find? (d.isNamed ·.name)).map d.pathBy

/-- The built-in table has no decorator of the name that the dialects share. -/
theorem builtinPath?_eq_none (builtin : Inclusion) (h : d.simpleName = "Controller") :
    d.builtinPath? builtin = none := by
  have htable : RoleTable.builtin.lookup .classPath = [⟨"Route", [(.path, .value 0)]⟩] := rfl
  have hroute : d.isNamed "Route" = false := by
    rw [isNamed_of_dotless (by decide), h]
    decide
  -- The built-in table may be left out, and has no decorator of this name if it is not.
  unfold builtinPath? MappingSettings.fromTable
  split <;> simp [htable, hroute]

end Decorator

/-! ## Listed dialects -/

/-- The settings with some dialects listed and nothing overridden. -/
def MappingSettings.listing (builtin : Inclusion) (dialects : List Dialect) : MappingSettings :=
  ⟨builtin, .subset dialects, []⟩

namespace Mapping

variable {d : Decorator} (builtin : Inclusion) (dialects : List Dialect)

private theorem offered_listing :
    (MappingSettings.listing builtin dialects).offered .classPath =
      MappingSettings.fromTable .classPath .builtin builtin ++
        dialects.flatMap (·.table.lookup .classPath) := by
  show _ ++ (dialects.map (·, Inclusion.all)).flatMap _ = _
  rw [List.flatMap_map]
  rfl

/-- The only decorator of a class is read by the built-in table, or else by the first of the listed
dialects that has it. -/
theorem map_find?_classPath :
    ((ofSettings (.listing builtin dialects)).find? [d] .classPath).map
        (fun found => ((found.text? .path).map Route.trim).getD "") =
      (d.builtinPath? builtin).or (dialects.findSome? d.pathIn?) := by
  -- The decorator itself is all that a match has.
  have hread (found : Option Representation)
      (hnamed : ∀ representation ∈ found, d.isNamed representation.name = true) :
      found.map ((fun found => ((found.text? .path).map Route.trim).getD "") ∘ fun representation =>
        RoleMatch.mk representation ([d].filter (·.isNamed representation.name))) =
      found.map d.pathBy := by
    refine Option.map_congr fun representation hmem => ?_
    have hinstances : [d].filter (·.isNamed representation.name) = [d] := by
      simp [hnamed representation hmem]
    show (((RoleMatch.mk representation _).text? .path).map Route.trim).getD "" = _
    rw [hinstances]
    rfl
  rw [find?_ofSettings, Option.map_map, offered_listing]
  simp only [List.any_cons, List.any_nil, Bool.or_false]
  rw [hread _ fun representation hmem => by simpa using List.find?_some hmem, List.find?_append,
    Option.map_or, List.find?_flatMap, List.map_findSome?]
  rfl

private theorem has_classPath_listing :
    (ofSettings (.listing builtin dialects)).has [d] .classPath =
      ((d.builtinPath? builtin).or (dialects.findSome? d.pathIn?)).isSome := by
  rw [← map_find?_classPath, Option.isSome_map]
  rfl

end Mapping

namespace Resolver

variable {c : ClassDecl} {d : Decorator}

private theorem controllerPath_listing (index : Index) (builtin : Inclusion)
    (dialects : List Dialect) (hone : c.decorators = [d]) :
    controllerPath ⟨index, .ofSettings (.listing builtin dialects)⟩ c =
      ((d.builtinPath? builtin).or (dialects.findSome? d.pathIn?)).getD "" := by
  rw [← Mapping.map_find?_classPath, controllerPath, roleText?, hone]
  cases (Mapping.ofSettings (.listing builtin dialects)).find? [d] .classPath <;> rfl

/-- A path in an object literal is read where the first dialect looks for it. -/
private theorem controllerPath_of_objectPath (index : Index) (builtin : Inclusion)
    (dialects : List Dialect) (hone : c.decorators = [d]) (hname : d.simpleName = "Controller")
    (hpath : d.objectPath ≠ "") :
    controllerPath ⟨index, .ofSettings (.listing builtin dialects)⟩ c =
      if dialects.head? = some .nest then d.objectPath else "" := by
  rw [controllerPath_listing index builtin dialects hone, d.builtinPath?_eq_none builtin hname,
    Option.none_or]
  cases dialects with
  | nil => rfl
  | cons first rest =>
    -- Of the two dialects only one reads a path out of an object.
    cases first with
    | nest => simp [d.pathIn?_nest, hname, hpath]
    | routingControllers =>
      simp [d.pathIn?_routingControllers, hname, d.literalPath_of_objectPath hpath]

end Resolver

/-- Let a class have one decorator, and let two lists have the same dialects, in any order and with
any repetitions. The decorator is read as a path under both or under none. The two paths are the
same, unless the lists begin with different dialects and the decorator is the one that the dialects
share, with a path in an object literal: then it is read under the list that begins with the dialect
that looks there, and the path is empty under the other. -/
theorem path_by_first_dialect (builtin : Inclusion) (dialects others : List Dialect)
    (hsame : ∀ dialect, dialect ∈ dialects ↔ dialect ∈ others) (index : Index) {c : ClassDecl}
    {d : Decorator} (hone : c.decorators = [d]) :
    let r (listed : List Dialect) : Resolver := ⟨index, .ofSettings (.listing builtin listed)⟩
    (r dialects).mapping.has c.decorators .classPath =
      (r others).mapping.has c.decorators .classPath ∧
    ((r dialects).controllerPath c = (r others).controllerPath c ↔
      dialects.head? = others.head? ∨ ¬ d.Bears "Controller" ∨ d.objectPath = "") ∧
    (d.Bears "Controller" → d.objectPath ≠ "" → ∀ listed, (r listed).controllerPath c =
      if listed.head? = some .nest then d.objectPath else "") ∧
    ∀ listed file s t controller, ((r listed).controller c file).run s = (.ok controller, t) →
      controller.path = (r listed).controllerPath c := by
  intro r
  have hbears : d.Bears "Controller" ↔ d.simpleName = "Controller" := by
    rw [← Decorator.isNamed_iff, Decorator.isNamed_of_dotless (by decide), decide_eq_true_iff]
  have hread (hname : d.Bears "Controller") (hpath : d.objectPath ≠ "") (listed : List Dialect) :
      (r listed).controllerPath c =
        if listed.head? = some .nest then d.objectPath else "" :=
    Resolver.controllerPath_of_objectPath index builtin listed hone (hbears.1 hname) hpath
  refine ⟨?_, ?_, hread, fun _ _ _ _ _ hrun => Resolver.controller_path hrun⟩
  · rw [hone]
    show (Mapping.ofSettings (.listing builtin dialects)).has [d] .classPath =
      (Mapping.ofSettings (.listing builtin others)).has [d] .classPath
    rw [Mapping.has_classPath_listing, Mapping.has_classPath_listing, Option.isSome_or,
      Option.isSome_or, List.isSome_findSome?_of_same hsame]
  · by_cases hobject : d.Bears "Controller" ∧ d.objectPath ≠ ""
    · -- The first dialect decides, so the paths tell which one that is.
      obtain ⟨hname, hpath⟩ := hobject
      rw [hread hname hpath, hread hname hpath, Dialect.head?_eq_iff hsame]
      by_cases hfirst : dialects.head? = some .nest <;>
        by_cases hsecond : others.head? = some .nest <;>
          simp [hfirst, hsecond, hname, hpath, hpath.symm]
    · -- All dialects that read the decorator read the same path.
      have hplain : d.simpleName = "Controller" → d.objectPath = "" := fun hname =>
        by_contra fun hpath => hobject ⟨hbears.2 hname, hpath⟩
      refine iff_of_true ?_ (.inr (by rwa [ne_eq, not_and_or, not_not] at hobject))
      rw [Resolver.controllerPath_listing index builtin dialects hone,
        Resolver.controllerPath_listing index builtin others hone,
        List.findSome?_of_same hsame (d.pathIn?_agree hplain)]

/-- The path in an object literal, under two lists of which the one has a dialect twice. -/
theorem object_path_read_once :
    let d : Decorator := ⟨"api.Controller", [.object [("path", .string "/cats/")]], [], 1⟩
    let c : ClassDecl := ⟨"Cats", [d], [], none, [], [], none, 1, false⟩
    let r (listed : List Dialect) : Resolver :=
      ⟨.ofProgram [], .ofSettings (.listing .all listed)⟩
    (r [.nest, .routingControllers, .nest]).mapping.has c.decorators .classPath =
      (r [.routingControllers, .nest]).mapping.has c.decorators .classPath ∧
    (r [.nest, .routingControllers, .nest]).controllerPath c = "cats" ∧
    (r [.routingControllers, .nest]).controllerPath c = "" := by
  intro d c r
  obtain ⟨hhas, _, hread, _⟩ := path_by_first_dialect .all [.nest, .routingControllers, .nest]
    [.routingControllers, .nest] (fun dialect => by cases dialect <;> decide) (.ofProgram [])
    (c := c) (d := d) rfl
  have hbears : d.Bears "Controller" := by decide +kernel
  have hpath : d.objectPath = "cats" := by decide +kernel
  -- Both lists have the same dialects, and the first of each decides.
  have hread := hread hbears (by rw [hpath]; decide)
  refine ⟨hhas, ?_, ?_⟩
  · rw [← hpath]
    exact hread [.nest, .routingControllers, .nest]
  · exact hread [.routingControllers, .nest]

/-- A class with one decorator is a controller under both orders of the dialects, and its path is
read under the one and empty under the other. -/
theorem path_lost_in_other_order :
    let program : Program := (ProgramFile.parse "cats.ts"
      "@Controller(\x7b path: 'cats' \x7d) class Cats \x7b \x7d").toOption.toList
    let r (listed : List Dialect) : Resolver :=
      ⟨.ofProgram program, .ofSettings (.listing .all listed)⟩
    ∃ c file controller other t u, (Index.ofProgram program).classes = [(c, file)] ∧
      c.decorators.length = 1 ∧ (r [.nest, .routingControllers]).isController c = true ∧
      (r [.routingControllers, .nest]).isController c = true ∧
      ((r [.nest, .routingControllers]).controller c file).run .empty = (.ok controller, t) ∧
      ((r [.routingControllers, .nest]).controller c file).run .empty = (.ok other, u) ∧
      controller.path = "cats" ∧ other.path = "" := by
  intro program r
  obtain ⟨c, file, controller, t, hclasses, hvalid, hone, hrun, hpath⟩ :
      ∃ c file controller t, (r [.nest, .routingControllers]).index.classes = [(c, file)] ∧
        (r [.nest, .routingControllers]).isController c = true ∧ c.decorators.length = 1 ∧
        ((r [.nest, .routingControllers]).controller c file).run .empty = (.ok controller, t) ∧
        controller.path = "cats" := by
    suffices hfacts : _ from exists_controller hfacts
    decide +kernel
  obtain ⟨c', file', other, u, hclasses', hvalid', -, hrun', hpath'⟩ :
      ∃ c file controller t, (r [.routingControllers, .nest]).index.classes = [(c, file)] ∧
        (r [.routingControllers, .nest]).isController c = true ∧ c.decorators.length = 1 ∧
        ((r [.routingControllers, .nest]).controller c file).run .empty = (.ok controller, t) ∧
        controller.path = "" := by
    suffices hfacts : _ from exists_controller hfacts
    decide +kernel
  -- The index does not depend on the dialects, so both are about the same class.
  obtain ⟨rfl, rfl⟩ : c' = c ∧ file' = file := by simpa using hclasses'.symm.trans hclasses
  exact ⟨c', file', controller, other, t, u, hclasses, hone, hvalid, hvalid', hrun, hrun', hpath,
    hpath'⟩

end Endpoints
