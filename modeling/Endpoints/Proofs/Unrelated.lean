import Endpoints.Endpoint.Controller
import Endpoints.Proofs.Bound
import Endpoints.Proofs.IndexTable
import Endpoints.Proofs.Mention
import Endpoints.Proofs.TextParts

/-!
# Files that a program does not mention

The metadata of a program depends only on the declarations whose names it mentions. The argument is
that of a frame: two resolvers agree on some names if they find the same declarations under them,
and all that these declarations mention is among the names again. Then the one resolves a type over
the names as the other does, although they may differ in all other declarations, in their number,
and so in the bounds of all recursions.

A member of an enum is looked up under the name of the enum, which is a dotted prefix of its own.
-/

namespace Endpoints

open Index

variable {α β : Type}

/-! ## Dotted names -/

/-- The name is the other one or a dotted prefix of it. -/
def Touches (name mentioned : String) : Prop :=
  name = mentioned ∨ (name ++ ".").toList <+: mentioned.toList

instance (name mentioned : String) : Decidable (Touches name mentioned) :=
  inferInstanceAs (Decidable (_ ∨ _))

/-- What stands before the last point of a name is a dotted prefix. -/
private theorem touches_of_splitLast? {name owner member : String}
    (h : Resolver.splitLast? name = some (owner, member)) : Touches owner name := by
  unfold Resolver.splitLast? at h
  split at h
  · next last first rest hparts =>
    obtain ⟨rfl, rfl⟩ := Prod.mk.inj (Option.some.inj h)
    -- The parts between points, the last one by itself.
    have hsplit : name.toList.splitOn '.' = (first :: rest).reverse ++ [last] := by
      rw [← Text.splitOn_eq, ← List.reverse_reverse (Text.splitOn _ _), hparts, List.reverse_cons]
    have hname : ['.'].intercalate (name.toList.splitOn '.') = name.toList :=
      List.intercalate_splitOn '.'
    rw [hsplit, intercalate_append _ (by simp), List.flatMap_singleton,
      ← List.append_assoc] at hname
    refine .inr ⟨last, ?_⟩
    rw [String.toList_append, String.toList_ofList]
    exact hname
  · exact nomatch h

private theorem Mapping.mem_of_find? {mapping : Mapping} {decorators : List Decorator} {role : Role}
    {found : RoleMatch} (h : mapping.find? decorators role = some found) {d : Decorator}
    (hd : d ∈ found.instances) : d ∈ decorators := by
  obtain ⟨representation, _, hmatch⟩ := List.exists_of_findSome?_eq_some h
  obtain ⟨instances, hinstances, rfl⟩ := Option.map_eq_some_iff.1 hmatch
  rw [nonEmpty?_eq_some hinstances] at hd
  exact List.mem_of_mem_filter hd

/-- `distinctMethods` gives methods of the class. -/
private theorem Resolver.mem_of_distinctMethods {members : List ClassMember} {m : MethodDecl}
    (h : m ∈ Resolver.distinctMethods members) : .method m ∈ members := by
  -- All methods that have been kept so far are members.
  refine List.foldlRecOn (motive := fun kept => m ∈ kept → .method m ∈ members) _ _
    (fun hm => (List.not_mem_nil hm).elim) (fun kept ih other hother hm => ?_) h
  split at hm
  · exact ih hm
  · rcases List.mem_append.1 hm with hm | hm
    · exact ih hm
    · obtain rfl := List.mem_singleton.1 hm
      obtain ⟨member, hmember, hmethod⟩ := List.mem_filterMap.1 hother
      cases member with
      | method found => exact Option.some.inj hmethod ▸ hmember
      | property p | constructor parameters | index signature => exact nomatch hmethod

/-! ## Resolution -/

namespace Resolver

variable {S : Set String} {r r' : Resolver}

/-- The resolvers find the same under some names, and what they find mentions no other names. -/
structure Agree (S : Set String) (r r' : Resolver) : Prop where
  mapping : r.mapping = r'.mapping
  find : ∀ name ∈ S, r.index.find name = r'.index.find name
  enumMember? : ∀ name ∈ S, r.enumMember? name = r'.enumMember? name
  closed : r.ClosedOver S

namespace Agree

private theorem closed' (h : Agree S r r') : r'.ClosedOver S :=
  fun name hname located hfind => h.closed name hname located ((h.find name hname).trans hfind)

section Step

variable {parts : Parts Resolve} {scope : Scope}

private theorem properties_eq (h : Agree S r r') (members : List Member) :
    r.properties parts scope members = r'.properties parts scope members := by
  obtain ⟨index, mapping⟩ := r
  obtain ⟨index', mapping'⟩ := r'
  obtain rfl : mapping = mapping' := h.mapping
  rfl

/-- A parent is found by its name, which is one of the names. -/
private theorem inheritedShape_eq (h : Agree S r r')
    (structural : Located → Scope → Resolve ObjectShape)
    (chain : List String) {parent : TypeExpr} (hparent : parent.Over S) :
    r.inheritedShape parts structural chain parent =
      r'.inheritedShape parts structural chain parent := by
  unfold inheritedShape
  split
  · rw [h.find _ (TypeExpr.over_reference.1 hparent).1]
  · rfl

/-- The shape of a declaration over the names is the same, for equal chains. -/
private theorem structuralShape_eq (h : Agree S r r') (links : Nat) {chain : List String}
    {located : Located} (hover : located.declaration.Over S) (hscope : scope.Over S) :
    r.structuralShape parts links chain located scope =
      r'.structuralShape parts links chain located scope := by
  induction links generalizing chain located scope with
  | zero => rfl
  | succ links ih =>
    unfold structuralShape
    dsimp only
    rw [h.properties_eq]
    congr 1
    refine List.foldlM_congr_of_mem (fun parent hparent shape => ?_) _
    -- A parent is looked up as it is after the substitution.
    have hparent := TypeExpr.over_substitute hscope (hover.heritage hparent)
    rw [inheritedShape_congr fun other arguments hother _ => ?_, h.inheritedShape_eq _ _ hparent]
    obtain ⟨hother, harguments⟩ := h.closed.structuralParent? hparent hother
    exact ih hother (Scope.over_bind hother.typeParameters harguments)

/-- So is its entry, although the lengths of chains differ. -/
private theorem construct_eq (h : Agree S r r') {i : Instantiation}
    (hd : i.declaration ∈ r.index.declarations) (hd' : i.declaration ∈ r'.index.declarations)
    (hover : i.declaration.declaration.Over S) (hscope : i.scope.Over S) :
    r.construct parts i = r'.construct parts i := by
  -- The two allow for chains of different lengths, but neither length is reached.
  have hshape : r.structuralShape parts r.index.maxChain [] i.declaration i.scope =
      r'.structuralShape parts r'.index.maxChain [] i.declaration i.scope := by
    rw [← structuralShape_eq_of_le (.nil r) hd (by simp) (le_max_left _ r'.index.maxChain),
      ← structuralShape_eq_of_le (.nil r') hd' (by simp) (le_max_right r.index.maxChain _),
      h.structuralShape_eq _ hover hscope]
  have hentry : r.objectEntry = r'.objectEntry := by
    funext d name shape
    simp only [objectEntry, h.mapping]
  unfold construct
  rw [hshape, hentry]

/-- So is the use of a declaration. -/
theorem declared_eq (h : Agree S r r') {name : String} {arguments : List TypeExpr}
    {located : Located} (hname : name ∈ S) (harguments : ∀ type ∈ arguments, type.Over S)
    (hfind : r.index.find name = [located]) :
    r.declared parts located arguments = r'.declared parts located arguments := by
  -- The declaration is the only one of its name for both resolvers.
  have hd' : located ∈ r'.index.declarations := mem_of_find ((h.find name hname).symm.trans hfind)
  have hover := h.closed name hname located hfind
  have hscope := Scope.over_bind hover.typeParameters harguments
  rw [Resolver.declared_eq, Resolver.declared_eq]
  dsimp only
  rw [h.construct_eq (i := .of located arguments) (mem_of_find hfind) hd' hover hscope]

/-- One step of resolution is the same, however parts are resolved. -/
theorem step_eq (h : Agree S r r') {type : TypeExpr} (htype : type.Over S) (hints : Hints) :
    r.step parts type hints = r'.step parts type hints := by
  -- Only references and members look at the resolver.
  cases type with
  | reference name arguments =>
    obtain ⟨hname, harguments⟩ := TypeExpr.over_reference.1 htype
    show r.reference parts name arguments hints = r'.reference parts name arguments hints
    unfold reference
    rw [← h.find name hname, ← h.enumMember? name hname]
    split
    · next hfind => exact h.declared_eq hname harguments hfind
    · rfl
    · rfl
  | object members =>
    show r.objectType parts members = r'.objectType parts members
    unfold objectType
    rw [h.properties_eq]
  | keyword | literal | array | tuple | union | intersection | unsupported => rfl

end Step

/-- Types over the names are resolved in the same way, with any bound. -/
theorem resolveWithin_eq (h : Agree S r r') (bound : Nat) {type : TypeExpr} (htype : type.Over S)
    (hints : Hints) : r.resolveWithin bound type hints = r'.resolveWithin bound type hints := by
  -- Confined to these types, resolution is the same for all types: the others are refused.
  have hconfined : (Region.over r S).resolveWithin bound =
      (Region.over r' S).resolveWithin bound := by
    clear htype
    induction bound with
    | zero => rfl
    | succ bound ih =>
      funext type hints
      by_cases htype : type.Over S
      · rw [Region.resolveWithin_of_contains _ htype, Region.resolveWithin_of_contains _ htype, ih,
          h.step_eq htype]
      · rw [Region.resolveWithin_of_not_contains _ htype,
          Region.resolveWithin_of_not_contains _ htype]
  rw [← Region.resolveWithin_eq (Region.over_hasParts h.closed) bound htype, hconfined,
    Region.resolveWithin_eq (Region.over_hasParts h.closed') bound htype]

theorem resolve_eq (h : Agree S r r') {type : TypeExpr} (htype : type.Over S) (hints : Hints) :
    r.resolve type hints = r'.resolve type hints := by
  -- The larger of the two bounds is enough for both.
  rw [← resolveWithin_eq_resolve (le_max_left _ (r'.index.bound type)),
    ← resolveWithin_eq_resolve (le_max_right (r.index.bound type) _), h.resolveWithin_eq _ htype]

/-! ## Parameters and responses -/

private theorem aliasValidators_eq (h : Agree S r r') {type : TypeExpr} (htype : type.Over S) :
    r.aliasValidators type = r'.aliasValidators type := by
  unfold aliasValidators
  split
  · rw [h.find _ (TypeExpr.over_reference.1 htype).1]
  · rfl

private theorem decoratorHints_eq (h : Agree S r r') : r.decoratorHints = r'.decoratorHints := by
  funext decorators
  simp only [decoratorHints, h.mapping]

private theorem resolve?_eq (h : Agree S r r') {type? : Option TypeExpr}
    (htype : ∀ type, type? = some type → type.Over S) : r.resolve? type? = r'.resolve? type? := by
  cases type? with
  | none => rfl
  | some type => simp only [resolve?, h.resolve_eq (htype type rfl)]

/-- Responses are the same, since the types in decorators are over the names. -/
private theorem responses_eq (h : Agree S r r') {decorators : List Decorator}
    (hd : ∀ d ∈ decorators, d.Over S) : r.responses decorators = r'.responses decorators := by
  unfold responses
  rw [h.mapping]
  split
  · next found hfound =>
    refine List.mapM_congr_of_mem fun d hinstance => ?_
    have hover := hd d (Mapping.mem_of_find? hfound hinstance)
    unfold response
    rw [h.resolve?_eq fun type htype => RoleMatch.over_typeOf? hover htype,
      h.resolve?_eq fun type htype => RoleMatch.over_typeOf? hover htype]
  · rfl

/-- A parameter is the same if its type is over the names. -/
private theorem parameter_eq (h : Agree S r r') {head : EndpointHead} (hscope : head.scope.Over S)
    {p : ParameterDecl} (hp : ∀ type, p.type = some type → type.Over S) :
    r.parameter head p = r'.parameter head p := by
  have htype : r.parameterType head p = r'.parameterType head p := by
    unfold parameterType
    split
    · next type htype =>
      rw [h.resolve_eq (TypeExpr.over_substitute hscope (hp type htype)), h.decoratorHints_eq]
    · rfl
  -- The constraints of an alias are looked up by the type as it is written.
  have hvalidators : p.type.map r.aliasValidators = p.type.map r'.aliasValidators :=
    Option.map_congr fun type hsome => h.aliasValidators_eq (hp type hsome)
  have hrole : r.parameterRole p = r'.parameterRole p := by
    simp only [parameterRole, h.mapping]
  simp only [parameter, queryParameter, simpleParameter, pathParameter, htype, hvalidators, hrole]

private theorem parameters_eq (h : Agree S r r') {head : EndpointHead} (hscope : head.scope.Over S)
    (hm : head.declaration.Over S) : r.parameters head = r'.parameters head := by
  unfold parameters
  rw [List.mapM_congr_of_mem fun p hp => ?_]
  rw [h.parameter_eq hscope fun type htype => hm.parameterType hp htype]

/-! ## Endpoints and controllers -/

private theorem returnSchema_eq (h : Agree S r r') (controller : String) {m : MethodDecl}
    (hm : m.Over S) {scope : Scope} (hscope : scope.Over S) :
    r.returnSchema controller m scope = r'.returnSchema controller m scope := by
  unfold returnSchema
  split
  · next type htype => exact h.resolve_eq (TypeExpr.over_substitute hscope (hm.returnType htype)) _
  · rfl

/-- So is its endpoint. -/
private theorem endpoint?_eq (h : Agree S r r') (controller controllerPath : String)
    {m : MethodDecl} (hm : m.Over S) :
    r.endpoint? controller controllerPath m = r'.endpoint? controller controllerPath m := by
  -- The verb and the texts depend on the settings only.
  have hverb : r.verb? m = r'.verb? m := by
    simp only [verb?, h.mapping]
  have hendpoint (verb : Verb) (found : RoleMatch) :
      r.endpointOf controller controllerPath m verb found =
        r'.endpointOf controller controllerPath m verb found := by
    unfold endpointOf
    dsimp only
    rw [h.returnSchema_eq controller hm hm.scope, h.parameters_eq hm.scope hm,
      h.responses_eq hm.ownDecorators]
    simp only [roleText?, roleTexts, security?, successResponse, samples?, h.mapping]
  simp only [endpoint?, hverb, hendpoint]

/-- So is the controller of a class. -/
private theorem controller_eq (h : Agree S r r') {c : ClassDecl}
    (hc : (Declaration.ofClass c).Over S)
    (file : String) : r.controller c file = r'.controller c file := by
  have hmethods (path : String) : (distinctMethods c.members).mapM (r.endpoint? c.name path) =
      (distinctMethods c.members).mapM (r'.endpoint? c.name path) :=
    List.mapM_congr_of_mem fun m hm =>
      h.endpoint?_eq c.name path (hc.method (mem_of_distinctMethods hm))
  have hresponses : r.responses c.decorators = r'.responses c.decorators :=
    h.responses_eq fun d hd => hc.decorators d (List.mem_append_left _ hd)
  simp only [controller, hmethods, hresponses, roleText?, roleTexts, security?, h.mapping]

end Agree

end Resolver

/-! ## Programs -/

namespace Index

theorem ofProgram_append (before after : Program) :
    (ofProgram (before ++ after)).declarations =
      (ofProgram before).declarations ++ (ofProgram after).declarations := by
  simp only [declarations_ofProgram, List.flatMap_append]

private theorem ofProgram_insert (before after : Program) (extra : ProgramFile) :
    (ofProgram (before ++ extra :: after)).declarations =
      (ofProgram before).declarations ++
        ((ofProgram [extra]).declarations ++ (ofProgram after).declarations) := by
  rw [ofProgram_append, ← ofProgram_append [extra]]
  rfl

variable {before after : Program} {extra : ProgramFile}

/-- A name that the file does not declare finds the same with it and without it. -/
private theorem find_ofProgram_insert {name : String}
    (h : ∀ d ∈ (ofProgram [extra]).declarations, name ∉ d.names) :
    (ofProgram (before ++ extra :: after)).find name =
      (ofProgram (before ++ after)).find name := by
  have hnone :
      ((ofProgram [extra]).declarations.filter fun d => d.names.contains name) = [] := by
    rw [List.filter_eq_nil_iff]
    intro d hd
    simpa using h d hd
  rw [(consistent_ofProgram _).find_eq, (consistent_ofProgram _).find_eq, ofProgram_insert,
    ofProgram_append, List.filter_append, List.filter_append, List.filter_append, hnone,
    List.nil_append]

/-- The same classes are chosen with a file and without it, if none of its own is. -/
private theorem filter_classes_insert {p : ClassDecl × String → Bool}
    (h : ∀ entry ∈ (ofProgram [extra]).classes, p entry = false) :
    (ofProgram (before ++ extra :: after)).classes.filter p =
      (ofProgram (before ++ after)).classes.filter p := by
  have hnone : (ofProgram [extra]).classes.filter p = [] := by
    rw [List.filter_eq_nil_iff]
    intro entry hentry
    simp [h entry hentry]
  rw [(consistent_ofProgram _).classes] at hnone ⊢
  rw [(consistent_ofProgram _).classes, ofProgram_insert, ofProgram_append, List.filterMap_append,
    List.filterMap_append, List.filterMap_append, List.filter_append, List.filter_append,
    List.filter_append, hnone, List.nil_append]

/-- The entries of `Index.classes` are declarations of the program. -/
private theorem exists_of_mem_classes {program : Program} {entry : ClassDecl × String}
    (h : entry ∈ (ofProgram program).classes) :
    ∃ d ∈ (ofProgram program).declarations, d.declaration = .ofClass entry.1 := by
  rw [(consistent_ofProgram program).classes] at h
  obtain ⟨d, hd, hentry⟩ := List.mem_filterMap.1 h
  refine ⟨d, hd, ?_⟩
  unfold Located.class? at hentry
  split at hentry
  · next c hc =>
    split at hentry
    · rw [hc, ← Option.some.inj hentry]
    · exact nomatch hentry
  · exact nomatch hentry

end Index

/-- The names that the declarations of a file leave alone: no name under which one of them is
visible is such a name or a dotted prefix of it. -/
def ProgramFile.untouched (file : ProgramFile) : Set String :=
  {mentioned | ∀ d ∈ (ofProgram [file]).declarations, ∀ name ∈ d.names,
    ¬ Touches name mentioned}

/-- With a file and without it, names that it leaves alone find the same, if the others mention only
such names. -/
private theorem Resolver.agree_insert {before after : Program} {extra : ProgramFile}
    (mapping : Mapping) (h : ∀ d ∈ (ofProgram (before ++ after)).declarations,
      d.declaration.Over extra.untouched) :
    Agree extra.untouched ⟨ofProgram (before ++ after), mapping⟩
      ⟨ofProgram (before ++ extra :: after), mapping⟩ where
  mapping := rfl
  find name hname := by
    refine (Index.find_ofProgram_insert fun d hd hmem => ?_).symm
    exact hname d hd name hmem (.inl rfl)
  enumMember? name hname := by
    unfold enumMember?
    cases hsplit : splitLast? name with
    | none => rfl
    | some parts =>
      -- The enum is looked up under a dotted prefix.
      have hfind : (ofProgram (before ++ extra :: after)).find parts.1 =
          (ofProgram (before ++ after)).find parts.1 :=
        Index.find_ofProgram_insert fun d hd hmem =>
          hname d hd parts.1 hmem (touches_of_splitLast? hsplit)
      dsimp only [bind, Option.bind]
      rw [hfind]
  closed name _ located hfind := h located (mem_of_find hfind)

/-- A file that is not mentioned does not change the result, wherever it stands among the others:
metadata, error and warnings are the same. None of its classes may be a controller, and no name
under which one of its declarations is visible, plain or qualified, may be the name of a reference
or a path among the arguments of a decorator in the other files, or a dotted prefix of one. -/
theorem unrelated_file_changes_nothing (before after : Program) (extra : ProgramFile)
    (mapping : Mapping)
    (hclasses : ∀ entry ∈ (ofProgram [extra]).classes,
      mapping.has entry.1.decorators .classPath = false)
    (hnames : ∀ d ∈ (ofProgram [extra]).declarations, ∀ name ∈ d.names,
      ∀ mentioned ∈ (ofProgram (before ++ after)).typeNames ++
        (ofProgram (before ++ after)).argumentPaths, ¬ Touches name mentioned) :
    Metadata.ofProgram (before ++ extra :: after) mapping =
      Metadata.ofProgram (before ++ after) mapping := by
  have hover : ∀ d ∈ (ofProgram (before ++ after)).declarations,
      d.declaration.Over extra.untouched := by
    intro d hd
    refine Declaration.over_of_names (fun mentioned hm => ?_) fun mentioned hm => ?_
    · exact fun other ho name hn => hnames other ho name hn mentioned
        (List.mem_append_left _ (List.mem_flatMap.2 ⟨d, hd, hm⟩))
    · exact fun other ho name hn => hnames other ho name hn mentioned
        (List.mem_append_right _ (List.mem_flatMap.2 ⟨d, hd, hm⟩))
  have hagree := Resolver.agree_insert mapping hover
  -- The same classes are controllers, and each of them is over the names.
  have hcontrollers : Resolver.controllers ⟨ofProgram (before ++ extra :: after), mapping⟩ =
      Resolver.controllers ⟨ofProgram (before ++ after), mapping⟩ := by
    unfold Resolver.controllers
    rw [Index.filter_classes_insert fun entry hentry => ?_]
    · refine List.mapM_congr_of_mem fun entry hentry => ?_
      obtain ⟨d, hd, hclass⟩ := Index.exists_of_mem_classes (List.mem_of_mem_filter hentry)
      exact (hagree.controller_eq (hclass ▸ hover d hd) entry.2).symm
    · simp [Resolver.isController, hclasses entry hentry]
  unfold Metadata.ofProgram Metadata.build
  dsimp only
  rw [hcontrollers]

/-- A file of classes and enums that refer to the others, but not the others to them. -/
theorem audit_file_changes_nothing :
    let files := fun path source => (ProgramFile.parse path source).toOption.toList
    let before := files "users.ts" "@Route('users') class Users { @Get() all(): Api.User[] {} }"
    let after := files "api.ts" "namespace Api { interface User { id: string } }"
    let source := "class Log { by: Api.User } namespace Audit { enum User { None } }"
    let extra := (ProgramFile.parse "audit.ts" source).toOption.getD ⟨"audit.ts", [], []⟩
    let mapping := Mapping.ofSettings .default
    let index := ofProgram (before ++ after)
    ((∀ entry ∈ (ofProgram [extra]).classes,
        mapping.has entry.1.decorators .classPath = false) ∧
      (∀ d ∈ (ofProgram [extra]).declarations, ∀ name ∈ d.names,
        ∀ mentioned ∈ index.typeNames ++ index.argumentPaths, ¬ Touches name mentioned) ∧
      ((ofProgram [extra]).declarations.map (·.names) =
        [["Log"], ["User", "Audit.User"]]) ∧
      (Metadata.ofProgram (before ++ after) mapping).1.isOk = true) ∧
    Metadata.ofProgram (before ++ extra :: after) mapping =
      Metadata.ofProgram (before ++ after) mapping := by
  suffices hfacts : _ from
    ⟨hfacts, unrelated_file_changes_nothing _ _ _ _ hfacts.1 hfacts.2.1⟩
  decide +kernel

/-- A dotted prefix of a path matters as much as one of a reference: among the arguments of a
decorator, the path to a member of an enum finds the enum. -/
theorem enum_found_by_path :
    let files := fun path source => (ProgramFile.parse path source).toOption.toList
    let program := files "pets.ts"
      "@Controller('pets') class Pets { @Get() @ApiResponse({ type: Color.Red }) all(): string {} }"
    let extra := files "color.ts" "enum Color { Red }"
    let mapping := Mapping.ofSettings { MappingSettings.default with dialects := .one .nest }
    let index := ofProgram program
    ((∀ entry ∈ (ofProgram extra).classes,
        mapping.has entry.1.decorators .classPath = false) ∧
      ∀ d ∈ (ofProgram extra).declarations,
        ∀ name ∈ [d.declaration.name, d.qualifiedName],
          (∀ mentioned ∈ index.typeNames, ¬ Touches name mentioned) ∧
            name ∉ index.argumentPaths) ∧
    (Metadata.ofProgram program mapping).1.isOk = false ∧
    (Metadata.ofProgram (program ++ extra) mapping).1.isOk = true := by
  decide +kernel

end Endpoints
