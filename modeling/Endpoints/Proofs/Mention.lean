import Endpoints.Proofs.Nodewise

/-!
# The names that a program mentions

A name can be mentioned by a reference in a type expression, and by a path among the arguments of a
decorator, which may stand for a type. No other name is ever looked up: a type that is resolved on
the way is put together from type expressions of the program, so that it mentions only what they do.
-/

namespace Endpoints

/-! ## Names in types -/

mutual

/-- The names of the references in a type expression. -/
def TypeExpr.names : TypeExpr → List String
  | .reference name arguments => name :: typesNames arguments
  | .array element => element.names
  | .tuple elements => typesNames elements
  | .union members => typesNames members
  | .intersection members => typesNames members
  | .object members => membersNames members
  | .keyword _ | .literal _ | .unsupported _ => []

def typesNames : List TypeExpr → List String
  | [] => []
  | type :: types => type.names ++ typesNames types

def typeNames? : Option TypeExpr → List String
  | some type => type.names
  | none => []

def TypeMember.names : TypeMember → List String
  | .property _ type _ _ _ => typeNames? type
  | .method _ => []
  | .index _ keyType valueType => keyType.names ++ valueType.names

def membersNames : List TypeMember → List String
  | [] => []
  | member :: members => member.names ++ membersNames members

end

private theorem mem_typesNames {types : List TypeExpr} {name : String} :
    name ∈ typesNames types ↔ ∃ type ∈ types, name ∈ type.names := by
  induction types with
  | nil => simp [typesNames]
  | cons type types ih => simp [typesNames, ih]

private theorem mem_membersNames {members : List TypeMember} {name : String} :
    name ∈ membersNames members ↔ ∃ member ∈ members, name ∈ member.names := by
  induction members with
  | nil => simp [membersNames]
  | cons member members ih => simp [membersNames, ih]

/-! ## Paths in expressions -/

namespace Expr

mutual

/-- The paths of identifiers in an expression. -/
def paths : Expr → List String
  | path text => [text]
  | array items => listPaths items
  | object entries => entryPaths entries
  | _ => []

def listPaths : List Expr → List String
  | [] => []
  | item :: items => paths item ++ listPaths items

def entryPaths : List (String × Expr) → List String
  | [] => []
  | (_, value) :: entries => paths value ++ entryPaths entries

end

private theorem mem_listPaths {items : List Expr} {text : String} :
    text ∈ listPaths items ↔ ∃ item ∈ items, text ∈ item.paths := by
  induction items with
  | nil => simp [listPaths]
  | cons item items ih => simp [listPaths, ih]

private theorem mem_entryPaths {entries : List (String × Expr)} {text : String} :
    text ∈ entryPaths entries ↔ ∃ entry ∈ entries, text ∈ entry.2.paths := by
  induction entries with
  | nil => simp [entryPaths]
  | cons entry entries ih => simp [entryPaths, ih]

end Expr

/-! ## Names in declarations -/

/-- The decorators of a method and of its parameters. -/
def MethodDecl.allDecorators (m : MethodDecl) : List Decorator :=
  m.decorators ++ m.parameters.flatMap (·.decorators)

namespace ClassMember

/-- The decorators of a member of a class, with those inside it. -/
def allDecorators : ClassMember → List Decorator
  | property p => p.decorators
  | method m => m.allDecorators
  | constructor parameters => parameters.flatMap (·.decorators)
  | index _ => []

end ClassMember

namespace Declaration

/-- The decorators of a declaration, with those inside it. -/
def allDecorators : Declaration → List Decorator
  | ofClass d => d.decorators ++ d.members.flatMap (·.allDecorators)
  | ofInterface _ | ofAlias _ | ofEnum _ => []

/-- The names of all references in a declaration. -/
def typeNames (d : Declaration) : List String :=
  typesNames (d.types ++ d.allDecorators.flatMap (·.typeArguments))

/-- The paths of identifiers among the arguments of decorators. -/
def argumentPaths (d : Declaration) : List String :=
  Expr.listPaths (d.allDecorators.flatMap (·.arguments))

end Declaration

/-- The names of all references in a program. -/
def Index.typeNames (index : Index) : List String :=
  index.declarations.flatMap (·.declaration.typeNames)

/-- The paths of identifiers among the arguments of all decorators in a program. -/
def Index.argumentPaths (index : Index) : List String :=
  index.declarations.flatMap (·.declaration.argumentPaths)

/-! ## Types over some names -/

variable {S : Set String}

/-- The type mentions only some names. -/
def TypeExpr.Over (S : Set String) (type : TypeExpr) : Prop :=
  ∀ name ∈ type.names, name ∈ S

/-- The types that parameters stand for mention only some names. -/
def Scope.Over (S : Set String) (scope : Scope) : Prop :=
  ∀ name type, scope.get? name = some type → type.Over S

private theorem typesNames_over {types : List TypeExpr} :
    (∀ name ∈ typesNames types, name ∈ S) ↔ ∀ type ∈ types, type.Over S := by
  simp only [mem_typesNames, TypeExpr.Over]
  exact ⟨fun h type ht name hn => h name ⟨type, ht, hn⟩,
    fun h name ⟨type, ht, hn⟩ => h type ht name hn⟩

namespace TypeExpr

private theorem over_keyword (word : Keyword) : (keyword word).Over S := by simp [Over, names]

theorem over_reference {name : String} {arguments : List TypeExpr} :
    (reference name arguments).Over S ↔ name ∈ S ∧ ∀ type ∈ arguments, type.Over S := by
  rw [← typesNames_over]
  simp [Over, names]

private theorem over_array {element : TypeExpr} : (array element).Over S ↔ element.Over S := by
  simp [Over, names]

private theorem over_tuple {elements : List TypeExpr} :
    (tuple elements).Over S ↔ ∀ type ∈ elements, type.Over S := by
  rw [← typesNames_over]
  simp [Over, names]

private theorem over_union {members : List TypeExpr} :
    (union members).Over S ↔ ∀ type ∈ members, type.Over S := by
  rw [← typesNames_over]
  simp [Over, names]

private theorem over_intersection {members : List TypeExpr} :
    (intersection members).Over S ↔ ∀ type ∈ members, type.Over S := by
  rw [← typesNames_over]
  simp [Over, names]

/-- An object type mentions what the types of its members do. -/
private theorem over_object {members : List TypeMember} :
    (object members).Over S ↔ ∀ member ∈ members, ∀ type ∈ member.types, type.Over S := by
  -- A member has at most two types, and mentions what they do.
  have hmember (member : TypeMember) :
      (∀ name ∈ member.names, name ∈ S) ↔ ∀ type ∈ member.types, type.Over S := by
    cases member with
    | property name type optional readonly doc =>
      cases type <;> simp [TypeMember.names, typeNames?, TypeMember.types, Over]
    | method name => simp [TypeMember.names, TypeMember.types]
    | index keyName keyType valueType =>
      simp [TypeMember.names, TypeMember.types, Over, or_imp, forall_and]
  simp only [← hmember]
  simp only [Over, names, mem_membersNames]
  constructor
  · intro h member hm name hn
    exact h name ⟨member, hm, hn⟩
  · rintro h name ⟨member, hm, hn⟩
    exact h member hm name hn

/-- What a type mentions is what its nodes mention. -/
private theorem nodewise_over : Nodewise (· ∈ S) (fun _ => True) (Over S) where
  keyword := over_keyword
  reference := over_reference
  array := over_array
  tuple := over_tuple
  union := over_union
  intersection := by
    intro members
    rw [over_intersection, true_and]
  object := over_object

theorem over_substitute {scope : Scope} (hscope : scope.Over S) {type : TypeExpr}
    (h : type.Over S) : (type.substitute scope).Over S :=
  nodewise_over.substitute hscope h

end TypeExpr

theorem Scope.over_bind {parameters : List TypeParameter} {arguments : List TypeExpr}
    (hparameters : ∀ p ∈ parameters, ∀ type ∈ p.types, type.Over S)
    (harguments : ∀ type ∈ arguments, type.Over S) : (Scope.bind parameters arguments).Over S :=
  TypeExpr.nodewise_over.scope_bind hparameters harguments

/-! ## Declarations over some names -/

/-- The decorator mentions only some names. -/
structure Decorator.Over (S : Set String) (d : Decorator) : Prop where
  typeArguments : ∀ type ∈ d.typeArguments, type.Over S
  arguments : ∀ value ∈ d.arguments, ∀ path ∈ value.paths, path ∈ S

/-- The method mentions only some names. -/
structure MethodDecl.Over (S : Set String) (m : MethodDecl) : Prop where
  types : ∀ type ∈ m.types, type.Over S
  decorators : ∀ d ∈ m.allDecorators, d.Over S

namespace MethodDecl.Over

variable {m : MethodDecl} {type : TypeExpr}

theorem scope (h : m.Over S) : (Scope.ofConstraints m.typeParameters).Over S := by
  refine TypeExpr.nodewise_over.scope_ofConstraints fun p hp type ht => h.types type ?_
  exact List.mem_append_left _ (List.mem_append_left _ (List.mem_flatMap.2 ⟨p, hp, ht⟩))

theorem parameterType (h : m.Over S) {p : ParameterDecl} (hp : p ∈ m.parameters)
    (ht : p.type = some type) : type.Over S := by
  refine h.types type (List.mem_append_left _ (List.mem_append_right _ ?_))
  exact List.mem_flatMap.2 ⟨p, hp, Option.mem_toList.2 ht⟩

theorem returnType (h : m.Over S) (ht : m.returnType = some type) : type.Over S :=
  h.types type (List.mem_append_right _ (Option.mem_toList.2 ht))

theorem ownDecorators (h : m.Over S) : ∀ d ∈ m.decorators, d.Over S :=
  fun d hd => h.decorators d (List.mem_append_left _ hd)

end MethodDecl.Over

/-- The declaration mentions only some names. -/
structure Declaration.Over (S : Set String) (d : Declaration) : Prop where
  types : ∀ type ∈ d.types, type.Over S
  decorators : ∀ a ∈ d.allDecorators, a.Over S

namespace Declaration

variable {d : Declaration}

theorem over_of_names (htypes : ∀ name ∈ d.typeNames, name ∈ S)
    (hpaths : ∀ path ∈ d.argumentPaths, path ∈ S) : d.Over S := by
  have hall := List.forall_mem_append.1 (typesNames_over.1 htypes)
  refine ⟨hall.1, fun a ha => ⟨fun type ht => ?_, fun value hv path hp => hpaths path ?_⟩⟩
  · exact hall.2 type (List.mem_flatMap.2 ⟨a, ha, ht⟩)
  · exact Expr.mem_listPaths.2 ⟨value, List.mem_flatMap.2 ⟨a, ha, hv⟩, hp⟩

namespace Over

theorem typeParameters (h : d.Over S) : ∀ p ∈ d.typeParameters, ∀ type ∈ p.types, type.Over S :=
  TypeExpr.Nodewise.typeParameters h.types

theorem heritage (h : d.Over S) {parent : TypeExpr} (hp : parent ∈ d.heritage) : parent.Over S :=
  TypeExpr.Nodewise.heritage h.types hp

theorem method {c : ClassDecl} (h : (ofClass c).Over S) {m : MethodDecl}
    (hm : .method m ∈ c.members) : m.Over S where
  types type ht := h.types type (List.mem_append_right _ (List.mem_flatMap.2 ⟨_, hm, ht⟩))
  decorators d hd := h.decorators d (List.mem_append_right _ (List.mem_flatMap.2 ⟨_, hm, hd⟩))

end Over

end Declaration

/-! ## Resolution -/

variable {r : Resolver}

/-- The types over some names. -/
def Region.over (r : Resolver) (S : Set String) : Region r := ⟨(·.Over S)⟩

/-- The declarations that are found under some names mention no others. -/
def Resolver.ClosedOver (r : Resolver) (S : Set String) : Prop :=
  ∀ name ∈ S, ∀ located, r.index.find name = [located] → located.declaration.Over S

theorem Resolver.ClosedOver.structuralParent? (hr : r.ClosedOver S) {parent : TypeExpr}
    {other : Located} {arguments : List TypeExpr} (hparent : parent.Over S)
    (h : r.structuralParent? parent = some (other, arguments)) :
    other.declaration.Over S ∧ ∀ type ∈ arguments, type.Over S := by
  obtain ⟨⟨name, hname, hfind⟩, harguments⟩ :=
    TypeExpr.nodewise_over.structuralParent? hparent h
  exact ⟨hr name hname other hfind, harguments⟩

theorem Region.over_hasParts (hr : r.ClosedOver S) : (Region.over r S).HasParts :=
  TypeExpr.nodewise_over.hasParts fun name hname located hfind =>
    (hr name hname located hfind).types

/-! ## Decorators -/

/-- A path that is read as a type is the name of a reference. -/
private theorem Expr.over_asType? {value : Expr} {type : TypeExpr} (h : value.asType? = some type)
    (hpaths : ∀ path ∈ value.paths, path ∈ S) : type.Over S := by
  -- Along the expression: names of basic types, a path, or an array of one item.
  fun_induction Expr.asType? value generalizing type with
  | case1 | case2 | case3 =>
    obtain rfl := Option.some.inj h
    exact TypeExpr.over_keyword _
  | case4 name =>
    obtain rfl := Option.some.inj h
    exact TypeExpr.over_reference.2 ⟨hpaths name (by simp [Expr.paths]), fun _ ht => nomatch ht⟩
  | case5 item ih =>
    obtain ⟨element, helement, rfl⟩ := Option.map_eq_some_iff.1 h
    refine TypeExpr.over_array.2 (ih helement fun path hp => hpaths path ?_)
    simpa [Expr.paths, Expr.listPaths] using hp
  | case6 => exact nomatch h

/-- The argument mentions only some names. -/
def Argument.Over (S : Set String) : Argument → Prop
  | .expr value => ∀ path ∈ value.paths, path ∈ S
  | .exprs values => ∀ value ∈ values, ∀ path ∈ value.paths, path ∈ S
  | .type value => value.Over S
  | .types values => ∀ value ∈ values, value.Over S

namespace Rule

variable {rule : Rule} {d : Decorator} {argument : Argument}

/-- `Rule.select?` gives an argument of the decorator. -/
private theorem over_select? (hd : d.Over S) (h : rule.select? d = some argument) :
    argument.Over S := by
  unfold Rule.select? at h
  split at h
  · obtain ⟨value, hvalue, rfl⟩ := Option.map_eq_some_iff.1 h
    exact hd.arguments value (List.mem_of_getElem? hvalue)
  · obtain ⟨values, hvalues, rfl⟩ := Option.map_eq_some_iff.1 h
    rw [nonEmpty?_eq_some hvalues]
    exact hd.arguments
  · obtain ⟨value, hvalue, rfl⟩ := Option.map_eq_some_iff.1 h
    exact hd.typeArguments value (List.mem_of_getElem? hvalue)
  · obtain ⟨values, hvalues, rfl⟩ := Option.map_eq_some_iff.1 h
    rw [nonEmpty?_eq_some hvalues]
    exact hd.typeArguments

/-- A field of an argument mentions no other names than the argument. -/
private theorem over_read? (hd : d.Over S) (h : rule.read? d = some argument) :
    argument.Over S := by
  unfold Rule.read? at h
  split at h
  · next entries _ hselect =>
    have hobject : Argument.Over S (.expr (.object entries)) := over_select? hd hselect
    obtain ⟨value, hvalue, rfl⟩ := Option.map_eq_some_iff.1 h
    intro path hpath
    exact hobject path (Expr.mem_entryPaths.2 ⟨_, mem_of_lookupEntry hvalue, hpath⟩)
  · exact over_select? hd h

end Rule

/-- A type that a decorator gives mentions only names of the decorator. -/
theorem RoleMatch.over_typeOf? {m : RoleMatch} {d : Decorator} {detail : Detail} {type : TypeExpr}
    (hd : d.Over S) (h : m.typeOf? d detail = some type) : type.Over S := by
  unfold RoleMatch.typeOf? at h
  cases hvalue : m.value? d detail with
  | none =>
    rw [hvalue] at h
    exact nomatch h
  | some argument =>
    have hover : argument.Over S := Rule.over_read? hd hvalue
    rw [hvalue] at h
    -- A type is taken as it is, an expression is read as one; of several the first counts.
    cases argument with
    | type value => exact Option.some.inj h ▸ hover
    | types values => exact hover type (List.mem_of_mem_head? h)
    | expr value => exact Expr.over_asType? h hover
    | exprs values =>
      obtain ⟨value, hhead, htype⟩ := Option.bind_eq_some_iff.1 h
      exact Expr.over_asType? htype (hover value (List.mem_of_mem_head? hhead))

end Endpoints
