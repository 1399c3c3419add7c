import Endpoints.Proofs.Confine

/-!
# The types that are resolved on the way

A type that is resolved on the way is put together from type expressions of the program: references
to type parameters are replaced, and all else stays as it is written. What can be said of a type
node by node therefore passes from the program to all types that are resolved.
-/

namespace Endpoints

/-! ## Types in declarations -/

/-- The types that are written in a type parameter. -/
def TypeParameter.types (p : TypeParameter) : List TypeExpr :=
  p.constraint.toList ++ p.default.toList

/-- The types that are written in a member of an object type. -/
def TypeMember.types : TypeMember → List TypeExpr
  | .property _ type _ _ _ => type.toList
  | .method _ => []
  | .index _ keyType valueType => [keyType, valueType]

def MethodDecl.types (m : MethodDecl) : List TypeExpr :=
  m.typeParameters.flatMap (·.types) ++ m.parameters.flatMap (·.type.toList) ++ m.returnType.toList

def ClassMember.types : ClassMember → List TypeExpr
  | property p => p.type.toList
  | method m => m.types
  | constructor parameters => parameters.flatMap (·.type.toList)
  | index signature => [signature.keyType, signature.valueType]

/-- The types that are written in a declaration, outside its decorators. The body of an interface
counts as an object type. -/
def Declaration.types : Declaration → List TypeExpr
  | ofClass d =>
    d.typeParameters.flatMap (·.types) ++ d.superclass.toList ++ d.interfaces ++
      d.members.flatMap (·.types)
  | ofInterface d => d.typeParameters.flatMap (·.types) ++ d.parents ++ [.object d.members]
  | ofAlias d => d.typeParameters.flatMap (·.types) ++ [d.type]
  | ofEnum _ => []

/-- The type of a property of a class is written in the member that gives it. -/
private theorem ClassMember.mem_types {found : ClassMember} {member : Member} {type : TypeExpr}
    (h : member ∈ found.properties) (htype : member.type = some type) : type ∈ found.types := by
  cases found with
  | property p =>
    rw [ClassMember.properties] at h
    split at h
    · obtain rfl := List.mem_singleton.1 h
      exact Option.mem_toList.2 htype
    · exact nomatch h
  | constructor parameters =>
    -- A public parameter declares a property of its own type.
    obtain ⟨p, hp, hmember⟩ := List.mem_filterMap.1 h
    unfold ClassMember.ofParameter? at hmember
    split at hmember
    · obtain rfl := Option.some.inj hmember
      exact List.mem_flatMap.2 ⟨p, hp, Option.mem_toList.2 htype⟩
    · exact nomatch hmember
  | method m | index signature => exact nomatch h

namespace TypeMember

private theorem mem_types_of_member? {found : TypeMember} {member : Member} {type : TypeExpr}
    (h : found.member? = some member) (htype : member.type = some type) : type ∈ found.types := by
  unfold member? at h
  split at h
  · obtain rfl := Option.some.inj h
    exact Option.mem_toList.2 htype
  · exact nomatch h

private theorem mem_types_of_indexSignature? {found : TypeMember} {index : IndexSignature}
    (h : found.indexSignature? = some index) : index.valueType ∈ found.types := by
  unfold indexSignature? at h
  split at h
  · obtain rfl := Option.some.inj h
    simp [types]
  · cases h

end TypeMember

/-! ## Properties of nodes -/

/-- `P` says of a type that the names of all its references satisfy `N` and that the numbers of
members of all its intersections satisfy `M`. -/
structure TypeExpr.Nodewise (N : String → Prop) (M : Nat → Prop) (P : TypeExpr → Prop) : Prop where
  keyword : ∀ word, P (.keyword word)
  reference : ∀ {name arguments},
    P (.reference name arguments) ↔ N name ∧ ∀ type ∈ arguments, P type
  array : ∀ {element}, P (.array element) ↔ P element
  tuple : ∀ {elements}, P (.tuple elements) ↔ ∀ type ∈ elements, P type
  union : ∀ {members}, P (.union members) ↔ ∀ type ∈ members, P type
  intersection : ∀ {members},
    P (.intersection members) ↔ M members.length ∧ ∀ type ∈ members, P type
  object : ∀ {members}, P (.object members) ↔ ∀ member ∈ members, ∀ type ∈ member.types, P type

/-- What the parameters of the scope stand for satisfies `P`. -/
def Scope.Each (P : TypeExpr → Prop) (scope : Scope) : Prop :=
  ∀ name type, scope.get? name = some type → P type

section

variable {N : String → Prop} {M : Nat → Prop} {P : TypeExpr → Prop} {scope : Scope}

private theorem length_substituteList (scope : Scope) (types : List TypeExpr) :
    (substituteList scope types).length = types.length := by
  induction types with
  | nil => rfl
  | cons type types ih => simp [substituteList, ih]

mutual

/-- A substitution has only nodes like those of the type and its scope. -/
theorem TypeExpr.Nodewise.substitute (hP : Nodewise N M P) (hscope : scope.Each P) {type : TypeExpr}
    (h : P type) : P (type.substitute scope) := by
  match type with
  -- A parameter of the scope is replaced, and with it the whole node.
  | .reference name [] =>
    simp only [TypeExpr.substitute]
    cases hbound : scope.get? name with
    | none => exact h
    | some bound => exact hscope name bound hbound
  | .reference name (first :: rest) =>
    obtain ⟨hname, harguments⟩ := hP.reference.1 h
    exact hP.reference.2 ⟨hname, hP.substituteList hscope harguments⟩
  | .array element => exact hP.array.2 (hP.substitute hscope (hP.array.1 h))
  | .tuple elements => exact hP.tuple.2 (hP.substituteList hscope (hP.tuple.1 h))
  | .union members => exact hP.union.2 (hP.substituteList hscope (hP.union.1 h))
  | .intersection members =>
    obtain ⟨hlength, hmembers⟩ := hP.intersection.1 h
    refine hP.intersection.2 ⟨?_, hP.substituteList hscope hmembers⟩
    rwa [length_substituteList]
  | .object members => exact hP.object.2 (hP.substituteMembers hscope (hP.object.1 h))
  | .keyword _ | .literal _ | .unsupported _ => exact h

/-- `Nodewise.substitute` for several types. -/
private theorem TypeExpr.Nodewise.substituteList (hP : Nodewise N M P) (hscope : scope.Each P)
    {types : List TypeExpr} (h : ∀ type ∈ types, P type) :
    ∀ type ∈ Endpoints.substituteList scope types, P type := by
  match types with
  | [] => exact h
  | first :: rest =>
    rw [Endpoints.substituteList, List.forall_mem_cons]
    rw [List.forall_mem_cons] at h
    exact ⟨hP.substitute hscope h.1, hP.substituteList hscope h.2⟩

/-- `Nodewise.substitute` for a member of an object type. -/
private theorem TypeExpr.Nodewise.substituteMember (hP : Nodewise N M P) (hscope : scope.Each P)
    {member : TypeMember} (h : ∀ type ∈ member.types, P type) :
    ∀ type ∈ (member.substitute scope).types, P type := by
  match member with
  | .property name none optional readonly doc => exact h
  | .property name (some type) optional readonly doc =>
    exact List.forall_mem_singleton.2 (hP.substitute hscope (List.forall_mem_singleton.1 h))
  | .method name => exact h
  | .index keyName keyType valueType =>
    obtain ⟨hkey, hvalue⟩ := List.forall_mem_cons.1 h
    exact List.forall_mem_cons.2 ⟨hP.substitute hscope hkey,
      List.forall_mem_singleton.2 (hP.substitute hscope (List.forall_mem_singleton.1 hvalue))⟩

/-- `Nodewise.substitute` for the members of an object type. -/
private theorem TypeExpr.Nodewise.substituteMembers (hP : Nodewise N M P) (hscope : scope.Each P)
    {members : List TypeMember} (h : ∀ member ∈ members, ∀ type ∈ member.types, P type) :
    ∀ member ∈ Endpoints.substituteMembers scope members, ∀ type ∈ member.types, P type := by
  match members with
  | [] => exact h
  | first :: rest =>
    rw [Endpoints.substituteMembers, List.forall_mem_cons]
    rw [List.forall_mem_cons] at h
    exact ⟨hP.substituteMember hscope h.1, hP.substituteMembers hscope h.2⟩

end

/-! ## Scopes -/

theorem Scope.each_empty : Scope.Each P .empty := fun _ _ h => nomatch h

theorem Scope.Each.insert (hscope : scope.Each P) (name : String) {type : TypeExpr}
    (htype : P type) : Scope.Each P (scope.insert name type) := by
  intro other found hfound
  rw [Dict.get?_insert] at hfound
  split at hfound
  · exact Option.some.inj hfound ▸ htype
  · exact hscope other found hfound

namespace TypeExpr.Nodewise

variable (hP : Nodewise N M P)
include hP

variable {parameters : List TypeParameter}

/-- `Scope.extend` puts in arguments, and defaults for those that are missing. -/
private theorem scope_extend (hscope : scope.Each P) {arguments : List TypeExpr}
    (hparameters : ∀ p ∈ parameters, ∀ type ∈ p.types, P type)
    (harguments : ∀ type ∈ arguments, P type) :
    (Scope.extend scope parameters arguments).Each P := by
  induction parameters generalizing scope arguments with
  | nil => exact hscope
  | cons p parameters ih =>
    obtain ⟨hp, hrest⟩ := List.forall_mem_cons.1 hparameters
    cases arguments with
    | nil =>
      refine ih (hscope.insert p.name ?_) hrest harguments
      -- A default is written in the declaration and substituted in the scope so far.
      unfold Scope.defaultOf
      cases hdefault : p.default with
      | none => exact hP.keyword _
      | some type =>
        have htype : type ∈ p.types := by simp [TypeParameter.types, hdefault]
        exact hP.substitute hscope (hp type htype)
    | cons argument arguments =>
      obtain ⟨hargument, harguments⟩ := List.forall_mem_cons.1 harguments
      exact ih (hscope.insert p.name hargument) hrest harguments

theorem scope_bind {arguments : List TypeExpr}
    (hparameters : ∀ p ∈ parameters, ∀ type ∈ p.types, P type)
    (harguments : ∀ type ∈ arguments, P type) : (Scope.bind parameters arguments).Each P :=
  hP.scope_extend Scope.each_empty hparameters harguments

theorem scope_ofConstraints (h : ∀ p ∈ parameters, ∀ type ∈ p.types, P type) :
    (Scope.ofConstraints parameters).Each P := by
  refine List.foldlRecOn _ _ Scope.each_empty fun scope hscope entry hentry => ?_
  obtain ⟨p, hp, rfl⟩ := List.mem_map.1 hentry
  refine hscope.insert p.name ?_
  cases hconstraint : p.constraint with
  | none => exact hP.keyword _
  | some type => exact h p hp type (by simp [TypeParameter.types, hconstraint])

/-! ## Declarations -/

private theorem member? {members : List TypeMember} (h : P (.object members)) {member : Member}
    {type : TypeExpr} (hm : member ∈ members.filterMap (·.member?))
    (htype : member.type = some type) : P type := by
  obtain ⟨found, hfound, hmember⟩ := List.mem_filterMap.1 hm
  exact hP.object.1 h found hfound type (TypeMember.mem_types_of_member? hmember htype)

private theorem indexSignature? {members : List TypeMember} (h : P (.object members))
    {index : IndexSignature} (hi : index ∈ members.filterMap (·.indexSignature?)) :
    P index.valueType := by
  obtain ⟨found, hfound, hindex⟩ := List.mem_filterMap.1 hi
  exact hP.object.1 h found hfound _ (TypeMember.mem_types_of_indexSignature? hindex)

private theorem aliasMembers {a : AliasDecl} (h : P a.type) :
    P (.object (Declaration.aliasMembers a)) := by
  unfold Declaration.aliasMembers
  split
  · next members heq => exact heq ▸ h
  · exact hP.object.2 fun member hm => nomatch hm

variable {d : Declaration} (hd : ∀ type ∈ d.types, P type)
include hd

omit hP in
/-- The types in the type parameters are written in the declaration. -/
theorem typeParameters : ∀ p ∈ d.typeParameters, ∀ type ∈ p.types, P type := by
  intro p hp type ht
  have hmem : type ∈ d.typeParameters.flatMap (·.types) := List.mem_flatMap.2 ⟨p, hp, ht⟩
  refine hd type ?_
  cases d with
  | ofClass c =>
    exact List.mem_append_left _ (List.mem_append_left _ (List.mem_append_left _ hmem))
  | ofInterface c => exact List.mem_append_left _ (List.mem_append_left _ hmem)
  | ofAlias c => exact List.mem_append_left _ hmem
  | ofEnum c => exact nomatch hp

omit hP in
/-- The parents are written in the declaration. -/
theorem heritage {parent : TypeExpr} (hp : parent ∈ d.heritage) : P parent := by
  refine hd parent ?_
  cases d with
  | ofClass c =>
    simp only [Declaration.heritage, Declaration.types, List.mem_append] at hp ⊢
    tauto
  | ofInterface c => exact List.mem_append_left _ (List.mem_append_right _ hp)
  | ofAlias c | ofEnum c => exact absurd hp List.not_mem_nil

/-- The types of the members are written in the declaration. -/
private theorem member {member : Member} {type : TypeExpr} (hm : member ∈ d.members)
    (htype : member.type = some type) : P type := by
  cases d with
  | ofClass c =>
    obtain ⟨found, hfound, hmember⟩ := List.mem_flatMap.1 hm
    exact hd type (List.mem_append_right _
      (List.mem_flatMap.2 ⟨found, hfound, ClassMember.mem_types hmember htype⟩))
  | ofInterface c =>
    exact hP.member? (hd _ (List.mem_append_right _ (List.mem_singleton_self _))) hm htype
  | ofAlias c =>
    have htarget := hd c.type (List.mem_append_right _ (List.mem_singleton_self _))
    exact hP.member? (hP.aliasMembers htarget) hm htype
  | ofEnum c => exact nomatch hm

/-- The types behind the index signatures are written in the declaration. -/
private theorem index {index : IndexSignature} (hi : index ∈ d.indexSignatures) :
    P index.valueType := by
  cases d with
  | ofClass c =>
    -- In a class the signature is a member among others.
    obtain ⟨found, hfound, hindex⟩ := List.mem_filterMap.1 hi
    refine hd _ (List.mem_append_right _ (List.mem_flatMap.2 ⟨found, hfound, ?_⟩))
    cases found with
    | index signature =>
      obtain rfl : signature = index := Option.some.inj hindex
      simp [ClassMember.types]
    | property p | method m | constructor parameters => exact nomatch hindex
  | ofInterface c =>
    exact hP.indexSignature? (hd _ (List.mem_append_right _ (List.mem_singleton_self _))) hi
  | ofAlias c =>
    -- The signature of an alias is one of its target.
    have htarget := hd c.type (List.mem_append_right _ (List.mem_singleton_self _))
    exact hP.indexSignature? (hP.aliasMembers htarget) hi
  | ofEnum c => exact nomatch hi

end TypeExpr.Nodewise

/-! ## Resolution -/

namespace TypeExpr.Nodewise

variable (hP : Nodewise N M P) {r : Resolver}
include hP

/-- Pieces of a type are made from its nodes. -/
private theorem piece {type part : TypeExpr} (h : r.Piece type part) (htype : P type) : P part := by
  cases h with
  | array => exact hP.array.1 htype
  | tuple hmem => exact hP.tuple.1 htype part hmem
  | union hmem => exact hP.union.1 htype part hmem
  | intersection hmem => exact (hP.intersection.1 htype).2 part hmem
  | member hmem _ hsome => exact hP.substitute Scope.each_empty (hP.member? htype hmem hsome)
  | index hmem => exact hP.substitute Scope.each_empty (hP.indexSignature? htype hmem)
  | argument _ _ _ hmem => exact (hP.reference.1 htype).2 part hmem

/-- The parent of a declaration, and the types that its parameters stand for. -/
theorem structuralParent? {parent : TypeExpr} {other : Located} {arguments : List TypeExpr}
    (hparent : P parent) (h : r.structuralParent? parent = some (other, arguments)) :
    (∃ name, N name ∧ r.index.find name = [other]) ∧ ∀ type ∈ arguments, P type := by
  unfold Resolver.structuralParent? at h
  -- Only a reference to exactly one declaration has a structural parent.
  split at h
  · next name _ =>
    obtain ⟨hname, harguments⟩ := hP.reference.1 hparent
    split at h
    · next located hfind =>
      split at h
      · obtain ⟨rfl, rfl⟩ := Prod.mk.inj (Option.some.inj h)
        exact ⟨⟨name, hname, hfind⟩, harguments⟩
      · exact nomatch h
    · exact nomatch h
  · exact nomatch h

variable (hr : ∀ name, N name → ∀ located, r.index.find name = [located] →
  ∀ type ∈ located.declaration.types, P type)
include hr

/-- What a chain of declarations needs is made from what they write. -/
private theorem needs {links : Nat} {d : Located} {scope : Scope} {part : TypeExpr}
    (h : r.Needs links d scope part) (hd : ∀ type ∈ d.declaration.types, P type)
    (hscope : scope.Each P) : P part := by
  induction h with
  | target ha =>
    rw [ha] at hd
    exact hP.substitute hscope (hd _ (List.mem_append_right _ (List.mem_singleton_self _)))
  | member hm _ htype => exact hP.substitute hscope (hP.member hd hm htype)
  | index hi => exact hP.substitute hscope (hP.index hd hi)
  | parent hp _ => exact hP.substitute hscope (heritage hd hp)
  -- The parent is found under a name for which `N` holds, so `P` holds of what its declaration
  -- writes.
  | inherited hp hother _ ih =>
    have hparent := hP.substitute hscope (heritage hd hp)
    obtain ⟨⟨name, hname, hfind⟩, harguments⟩ := hP.structuralParent? hparent hother
    have hother := hr name hname _ hfind
    exact ih hother (hP.scope_bind (typeParameters hother) harguments)

theorem hasParts : Region.HasParts (r := r) ⟨P⟩ := by
  intro type part htype hpart
  cases hpart with
  | piece h => exact hP.piece h htype
  | declared hfind h =>
    obtain ⟨hname, harguments⟩ := hP.reference.1 htype
    have hd := hr _ hname _ hfind
    exact hP.needs hr h hd (hP.scope_bind (typeParameters hd) harguments)

end TypeExpr.Nodewise

end

end Endpoints
