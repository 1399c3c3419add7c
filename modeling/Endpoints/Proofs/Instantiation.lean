import Endpoints.Proofs.Handle
import Endpoints.Proofs.Session
import Endpoints.Resolution.Resolver
import Mathlib.Data.List.Nodup
import Mathlib.Data.List.Perm.Subperm
import Mathlib.Logic.Relation

/-!
# Instantiations and what they need

A named type is a declaration together with what its type parameters stand for: an
`Instantiation`. Its name, its location and the sort of its handle are determined by that, and
`Resolver.construct` gives its entry of the table. The relations here say which type expressions
are resolved on the way:

* `Resolver.Piece type part`: `part` stands inside `type` and is resolved with it
* `Resolver.Requires i part`: `part` is resolved in order to construct `i`
* `Resolver.Part type part`: one or the other, through the declaration that `type` names
* `Resolver.Reaches types part`: finitely many such steps lead from one of `types` to `part`

`declared_eq` puts the use of a declaration into one form: an enum is finished at once, an alias of
a union of literals is replaced by it, and all else goes through `useName`.
-/

namespace Endpoints

/-- The sort of reference that leads to a declaration. -/
def Declaration.referent : Declaration → Referent
  | .ofClass _ | .ofInterface _ => .object
  | .ofAlias _ => .typeAlias
  | .ofEnum _ => .enum

/-- A declaration and what its type parameters stand for. -/
structure Instantiation where
  declaration : Located
  scope : Scope

namespace Instantiation

/-- A declaration used with type arguments. -/
def of (d : Located) (arguments : List TypeExpr) : Instantiation :=
  ⟨d, Scope.bind d.declaration.typeParameters arguments⟩

def name (i : Instantiation) : String := Resolver.referenceName i.declaration i.scope

/-- File and line of the declaration. -/
def location (i : Instantiation) : String := i.declaration.location

/-- The sort of its handle. -/
def referent (i : Instantiation) : Referent := i.declaration.declaration.referent

/-- The handle by which it is referred to. -/
def handle (i : Instantiation) : Handle := ⟨i.referent, i.name⟩

/-- Whether it is replaced by what it stands for: an alias of a union of literals has no name. -/
def isInlined (i : Instantiation) : Bool :=
  match i.declaration.declaration with
  | .ofAlias d => (d.type.substitute i.scope).isLiteralUnion
  | _ => false

/-- The reference type is one that the instantiation may have as its entry, and `P` holds of what
it is made of. -/
structure EntryOf (i : Instantiation) (P : Schema → Prop) (type : ReferenceType) : Prop where
  name : type.name = i.name
  referent : type.shape.referent = i.referent
  each : type.Each P

/-- The reference type is one that the instantiation may have as its entry. -/
abbrev IsEntry (i : Instantiation) (A : Set Handle) (type : ReferenceType) : Prop :=
  i.EntryOf (Schema.Within A) type

theorem IsEntry.within {i : Instantiation} {A : Set Handle} {type : ReferenceType}
    (h : i.IsEntry A type) : type.Within A :=
  ReferenceType.within_iff_each.2 h.each

end Instantiation

namespace Resolver

variable (r : Resolver) {m : Type → Type} [Monad m] [MonadExceptOf Error m] [MonadSession m]

/-- The entry of an instantiation. -/
def construct (parts : Parts m) (i : Instantiation) : m ReferenceType :=
  match i.declaration.declaration with
  | .ofEnum d => return enumEntry d i.name
  | .ofAlias d => do
    return aliasEntry d i.name (← parts (d.type.substitute i.scope) (Hints.ofDoc d.doc))
  | .ofClass _ | .ofInterface _ => do
    return r.objectEntry i.declaration.declaration i.name
      (← r.structuralShape parts r.index.maxChain [] i.declaration i.scope)

theorem referent_of_enum {i : Instantiation} {d : EnumDecl}
    (h : i.declaration.declaration = .ofEnum d) : i.referent = .enum := by
  simp [Instantiation.referent, h, Declaration.referent]

theorem exists_enum_of_referent {i : Instantiation} (h : i.referent = .enum) :
    ∃ d, i.declaration.declaration = .ofEnum d := by
  unfold Instantiation.referent at h
  cases hd : i.declaration.declaration with
  | ofEnum d => exact ⟨d, rfl⟩
  | ofAlias d | ofClass d | ofInterface d => simp [hd, Declaration.referent] at h

theorem qualifiedName_of_enum {i : Instantiation} {d : EnumDecl}
    (h : i.declaration.declaration = .ofEnum d) : i.declaration.qualifiedName = i.name := by
  simp [Instantiation.name, referenceName, h, Declaration.typeParameters]

theorem run_enumReference_iff {i : Instantiation} {d : EnumDecl}
    (h : i.declaration.declaration = .ofEnum d) {s t : Session} {o : Except Error Schema} :
    (enumReference i.declaration d : Resolve Schema).run s = (o, t) ↔
      EnumOutcome i.name i.location d s o t := by
  rw [enumOutcome_iff, qualifiedName_of_enum h]
  rfl

/-- The use of a declaration. -/
theorem declared_eq (parts : Parts m) (located : Located) (arguments : List TypeExpr) :
    r.declared parts located arguments =
      let i := Instantiation.of located arguments
      match located.declaration with
      | .ofEnum d => enumReference located d
      | .ofAlias d =>
        if i.isInlined then parts (d.type.substitute i.scope) (Hints.ofDoc d.doc)
        else useName i.name i.location i.referent (r.construct parts i)
      | .ofClass _ | .ofInterface _ =>
        useName i.name i.location i.referent (r.construct parts i) := by
  unfold declared
  cases hd : located.declaration with
  | ofEnum d => rfl
  -- Only an alias may be inlined, so only here the two sides branch alike.
  | ofAlias d =>
    simp only [aliasReference, Instantiation.isInlined, Instantiation.of, hd,
      Declaration.typeParameters, Instantiation.name, Instantiation.location,
      Instantiation.referent, Declaration.referent, construct]
  | ofClass d =>
    simp only [objectReference, Instantiation.of, hd, Instantiation.name, Instantiation.location,
      Instantiation.referent, Declaration.referent, construct]
  | ofInterface d =>
    simp only [objectReference, Instantiation.of, hd, Instantiation.name, Instantiation.location,
      Instantiation.referent, Declaration.referent, construct]

/-! ## What is resolved on the way -/

/-- The library types whose arguments are not looked at. -/
def opaqueNames : List String :=
  ["Buffer", "ArrayBuffer", "Uint8Array", "Readable", "ReadableStream", "Blob"]

/-- The declaration with members that a parent names, and its type arguments. The shape of any other
parent is that of its schema. -/
def structuralParent? (parent : TypeExpr) : Option (Located × List TypeExpr) :=
  match parent with
  | .reference name arguments =>
    match r.index.find name with
    | [located] => if located.declaration.isStructural then some (located, arguments) else none
    | _ => none
  | _ => none

/-- A member of an enum is a type of one value. -/
theorem enumMember?_eq {r : Resolver} {name : String} {schema : Schema}
    (h : r.enumMember? name = some schema) : ∃ value, schema = .enum [value] := by
  unfold enumMember? at h
  simp only [bind, Option.bind] at h
  split at h
  · exact nomatch h
  · dsimp only at h
    -- Name and member are found, and the name belongs to one enum only.
    split at h
    · split at h
      · obtain ⟨_, _, rfl⟩ := Option.map_eq_some_iff.1 h
        exact ⟨_, rfl⟩
      · exact nomatch h
    · exact nomatch h

/-- The types that are resolved as pieces of a type. -/
inductive Piece : TypeExpr → TypeExpr → Prop
  | array {element : TypeExpr} : Piece (.array element) element
  | tuple {elements : List TypeExpr} {part : TypeExpr} : part ∈ elements →
      Piece (.tuple elements) part
  | union {members : List TypeExpr} {part : TypeExpr} : part ∈ members → Piece (.union members) part
  | intersection {members : List TypeExpr} {part : TypeExpr} : part ∈ members →
      Piece (.intersection members) part
  | member {members : List TypeMember} {member : Member} {type : TypeExpr} :
      member ∈ members.filterMap (·.member?) → DocComment.anyTag member.doc "ignore" = false →
      member.type = some type → Piece (.object members) (type.substitute .empty)
  | index {members : List TypeMember} {index : IndexSignature} :
      index ∈ members.filterMap (·.indexSignature?) →
      Piece (.object members) (index.valueType.substitute .empty)
  | argument {name : String} {arguments : List TypeExpr} {part : TypeExpr} :
      r.index.find name = [] → r.enumMember? name = none → name ∉ opaqueNames →
      part ∈ arguments → Piece (.reference name arguments) part

/-- The types that are resolved in order to construct a declaration in a scope. They may stand in a
chain of at most `links` declarations, each of which inherits from the next. -/
inductive Needs : (links : Nat) → Located → Scope → TypeExpr → Prop
  | target {links : Nat} {located : Located} {scope : Scope} {d : AliasDecl} :
      located.declaration = .ofAlias d →
      Needs (links + 1) located scope (d.type.substitute scope)
  | member {links : Nat} {located : Located} {scope : Scope} {member : Member} {type : TypeExpr} :
      member ∈ located.declaration.members → DocComment.anyTag member.doc "ignore" = false →
      member.type = some type → Needs (links + 1) located scope (type.substitute scope)
  | index {links : Nat} {located : Located} {scope : Scope} {index : IndexSignature} :
      index ∈ located.declaration.indexSignatures →
      Needs (links + 1) located scope (index.valueType.substitute scope)
  | parent {links : Nat} {located : Located} {scope : Scope} {parent : TypeExpr} :
      parent ∈ located.declaration.heritage →
      r.structuralParent? (parent.substitute scope) = none →
      Needs (links + 1) located scope (parent.substitute scope)
  | inherited {links : Nat} {located other : Located} {scope : Scope} {parent part : TypeExpr}
      {arguments : List TypeExpr} :
      parent ∈ located.declaration.heritage →
      r.structuralParent? (parent.substitute scope) = some (other, arguments) →
      Needs links other (Scope.bind other.declaration.typeParameters arguments) part →
      Needs (links + 1) located scope part

/-- The types that are resolved in order to construct an instantiation. -/
def Requires (i : Instantiation) (part : TypeExpr) : Prop :=
  r.Needs r.index.maxChain i.declaration i.scope part

/-- The types that are resolved in order to resolve a type. -/
inductive Part : TypeExpr → TypeExpr → Prop
  | piece {type part : TypeExpr} : r.Piece type part → Part type part
  | declared {name : String} {arguments : List TypeExpr} {located : Located} {part : TypeExpr} :
      r.index.find name = [located] →
      r.Requires (.of located arguments) part → Part (.reference name arguments) part

/-- The types that are resolved in order to resolve some types. -/
def Reaches (types : List TypeExpr) (part : TypeExpr) : Prop :=
  ∃ type ∈ types, Relation.ReflTransGen r.Part type part

/-- The type names the instantiation. -/
def Names (type : TypeExpr) (i : Instantiation) : Prop :=
  ∃ name arguments located, type = .reference name arguments ∧ r.index.find name = [located] ∧
    i = .of located arguments ∧ i.isInlined = false

/-- The instantiations that are used in order to resolve some types. -/
def Uses (types : List TypeExpr) (i : Instantiation) : Prop :=
  ∃ type, r.Reaches types type ∧ r.Names type i

variable {r}

theorem Reaches.of_mem {types : List TypeExpr} {type : TypeExpr} (h : type ∈ types) :
    r.Reaches types type :=
  ⟨type, h, .refl⟩

theorem Reaches.part {types : List TypeExpr} {type part : TypeExpr} (h : r.Reaches types type)
    (hp : r.Part type part) : r.Reaches types part := by
  obtain ⟨root, hroot, hpath⟩ := h
  exact ⟨root, hroot, hpath.tail hp⟩

theorem mem_of_find {index : Index} {name : String} {located : Located}
    (h : index.find name = [located]) : located ∈ index.declarations := by
  have hmem : located ∈ index.find name := h ▸ List.mem_cons_self
  obtain ⟨_, _, hposition⟩ := List.mem_filterMap.1 hmem
  exact List.mem_of_getElem? hposition

/-- The declaration of a parent is one of the program. -/
theorem mem_of_structuralParent? {parent : TypeExpr} {other : Located} {arguments : List TypeExpr}
    (h : r.structuralParent? parent = some (other, arguments)) :
    other ∈ r.index.declarations := by
  unfold structuralParent? at h
  split at h
  · split at h
    · next located hfind =>
      split at h
      · obtain ⟨rfl, rfl⟩ := Prod.mk.inj (Option.some.inj h)
        exact mem_of_find hfind
      · exact nomatch h
    · exact nomatch h
  · exact nomatch h

end Resolver

/-! ## Regions -/

/-- A set of types, to which resolution can be confined. -/
structure Region (r : Resolver) where
  Contains : TypeExpr → Prop

namespace Region

variable {r : Resolver}

def all (r : Resolver) : Region r := ⟨fun _ => True⟩

/-- Some types and what is resolved for them. -/
def ofTypes (r : Resolver) (types : List TypeExpr) : Region r := ⟨r.Reaches types⟩

open Classical in
/-- Resolution that refuses all types outside the region. -/
noncomputable def resolveWithin (E : Region r) : (bound : Nat) → Parts Resolve
  | 0 => fun _ _ => .fail (.unsupportedType .unbounded)
  | bound + 1 => fun type hints =>
    if E.Contains type then r.step (E.resolveWithin bound) type hints
    else .fail (.unsupportedType (.type type.display))

theorem resolveWithin_of_contains (E : Region r) {bound : Nat} {type : TypeExpr} {hints : Hints}
    (h : E.Contains type) :
    E.resolveWithin (bound + 1) type hints = r.step (E.resolveWithin bound) type hints :=
  if_pos h

theorem resolveWithin_of_not_contains (E : Region r) {bound : Nat} {type : TypeExpr} {hints : Hints}
    (h : ¬ E.Contains type) :
    E.resolveWithin (bound + 1) type hints = .fail (.unsupportedType (.type type.display)) :=
  if_neg h

/-- Nothing is outside all types. -/
theorem all_resolveWithin (r : Resolver) (bound : Nat) :
    (all r).resolveWithin bound = r.resolveWithin bound := by
  induction bound with
  | zero => rfl
  | succ bound ih =>
    funext type hints
    rw [resolveWithin_of_contains _ trivial, ih]
    rfl

/-- The instantiations that types of the region name. -/
def Uses (E : Region r) (i : Instantiation) : Prop :=
  ∃ type, E.Contains type ∧ r.Names type i

theorem Uses.declared {E : Region r} {i : Instantiation} (h : E.Uses i) :
    i.declaration ∈ r.index.declarations := by
  obtain ⟨_, _, name, arguments, located, _, hfind, rfl, _⟩ := h
  exact Resolver.mem_of_find hfind

theorem uses_of_find {E : Region r} {name : String} {arguments : List TypeExpr} {located : Located}
    (h : E.Contains (.reference name arguments)) (hfind : r.index.find name = [located])
    (hi : (Instantiation.of located arguments).isInlined = false) :
    E.Uses (.of located arguments) :=
  ⟨_, h, name, arguments, located, rfl, hfind, rfl, hi⟩

end Region

/-- The instantiations that some type names. -/
abbrev Resolver.Known (r : Resolver) : Instantiation → Prop := (Region.all r).Uses

/-! ## Chains of inheritance -/

section Chain

variable {r : Resolver}

/-- A chain of inheritance that leaves room for `links` more declarations. -/
structure Chain (r : Resolver) (links : Nat) (chain : List String) : Prop where
  nodup : chain.Nodup
  known : ∀ name ∈ chain, ∃ d ∈ r.index.declarations, d.qualifiedName = name
  length : links + chain.length = r.index.maxChain

theorem Chain.nil (r : Resolver) : Chain r r.index.maxChain [] :=
  ⟨List.nodup_nil, by simp, rfl⟩

/-- A chain never gets as long as its bound: its names are names of different declarations. -/
theorem Chain.links_pos {links : Nat} {chain : List String} (h : Chain r links chain) :
    0 < links := by
  have hsubset : chain ⊆ r.index.declarations.map (·.qualifiedName) := by
    intro name hn
    obtain ⟨d, hd, hname⟩ := h.known name hn
    exact List.mem_map.2 ⟨d, hd, hname⟩
  -- Names without repetitions are at most as many as the declarations that they belong to.
  have hle := (List.subperm_of_subset h.nodup hsubset).length_le
  have hlength := h.length
  rw [List.length_map] at hle
  unfold Index.maxChain at hlength
  omega

/-- A chain goes on with a declaration that is not in it, which takes one of the links. -/
theorem Chain.append {links : Nat} {chain : List String} {d : Located}
    (h : Chain r (links + 1) chain) (hd : d ∈ r.index.declarations)
    (hnew : d.qualifiedName ∉ chain) : Chain r links (chain ++ [d.qualifiedName]) := by
  refine ⟨?_, fun name hn => ?_, ?_⟩
  -- No name occurs twice, since the new one is not in the chain.
  · rw [List.nodup_append]
    refine ⟨h.nodup, List.nodup_singleton _, fun a ha b hb => ?_⟩
    obtain rfl := List.mem_singleton.1 hb
    exact fun hab => hnew (hab ▸ ha)
  -- All names are those of declarations.
  · rcases List.mem_append.1 hn with hn | hn
    · exact h.known name hn
    · exact ⟨d, hd, (List.mem_singleton.1 hn).symm⟩
  · have hlength := h.length
    simp only [List.length_append, List.length_singleton]
    omega

end Chain

end Endpoints
