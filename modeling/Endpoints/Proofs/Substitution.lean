import Endpoints.Proofs.Field
import Endpoints.Syntax.Type.Scope

/-!
# Names under substitution

A substitution looks at references without type arguments, the plain names of a type. Each of them
is replaced by the type that it stands for, or stays. So the plain names of the result are known
from those of the type, one by one: what is put in place of a name is not looked at again.
-/

namespace Endpoints

open TypeExpr

mutual

/-- The names of the references without type arguments. -/
def TypeExpr.plainNames : TypeExpr → List String
  | .reference name arguments =>
    match arguments with
    | [] => [name]
    | first :: rest => first.plainNames ++ plainNamesOfList rest
  | .array element => element.plainNames
  | .tuple elements => plainNamesOfList elements
  | .union members => plainNamesOfList members
  | .intersection members => plainNamesOfList members
  | .object members => plainNamesOfMembers members
  | .keyword _ | .literal _ | .unsupported _ => []

def plainNamesOfList : List TypeExpr → List String
  | [] => []
  | type :: types => type.plainNames ++ plainNamesOfList types

def TypeMember.plainNames : TypeMember → List String
  | .property _ type _ _ _ => plainNames? type
  | .method _ => []
  | .index _ keyType valueType => keyType.plainNames ++ valueType.plainNames

def plainNames? : Option TypeExpr → List String
  | some type => type.plainNames
  | none => []

def plainNamesOfMembers : List TypeMember → List String
  | [] => []
  | member :: members => member.plainNames ++ plainNamesOfMembers members

end

/-- The plain names that come in place of a name. -/
def Scope.namesFor (scope : Scope) (name : String) : List String :=
  match scope.get? name with
  | some type => type.plainNames
  | none => [name]

mutual

/-- Each plain name is replaced by those of the type that it stands for. -/
theorem TypeExpr.plainNames_substitute (scope : Scope) (type : TypeExpr) :
    (type.substitute scope).plainNames = type.plainNames.flatMap scope.namesFor := by
  cases type with
  | reference name arguments =>
    -- Without type arguments the reference is a plain name; with them only the arguments count.
    cases arguments with
    | nil =>
      simp only [substitute, TypeExpr.plainNames, List.flatMap_singleton, Scope.namesFor]
      cases scope.get? name <;> simp [TypeExpr.plainNames]
    | cons first rest =>
      simp only [substitute, TypeExpr.plainNames, List.flatMap_append]
      rw [first.plainNames_substitute scope, plainNamesOfList_substitute scope rest]
  | array element => exact element.plainNames_substitute scope
  | tuple elements => exact plainNamesOfList_substitute scope elements
  | union members => exact plainNamesOfList_substitute scope members
  | intersection members => exact plainNamesOfList_substitute scope members
  | object members => exact plainNamesOfMembers_substitute scope members
  | keyword | literal | unsupported => rfl

/-- The same for several types. -/
private theorem plainNamesOfList_substitute (scope : Scope) (types : List TypeExpr) :
    plainNamesOfList (substituteList scope types) =
      (plainNamesOfList types).flatMap scope.namesFor := by
  cases types with
  | nil => rfl
  | cons type types =>
    simp only [substituteList, plainNamesOfList, List.flatMap_append]
    rw [type.plainNames_substitute scope, plainNamesOfList_substitute scope types]

/-- The same for a member. -/
theorem TypeMember.plainNames_substitute (scope : Scope) (member : TypeMember) :
    (member.substitute scope).plainNames = member.plainNames.flatMap scope.namesFor := by
  cases member with
  | property name type optional readonly doc =>
    cases type with
    | none => rfl
    | some type => exact type.plainNames_substitute scope
  | method name => rfl
  | index keyName keyType valueType =>
    simp only [TypeMember.substitute, TypeMember.plainNames, List.flatMap_append]
    rw [keyType.plainNames_substitute scope, valueType.plainNames_substitute scope]

/-- The same for several members. -/
private theorem plainNamesOfMembers_substitute (scope : Scope) (members : List TypeMember) :
    plainNamesOfMembers (substituteMembers scope members) =
      (plainNamesOfMembers members).flatMap scope.namesFor := by
  cases members with
  | nil => rfl
  | cons member members =>
    simp only [substituteMembers, plainNamesOfMembers, List.flatMap_append]
    rw [member.plainNames_substitute scope, plainNamesOfMembers_substitute scope members]

end

/-- The type that comes in place of a plain name. -/
def Scope.typeFor (scope : Scope) (name : String) : TypeExpr :=
  (scope.get? name).getD (.named name)

theorem Scope.typeFor_of_none {scope : Scope} {name : String} (h : scope.get? name = none) :
    scope.typeFor name = .named name := by
  rw [typeFor, h, Option.getD_none]

mutual

/-- Two substitutions one after the other are a third one if they are on each plain name. -/
theorem TypeExpr.substitute_substitute_of {first second scope : Scope} (type : TypeExpr)
    (h : ∀ name ∈ type.plainNames, (first.typeFor name).substitute second = scope.typeFor name) :
    (type.substitute first).substitute second = type.substitute scope := by
  cases type with
  | reference name arguments =>
    cases arguments with
    -- A plain name is the only place where a scope is asked.
    | nil => exact h name List.mem_cons_self
    | cons argument rest =>
      obtain ⟨hargument, hrest⟩ := List.forall_mem_append.1 h
      simp only [substitute]
      rw [argument.substitute_substitute_of hargument, substituteList_substitute_of rest hrest]
  | array element => exact congrArg TypeExpr.array (element.substitute_substitute_of h)
  | tuple elements => exact congrArg TypeExpr.tuple (substituteList_substitute_of elements h)
  | union members => exact congrArg TypeExpr.union (substituteList_substitute_of members h)
  | intersection members =>
    exact congrArg TypeExpr.intersection (substituteList_substitute_of members h)
  | object members => exact congrArg TypeExpr.object (substituteMembers_substitute_of members h)
  | keyword | literal | unsupported => rfl

/-- The same for several types. -/
private theorem substituteList_substitute_of {first second scope : Scope} (types : List TypeExpr)
    (h : ∀ name ∈ plainNamesOfList types,
      (first.typeFor name).substitute second = scope.typeFor name) :
    substituteList second (substituteList first types) = substituteList scope types := by
  cases types with
  | nil => rfl
  | cons type types =>
    obtain ⟨htype, htypes⟩ := List.forall_mem_append.1 h
    simp only [substituteList]
    rw [type.substitute_substitute_of htype, substituteList_substitute_of types htypes]

/-- The same for a member. -/
theorem TypeMember.substitute_substitute_of {first second scope : Scope} (member : TypeMember)
    (h : ∀ name ∈ member.plainNames, (first.typeFor name).substitute second = scope.typeFor name) :
    (member.substitute first).substitute second = member.substitute scope := by
  cases member with
  | property name type optional readonly doc =>
    cases type with
    | none => rfl
    | some type =>
      simp only [TypeMember.substitute, substitute?]
      rw [type.substitute_substitute_of h]
  | method name => rfl
  | index keyName keyType valueType =>
    obtain ⟨hkey, hvalue⟩ := List.forall_mem_append.1 h
    simp only [TypeMember.substitute]
    rw [keyType.substitute_substitute_of hkey, valueType.substitute_substitute_of hvalue]

/-- The same for several members. -/
private theorem substituteMembers_substitute_of {first second scope : Scope}
    (members : List TypeMember) (h : ∀ name ∈ plainNamesOfMembers members,
      (first.typeFor name).substitute second = scope.typeFor name) :
    substituteMembers second (substituteMembers first members) =
      substituteMembers scope members := by
  cases members with
  | nil => rfl
  | cons member members =>
    obtain ⟨hmember, hmembers⟩ := List.forall_mem_append.1 h
    simp only [substituteMembers]
    rw [member.substitute_substitute_of hmember, substituteMembers_substitute_of members hmembers]

end

mutual

/-- The empty scope replaces nothing. -/
@[simp] theorem TypeExpr.substitute_empty (type : TypeExpr) : type.substitute .empty = type := by
  cases type with
  | reference name arguments =>
    cases arguments with
    | nil => rfl
    | cons first rest =>
      rw [substitute, first.substitute_empty, substituteList_empty rest]
  | array element => rw [substitute, element.substitute_empty]
  | tuple elements => rw [substitute, substituteList_empty elements]
  | union members => rw [substitute, substituteList_empty members]
  | intersection members => rw [substitute, substituteList_empty members]
  | object members => rw [substitute, substituteMembers_empty members]
  | keyword | literal | unsupported => rfl

theorem substituteList_empty (types : List TypeExpr) : substituteList .empty types = types := by
  cases types with
  | nil => rfl
  | cons type types => rw [substituteList, type.substitute_empty, substituteList_empty types]

/-- The same for a member. -/
theorem TypeMember.substitute_empty (member : TypeMember) : member.substitute .empty = member := by
  cases member with
  | property name type optional readonly doc =>
    cases type with
    | none => rfl
    | some type => rw [TypeMember.substitute, substitute?, type.substitute_empty]
  | method name => rfl
  | index keyName keyType valueType =>
    rw [TypeMember.substitute, keyType.substitute_empty, valueType.substitute_empty]

theorem substituteMembers_empty (members : List TypeMember) :
    substituteMembers .empty members = members := by
  cases members with
  | nil => rfl
  | cons member members =>
    rw [substituteMembers, member.substitute_empty, substituteMembers_empty members]

end

namespace Scope

/-- The type that a parameter of a method stands for: its constraint, or any. -/
def constraintOf (p : TypeParameter) : TypeExpr := p.constraint.getD (.keyword .unknown)

/-- Parameters with different names stand for their constraints, and other names for nothing. -/
theorem get?_ofConstraints {parameters : List TypeParameter}
    (h : (parameters.map (·.name)).Nodup) {name : String} {type : TypeExpr} :
    (ofConstraints parameters).get? name = some type ↔
      ∃ p ∈ parameters, p.name = name ∧ constraintOf p = type := by
  have hnames : ((parameters.map fun p => (p.name, constraintOf p)).map (·.1)).Nodup := by
    rwa [List.map_map]
  change (Dict.ofList (parameters.map fun p => (p.name, constraintOf p))).get? name = _ ↔ _
  rw [Dict.get?_ofList hnames]
  clear hnames
  induction parameters with
  | nil => simp [lookupEntry]
  | cons first parameters ih =>
    obtain ⟨hfirst, h⟩ := List.nodup_cons.1 h
    rw [List.map_cons, lookupEntry]
    by_cases hname : name = first.name
    · -- No later parameter has the name of the first one.
      subst hname
      have hlater : ¬ ∃ p ∈ parameters, p.name = first.name ∧ constraintOf p = type := by
        rintro ⟨p, hp, hname, _⟩
        exact hfirst (List.mem_map.2 ⟨p, hp, hname⟩)
      simp [hlater]
    · simp [hname, ih h, Ne.symm hname]

end Scope

end Endpoints
