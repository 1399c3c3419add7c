import Endpoints.Proofs.Bound
import Endpoints.Proofs.Listing
import Endpoints.Proofs.Merge

/-!
# What a class inherits

The entry of a class or interface holds the properties of its parents and its own. What these are is
read off the declaration as it is written: the types that it inherits from and their order
(`Declaration.Extends`), the members that are properties (`Declaration.Declares`), and the property
that a member gives (`Resolver.Gives`). A parent may have parents of its own, so the properties that
it contributes are given by a relation that follows the hierarchy to its end
(`Resolver.HasProperties`). The walk of `structuralShape` stays inside that relation: its chain and
its bound only make a walk fail, and change nothing in one that succeeds.
-/

namespace Endpoints

open ObjectShape DocComment

/-! ## What a declaration says -/

/-- The types that a declaration inherits from, in their order. Those of a class are the one after
`extends`, then those after `implements`. -/
inductive Declaration.Extends : Declaration → List TypeExpr → Prop
  | ofClass (d : ClassDecl) : Extends (.ofClass d) (d.superclass.toList ++ d.interfaces)
  | ofInterface (d : InterfaceDecl) : Extends (.ofInterface d) d.parents
  | ofAlias (d : AliasDecl) : Extends (.ofAlias d) []

/-- A class member declares a public property of instances: as a property, or as a parameter of the
constructor, which has no documentation of its own. -/
inductive ClassMember.Declares : ClassMember → List Nat → Member → Prop
  | property {p : PropertyDecl} (hinstance : p.isStatic = false)
      (hpublic : p.visibility = .publicMember) :
      Declares (.property p) []
        { name := p.name, type := p.type, optional := p.optional, initializer := p.initializer
          doc := p.doc, decorators := p.decorators }
  | parameter {parameters : List ParameterDecl} {number : Nat} {p : ParameterDecl}
      (hp : parameters[number]? = some p) (hpublic : p.propertyVisibility = some .publicMember) :
      Declares (.constructor parameters) [number]
        { name := p.name, type := p.type, optional := p.optional, initializer := p.initializer
          doc := none, decorators := p.decorators }

/-- A member of an interface or object type declares a property. It has neither an initializer nor
decorators. -/
inductive TypeMember.Declares : TypeMember → Member → Prop
  | property {name : String} {type : Option TypeExpr} {optional readonly : Bool}
      {doc : Option DocComment} : Declares (.property name type optional readonly doc)
        { name, type, optional, initializer := none, doc, decorators := [] }

/-- A declaration declares a property at a place: the number of the member and, in a constructor,
the number of the parameter. -/
inductive Declaration.Declares : Declaration → List Nat → Member → Prop
  | ofClass {d : ClassDecl} {number : Nat} {place : List Nat} {item : ClassMember}
      {member : Member} (hitem : d.members[number]? = some item)
      (hdeclares : item.Declares place member) : Declares (.ofClass d) (number :: place) member
  | ofInterface {d : InterfaceDecl} {number : Nat} {item : TypeMember} {member : Member}
      (hitem : d.members[number]? = some item) (hdeclares : item.Declares member) :
      Declares (.ofInterface d) [number] member
  | ofAlias {d : AliasDecl} {members : List TypeMember} {number : Nat} {item : TypeMember}
      {member : Member} (htype : d.type = .object members) (hitem : members[number]? = some item)
      (hdeclares : item.Declares member) : Declares (.ofAlias d) [number] member

/-- The documentation of a member has the tag `@ignore`. -/
def Member.IsIgnored (member : Member) : Prop :=
  ∃ doc tag, member.doc = some doc ∧ tag ∈ doc.tags ∧ tag.name = "ignore"

/-- An expression is written as a value, and is neither a name nor other code. -/
def Expr.IsValue (e : Expr) : Prop :=
  (∀ text, e ≠ .path text) ∧ ∀ text, e ≠ .raw text

/-- The default of a member is the value of its initializer, if that is a literal. Otherwise it is
what the first tag `@default` of the documentation says, unless nothing follows the tag. -/
inductive Member.HasDefault (member : Member) : Option Json → Prop
  | initializer {e : Expr} (hinit : member.initializer = some e) (hvalue : e.IsValue) :
      HasDefault member (some e.toJson)
  | tag {doc : DocComment} {tag : DocTag}
      (hinit : ∀ e, member.initializer = some e → ¬ e.IsValue) (hdoc : member.doc = some doc)
      (htag : doc.tags.find? (·.name == "default") = some tag) (htext : tag.text ≠ "") :
      HasDefault member (some (.ofText tag.text))
  | none (hinit : ∀ e, member.initializer = some e → ¬ e.IsValue)
      (htag : ∀ doc tag, member.doc = some doc →
        doc.tags.find? (·.name == "default") = some tag → tag.text = "") :
      HasDefault member none

namespace Resolver

/-- The hints that a member gives for its own type. -/
def memberHints (r : Resolver) (member : Member) : Hints :=
  (Hints.ofDoc member.doc).or (r.decoratorHints member.decorators)

/-- The type of a member is the one that is written, with the type arguments put in; without one it
is the type of the initializer, and without both it is any object, which is warned of. -/
inductive HasType (r : Resolver) (scope : Scope) (member : Member) :
    Session → Schema → Session → Prop
  | written {type : TypeExpr} {schema : Schema} {s t : Session} (htype : member.type = some type)
      (hrun : (r.resolve (type.substitute scope) (r.memberHints member)).run s = (.ok schema, t)) :
      HasType r scope member s schema t
  | string {value : String} {s : Session} (htype : member.type = none)
      (hinit : member.initializer = some (.string value)) : HasType r scope member s .string s
  | number {text : String} {s : Session} (htype : member.type = none)
      (hinit : member.initializer = some (.number text)) :
      HasType r scope member s ((r.memberHints member).number.getD .double).schema s
  | bool {value : Bool} {s : Session} (htype : member.type = none)
      (hinit : member.initializer = some (.bool value)) :
      HasType r scope member s (.ofScalar .boolean) s
  | array {items : List Expr} {s : Session} (htype : member.type = none)
      (hinit : member.initializer = some (.array items)) :
      HasType r scope member s (.array .object) s
  | other {e : Expr} {s : Session} (htype : member.type = none)
      (hinit : member.initializer = some e) (hstring : ∀ value, e ≠ .string value)
      (hnumber : ∀ text, e ≠ .number text) (hbool : ∀ value, e ≠ .bool value)
      (harray : ∀ items, e ≠ .array items) : HasType r scope member s .object s
  | untyped {s : Session} (htype : member.type = none) (hinit : member.initializer = none) :
      HasType r scope member s .object
        { s with warnings := s.warnings ++ [.untypedProperty member.name] }

/-- The property that a member gives. -/
structure Gives (r : Resolver) (scope : Scope) (member : Member) (s : Session)
    (property : Property) (t : Session) : Prop where
  name : property.name = member.name
  type : r.HasType scope member s property.type t
  /-- A property must be there unless it is optional or has a value to begin with. -/
  required : property.required = true ↔ member.optional = false ∧ member.initializer = none
  default : member.HasDefault property.default
  description : property.description = member.doc.bind (·.description)

end Resolver

/-- Items one after the other, each from the session that the one before it leaves. -/
inductive InTurn {α β : Type} (Step : α → Session → β → Session → Prop) :
    List α → Session → List β → Session → Prop
  | nil {s : Session} : InTurn Step [] s [] s
  | cons {item : α} {items : List α} {value : β} {values : List β} {s t u : Session}
      (hfirst : Step item s value t) (hrest : InTurn Step items t values u) :
      InTurn Step (item :: items) s (value :: values) u

/-- The properties that a type contributes to a declaration that inherits from it. A declaration
with members contributes what it inherits itself and its own properties, with the type arguments put
in for its type parameters. Any other name is resolved, and has the shape of its schema. -/
inductive Resolver.HasProperties (r : Resolver) :
    TypeExpr → Session → List Property → Session → Prop
  | declared {name : String} {arguments parents : List TypeExpr} {located : Located}
      {members : List Member} {inherited : List (List Property)} {own properties : List Property}
      {values : Option Schema} {scope : Scope} {s t u v : Session}
      (hfind : r.index.find name = [located])
      (hstructural : located.declaration.isStructural = true)
      (hscope : scope = Scope.bind located.declaration.typeParameters arguments)
      (hparents : located.declaration.Extends parents)
      (hinherited : InTurn (HasProperties r) (parents.map (·.substitute scope)) s inherited t)
      (hmembers : Listing (fun place member => located.declaration.Declares place member ∧
        ¬ member.IsIgnored) members)
      (hown : InTurn (r.Gives scope) members t own u)
      (hindexes : (additional r.resolve scope located.declaration.indexSignatures).run u =
        (.ok values, v))
      (hproperties : Inherits inherited own properties) :
      HasProperties r (.reference name arguments) s properties v
  | resolved {name : String} {arguments : List TypeExpr} {schema : Schema} {shape : ObjectShape}
      {s t : Session}
      (hfind : ∀ located, r.index.find name = [located] →
        located.declaration.isStructural = false)
      (hrun : (r.resolve (.reference name arguments) .none).run s = (.ok schema, t))
      (hshape : t.context.shapeOf schema = .ok shape) :
      HasProperties r (.reference name arguments) s shape.properties t

/-! ## What the program reads off a declaration -/

private theorem Declaration.extends_heritage {d : Declaration} (h : d.isStructural = true) :
    d.Extends d.heritage := by
  cases d with
  | ofClass d => exact .ofClass d
  | ofInterface d => exact .ofInterface d
  | ofAlias d => exact .ofAlias d
  | ofEnum d => cases h

/-- `TypeMember.member?` finds the property that a member declares. -/
theorem TypeMember.member?_eq_some_iff {item : TypeMember} {member : Member} :
    item.member? = some member ↔ item.Declares member := by
  constructor
  · intro h
    cases item with
    | property name type optional readonly doc =>
      cases h
      exact .property
    | method | index => cases h
  · rintro ⟨⟩
    rfl

/-- `ClassMember.properties` lists the properties that a class member declares. -/
private theorem ClassMember.listing_properties (item : ClassMember) :
    Listing item.Declares item.properties := by
  cases item with
  | property p =>
    -- A property is listed if it is public and not static.
    rw [properties]
    split
    · next h =>
      simp only [Bool.and_eq_true, Bool.not_eq_true', decide_eq_true_eq] at h
      refine (Listing.singleton _).congr fun place member => ⟨?_, ?_⟩
      · rintro ⟨rfl, rfl⟩
        exact .property h.1 h.2
      · rintro ⟨⟩
        exact ⟨rfl, rfl⟩
    · next h =>
      refine .of_isEmpty fun place member hdeclares => h ?_
      obtain ⟨hinstance, hpublic⟩ := hdeclares
      simp [hinstance, hpublic]
  | constructor parameters =>
    -- The parameters of a constructor are numbered, and those that declare a property are kept.
    refine ((Listing.of_getElem? parameters).filterMap ofParameter?).congr
      fun place member => ⟨?_, ?_⟩
    · rintro ⟨p, ⟨number, rfl, hp⟩, hmember⟩
      rw [ofParameter?] at hmember
      split at hmember
      · next hpublic =>
        cases hmember
        exact .parameter hp hpublic
      · cases hmember
    · intro hdeclares
      cases hdeclares with
      | @parameter _ number p hp hpublic =>
        exact ⟨p, ⟨number, rfl, hp⟩, by rw [ofParameter?, if_pos hpublic]⟩
  -- Neither a method nor an index signature declares a property.
  | method | index =>
    refine .of_isEmpty fun place member hdeclares => ?_
    cases hdeclares

private theorem TypeMember.listing_member? (items : List TypeMember) :
    Listing (fun place member => ∃ number item, place = [number] ∧
      items[number]? = some item ∧ item.Declares member) (items.filterMap (·.member?)) := by
  refine ((Listing.of_getElem? items).filterMap _).congr fun place member => ⟨?_, ?_⟩
  · rintro ⟨item, ⟨number, rfl, hitem⟩, hmember⟩
    exact ⟨number, item, rfl, hitem, member?_eq_some_iff.1 hmember⟩
  · rintro ⟨number, item, rfl, hitem, hdeclares⟩
    exact ⟨item, ⟨number, rfl, hitem⟩, member?_eq_some_iff.2 hdeclares⟩

/-- `Declaration.members` lists the properties that a declaration declares. -/
private theorem Declaration.listing_members (d : Declaration) : Listing d.Declares d.members := by
  cases d with
  | ofClass d =>
    refine (Listing.flatMap fun item _ => item.listing_properties).congr
      fun place member => ⟨?_, ?_⟩
    · rintro ⟨number, rest, item, rfl, hitem, hdeclares⟩
      exact .ofClass hitem hdeclares
    · rintro ⟨hitem, hdeclares⟩
      exact ⟨_, _, _, rfl, hitem, hdeclares⟩
  | ofInterface d =>
    refine (TypeMember.listing_member? d.members).congr fun place member => ⟨?_, ?_⟩
    · rintro ⟨number, item, rfl, hitem, hdeclares⟩
      exact .ofInterface hitem hdeclares
    · intro h
      cases h with
      | ofInterface hitem hdeclares => exact ⟨_, _, rfl, hitem, hdeclares⟩
  | ofAlias d =>
    refine (TypeMember.listing_member? (aliasMembers d)).congr fun place member => ⟨?_, ?_⟩
    · rintro ⟨number, item, rfl, hitem, hdeclares⟩
      -- Only an object type has members.
      cases htype : d.type with
      | object members =>
        rw [aliasMembers, htype] at hitem
        exact .ofAlias htype hitem hdeclares
      | _ => simp [aliasMembers, htype] at hitem
    · intro h
      cases h with
      | ofAlias htype hitem hdeclares =>
        exact ⟨_, _, rfl, by rwa [aliasMembers, htype], hdeclares⟩
  | ofEnum d =>
    refine .of_isEmpty fun place member h => ?_
    cases h

private theorem Member.anyTag_ignore {member : Member} :
    anyTag member.doc "ignore" = true ↔ member.IsIgnored := by
  unfold IsIgnored anyTag hasTag
  cases member.doc <;> simp

/-- `memberDefault?` gives the default of a member. -/
private theorem Member.hasDefault_memberDefault? (member : Member) :
    member.HasDefault (Resolver.memberDefault? member) := by
  -- Without a literal to begin with, the tag decides.
  have htag (hinit : ∀ e, member.initializer = some e → ¬ e.IsValue) :
      member.HasDefault (tagValue? member.doc "default") := by
    cases hdoc : member.doc with
    | none => exact .none hinit (by simp [hdoc])
    | some doc =>
      cases hfirst : doc.tags.find? (·.name == "default") with
      | none =>
        simp only [tagValue?, tag?, Option.bind_some, hfirst, Option.map_none]
        refine .none hinit fun other tag hother htag => ?_
        obtain rfl := Option.some.inj (hdoc.symm.trans hother)
        cases hfirst.symm.trans htag
      | some tag =>
        simp only [tagValue?, tag?, Option.bind_some, hfirst, Option.map_some]
        split
        · next hempty => exact .none hinit fun other tag hother htag => by simp_all
        · next hempty => exact .tag hinit hdoc hfirst (by simpa using hempty)
  unfold Resolver.memberDefault?
  cases hinit : member.initializer with
  | none => exact htag (by simp [hinit])
  | some e =>
    cases e with
    | path text => exact htag fun e he hvalue => hvalue.1 text (by simpa [hinit] using he.symm)
    | raw text => exact htag fun e he hvalue => hvalue.2 text (by simpa [hinit] using he.symm)
    | _ => exact .initializer hinit (by simp [Expr.IsValue])

namespace Resolver

open Resolve

variable {r : Resolver} {scope : Scope} {s t : Session}

/-! ## Own members -/

/-- `memberSchema` gives the type of a member. -/
private theorem hasType_of_memberSchema {member : Member} {schema : Schema}
    (h : (memberSchema r.resolve member scope (r.memberHints member)).run s = (.ok schema, t)) :
    r.HasType scope member s schema t := by
  unfold memberSchema at h
  split at h
  · next type htype => exact .written htype (run_inside_ok.1 h)
  · next e htype hinit =>
    obtain ⟨hschema, rfl⟩ := Prod.mk.inj h
    obtain rfl := Except.ok.inj hschema
    -- The type is read off the initializer.
    cases e with
    | string value => exact .string htype hinit
    | number text => exact .number htype hinit
    | bool value => exact .bool htype hinit
    | array items => exact .array htype hinit
    | _ => exact .other htype hinit (by simp) (by simp) (by simp) (by simp)
  · next htype hinit =>
    cases h
    exact .untyped htype hinit

/-- `property` gives nothing for a member that is ignored, and its property for any other. -/
private theorem property_ok {member : Member} {found : Option Property}
    (h : (r.property r.resolve scope member).run s = (.ok found, t)) :
    member.IsIgnored ∧ found = none ∧ t = s ∨
      ¬ member.IsIgnored ∧
        ∃ property, found = some property ∧ r.Gives scope member s property t := by
  unfold property at h
  split at h
  -- An ignored member leaves the session as it is.
  · next hignore =>
    cases h
    exact .inl ⟨Member.anyTag_ignore.1 hignore, rfl, rfl⟩
  · next hignore =>
    obtain ⟨type, u, htype, hpure⟩ := run_bind_ok.1 h
    cases hpure
    refine .inr ⟨mt Member.anyTag_ignore.2 hignore, _, rfl, ?_⟩
    exact { name := rfl
            type := hasType_of_memberSchema htype
            required := by simp
            default := member.hasDefault_memberDefault?
            description := rfl }

/-- `properties` gives the properties of the members that are not ignored, in turn. -/
private theorem inTurn_properties {members : List Member} {own : List Property}
    (h : (r.properties r.resolve scope members).run s = (.ok own, t)) :
    InTurn (r.Gives scope)
      (members.filter fun member => !anyTag member.doc "ignore") s own t := by
  obtain ⟨found, u, hfound, hpure⟩ := run_bind_ok.1 h
  cases hpure
  clear h
  -- Induction on the members: one that is ignored leaves no property and the session as it is.
  induction members generalizing s found with
  | nil =>
    cases hfound
    exact .nil
  | cons member members ih =>
    rw [List.mapM_cons] at hfound
    obtain ⟨first, v, hfirst, hfound⟩ := run_bind_ok.1 hfound
    obtain ⟨rest, w, hrest, hpure⟩ := run_bind_ok.1 hfound
    cases hpure
    obtain ⟨hignored, rfl, rfl⟩ | ⟨hshown, property, rfl, hgives⟩ := property_ok hfirst
    · rw [List.filter_cons_of_neg (by simp [Member.anyTag_ignore.2 hignored])]
      exact ih rest hrest
    · rw [List.filter_cons_of_pos (by simpa using mt Member.anyTag_ignore.1 hshown)]
      exact .cons hgives (ih _ hrest)

/-! ## Parents -/

/-- A loop that merges with `inherit` takes the shapes in turn and merges them in order. -/
private theorem inTurn_foldlM_inherit {α β : Type}
    {Step : β → Session → List Property → Session → Prop} {f : α → Resolve ObjectShape} {g : α → β}
    (hstep : ∀ item s shape t, (f item).run s = (.ok shape, t) →
      Step (g item) s shape.properties t) {items : List α} {start merged : ObjectShape}
    (h : (items.foldlM (fun (shape : ObjectShape) item => do return shape.inherit (← f item))
      start).run s = (.ok merged, t)) :
    ∃ shapes : List ObjectShape, InTurn Step (items.map g) s (shapes.map (·.properties)) t ∧
      merged = shapes.foldl inherit start := by
  induction items generalizing start s with
  | nil =>
    cases h
    exact ⟨[], .nil, rfl⟩
  | cons item items ih =>
    rw [List.foldlM_cons] at h
    -- The first item is resolved and merged, and the loop goes on from the merged shape.
    obtain ⟨next, u, hnext, hrest⟩ := run_bind_ok.1 h
    obtain ⟨shape, v, hshape, hpure⟩ := run_bind_ok.1 hnext
    cases hpure
    obtain ⟨shapes, hshapes, rfl⟩ := ih hrest
    exact ⟨shape :: shapes, .cons (hstep item _ _ _ hshape) hshapes, rfl⟩

/-- `inheritedShape` gives the properties of a type if `structural` does for declarations. -/
private theorem hasProperties_of_inheritedShape {structural : Located → Scope → Resolve ObjectShape}
    {chain : List String} {parent : TypeExpr} {shape : ObjectShape}
    (hstructural : ∀ name arguments located s shape t, r.index.find name = [located] →
      located.declaration.isStructural = true →
      (structural located (Scope.bind located.declaration.typeParameters arguments)).run s =
        (.ok shape, t) → r.HasProperties (.reference name arguments) s shape.properties t)
    (h : (r.inheritedShape r.resolve structural chain parent).run s = (.ok shape, t)) :
    r.HasProperties parent s shape.properties t := by
  -- A name that stands for no declaration with members has the shape of its schema.
  have hresolved {name : String} {arguments : List TypeExpr}
      (hfind : ∀ located, r.index.find name = [located] →
        located.declaration.isStructural = false)
      (h : (shapeOfType r.resolve (.reference name arguments)).run s = (.ok shape, t)) :
      r.HasProperties (.reference name arguments) s shape.properties t := by
    obtain ⟨schema, u, hrun, hshape⟩ := run_bind_ok.1 h
    obtain ⟨hshape, rfl⟩ := run_shapeOf_ok.1 hshape
    exact .resolved hfind hrun hshape
  unfold inheritedShape at h
  split at h
  · next name arguments =>
    split at h
    · next located hfind =>
      split at h
      · next hmembers =>
        split at h
        · cases h
        · exact hstructural name arguments located s shape t hfind hmembers h
      · next hmembers =>
        refine hresolved (fun other hother => ?_) h
        obtain rfl := List.singleton_inj.1 (hfind.symm.trans hother)
        simpa using hmembers
    · next hfind => exact hresolved (fun other hother => by simp [hfind] at hother) h
    · cases h
  · cases h

/-- `structuralShape` gives the properties that parents contribute, then the own ones. -/
private theorem structuralShape_ok {links : Nat} {chain : List String} {located : Located}
    {shape : ObjectShape} (hmembers : located.declaration.isStructural = true)
    (h : (r.structuralShape r.resolve links chain located scope).run s = (.ok shape, t)) :
    ∃ parents inherited members own values u v,
      located.declaration.Extends parents ∧
      InTurn r.HasProperties (parents.map (·.substitute scope)) s inherited u ∧
      Listing (fun place member => located.declaration.Declares place member ∧
        ¬ member.IsIgnored) members ∧
      InTurn (r.Gives scope) members u own v ∧
      (additional r.resolve scope located.declaration.indexSignatures).run v = (.ok values, t) ∧
      Inherits inherited own shape.properties := by
  -- Induction on the bound: a parent is walked with one link less.
  induction links generalizing chain located scope s t shape with
  | zero => cases h
  | succ links ih =>
    obtain ⟨merged, u, hmerged, hrest⟩ := run_bind_ok.1 h
    obtain ⟨own, v, hown, hrest⟩ := run_bind_ok.1 hrest
    obtain ⟨values, w, hvalues, hpure⟩ := run_bind_ok.1 hrest
    cases hpure
    have hparent (parent : TypeExpr) (s : Session) (shape : ObjectShape) (t : Session)
        (h : (r.inheritedShape r.resolve
          (r.structuralShape r.resolve links (chain ++ [located.qualifiedName]))
          (chain ++ [located.qualifiedName]) (parent.substitute scope)).run s = (.ok shape, t)) :
        r.HasProperties (parent.substitute scope) s shape.properties t := by
      refine hasProperties_of_inheritedShape ?_ h
      intro name arguments other s shape t hfind hother h
      obtain ⟨_, _, _, _, _, _, _, hextends, hinherited, hlisting, hgives, hindexes, hinherits⟩ :=
        ih hother h
      exact .declared hfind hother rfl hextends hinherited hlisting hgives hindexes hinherits
    obtain ⟨shapes, hinherited, rfl⟩ := inTurn_foldlM_inherit hparent hmerged
    refine ⟨_, _, _, own, values, u, v, Declaration.extends_heritage hmembers, hinherited, ?_,
      inTurn_properties hown, hvalues, inherits_foldl_addOwn (combines_foldl_inherit shapes) own⟩
    refine (located.declaration.listing_members.filter _).congr fun place member => ?_
    rw [← Member.anyTag_ignore, Bool.not_eq_true', Bool.not_eq_true]

/-- A class or interface is resolved by the use of its name, its parts without a bound. -/
private theorem resolve_object {name : String} {arguments : List TypeExpr} {located : Located}
    (hfind : r.index.find name = [located]) (hobject : located.declaration.referent = .object)
    (hints : Hints) :
    r.resolve (.reference name arguments) hints =
      let i := Instantiation.of located arguments
      useName i.name i.location .object do
        return r.objectEntry located.declaration i.name
          (← r.structuralShape r.resolve r.index.maxChain [] located i.scope) := by
  -- A declaration that gives an object is neither an enum nor an alias.
  have hdeclared : r.declared r.resolve located arguments =
      r.objectReference r.resolve located arguments := by
    unfold declared
    split
    · next d hd => rw [hd] at hobject; cases hobject
    · next d hd => rw [hd] at hobject; cases hobject
    · rfl
    · rfl
  rw [resolve_eq_step]
  change r.reference r.resolve name arguments hints = _
  rw [reference, hfind]
  exact hdeclared

end Resolver

private theorem Declaration.isStructural_of_referent {d : Declaration} (h : d.referent = .object) :
    d.isStructural = true := by
  cases d with
  | ofClass | ofInterface => rfl
  | ofAlias | ofEnum => cases h

/-- The entry of a class or interface, from the run that makes it: one that succeeds from a session
where its name is neither known nor under construction. First each type that the declaration
inherits from contributes its properties, in order, then each public property of instances that it
declares and that is not ignored gives its own; these have the type, requiredness, default and
description that the member says. The properties of the entry have different names, which are those
of the parents and members in the order in which they come first. A name stands for the last own
property that has it, with the last description before it if that one has none; or without an own
one, for the property of the last parent that has it. -/
theorem entry_merges_parents_and_members {r : Resolver} {name : String}
    {arguments : List TypeExpr} {located : Located} {hints : Hints} {s t : Session}
    {schema : Schema} (hfind : r.index.find name = [located])
    (hobject : located.declaration.referent = .object)
    (hunknown : s.context.reference? (Instantiation.of located arguments).name = none)
    (hidle : (Instantiation.of located arguments).name ∉ s.context.inProgress)
    (hrun : (r.resolve (.reference name arguments) hints).run s = (.ok schema, t)) :
    let i := Instantiation.of located arguments
    ∃ c u v parents inherited members own entry properties values,
      s.context.claim i.name i.location = .ok c ∧
      located.declaration.Extends parents ∧
      InTurn r.HasProperties (parents.map (·.substitute i.scope))
        { s with context := c.start i.name } inherited u ∧
      Listing (fun place member => located.declaration.Declares place member ∧
        ¬ member.IsIgnored) members ∧
      InTurn (r.Gives i.scope) members u own v ∧
      t.context.reference? i.name = some entry ∧
      entry.shape = .object properties values ∧
      Inherits inherited own properties := by
  intro i
  rw [Resolver.resolve_object hfind hobject] at hrun
  -- The name has no entry yet and is not in progress, so the run constructed the entry.
  cases Resolver.useOutcome_iff.1 hrun with
  | known hclaim hknown =>
    rw [Context.reference?_claim hclaim, hunknown] at hknown
    cases hknown
  | deferred hclaim _ hprogress =>
    rw [Context.inProgress_claim hclaim] at hprogress
    exact absurd hprogress hidle
  | @built c entry v hclaim _ _ _ hconstruct =>
    obtain ⟨shape, w, hshape, hpure⟩ := Resolve.run_bind_ok.1 hconstruct
    -- The entry is what the construction gave, completed in the context.
    obtain ⟨hentry, rfl⟩ := Prod.mk.inj hpure
    obtain ⟨parents, inherited, members, own, values, u, v, hextends, hinherited, hmembers, hown, -,
      hinherits⟩ :=
      Resolver.structuralShape_ok (Declaration.isStructural_of_referent hobject) hshape
    refine ⟨c, u, v, parents, inherited, members, own, entry, shape.properties, shape.additional,
      hclaim, hextends, hinherited, hmembers, hown, ?_, ?_, hinherits⟩
    · rw [← Except.ok.inj hentry]
      simp [Resolver.objectEntry, i]
    · rw [← Except.ok.inj hentry]
      rfl

/-- A class that overrides a property of its superclass and of an interface. The description is that
of the interface, which comes later. A default is an initializer or a tag, and what is private,
static or ignored is left out. -/
theorem user_merges_base_and_titled :
    let r := Resolver.ofText
      ("class Base \x7b id: string; /** @default 10 */ size?: number \x7d\n" ++
      "interface Titled \x7b /** The key. */ id: string; title?: string \x7d\n" ++
      "class User extends Base implements Titled \x7b id = 1; age: number; static count = 2;\n" ++
      "private key = 3; /** @ignore */ extra = 4; constructor(public nick = 'x') \x7b\x7d \x7d")
    ∃ schema t entry inherited own values,
      (r.resolve (.named "User") .none).run .empty = (.ok schema, t) ∧
      t.context.reference? "User" = some entry ∧
      entry.shape = .object entry.properties values ∧
      Inherits inherited own entry.properties ∧
      entry.properties.map (fun property =>
          (property.name, property.required, property.default.map (·.compact))) =
        [("id", false, some "1"), ("size", false, some "10"), ("title", false, none),
          ("age", true, none), ("nick", false, some "\"x\"")] ∧
      entry.properties.map (·.description) = [some "The key.", none, none, none, none] := by
  intro r
  have hfacts : ((r.resolve (.named "User") .none).run .empty).1.isOk = true ∧
      (r.index.find "User").length = 1 ∧
      (∀ d ∈ r.index.find "User", d.declaration.referent = .object ∧
        (Instantiation.of d []).name = "User") ∧
      (((r.resolve (.named "User") .none).run .empty).2.context.reference? "User").map
        (fun entry => (entry.properties.map fun property =>
            (property.name, property.required, property.default.map (·.compact)),
          entry.properties.map (·.description))) =
        some ([("id", false, some "1"), ("size", false, some "10"), ("title", false, none),
          ("age", true, none), ("nick", false, some "\"x\"")],
          [some "The key.", none, none, none, none]) := by
    decide +kernel
  obtain ⟨hok, hlength, hdeclared, hproperties⟩ := hfacts
  -- The name has one declaration, and the resolver starts without entries.
  obtain ⟨located, hfind⟩ := List.length_eq_one_iff.1 hlength
  obtain ⟨hobject, hname⟩ := hdeclared located (by simp [hfind])
  obtain ⟨schema, hrun⟩ := Resolver.exists_run_of_isOk hok
  have hidle : (Instantiation.of located []).name ∉ Session.empty.context.inProgress := by
    simp [Session.empty, Context.empty]
  obtain ⟨_, _, _, _, inherited, _, own, entry, properties, values, -, -, -, -, -, hentry, hshape,
    hinherits⟩ := entry_merges_parents_and_members hfind hobject rfl hidle hrun
  rw [hname] at hentry
  -- The properties that the theorem speaks of are those of the entry.
  obtain rfl : entry.properties = properties := by simp [ReferenceType.properties, hshape]
  rw [hentry] at hproperties
  obtain ⟨hnames, hdescriptions⟩ := Prod.mk.inj (Option.some.inj hproperties)
  exact ⟨schema, _, entry, inherited, own, values, hrun, hentry, hshape, hinherits, hnames,
    hdescriptions⟩

end Endpoints
