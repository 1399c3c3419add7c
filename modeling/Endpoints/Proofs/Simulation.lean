import Endpoints.Proofs.Context
import Endpoints.Proofs.Formation
import Endpoints.Proofs.Instantiation

/-!
# Simulations of resolution

Two runs of the same resolution can differ in what the context already holds, and so in which named
types they construct. A `Simulation` relates such runs: it is a relation on computations that every
step of resolution keeps, as long as it holds for the parts. The places where a run looks at the
context are its only obligations; everything else follows here, once for all relations.

A relation may also ignore one of the two runs. It then states what one run does to its session.
Relations are indexed by a set of handles, those that the values so far may contain; it grows along
a run, as contexts do. What is said of the schemas on the way can be any property that resolution
keeps when it forms schemas (`Composition.Value`); mostly it is that their handles are known.

## Key results

- `Simulation.rel_step`: a type is related if its pieces are and the declaration that it names is
- `Simulation.rel_construct`: an entry is related if the types that it needs are
- `Composition.resolves_of_uses`: resolution is related if the uses of names are
-/

namespace Endpoints

open Resolver

variable {m n : Type → Type} [Monad m] [Monad n]

/-- A relation on computations that sequences keep. `Rel A Q x y` relates `x` and `y` where the
handles `A` are known; their values satisfy `Q` for the handles that are known after them. -/
structure Composition (m n : Type → Type) [Monad m] [Monad n] where
  Rel : {α : Type} → Set Handle → (Set Handle → α → Prop) → m α → n α → Prop
  rel_pure : ∀ {α : Type} {A : Set Handle} {Q : Set Handle → α → Prop} {a : α}, Q A a →
    Rel A Q (pure a) (pure a)
  rel_bind : ∀ {α β : Type} {A : Set Handle} {P : Set Handle → α → Prop}
    {Q : Set Handle → β → Prop} {x : m α} {y : n α} {f : α → m β} {g : α → n β}, Rel A P x y →
    (∀ B, A ⊆ B → ∀ a, P B a → Rel B Q (f a) (g a)) → Rel A Q (x >>= f) (y >>= g)
  /-- The names that may turn out to stand for nothing. -/
  Missing : String → Prop := fun _ => True
  /-- What holds of the schemas that are formed where these handles are known. -/
  Value : Set Handle → Schema → Prop := Schema.Within
  formed : Schema.Formed Value

/-! ## Sequences -/

namespace Composition

variable (C : Composition m n) {α β : Type} {A : Set Handle}

/-- What holds of the shapes that are formed where these handles are known. -/
abbrev Shape (A : Set Handle) (shape : ObjectShape) : Prop := shape.Each (C.Value A)

private theorem forms (A : Set Handle) : Schema.Formation (C.Value A) := C.formed.formation A

private theorem shape_mono {B : Set Handle} (hAB : A ⊆ B) {shape : ObjectShape}
    (h : C.Shape A shape) : C.Shape B shape :=
  h.imp fun _ => C.formed.mono hAB

variable {Q : Set Handle → β → Prop}

private theorem rel_map {P : Set Handle → α → Prop} {x : m α} {y : n α} {f : α → β}
    (h : C.Rel A P x y) (hf : ∀ B, A ⊆ B → ∀ a, P B a → Q B (f a)) :
    C.Rel A Q (do return f (← x)) (do return f (← y)) :=
  C.rel_bind h fun B hB a ha => C.rel_pure (hf B hB a ha)

/-- Loops are related if their steps are. -/
private theorem rel_foldlM {f : β → α → m β} {g : β → α → n β} {items : List α} {init : β}
    (hinit : Q A init)
    (h : ∀ item ∈ items, ∀ B acc, Q B acc → C.Rel B Q (f acc item) (g acc item)) :
    C.Rel A Q (items.foldlM f init) (items.foldlM g init) := by
  induction items generalizing init A with
  | nil => exact C.rel_pure hinit
  | cons item items ih =>
    rw [List.foldlM_cons, List.foldlM_cons]
    refine C.rel_bind (h item List.mem_cons_self A init hinit) fun B _ acc hacc => ?_
    exact ih hacc fun other ho => h other (List.mem_cons_of_mem _ ho)

/-- The values of a type are related, whatever the hints and the handles known before. -/
def Resolves (p : Parts m) (q : Parts n) (type : TypeExpr) : Prop :=
  ∀ A hints, C.Rel A C.Value (p type hints) (q type hints)

variable [LawfulMonad m] [LawfulMonad n]

/-- Sequences of values are related if each item is, where `Q` is kept as handles grow. -/
private theorem rel_mapM (hQ : ∀ {A B b}, A ⊆ B → Q A b → Q B b) {f : α → m β} {g : α → n β}
    {items : List α} (h : ∀ item ∈ items, ∀ B, C.Rel B Q (f item) (g item)) :
    C.Rel A (fun B values => values.length = items.length ∧ ∀ value ∈ values, Q B value)
      (items.mapM f) (items.mapM g) := by
  -- By induction on the items. The first value is carried along while more handles become known.
  induction items generalizing A with
  | nil => exact C.rel_pure (by simp)
  | cons item items ih =>
    have hrest : ∀ other ∈ items, ∀ B, C.Rel B Q (f other) (g other) :=
      fun other ho => h other (List.mem_cons_of_mem _ ho)
    rw [List.mapM_cons, List.mapM_cons]
    refine C.rel_bind (h item List.mem_cons_self A) fun B hB value hvalue => ?_
    refine C.rel_bind (ih hrest) fun D hD values ⟨hlength, hvalues⟩ => ?_
    exact C.rel_pure ⟨by simp [hlength], List.forall_mem_cons.2 ⟨hQ hD hvalue, hvalues⟩⟩

theorem rel_resolveAll {p : Parts m} {q : Parts n} {types : List TypeExpr} {hints : Hints}
    (h : ∀ type ∈ types, ∀ B, C.Rel B C.Value (p type hints) (q type hints)) :
    C.Rel A (fun B schemas => schemas.length = types.length ∧ ∀ schema ∈ schemas, C.Value B schema)
      (resolveAll p types hints) (resolveAll q types hints) :=
  C.rel_mapM (Q := C.Value) C.formed.mono h

private theorem rel_tuple {p : Parts m} {q : Parts n} {elements : List TypeExpr}
    (h : ∀ type ∈ elements, C.Resolves p q type)
    (hints : Hints) : C.Rel A C.Value (tuple p elements hints) (tuple q elements hints) :=
  C.rel_map (C.rel_resolveAll fun type ht B => h type ht B hints) fun B _ _ hschemas =>
    (C.forms B).tupleSchema hschemas.2

/-- An intersection is related if its members are. -/
private theorem rel_intersection {p : Parts m} {q : Parts n} {members : List TypeExpr}
    (hempty : members = [] → ∀ B, C.Value B (intersectionSchema []))
    (h : ∀ type ∈ members, C.Resolves p q type) :
    C.Rel A C.Value (intersection p members) (intersection q members) := by
  refine C.rel_map (C.rel_resolveAll fun type ht B => h type ht B .none)
    fun B _ schemas ⟨hlength, hschemas⟩ => ?_
  rcases eq_or_ne schemas [] with rfl | hne
  · exact hempty (List.length_eq_zero_iff.1 hlength.symm) B
  · exact (C.forms B).intersection hne hschemas

end Composition

/-! ## Steps of resolution -/

variable [MonadExceptOf Error m] [MonadExceptOf Error n] [MonadSession m] [MonadSession n]

/-- The relation is kept by the steps of resolution. `p` and `q` resolve the parts of types in the
two runs. -/
structure Composition.Simulation (C : Composition m n) (p : Parts m) (q : Parts n) : Prop where
  rel_fail : ∀ {α : Type} {A : Set Handle} {Q : Set Handle → α → Prop} {fault : Fault},
    fault.Raised C.Missing → C.Rel A Q (Resolve.fail fault) (Resolve.fail fault)
  rel_inside : ∀ {α : Type} {A : Set Handle} {Q : Set Handle → α → Prop} {place : Place}
    {x : m α} {y : n α}, C.Rel A Q x y →
    C.Rel A Q (Resolve.inside place x) (Resolve.inside place y)
  rel_warn : ∀ A warning, C.Rel A (fun _ _ => True) (Resolve.warn warning) (Resolve.warn warning)
  rel_shapeOf : ∀ A schema, C.Value A schema →
    C.Rel A C.Shape (Resolve.shapeOf schema) (Resolve.shapeOf schema)
  rel_union : ∀ A members hints,
    (∀ member ∈ members, ∀ B, C.Rel B C.Value (p member hints) (q member hints)) →
    C.Rel A C.Value (union p members hints) (union q members hints)

/-- The use of a declaration that a type of a region names is related if each of its forms is: an
enum, an alias that is replaced, and a name. -/
theorem Composition.rel_declared (C : Composition m n) {A : Set Handle} {p : Parts m} {q : Parts n}
    {r : Resolver} (E : Region r) {name : String} {arguments : List TypeExpr} {located : Located}
    (htype : E.Contains (.reference name arguments)) (hfind : r.index.find name = [located])
    (henum : ∀ i d, E.Uses i → i.declaration.declaration = .ofEnum d →
      C.Rel A C.Value (enumReference i.declaration d) (enumReference i.declaration d))
    (hinlined : ∀ d, located.declaration = .ofAlias d →
      (Instantiation.of located arguments).isInlined = true →
      C.Resolves p q (d.type.substitute (Instantiation.of located arguments).scope))
    (hname : ∀ i, i = Instantiation.of located arguments → E.Uses i → i.referent ≠ .enum →
      C.Rel A C.Value (useName i.name i.location i.referent (r.construct p i))
        (useName i.name i.location i.referent (r.construct q i))) :
    C.Rel A C.Value (r.declared p located arguments)
      (r.declared q located arguments) := by
  have huses := E.uses_of_find htype hfind
  rw [declared_eq, declared_eq]
  -- An enum, an alias that may be inlined, or a declaration with members.
  cases hd : located.declaration with
  | ofEnum d =>
    refine henum (.of located arguments) d (huses ?_) hd
    simp [Instantiation.isInlined, Instantiation.of, hd]
  | ofAlias d =>
    dsimp only
    split
    · next hi => exact hinlined d hd hi A _
    · next hi =>
      refine hname _ rfl (huses (by simpa using hi)) ?_
      simp [Instantiation.referent, Instantiation.of, hd, Declaration.referent]
  | ofClass d | ofInterface d =>
    refine hname _ rfl (huses ?_) ?_
    · simp [Instantiation.isInlined, Instantiation.of, hd]
    · simp [Instantiation.referent, Instantiation.of, hd, Declaration.referent]

namespace Composition.Simulation

variable {C : Composition m n} {p : Parts m} {q : Parts n} (S : C.Simulation p q)
  {A : Set Handle} {α : Type}
include S

private theorem rel_ofExcept {Q : Set Handle → α → Prop} {result : Except Fault α}
    (hok : ∀ a, result = .ok a → Q A a)
    (herror : ∀ fault, result = .error fault → fault.Raised C.Missing) :
    C.Rel A Q (Resolve.ofExcept result) (Resolve.ofExcept result) := by
  cases result with
  | ok a => exact C.rel_pure (hok a rfl)
  | error fault => exact S.rel_fail (herror fault rfl)

/-! ## Members -/

variable {scope : Scope}

/-- The schema of a member is related if its type is. Without one nothing is resolved. -/
private theorem rel_memberSchema {member : Member}
    (h : ∀ type, member.type = some type → C.Resolves p q (type.substitute scope)) (hints : Hints) :
    C.Rel A C.Value (memberSchema p member scope hints)
      (memberSchema q member scope hints) := by
  unfold memberSchema
  cases htype : member.type with
  | some type => exact S.rel_inside (h type htype A hints)
  | none =>
    cases member.initializer with
    | some initializer => exact C.rel_pure ((C.forms A).initializer initializer hints)
    | none =>
      exact C.rel_bind (S.rel_warn A _) fun B _ _ _ => C.rel_pure (C.forms B).anyObject

variable {r : Resolver}

/-- A property is related if the type of its member is, unless the member is ignored. -/
private theorem rel_property {member : Member} (h : DocComment.anyTag member.doc "ignore" = false →
      ∀ type, member.type = some type → C.Resolves p q (type.substitute scope)) :
    C.Rel A (fun B property? => ∀ property ∈ property?, C.Value B property.type)
      (r.property p scope member) (r.property q scope member) := by
  unfold property
  split
  · exact C.rel_pure (by simp)
  · next hignore =>
    refine C.rel_bind (S.rel_memberSchema (h (by simpa using hignore)) _) fun B _ type htype => ?_
    refine C.rel_pure fun property hp => ?_
    obtain rfl := Option.some.inj (Option.mem_def.1 hp)
    exact htype

private theorem rel_indexValue {index : IndexSignature}
    (h : C.Resolves p q (index.valueType.substitute scope)) :
    C.Rel A C.Value (indexValue p scope index) (indexValue q scope index) := by
  unfold indexValue
  split
  · exact h A .none
  · exact S.rel_fail (by simp)

/-! ## Shapes -/

private theorem rel_shapeOfType {type : TypeExpr} (h : C.Resolves p q type) :
    C.Rel A C.Shape (shapeOfType p type) (shapeOfType q type) :=
  C.rel_bind (h A .none) fun B _ schema hs => S.rel_shapeOf B schema hs

/-- The shape of a parent is related if its members are, or else its type is. -/
private theorem rel_inheritedShape {f : Located → Scope → m ObjectShape}
    {g : Located → Scope → n ObjectShape} {chain : List String}
    {parent : TypeExpr} (hschema : r.structuralParent? parent = none → C.Resolves p q parent)
    (hstructural : ∀ other arguments, r.structuralParent? parent = some (other, arguments) →
      other.qualifiedName ∉ chain →
      C.Rel A C.Shape (f other (.bind other.declaration.typeParameters arguments))
        (g other (.bind other.declaration.typeParameters arguments))) :
    C.Rel A C.Shape (r.inheritedShape p f chain parent)
      (r.inheritedShape q g chain parent) := by
  unfold inheritedShape
  unfold structuralParent? at hschema hstructural
  split
  · next name arguments =>
    split
    · next located hfind =>
      simp only [hfind] at hschema hstructural
      split
      · next hs =>
        simp only [hs, if_true] at hstructural
        split
        · exact S.rel_fail (by simp)
        · next hchain => exact hstructural located arguments rfl (by simpa using hchain)
      -- An enum or an alias of another kind is resolved, and its shape taken.
      · next hs => exact S.rel_shapeOfType (hschema (by simp [hs]))
    · next hfind => exact S.rel_shapeOfType (hschema (by simp [hfind]))
    · exact S.rel_fail (by simp)
  · exact S.rel_fail (by simp)

/-! ## References -/

/-- A selection of properties is related if the target and the keys are. -/
private theorem rel_selectProperties {name : String} {target keys : TypeExpr} {keep : Bool}
    (htarget : C.Resolves p q target) (hkeys : C.Resolves p q keys) :
    C.Rel A C.Value (selectProperties p name target keys keep)
      (selectProperties q name target keys keep) := by
  refine C.rel_bind (S.rel_shapeOfType htarget) fun B _ shape hbefore => ?_
  refine C.rel_bind (hkeys B .none) fun D hD schema _ => ?_
  -- The shape was read before the keys were resolved.
  have hshape := C.shape_mono hD hbefore
  split
  · refine C.rel_pure ((C.forms D).shape ⟨fun property hp => ?_, fun other ho => ?_⟩)
    · exact hshape.properties property (List.mem_of_mem_filter hp)
    · cases keep with
      | true => simp at ho
      | false => exact hshape.additional other ho
  · exact S.rel_fail (by simp)

/-- A library type is related if its arguments are, unless it ignores them. -/
private theorem rel_library {name : String} {arguments : List TypeExpr} {hints : Hints}
    (hmissing : C.Missing name)
    (h : name ∉ opaqueNames → ∀ argument ∈ arguments, C.Resolves p q argument) :
    C.Rel A C.Value (library p name arguments hints)
      (library q name arguments hints) := by
  have hshape (target : TypeExpr) (change : ObjectShape → ObjectShape)
      (hchange : ∀ B shape, C.Shape B shape → C.Shape B (change shape))
      (ht : C.Resolves p q target) :
      C.Rel A C.Value
        (shapeOfType p target >>= fun shape => pure (change shape).toSchema)
        (shapeOfType q target >>= fun shape => pure (change shape).toSchema) :=
    C.rel_map (S.rel_shapeOfType ht) fun B _ shape hs =>
      (C.forms B).shape (hchange B shape hs)
  unfold library
  split
  -- Wrappers stand for their argument, collections are arrays of it.
  case h_1 | h_2 => exact h (by decide) _ (by simp) A _
  case h_3 | h_4 | h_5 =>
    exact C.rel_map (h (by decide) _ (by simp) A _) fun B _ _ => (C.forms B).array
  case h_6 => exact C.rel_pure (by split <;> exact (C.forms A).scalar (by decide) (by decide))
  -- The value of a record is resolved before its keys.
  case h_16 =>
    refine C.rel_bind (h (by decide) _ (by simp) A _) fun B _ value hvalue => ?_
    exact C.rel_map (h (by decide) _ (by simp) B _) fun D hD key _ =>
      (C.forms D).recordSchema (C.formed.mono hD hvalue)
  -- The remaining utilities change or select properties.
  case h_17 | h_18 =>
    exact hshape _ _ (fun _ _ => ObjectShape.each_require) (h (by decide) _ (by simp))
  case h_19 => exact hshape _ id (fun _ _ => id) (h (by decide) _ (by simp))
  case h_20 | h_21 =>
    exact S.rel_selectProperties (h (by decide) _ (by simp)) (h (by decide) _ (by simp))
  case h_22 => exact S.rel_fail (by simpa using hmissing)
  all_goals exact C.rel_pure ((C.forms A).scalar (by decide) (by decide))

/-- A reference is related if its declaration is, or else its arguments are. -/
private theorem rel_reference {name : String} {arguments : List TypeExpr} {hints : Hints}
    (hmissing : r.index.find name = [] → r.enumMember? name = none → C.Missing name)
    (hpieces : ∀ part, r.Piece (.reference name arguments) part → C.Resolves p q part)
    (hdeclared : ∀ located, r.index.find name = [located] →
      C.Rel A C.Value (r.declared p located arguments)
        (r.declared q located arguments)) :
    C.Rel A C.Value (r.reference p name arguments hints)
      (r.reference q name arguments hints) := by
  unfold reference
  split
  · next located hfind => exact hdeclared located hfind
  · next hfind =>
    split
    · next schema hmember =>
      obtain ⟨value, rfl⟩ := enumMember?_eq hmember
      exact C.rel_pure ((C.forms A).single value)
    -- Neither declared nor an enum member: a type of the library, or missing.
    · next hmember =>
      refine S.rel_library (hmissing hfind hmember) fun hopaque argument ha => ?_
      exact hpieces _ (.argument hfind hmember hopaque ha)
  · exact S.rel_fail (by simp)

/-! ## Lists of members -/

variable [LawfulMonad m] [LawfulMonad n]

/-- Properties are related if the types of their members are. -/
private theorem rel_properties {members : List Member}
    (h : ∀ member ∈ members, DocComment.anyTag member.doc "ignore" = false →
      ∀ type, member.type = some type → C.Resolves p q (type.substitute scope)) :
    C.Rel A (fun B properties => ∀ property ∈ properties, C.Value B property.type)
      (r.properties p scope members) (r.properties q scope members) := by
  refine C.rel_map (C.rel_mapM ?_ fun member hm B => S.rel_property (h member hm))
    fun B _ found hfound => ?_
  · exact fun hAB hfound property hp => C.formed.mono hAB (hfound property hp)
  · intro property hp
    obtain ⟨property?, hmem, hsome⟩ := List.mem_filterMap.1 hp
    exact hfound.2 property? hmem property hsome

private theorem rel_additional {indexes : List IndexSignature}
    (h : ∀ index ∈ indexes, C.Resolves p q (index.valueType.substitute scope)) :
    C.Rel A (fun B schema? => ∀ schema ∈ schema?, C.Value B schema)
      (additional p scope indexes) (additional q scope indexes) := by
  refine C.rel_map (C.rel_mapM (Q := C.Value) C.formed.mono fun index hi B =>
    S.rel_indexValue (h index hi)) fun B _ schemas hschemas => ?_
  exact fun schema hs => hschemas.2 schema (List.mem_of_getLast? hs)

/-- An object type is related if its pieces are. -/
private theorem rel_objectType {members : List TypeMember}
    (h : ∀ part, r.Piece (.object members) part → C.Resolves p q part) :
    C.Rel A C.Value (r.objectType p members) (r.objectType q members) := by
  refine C.rel_bind (S.rel_properties fun member hm hignore type htype =>
    h _ (.member hm hignore htype)) fun B _ properties hproperties => ?_
  refine C.rel_map (S.rel_additional fun index hi => h _ (.index hi))
    fun D hD schema? hschema? => ?_
  have hshape : C.Shape D ⟨properties, schema?⟩ :=
    ⟨fun property hp => C.formed.mono hD (hproperties property hp), hschema?⟩
  exact (C.forms D).shape hshape

/-- The shape of a declaration is related if the types that it needs are. -/
private theorem rel_structuralShape {links : Nat} {chain : List String} {located : Located}
    (hchain : Chain r links chain) (hd : located ∈ r.index.declarations)
    (hnew : located.qualifiedName ∉ chain)
    (h : ∀ part, r.Needs links located scope part → C.Resolves p q part) :
    C.Rel A C.Shape (r.structuralShape p links chain located scope)
      (r.structuralShape q links chain located scope) := by
  induction links generalizing A chain located scope with
  | zero =>
    -- A chain of different declarations is never so long that no link is left.
    exact absurd hchain.links_pos (by omega)
  | succ links ih =>
    have hchain' := hchain.append hd hnew
    unfold structuralShape
    refine C.rel_bind (C.rel_foldlM (Q := C.Shape) ObjectShape.each_empty ?_)
      fun B _ inherited hinherited => ?_
    · intro parent hparent B shape hshape
      refine C.rel_map (S.rel_inheritedShape ?_ ?_) fun D hD other hother =>
        ObjectShape.each_inherit (C.shape_mono hD hshape) hother
      · exact fun hnone => h _ (.parent hparent hnone)
      -- A parent with members has the declaration before it in its chain, which has one link less.
      · intro other arguments hsome hnot
        exact ih hchain' (mem_of_structuralParent? hsome) hnot fun part hpart =>
          h part (.inherited hparent hsome hpart)
    · refine C.rel_bind (S.rel_properties fun member hm hignore type htype =>
        h _ (.member hm hignore htype)) fun D hD own hown => ?_
      refine C.rel_bind (S.rel_additional fun index hi => h _ (.index hi))
        fun F hF schema? hschema? => ?_
      -- Own properties come after the inherited ones, whose handles are still known.
      have hbefore := C.shape_mono (hD.trans hF) hinherited
      refine C.rel_pure ⟨?_, fun schema hs => ?_⟩
      · refine ObjectShape.each_foldl_addOwn hbefore.properties fun property hp => ?_
        exact C.formed.mono hF (hown property hp)
      · rcases Option.or_eq_some_iff.1 hs with hs | ⟨_, hs⟩
        · exact hschema? schema hs
        · exact hbefore.additional schema hs

/-! ## Declarations -/

/-- An entry is related if the types that it needs are. -/
theorem rel_construct {i : Instantiation} (hi : i.declaration ∈ r.index.declarations)
    (h : ∀ part, r.Requires i part → C.Resolves p q part) :
    C.Rel A (fun B => i.EntryOf (C.Value B)) (r.construct p i) (r.construct q i) := by
  -- Classes and interfaces are constructed in the same way, from the shape of their members.
  have hobject (d : Declaration) (href : i.referent = .object) :
      C.Rel A (fun B => i.EntryOf (C.Value B))
        (r.structuralShape p r.index.maxChain [] i.declaration i.scope >>=
          fun shape => pure (r.objectEntry d i.name shape))
        (r.structuralShape q r.index.maxChain [] i.declaration i.scope >>=
          fun shape => pure (r.objectEntry d i.name shape)) := by
    refine C.rel_map (S.rel_structuralShape (Chain.nil r) hi (by simp) h) fun B _ shape hshape => ?_
    exact ⟨rfl, href.symm, hshape⟩
  unfold construct
  cases hd : i.declaration.declaration with
  | ofEnum d =>
    refine C.rel_pure ⟨rfl, ?_, trivial⟩
    simp [enumEntry, ReferenceShape.referent, Instantiation.referent, hd, Declaration.referent]
  | ofAlias d =>
    refine C.rel_map (h _ (.target hd) A _) fun B _ target htarget => ⟨rfl, ?_, htarget⟩
    simp [aliasEntry, ReferenceShape.referent, Instantiation.referent, hd, Declaration.referent]
  | ofClass d => exact hobject _ (by simp [Instantiation.referent, hd, Declaration.referent])
  | ofInterface d => exact hobject _ (by simp [Instantiation.referent, hd, Declaration.referent])

/-- A type is related if its pieces are and the declaration that it names is. -/
theorem rel_step {type : TypeExpr} {hints : Hints}
    (hmissing : ∀ name arguments, type = .reference name arguments → r.index.find name = [] →
      r.enumMember? name = none → C.Missing name)
    (hempty : type = .intersection [] → ∀ B, C.Value B (intersectionSchema []))
    (hpieces : ∀ part, r.Piece type part → C.Resolves p q part)
    (hdeclared : ∀ name arguments located, type = .reference name arguments →
      r.index.find name = [located] →
      C.Rel A C.Value (r.declared p located arguments)
        (r.declared q located arguments)) :
    C.Rel A C.Value (r.step p type hints) (r.step q type hints) := by
  unfold step
  -- One case for each form of type; the parts of it are related by assumption.
  cases type with
  | keyword word =>
    refine S.rel_ofExcept (fun schema h => (C.forms A).keyword h) ?_
    cases word <;> simp [Keyword.schema]
  | literal value => exact C.rel_pure ((C.forms A).single _)
  | array element => exact C.rel_map (hpieces _ .array A _) fun B _ _ => (C.forms B).array
  | tuple elements => exact C.rel_tuple (fun type ht => hpieces _ (.tuple ht)) hints
  | intersection members =>
    refine C.rel_intersection (fun hnil => hempty (hnil ▸ rfl)) fun type ht => ?_
    exact hpieces _ (.intersection ht)
  | object members => exact S.rel_objectType hpieces
  | union members =>
    exact S.rel_union A members hints fun type ht B => hpieces _ (.union ht) B hints
  | reference name arguments =>
    exact S.rel_reference (hmissing name arguments rfl) hpieces fun located =>
      hdeclared name arguments located rfl
  | unsupported text => exact S.rel_fail (by simp)

end Composition.Simulation

/-! ## Resolution -/

namespace Composition

variable {C : Composition Resolve Resolve} {r : Resolver} {E : Region r} {K : Nat → Nat → Prop}

/-- A relation holds for resolution in a region, with bounds related by `K`, if it holds for the two
ways in which a name is used: that of an enum, and that of a type whose construction is related. -/
theorem resolves_of_uses
    (hmissing : ∀ name arguments, E.Contains (.reference name arguments) →
      r.index.find name = [] → r.enumMember? name = none → C.Missing name)
    (hempty : E.Contains (.intersection []) → ∀ B, C.Value B (intersectionSchema []))
    (S : ∀ m n, K m n → C.Simulation (E.resolveWithin m) (E.resolveWithin n))
    (hpred : ∀ m n, K (m + 1) (n + 1) → K m n)
    (hzero : ∀ m n, K m n → m = 0 ∨ n = 0 → ∀ type,
      C.Resolves (E.resolveWithin m) (E.resolveWithin n) type)
    (henum : ∀ i d, E.Uses i → i.declaration.declaration = .ofEnum d → ∀ A,
      C.Rel A C.Value (enumReference i.declaration d) (enumReference i.declaration d))
    (hname : ∀ m n i, K m n → E.Uses i → i.referent ≠ .enum →
      (∀ m', K m' n → ∀ A, C.Rel A (fun B => i.EntryOf (C.Value B))
        (r.construct (E.resolveWithin m') i) (r.construct (E.resolveWithin n) i)) → ∀ A,
      C.Rel A C.Value
        (useName i.name i.location i.referent (r.construct (E.resolveWithin m) i))
        (useName i.name i.location i.referent (r.construct (E.resolveWithin n) i)))
    {m n : Nat} (hK : K m n) (type : TypeExpr) :
    C.Resolves (E.resolveWithin m) (E.resolveWithin n) type := by
  -- The induction is on the second bound, for all first bounds at once: a construction of the
  -- second run may be compared with one that the first run has made under another bound.
  induction n generalizing m type with
  | zero => exact hzero m 0 hK (.inr rfl) type
  | succ n ih =>
    cases m with
    | zero => exact hzero 0 (n + 1) hK (.inl rfl) type
    | succ m =>
      have hK' := hpred m n hK
      intro A hints
      by_cases htype : E.Contains type
      case neg =>
        rw [E.resolveWithin_of_not_contains htype, E.resolveWithin_of_not_contains htype]
        exact (S m n hK').rel_fail (by simp)
      rw [E.resolveWithin_of_contains htype, E.resolveWithin_of_contains htype]
      refine (S m n hK').rel_step ?_ (fun heq => hempty (heq ▸ htype))
        (fun part _ => ih hK' part) ?_
      · rintro name arguments rfl
        exact hmissing name arguments htype
      rintro name arguments located rfl hfind
      refine C.rel_declared E htype hfind ?_ ?_ ?_
      · exact fun i d hi hd => henum i d hi hd A
      · exact fun d hd _ => ih hK' _
      · rintro i rfl hi hreferent
        refine hname m n _ hK' hi hreferent (fun m' hm' B => ?_) A
        exact (S m' n hm').rel_construct hi.declared fun part _ => ih hm' part

/-- A relation of runs with the same bound. -/
theorem resolves_of_same
    (hmissing : ∀ name arguments, E.Contains (.reference name arguments) →
      r.index.find name = [] → r.enumMember? name = none → C.Missing name)
    (hempty : E.Contains (.intersection []) → ∀ B, C.Value B (intersectionSchema []))
    (S : ∀ n, C.Simulation (E.resolveWithin n) (E.resolveWithin n))
    (hzero : ∀ type, C.Resolves (E.resolveWithin 0) (E.resolveWithin 0) type)
    (henum : ∀ i d, E.Uses i → i.declaration.declaration = .ofEnum d → ∀ A,
      C.Rel A C.Value (enumReference i.declaration d) (enumReference i.declaration d))
    (hname : ∀ n i, E.Uses i → i.referent ≠ .enum → ∀ A,
      C.Rel A (fun B => i.EntryOf (C.Value B)) (r.construct (E.resolveWithin n) i)
        (r.construct (E.resolveWithin n) i) →
      C.Rel A C.Value (useName i.name i.location i.referent (r.construct (E.resolveWithin n) i))
        (useName i.name i.location i.referent (r.construct (E.resolveWithin n) i)))
    (n : Nat) (type : TypeExpr) : C.Resolves (E.resolveWithin n) (E.resolveWithin n) type := by
  refine resolves_of_uses (K := Eq) hmissing hempty ?_ (fun _ _ => Nat.succ.inj) ?_ henum ?_ rfl
    type
  · rintro n _ rfl
    exact S n
  · rintro n _ rfl (rfl | rfl) type <;> exact hzero type
  · rintro n _ i rfl hi hreferent hconstruct A
    exact hname n i hi hreferent A (hconstruct n rfl A)

end Composition

end Endpoints
