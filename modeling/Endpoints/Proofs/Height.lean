import Endpoints.Proofs.Instantiation

/-!
# Heights of types

How high a type can be that is resolved on the way. Its pieces are lower than a type; the types that
its declaration requires are higher by no more than the declarations in a chain of inheritance are
high together.
-/

namespace Endpoints

open TypeExpr

/-- One of several measures is at most their total. -/
private theorem le_total {α : Type} (measure : α → Nat) {items : List α} {item : α}
    (h : item ∈ items) :
    measure item ≤ total measure items := by
  induction items with
  | nil => exact nomatch h
  | cons first items ih =>
    rw [total]
    rcases List.mem_cons.1 h with rfl | h
    · omega
    · have := ih h
      omega

/-- None of several types is higher than they are together. -/
private theorem height_le_typesHeight {types : List TypeExpr} {type : TypeExpr} (h : type ∈ types) :
    type.height ≤ typesHeight types := by
  induction types with
  | nil => exact nomatch h
  | cons first types ih =>
    rw [typesHeight]
    rcases List.mem_cons.1 h with rfl | h
    · omega
    · have := ih h
      omega

/-- No member is higher than the members are together. -/
private theorem height_le_membersHeight {members : List TypeMember} {member : TypeMember}
    (h : member ∈ members) : member.height ≤ membersHeight members := by
  induction members with
  | nil => exact nomatch h
  | cons first members ih =>
    rw [membersHeight]
    rcases List.mem_cons.1 h with rfl | h
    · omega
    · have := ih h
      omega

/-! ## Substitution -/

/-- No type in the scope is higher. -/
def Scope.HeightLe (scope : Scope) (height : Nat) : Prop :=
  ∀ name type, scope.get? name = some type → type.height ≤ height

theorem Scope.heightLe_empty : Scope.HeightLe .empty 0 := fun _ _ h => nomatch h

theorem Scope.HeightLe.mono {scope : Scope} {h h' : Nat} (hscope : scope.HeightLe h)
    (hle : h ≤ h') :
    scope.HeightLe h' :=
  fun name type htype => (hscope name type htype).trans hle

/-- A scope stays below a bound if the type that it gets does. -/
private theorem Scope.HeightLe.insert {scope : Scope} {h : Nat} (hscope : scope.HeightLe h)
    (name : String)
    {type : TypeExpr} (htype : type.height ≤ h) : Scope.HeightLe (scope.insert name type) h := by
  intro other found hfound
  rw [Dict.get?_insert] at hfound
  split at hfound
  · exact Option.some.inj hfound ▸ htype
  · exact hscope other found hfound

section Substitute

variable {scope : Scope} {h : Nat}

mutual

/-- A substitution adds the height of its scope. -/
theorem TypeExpr.height_substitute_le (hscope : scope.HeightLe h) (type : TypeExpr) :
    (type.substitute scope).height ≤ type.height + h := by
  match type with
  -- Only here a type of the scope is put in, and only where no arguments are given.
  | .reference name [] =>
    simp only [substitute]
    cases hbound : scope.get? name with
    | none => simp only [Option.getD_none]; omega
    | some bound =>
      have := hscope name bound hbound
      simp only [Option.getD_some]
      omega
  | .reference name (first :: rest) =>
    have := typesHeight_substitute_le hscope (first :: rest)
    simp only [substitute, height, substituteList] at this ⊢
    omega
  | .array element =>
    have := element.height_substitute_le hscope
    simp only [substitute, height]
    omega
  | .tuple elements =>
    have := typesHeight_substitute_le hscope elements
    simp only [substitute, height]
    omega
  | .union members =>
    have := typesHeight_substitute_le hscope members
    simp only [substitute, height]
    omega
  | .intersection members =>
    have := typesHeight_substitute_le hscope members
    simp only [substitute, height]
    omega
  | .object members =>
    have := membersHeight_substitute_le hscope members
    simp only [substitute, height]
    omega
  | .keyword _ | .literal _ | .unsupported _ => simp [substitute, height]

/-- `TypeExpr.height_substitute_le` for several types. -/
private theorem typesHeight_substitute_le (hscope : scope.HeightLe h) (types : List TypeExpr) :
    typesHeight (substituteList scope types) ≤ typesHeight types + h := by
  match types with
  | [] => simp [substituteList, typesHeight]
  | type :: types =>
    have hfirst := type.height_substitute_le hscope
    have hrest := typesHeight_substitute_le hscope types
    simp only [substituteList, typesHeight]
    omega

/-- `TypeExpr.height_substitute_le` for a member of an object type. -/
theorem TypeMember.height_substitute_le (hscope : scope.HeightLe h) (member : TypeMember) :
    (member.substitute scope).height ≤ member.height + h := by
  match member with
  | .property name none optional readonly doc =>
    simp [TypeMember.substitute, TypeMember.height, substitute?, typeHeight?]
  | .property name (some type) optional readonly doc =>
    have := type.height_substitute_le hscope
    simpa only [TypeMember.substitute, TypeMember.height, substitute?, typeHeight?] using this
  | .method name => simp [TypeMember.substitute, TypeMember.height]
  | .index keyName keyType valueType =>
    have := valueType.height_substitute_le hscope
    simpa only [TypeMember.substitute, TypeMember.height] using this

/-- `TypeExpr.height_substitute_le` for the members of an object type. -/
private theorem membersHeight_substitute_le (hscope : scope.HeightLe h)
    (members : List TypeMember) :
    membersHeight (substituteMembers scope members) ≤ membersHeight members + h := by
  match members with
  | [] => simp [substituteMembers, membersHeight]
  | member :: members =>
    have hfirst := member.height_substitute_le hscope
    have hrest := membersHeight_substitute_le hscope members
    simp only [substituteMembers, membersHeight]
    omega

end

/-- The height that the defaults of type parameters can add. -/
def defaultsHeight (parameters : List TypeParameter) : Nat :=
  total (fun p => typeHeight? p.default) parameters

/-- The scope of a declaration: arguments, and defaults in the scope so far. -/
private theorem Scope.heightLe_extend (hscope : scope.HeightLe h) (parameters : List TypeParameter)
    {arguments : List TypeExpr} (harguments : typesHeight arguments ≤ h) :
    (Scope.extend scope parameters arguments).HeightLe (h + defaultsHeight parameters) := by
  induction parameters generalizing scope h arguments with
  | nil =>
    rw [Scope.extend]
    exact hscope.mono (by omega)
  | cons parameter parameters ih =>
    cases arguments with
    | nil =>
      -- A default may use the parameters before it, so its height adds up with theirs.
      have hdefault : (Scope.defaultOf scope parameter).height ≤
          h + typeHeight? parameter.default := by
        unfold Scope.defaultOf
        cases parameter.default with
        | none => simp [height]
        | some type =>
          have := type.height_substitute_le hscope
          simp only [typeHeight?]
          omega
      have hinsert := (hscope.mono (by omega : h ≤ h + typeHeight? parameter.default)).insert
        parameter.name hdefault
      rw [Scope.extend]
      refine (ih hinsert (Nat.zero_le _)).mono ?_
      simp only [defaultsHeight, total]
      omega
    | cons argument arguments =>
      rw [typesHeight] at harguments
      rw [Scope.extend]
      refine (ih (hscope.insert parameter.name (by omega)) (by omega)).mono ?_
      simp only [defaultsHeight, total]
      omega

private theorem Scope.heightLe_bind (parameters : List TypeParameter) (arguments : List TypeExpr) :
    (Scope.bind parameters arguments).HeightLe
      (typesHeight arguments + defaultsHeight parameters) :=
  Scope.heightLe_extend (Scope.heightLe_empty.mono (Nat.zero_le _)) parameters le_rfl

end Substitute

/-! ## Parts -/

/-- An alias that is replaced stands for a literal or for a union of them. -/
theorem TypeExpr.height_le_of_isLiteralUnion {type : TypeExpr} (h : type.isLiteralUnion = true) :
    type.height ≤ 1 := by
  unfold isLiteralUnion at h
  split at h
  · simp [height]
  · next members =>
    simp only [Bool.and_eq_true, List.all_eq_true] at h
    -- All members are literals or keywords, which have no levels.
    have hmembers : typesHeight members = 0 := by
      have hall := h.2
      clear h
      induction members with
      | nil => rfl
      | cons member members ih =>
        have hfirst := hall member List.mem_cons_self
        have hrest := ih fun other ho => hall other (List.mem_cons_of_mem _ ho)
        rw [typesHeight, hrest]
        split at hfirst
        · rfl
        · rfl
        · rfl
        · exact nomatch hfirst
    simp [height, hmembers]
  · exact nomatch h

private theorem typeHeight_member? {member : TypeMember} {found : Member}
    (h : member.member? = some found) :
    typeHeight? found.type = member.height := by
  unfold TypeMember.member? at h
  split at h
  · rw [← Option.some.inj h, TypeMember.height]
  · exact nomatch h

private theorem height_indexSignature? {member : TypeMember} {index : IndexSignature}
    (h : member.indexSignature? = some index) : index.valueType.height = member.height := by
  unfold TypeMember.indexSignature? at h
  split at h
  · rw [← Option.some.inj h, TypeMember.height]
  · exact nomatch h

namespace Resolver

variable {r : Resolver}

/-- Pieces are lower. -/
theorem Piece.height_lt {type part : TypeExpr} (h : r.Piece type part) :
    part.height < type.height := by
  cases h with
  | array =>
    rw [height]
    omega
  | tuple hmem | union hmem | intersection hmem =>
    have := height_le_typesHeight hmem
    rw [height]
    omega
  | argument _ _ _ hmem =>
    have := height_le_typesHeight hmem
    rw [height]
    omega
  -- A member is substituted with the empty scope, which adds nothing.
  | @member _ found type hmem _ htype =>
    obtain ⟨member, hmember, hfound⟩ := List.mem_filterMap.1 hmem
    have hle := height_le_membersHeight hmember
    have heq := typeHeight_member? hfound
    have hsubst := type.height_substitute_le Scope.heightLe_empty
    rw [htype, typeHeight?] at heq
    rw [height]
    omega
  | @index _ index hmem =>
    obtain ⟨member, hmember, hfound⟩ := List.mem_filterMap.1 hmem
    have hle := height_le_membersHeight hmember
    have heq := height_indexSignature? hfound
    have hsubst := index.valueType.height_substitute_le Scope.heightLe_empty
    rw [height]
    omega

private theorem height_le_index {d : Located} (h : d ∈ r.index.declarations) :
    d.declaration.height ≤ r.index.height :=
  le_total (fun d : Located => d.declaration.height) h

/-- The parent that `structuralParent?` takes apart. -/
private theorem typesHeight_structuralParent? {parent : TypeExpr} {other : Located}
    {arguments : List TypeExpr} (h : r.structuralParent? parent = some (other, arguments)) :
    typesHeight arguments ≤ parent.height := by
  unfold structuralParent? at h
  split at h
  · split at h
    · split at h
      · obtain ⟨rfl, rfl⟩ := Prod.mk.inj (Option.some.inj h)
        rw [height]
        omega
      · exact nomatch h
    · exact nomatch h
  · exact nomatch h

/-- The types that a chain of declarations needs are higher than the arguments of the first one by
what the declarations contain. -/
theorem Needs.height_le {links : Nat} {d : Located} {scope : Scope} {part : TypeExpr}
    (h : r.Needs links d scope part) (hd : d ∈ r.index.declarations) {height : Nat}
    (hscope : scope.HeightLe (height + defaultsHeight d.declaration.typeParameters)) :
    part.height ≤ height + links * r.index.height := by
  -- Along the chain: each link adds the height of one declaration, which is at most that of all.
  induction h generalizing height with
  | @target links d scope a ha =>
    have hsubst := a.type.height_substitute_le hscope
    have hindex := height_le_index hd
    simp only [Declaration.height, ha] at hindex
    rw [ha, defaultsHeight] at hsubst
    rw [Nat.succ_mul]
    omega
  | @member links d scope member type hmember _ htype =>
    have hsubst := type.height_substitute_le hscope
    have hindex := height_le_index hd
    have hle := le_total (fun m : Member => typeHeight? m.type) hmember
    simp only [htype, typeHeight?] at hle
    simp only [Declaration.height] at hindex
    rw [defaultsHeight] at hsubst
    rw [Nat.succ_mul]
    omega
  | @index links d scope index hmem =>
    have hsubst := index.valueType.height_substitute_le hscope
    have hindex := height_le_index hd
    have hle := le_total (fun i : IndexSignature => i.valueType.height) hmem
    simp only [Declaration.height] at hindex
    rw [defaultsHeight] at hsubst
    rw [Nat.succ_mul]
    omega
  | @parent links d scope parent hmem _ =>
    have hsubst := parent.height_substitute_le hscope
    have hindex := height_le_index hd
    have hle := le_total (fun t : TypeExpr => t.height) hmem
    simp only [Declaration.height] at hindex
    rw [defaultsHeight] at hsubst
    rw [Nat.succ_mul]
    omega
  | @inherited links d other scope parent part arguments hmem hparent _ ih =>
    have hsubst := parent.height_substitute_le hscope
    have hindex := height_le_index hd
    have hle := le_total (fun t : TypeExpr => t.height) hmem
    have harguments := typesHeight_structuralParent? hparent
    -- The arguments for the parent are bound anew, so the rest of the chain starts from their
    -- height.
    have hrest := ih (mem_of_structuralParent? hparent) (Scope.heightLe_bind _ _)
    simp only [Declaration.height] at hindex
    rw [defaultsHeight] at hsubst
    rw [Nat.succ_mul]
    omega

theorem Requires.height_le {d : Located} {arguments : List TypeExpr} {part : TypeExpr}
    (h : r.Requires (.of d arguments) part) (hd : d ∈ r.index.declarations) :
    part.height ≤ typesHeight arguments + r.index.maxChain * r.index.height :=
  Needs.height_le h hd (Scope.heightLe_bind _ _)

end Resolver

end Endpoints
