import Endpoints.Program.Index
import Endpoints.Proofs.ForStd

/-!
# What the index holds

`Index.ofProgram` walks through the statements of all files and fills three things on the way: the
table `Index.declarations`, the map `Index.byName` from names to positions in the table, and the
list `Index.classes`. The invariant `Index.Consistent` says how the three belong together. Every
declaration that is added keeps it, so it holds of the index of a program, and `Index.find`, which
goes through the map, gives what a search through the whole table would give.
-/

namespace Endpoints

/-- What a declaration contributes to `Index.classes`: a class with at most one namespace around
it. -/
def Located.class? (d : Located) : Option (ClassDecl × String) :=
  match d.declaration with
  | .ofClass c => if d.depth ≤ 1 then some (c, d.file) else none
  | _ => none

namespace Index

variable {index : Index} {file : String} {outer : Option String} {depth : Nat}

/-! ## The declarations of statements -/

/-- The entry of the table that `Index.add` makes of a declaration. -/
def locate (file : String) (outer : Option String) (depth : Nat) (declaration : Declaration) :
    Located :=
  { declaration, qualifiedName := qualify outer declaration.name, file, depth }

mutual

/-- The declarations of a statement, in the order of the source text. -/
def ofStatement (file : String) (outer : Option String) (depth : Nat) : Statement → List Located
  | .classDecl d => [locate file outer depth (.ofClass d)]
  | .interfaceDecl d => [locate file outer depth (.ofInterface d)]
  | .aliasDecl d => [locate file outer depth (.ofAlias d)]
  | .enumDecl d => [locate file outer depth (.ofEnum d)]
  | .namespaceDecl name _ statements =>
    ofStatements file (some (qualify outer name)) (depth + 1) statements

def ofStatements (file : String) (outer : Option String) (depth : Nat) :
    List Statement → List Located
  | [] => []
  | statement :: statements =>
    ofStatement file outer depth statement ++ ofStatements file outer depth statements

end

/-! ## One declaration -/

@[simp] theorem declarations_enter (index : Index) (name : String) (position : Nat) :
    (index.enter name position).declarations = index.declarations := rfl

@[simp] theorem classes_enter (index : Index) (name : String) (position : Nat) :
    (index.enter name position).classes = index.classes := rfl

private theorem positions_enter (index : Index) (name key : String) (position : Nat) :
    (index.enter name position).positions key =
      index.positions key ++ if key = name then [position] else [] := by
  rw [enter, positions, Dict.get?_insert]
  split
  · next heq => rw [heq]; rfl
  · rw [List.append_nil]; rfl

@[simp] theorem declarations_add (index : Index) (d : Declaration) :
    (index.add file outer depth d).declarations =
      index.declarations ++ [locate file outer depth d] := by
  simp only [add]
  split <;> split <;> rfl

@[simp] theorem classes_add (index : Index) (d : Declaration) :
    (index.add file outer depth d).classes = index.classes := by
  simp only [add]
  split <;> split <;> rfl

/-- `Index.add` enters the position once under each of `Located.names`, also where the qualified
name is the own name. -/
private theorem positions_add (index : Index) (d : Declaration) (key : String) :
    (index.add file outer depth d).positions key =
      index.positions key ++ if key ∈ (locate file outer depth d).names
        then [index.declarations.length] else [] := by
  have hfields : ∀ other : Index, ∀ more,
      ({ other with declarations := more } : Index).positions key = other.positions key :=
    fun _ _ => rfl
  rw [add, hfields]
  by_cases hqualified : qualify outer d.name = d.name
  · -- At the top of a file the two names are one.
    rw [if_neg (not_not.2 hqualified)]
    by_cases hdepth : depth ≤ 1 <;>
      simp [positions_enter, Located.names, locate, hqualified, hdepth]
  · rw [if_pos hqualified, positions_enter]
    by_cases hdepth : depth ≤ 1
    · -- The key is at most one of the two names.
      by_cases hown : key = d.name
      · have hother : ¬ key = qualify outer d.name := fun h => hqualified (h.symm.trans hown)
        simp [positions_enter, Located.names, locate, hqualified, hdepth, hown,
          Ne.symm hqualified]
      · simp [positions_enter, Located.names, locate, hqualified, hdepth, hown]
    · simp [Located.names, locate, hqualified, hdepth]

/-! ## The invariant of the walk -/

/-- The positions in the table at which a declaration with the name stands. -/
def positionsOf (declarations : List Located) (name : String) : List Nat :=
  (List.range declarations.length).filter fun position =>
    (declarations[position]?).any fun d => d.names.contains name

/-- The map and the list of classes belong to the table: a name leads to the positions of the
declarations that have it, in increasing order, and the classes are those of the table. -/
structure Consistent (index : Index) : Prop where
  positions (name : String) : index.positions name = positionsOf index.declarations name
  classes : index.classes = index.declarations.filterMap (·.class?)

/-- A declaration at the end of the table comes last among the positions of its names. -/
private theorem positionsOf_concat (declarations : List Located) (d : Located) (name : String) :
    positionsOf (declarations ++ [d]) name =
      positionsOf declarations name ++ if name ∈ d.names then [declarations.length] else [] := by
  rw [positionsOf, positionsOf, List.length_append, List.length_singleton, List.range_succ,
    List.filter_append]
  congr 1
  · -- The positions before the end see the same declarations.
    refine List.filter_congr fun position hposition => ?_
    rw [List.getElem?_append_left (List.mem_range.1 hposition)]
  · by_cases hname : name ∈ d.names <;> simp [hname]

/-- Adding a declaration keeps the index consistent, once its class is among the classes. -/
private theorem Consistent.add {d : Declaration} {classes : List (ClassDecl × String)}
    (h : index.Consistent)
    (hclasses : classes = index.classes ++ ((locate file outer depth d).class?).toList) :
    (({ index with classes := classes } : Index).add file outer depth d).Consistent where
  positions name := by
    rw [positions_add, declarations_add, positionsOf_concat, ← h.positions]
    rfl
  classes := by
    rw [classes_add, declarations_add, List.filterMap_append, ← h.classes, hclasses]
    cases hclass : (locate file outer depth d).class? <;> simp [hclass]

/-! ## The walk -/

/-- The index is consistent and its table has been extended by the given declarations. -/
private structure Extended (index : Index) (more : List Located) (index' : Index) : Prop where
  consistent : index.Consistent → index'.Consistent
  declarations : index'.declarations = index.declarations ++ more

private theorem Extended.trans {index index' index'' : Index} {more more' : List Located}
    (h : Extended index more index') (h' : Extended index' more' index'') :
    Extended index (more ++ more') index'' :=
  ⟨fun hindex => h'.consistent (h.consistent hindex),
    by rw [h'.declarations, h.declarations, List.append_assoc]⟩

private theorem extended_add {d : Declaration}
    (hclass : (locate file outer depth d).class? = none) :
    Extended index [locate file outer depth d] (index.add file outer depth d) := by
  have hclasses : index.classes = index.classes ++ ((locate file outer depth d).class?).toList := by
    rw [hclass]
    exact (List.append_nil _).symm
  exact ⟨fun h => h.add hclasses, declarations_add index d⟩

/-- A class is added to the classes as well, unless it is too deep. -/
private theorem extended_addClass (index : Index) (d : ClassDecl) :
    Extended index [locate file outer depth (.ofClass d)]
      ((index.addClass file depth d).add file outer depth (.ofClass d)) := by
  by_cases hdepth : depth ≤ 1
  · have hindex : index.addClass file depth d =
        { index with classes := index.classes ++ [(d, file)] } := if_pos hdepth
    refine ⟨fun h => hindex ▸ h.add ?_, by rw [declarations_add, hindex]⟩
    simp [Located.class?, locate, hdepth]
  · have hindex : index.addClass file depth d = index := if_neg hdepth
    rw [hindex]
    exact extended_add (by simp [Located.class?, locate, hdepth])

mutual

/-- `Index.addStatement` extends the index by the declarations of the statement. -/
private theorem extended_addStatement (file : String) (outer : Option String) (depth : Nat)
    (index : Index) : ∀ statement : Statement,
    Extended index (ofStatement file outer depth statement)
      (index.addStatement file outer depth statement)
  | .classDecl d => by
    rw [addStatement, ofStatement]
    exact extended_addClass index d
  | .interfaceDecl _ | .aliasDecl _ | .enumDecl _ => by
    rw [addStatement, ofStatement]
    exact extended_add rfl
  | .namespaceDecl name _ statements => by
    rw [addStatement, ofStatement]
    exact extended_addStatements file (some (qualify outer name)) (depth + 1) index statements

/-- `Index.addStatements` extends the index by the declarations of the statements. -/
private theorem extended_addStatements (file : String) (outer : Option String) (depth : Nat)
    (index : Index) : ∀ statements : List Statement,
      Extended index (ofStatements file outer depth statements)
        (index.addStatements file outer depth statements)
  | [] => by
    rw [addStatements, ofStatements]
    exact ⟨id, (List.append_nil _).symm⟩
  | statement :: statements => by
    rw [addStatements, ofStatements]
    exact (extended_addStatement file outer depth index statement).trans
      (extended_addStatements file outer depth _ statements)

end

/-- Walking through the files of a program, from any index. -/
private theorem extended_foldl (program : Program) (index : Index) :
    Extended index
      (program.flatMap fun file => ofStatements file.path none 0 file.content.statements)
      (program.foldl (fun index file => index.addStatements file.path none 0
        file.content.statements) index) := by
  induction program generalizing index with
  | nil => exact ⟨id, (List.append_nil _).symm⟩
  | cons file program ih =>
    exact (extended_addStatements file.path none 0 index file.content.statements).trans (ih _)

theorem declarations_ofProgram (program : Program) :
    (ofProgram program).declarations =
      program.flatMap fun file => ofStatements file.path none 0 file.content.statements :=
  (extended_foldl program empty).declarations

theorem consistent_ofProgram (program : Program) : (ofProgram program).Consistent :=
  (extended_foldl program empty).consistent ⟨fun _ => rfl, rfl⟩

/-! ## Looking up -/

theorem Consistent.find_eq (h : index.Consistent) (name : String) :
    index.find name = index.declarations.filter fun d => d.names.contains name := by
  rw [find, h.positions]
  exact List.filterMap_filter_range index.declarations fun d => d.names.contains name

theorem Consistent.positions_lt (h : index.Consistent) {name : String} {position : Nat}
    (hposition : position ∈ index.positions name) : position < index.declarations.length := by
  rw [h.positions] at hposition
  exact List.mem_range.1 (List.mem_of_mem_filter hposition)

end Index

end Endpoints
