import Endpoints.Proofs.IndexTable
import Endpoints.Proofs.Listing

/-!
# Looking up names

A place in a program is the number of a file, the number of a statement in it and, inside
namespaces, the numbers of the statements on the way down. Two declarations may be alike in all that
is written, so it is their places that tell them apart, and the order of the places is that of the
files and then of the source text. The index is described by what stands at the places: a name finds
the declarations that it is the name of, at each place once and in the order of the places.
-/

namespace Endpoints

/-! ## Places -/

/-- The declaration that a statement is; a namespace is none. -/
def Statement.declaration? : Statement → Option Declaration
  | classDecl d => some (.ofClass d)
  | interfaceDecl d => some (.ofInterface d)
  | aliasDecl d => some (.ofAlias d)
  | enumDecl d => some (.ofEnum d)
  | namespaceDecl .. => none

/-- The declaration at a place below a statement, with the names of the namespaces around it,
outermost first. -/
def Statement.declaredAt? : Statement → List Nat → Option (List String × Declaration)
  | namespaceDecl name _ statements, number :: place => do
    let statement ← statements[number]?
    let (namespaces, d) ← statement.declaredAt? place
    return (name :: namespaces, d)
  | statement, [] => statement.declaration?.map ([], ·)
  | _, _ => none

private theorem Statement.declaredAt?_of_declaration {statement : Statement} {d : Declaration}
    (h : statement.declaration? = some d) (place : List Nat) :
    statement.declaredAt? place = if place = [] then some ([], d) else none := by
  cases statement with
  | namespaceDecl => cases h
  | _ => cases place <;> simp [declaredAt?, h]

/-- `Statement.declaredAt?` of a namespace leads to one of its statements. -/
private theorem Statement.declaredAt?_namespaceDecl {name : String} {line : Nat}
    {statements : List Statement} {place : List Nat} {namespaces : List String} {d : Declaration} :
    (namespaceDecl name line statements).declaredAt? place = some (namespaces, d) ↔
      ∃ number rest statement inner, place = number :: rest ∧
        statements[number]? = some statement ∧ statement.declaredAt? rest = some (inner, d) ∧
          namespaces = name :: inner := by
  cases place with
  | nil => simp [declaredAt?, declaration?]
  -- The first number of a place is that of a statement in the namespace.
  | cons number rest =>
    simp only [declaredAt?, Option.bind_eq_bind, Option.bind_eq_some_iff]
    constructor
    · rintro ⟨statement, hnumber, ⟨inner, _⟩, hdeclared, ⟨⟩⟩
      exact ⟨number, rest, statement, inner, rfl, hnumber, hdeclared, rfl⟩
    · rintro ⟨_, _, statement, inner, ⟨⟩, hnumber, hdeclared, rfl⟩
      exact ⟨statement, hnumber, (inner, d), hdeclared, rfl⟩

/-- The declaration at a place of a program: the number of the file, that of the statement and the
place below it. -/
def Program.declaredAt? (program : Program) : List Nat → Option Located
  | fileNumber :: number :: place => do
    let file ← program[fileNumber]?
    let statement ← file.content.statements[number]?
    let (namespaces, declaration) ← statement.declaredAt? place
    return { declaration, qualifiedName := ".".intercalate (namespaces ++ [declaration.name])
             file := file.path, depth := namespaces.length }
  | _ => none

/-- `Program.declaredAt?` by the file, the statement and the place below it. -/
theorem Program.declaredAt?_eq_some {program : Program} {place : List Nat} {found : Located} :
    program.declaredAt? place = some found ↔
      ∃ fileNumber number rest file statement namespaces d, place = fileNumber :: number :: rest ∧
        program[fileNumber]? = some file ∧ file.content.statements[number]? = some statement ∧
          statement.declaredAt? rest = some (namespaces, d) ∧
            found = { declaration := d, qualifiedName := ".".intercalate (namespaces ++ [d.name])
                      file := file.path, depth := namespaces.length } := by
  constructor
  · intro h
    -- A place has at least the numbers of the file and of the statement.
    match place with
    | fileNumber :: number :: rest =>
      simp only [declaredAt?, Option.bind_eq_bind, Option.bind_eq_some_iff] at h
      obtain ⟨file, hfile, statement, hnumber, ⟨namespaces, d⟩, hd, heq⟩ := h
      exact ⟨fileNumber, number, rest, file, statement, namespaces, d, rfl, hfile, hnumber, hd,
        (Option.some.inj heq).symm⟩
  · rintro ⟨fileNumber, number, rest, file, statement, namespaces, d, rfl, hfile, hnumber, hd, rfl⟩
    simp [declaredAt?, hfile, hnumber, hd]

/-! ## The index -/

namespace Index

/-- A declaration stands below a statement that has `outer` and `depth` namespaces around it. -/
def StandsBelow (file : String) (outer : Option String) (depth : Nat) (statement : Statement)
    (place : List Nat) (found : Located) : Prop :=
  ∃ namespaces d, statement.declaredAt? place = some (namespaces, d) ∧
    found = { declaration := d
              qualifiedName := qualify outer (".".intercalate (namespaces ++ [d.name]))
              file, depth := depth + namespaces.length }

private theorem ofStatements_eq_flatMap (file : String) (outer : Option String) (depth : Nat)
    (statements : List Statement) :
    ofStatements file outer depth statements =
      statements.flatMap (ofStatement file outer depth) := by
  induction statements with
  | nil => rfl
  | cons statement statements ih => rw [ofStatements, ih, List.flatMap_cons]

/-- A name inside a namespace that is itself inside others. -/
private theorem qualify_qualify (outer : Option String) (name : String) {parts : List String}
    (h : parts ≠ []) :
    qualify (some (qualify outer name)) (".".intercalate parts) =
      qualify outer (".".intercalate (name :: parts)) := by
  obtain ⟨first, rest, rfl⟩ := List.exists_cons_of_ne_nil h
  cases outer with
  | none => simp [qualify, String.intercalate_cons_cons]
  | some outer => simp [qualify, String.intercalate_cons_cons, String.append_assoc]

/-- A declaration is all that stands below itself. -/
private theorem listing_of_declaration {file : String} {outer : Option String} {depth : Nat}
    {statement : Statement} {d : Declaration} (h : statement.declaration? = some d) :
    Listing (StandsBelow file outer depth statement) [locate file outer depth d] := by
  refine (Listing.singleton _).congr fun place found => ?_
  rw [StandsBelow, Statement.declaredAt?_of_declaration h]
  constructor
  · rintro ⟨rfl, rfl⟩
    exact ⟨[], d, rfl, by simp [locate]⟩
  · rintro ⟨namespaces, other, heq, rfl⟩
    -- A declaration has no other declarations inside.
    by_cases hplace : place = []
    · rw [if_pos hplace] at heq
      cases heq
      exact ⟨hplace, by simp [locate]⟩
    · rw [if_neg hplace] at heq
      cases heq

/-- What stands below a namespace stands below one of its statements, one namespace deeper. -/
private theorem standsBelow_namespaceDecl {file : String} {outer : Option String} {depth line : Nat}
    {name : String} {statements : List Statement} {place : List Nat} {found : Located} :
    StandsBelow file outer depth (.namespaceDecl name line statements) place found ↔
      ∃ number rest statement, place = number :: rest ∧ statements[number]? = some statement ∧
        StandsBelow file (some (qualify outer name)) (depth + 1) statement rest found := by
  -- The namespace counts either as the first one inside or as the last one around.
  have hsame (inner : List String) (d : Declaration) :
      ({ declaration := d
         qualifiedName := qualify outer (".".intercalate (name :: inner ++ [d.name]))
         file, depth := depth + (name :: inner).length } : Located) =
      { declaration := d
        qualifiedName := qualify (some (qualify outer name)) (".".intercalate (inner ++ [d.name]))
        file, depth := depth + 1 + inner.length } := by
    have hdepth : depth + (name :: inner).length = depth + 1 + inner.length := by
      rw [List.length_cons]
      omega
    rw [qualify_qualify outer name (by simp), List.cons_append, hdepth]
  constructor
  · rintro ⟨namespaces, d, hdeclared, rfl⟩
    obtain ⟨number, rest, statement, inner, rfl, hnumber, hbelow, rfl⟩ :=
      Statement.declaredAt?_namespaceDecl.1 hdeclared
    exact ⟨number, rest, statement, rfl, hnumber, inner, d, hbelow, hsame inner d⟩
  · rintro ⟨number, rest, statement, rfl, hnumber, inner, d, hbelow, rfl⟩
    refine ⟨name :: inner, d, ?_, (hsame inner d).symm⟩
    exact Statement.declaredAt?_namespaceDecl.2
      ⟨number, rest, statement, inner, rfl, hnumber, hbelow, rfl⟩

/-- The declarations of a statement are those that stand below it. -/
private theorem listing_ofStatement (file : String) :
    ∀ (statement : Statement) (outer : Option String) (depth : Nat),
      Listing (StandsBelow file outer depth statement) (ofStatement file outer depth statement)
  | .classDecl _, _, _ | .interfaceDecl _, _, _ | .aliasDecl _, _, _ | .enumDecl _, _, _ =>
    listing_of_declaration rfl
  | .namespaceDecl name line statements, outer, depth => by
    rw [ofStatement, ofStatements_eq_flatMap]
    -- By induction on the size of the statement.
    have hinner (statement : Statement) (hmem : statement ∈ statements) :=
      listing_ofStatement file statement (some (qualify outer name)) (depth + 1)
    exact (Listing.flatMap hinner).congr fun place found => standsBelow_namespaceDecl.symm
termination_by statement => sizeOf statement
decreasing_by
  have := List.sizeOf_lt_of_mem hmem
  simp
  omega

/-- The index lists the declarations of a program by their places. -/
private theorem listing_ofProgram (program : Program) :
    Listing (fun place found => program.declaredAt? place = some found)
      (ofProgram program).declarations := by
  rw [declarations_ofProgram]
  have hfile (file : ProgramFile) (_ : file ∈ program) :
      Listing (fun place found => ∃ number rest statement, place = number :: rest ∧
          file.content.statements[number]? = some statement ∧
            StandsBelow file.path none 0 statement rest found)
        (ofStatements file.path none 0 file.content.statements) := by
    rw [ofStatements_eq_flatMap]
    exact Listing.flatMap fun statement _ => listing_ofStatement file.path statement none 0
  refine (Listing.flatMap hfile).congr fun place found => ?_
  -- At the top of a file nothing is around, so names and depths are those from below.
  rw [Program.declaredAt?_eq_some]
  constructor
  · rintro ⟨_, _, file, rfl, hfile, number, rest, statement, rfl, hnumber, namespaces, d, hd, rfl⟩
    refine ⟨_, number, rest, file, statement, namespaces, d, rfl, hfile, hnumber, hd, ?_⟩
    rw [Nat.zero_add]
    rfl
  · rintro ⟨_, number, rest, file, statement, namespaces, d, rfl, hfile, hnumber, hd, rfl⟩
    refine ⟨_, _, file, rfl, hfile, number, rest, statement, rfl, hnumber, namespaces, d, hd, ?_⟩
    rw [Nat.zero_add]
    rfl

end Index

/-! ## Names -/

/-- A name inside namespaces is longer than the name by itself. -/
private theorem length_lt_qualified (name : String) {namespaces : List String}
    (h : namespaces ≠ []) :
    name.length < (".".intercalate (namespaces ++ [name])).length := by
  induction namespaces with
  | nil => exact absurd rfl h
  | cons first rest ih =>
    cases rest with
    -- The dot makes the difference.
    | nil =>
      have hdot : ".".length = 1 := rfl
      simp only [List.cons_append, List.nil_append, String.intercalate_cons_cons,
        String.intercalate_singleton, String.length_append]
      omega
    | cons second rest =>
      have hrest := ih (by simp)
      simp only [List.cons_append, String.intercalate_cons_cons, String.length_append] at hrest ⊢
      omega

/-- Only at the top of a file the qualified name is the own one. -/
theorem Program.depth_eq_zero {program : Program} {place : List Nat} {found : Located}
    (h : program.declaredAt? place = some found)
    (hname : found.qualifiedName = found.declaration.name) : found.depth = 0 := by
  obtain ⟨_, _, _, _, _, namespaces, d, _, _, _, _, rfl⟩ := declaredAt?_eq_some.1 h
  show namespaces.length = 0
  -- Inside a namespace the qualified name would be longer.
  by_contra hdepth
  have hne : namespaces ≠ [] := fun hnil => hdepth (by rw [hnil]; rfl)
  exact absurd (congrArg String.length hname) (Nat.ne_of_gt (length_lt_qualified d.name hne))

/-- A declaration is visible by its qualified name, and by its own at a depth of at most one. -/
private theorem Located.names_contains {found : Located}
    (h : found.qualifiedName = found.declaration.name → found.depth = 0) (name : String) :
    found.names.contains name = true ↔
      found.qualifiedName = name ∨ found.declaration.name = name ∧ found.depth ≤ 1 := by
  rw [List.contains_iff_mem, names, List.mem_append]
  by_cases hname : found.qualifiedName = found.declaration.name
  · -- The two names are one, which is listed once.
    have hdepth : found.depth ≤ 1 := by
      have hzero := h hname
      omega
    simp only [hname, hdepth, ↓reduceIte, List.not_mem_nil, List.mem_singleton, or_false, and_true,
      or_self]
    exact eq_comm
  · have hqualified : (name ∈ if found.qualifiedName = found.declaration.name then []
        else [found.qualifiedName]) ↔ found.qualifiedName = name := by
      rw [if_neg hname, List.mem_singleton, eq_comm]
    have hown : (name ∈ if found.depth ≤ 1 then [found.declaration.name] else []) ↔
        found.declaration.name = name ∧ found.depth ≤ 1 := by
      by_cases hdepth : found.depth ≤ 1
      · rw [if_pos hdepth, List.mem_singleton, and_iff_left hdepth, eq_comm]
      · simp [hdepth]
    rw [hqualified, hown, or_comm]

/-- What `Index.find` and `Index.classes` give for the index of a program. A name finds exactly the
declarations that have it as their qualified name, or as their own name with at most one namespace
around them; and the classes that are listed are exactly those with at most one namespace around
them. Both come in the order of the files and of the source text, and from each place once. Every
position that a name leads to is one of the table, so that no look-up in it fails. -/
theorem lookup_exact (program : Program) (name : String) :
    Listing (fun place found => program.declaredAt? place = some found ∧
        (found.qualifiedName = name ∨ found.declaration.name = name ∧ found.depth ≤ 1))
      ((Index.ofProgram program).find name) ∧
    Listing (fun place entry => ∃ found, program.declaredAt? place = some found ∧
        found.depth ≤ 1 ∧ found.declaration = .ofClass entry.1 ∧ found.file = entry.2)
      (Index.ofProgram program).classes ∧
    ∀ position ∈ (Index.ofProgram program).positions name,
      position < (Index.ofProgram program).declarations.length := by
  have hall := Index.listing_ofProgram program
  have hindex := Index.consistent_ofProgram program
  refine ⟨?_, ?_, fun position => hindex.positions_lt⟩
  · rw [hindex.find_eq]
    refine (hall.filter _).congr fun place found => and_congr_right fun hfound => ?_
    exact Located.names_contains (Program.depth_eq_zero hfound) name
  · rw [hindex.classes]
    refine (hall.filterMap _).congr fun place entry => exists_congr fun found => ?_
    refine and_congr_right fun _ => ?_
    obtain ⟨c, file⟩ := entry
    cases hd : found.declaration with
    | ofClass other =>
      -- A class further inside is skipped, whatever its name is.
      by_cases hdepth : found.depth ≤ 1 <;> simp [Located.class?, hd, hdepth]
    | _ => simp [Located.class?, hd]

example : let index := Index.ofProgram (ProgramFile.parse "items.ts"
      ("namespace A \x7b class Item \x7b \x7d namespace B \x7b class Item \x7b \x7d \x7d \x7d " ++
        "class Item \x7b \x7d")).toOption.toList
    (index.find "Item").map (·.qualifiedName) = ["A.Item", "Item"] ∧
    (index.find "A.B.Item").map (·.depth) = [2] ∧ index.classes.map (·.1.line) = [1, 1] := by
  decide +kernel

end Endpoints
