import Endpoints.File.Path
import Endpoints.Proofs.ForStd
import Endpoints.Proofs.TextParts
import Mathlib.Data.String.Basic

/-!
# The order of paths, and paths seen from a directory

`Path.key` orders paths by texts that it makes of their parts. `Path.Before` is the order itself:
part by part, the marks before all names. `Path.relativeTo` counts the parts of a directory along
the texts between slashes; `Path.Seen` says what is to come out, by cutting the text of the path in
two.
-/

namespace Endpoints

/-! ## Order -/

namespace PathPart

/-- Where a part stands among those of other kinds. -/
def rank : PathPart → Nat
  | root => 0
  | here => 1
  | up => 2
  | name _ => 3

/-- One part comes before another one: by its kind, and names by their texts. -/
inductive Before : PathPart → PathPart → Prop
  | kind {a b : PathPart} : a.rank < b.rank → Before a b
  | name {text text' : String} : text < text' → Before (name text) (name text')

/-- `PathPart.key` as characters: a digit for the kind, and a name behind it. -/
private theorem toList_key (part : PathPart) : part.key.toList =
    match part with
    | root => ['0']
    | here => ['1']
    | up => ['2']
    | name text => '3' :: text.toList := by
  cases part with
  | name text => exact String.toList_append
  | _ => rfl

private theorem key_injective : Function.Injective PathPart.key := by
  intro a b h
  have hchars := congrArg String.toList h
  rw [toList_key, toList_key] at hchars
  cases a <;> cases b <;> simp_all [String.toList_inj]

/-- `PathPart.Before` as a disjunction. -/
private theorem before_iff (a b : PathPart) : a.Before b ↔
    a.rank < b.rank ∨ ∃ text text', text < text' ∧ a = name text ∧ b = name text' := by
  constructor
  · rintro (hrank | hname)
    · exact .inl hrank
    · exact .inr ⟨_, _, hname, rfl, rfl⟩
  · rintro (hrank | ⟨text, text', hname, rfl, rfl⟩)
    · exact .kind hrank
    · exact .name hname

/-- The order of the keys of parts is that of the parts. -/
private theorem key_lt_iff (a b : PathPart) : a.key < b.key ↔ a.Before b := by
  rw [before_iff, String.lt_iff_toList_lt, toList_key, toList_key]
  cases a with
  | name text =>
    cases b with
    | name text' => simp [rank, String.lt_iff_toList_lt, -String.lt_iff_ltb]
    | _ => simp [rank, List.cons_lt_cons_iff]
  | _ => cases b <;> simp [rank, List.cons_lt_cons_iff]

end PathPart

namespace Path

/-- One path comes before another one: by the first part in which they differ. -/
def Before (p q : Path) : Prop :=
  List.Lex PathPart.Before p.parts q.parts

variable {p : Path}

/-- The order of keys is the order of paths. -/
theorem key_lt_iff {q : Path} : p.key < q.key ↔ p.Before q := by
  have hlex : ∀ as bs : List PathPart,
      as.map PathPart.key < bs.map PathPart.key ↔ List.Lex PathPart.Before as bs := by
    intro as
    -- Part by part, where equal keys mean equal parts.
    induction as with
    | nil => intro bs; cases bs <;> simp
    | cons a as ih =>
      intro bs
      cases bs with
      | nil => simp
      | cons b bs =>
        rw [List.map_cons, List.map_cons, List.cons_lt_cons_iff, PathPart.key_lt_iff, ih,
          PathPart.key_injective.eq_iff, List.cons_lex_cons_iff]
  exact hlex _ _

theorem key_eq_iff {q : Path} : p.key = q.key ↔ p.parts = q.parts :=
  (List.map_injective_iff.2 PathPart.key_injective).eq_iff

/-- So do lists of them, one by one. -/
theorem map_key_eq_iff {paths paths' : List Path} :
    paths.map key = paths'.map key ↔ paths.map parts = paths'.map parts := by
  have hkeys : ∀ paths : List Path,
      paths.map key = (paths.map parts).map (List.map PathPart.key) := by
    intro paths
    rw [List.map_map]
    rfl
  rw [hkeys, hkeys]
  exact (List.map_injective_iff.2 (List.map_injective_iff.2 PathPart.key_injective)).eq_iff

/-! ## Parts of a text -/

/-- The part for the first text between slashes. -/
private def firstPart? (isAbsolute : Bool) (piece : String) : Option PathPart :=
  if isAbsolute then some .root
  else if piece == "." then some .here
  else part? piece

variable {piece : String} {pieces : List String}

private theorem parts_eq (h : p.pieces = piece :: pieces) :
    p.parts = (firstPart? p.isAbsolute piece).toList ++ pieces.filterMap part? := by
  rw [parts, h]
  rfl

private theorem pieces_ne_nil (p : Path) : p.pieces ≠ [] := by
  simp [pieces, Text.splitOn_ne_nil]

private theorem pieces_append (lead rest : String) :
    (⟨lead ++ "/" ++ rest⟩ : Path).pieces = (⟨lead⟩ : Path).pieces ++ (⟨rest⟩ : Path).pieces := by
  have htext : (lead ++ "/" ++ rest).toList = lead.toList ++ '/' :: rest.toList := by simp
  rw [pieces, htext, Text.splitOn_append_cons, List.map_append]
  rfl

private theorem intercalate_pieces (p : Path) : "/".intercalate p.pieces = p.text := by
  rw [← String.toList_inj, String.toList_intercalate, pieces, List.map_map, Text.splitOn_eq]
  have hid : (String.toList ∘ String.ofList) = id := by
    funext text
    simp
  rw [hid, List.map_id]
  exact List.intercalate_splitOn ..

/-- Cutting gives joined texts back. -/
private theorem pieces_intercalate {texts : List String} (hne : texts ≠ [])
    (h : ∀ text ∈ texts, '/' ∉ text.toList) : (⟨"/".intercalate texts⟩ : Path).pieces = texts := by
  have hchars : ("/".intercalate texts).toList = ['/'].intercalate (texts.map String.toList) :=
    String.toList_intercalate
  rw [pieces, hchars, Text.splitOn_eq, List.splitOn_intercalate]
  · simp [Function.comp_def]
  · simpa using h
  · simpa using hne

private theorem not_mem_of_mem_pieces (h : piece ∈ p.pieces) : '/' ∉ piece.toList := by
  obtain ⟨part, hpart, rfl⟩ := List.mem_map.1 h
  rw [String.toList_ofList]
  exact Text.not_mem_of_mem_splitOn hpart

/-- The first text of a path that is not empty gives a part. -/
private theorem isSome_firstPart? (h : p.pieces = piece :: pieces) (hne : p.text ≠ "") :
    (firstPart? p.isAbsolute piece).isSome = true := by
  rw [firstPart?]
  split
  · rfl
  · next habsolute =>
    split
    · rfl
    -- An empty first text stands before a slash, and the path is then absolute.
    have hpiece : piece ≠ "" := by
      rintro rfl
      have htext := intercalate_pieces p
      rw [h] at htext
      cases pieces with
      | nil => exact hne (by simpa using htext.symm)
      | cons second more =>
        refine habsolute ?_
        rw [isAbsolute, ← htext, String.intercalate_cons_cons]
        simp
    rw [part?]
    split
    · next hnone => simp_all
    · split <;> rfl

private theorem exists_firstPart? (h : p.pieces = piece :: pieces) (hne : p.parts ≠ []) :
    ∃ first, firstPart? p.isAbsolute piece = some first := by
  refine Option.isSome_iff_exists.1 (isSome_firstPart? h fun htext => hne ?_)
  rw [show p = ⟨""⟩ from congrArg Path.mk htext]
  decide

private theorem pieces_slash {lead : String} (h : (⟨lead⟩ : Path).pieces = piece :: pieces) :
    (⟨lead ++ "/"⟩ : Path).pieces = piece :: (pieces ++ [""]) := by
  have hpieces := pieces_append lead ""
  rw [h, String.append_empty] at hpieces
  exact hpieces

private theorem exists_parts_slash {lead : String} (h : (⟨lead⟩ : Path).pieces = piece :: pieces) :
    ∃ first, (⟨lead ++ "/"⟩ : Path).parts = first :: pieces.filterMap part? := by
  have hslash := pieces_slash h
  have htext : lead ++ "/" ≠ "" := fun heq => by simpa using congrArg String.length heq
  obtain ⟨first, hfirst⟩ := Option.isSome_iff_exists.1 (isSome_firstPart? hslash htext)
  have hempty : part? "" = none := by decide
  exact ⟨first, by simp [parts_eq hslash, hfirst, hempty]⟩

/-- Behind a slash, the texts of a path are parts as they are. -/
private theorem parts_append (lead rest : String) : (⟨lead ++ "/" ++ rest⟩ : Path).parts =
    (⟨lead ++ "/"⟩ : Path).parts ++ (⟨rest⟩ : Path).pieces.filterMap part? := by
  obtain ⟨piece, pieces, hpieces⟩ := List.exists_cons_of_ne_nil (pieces_ne_nil ⟨lead⟩)
  have hboth : (⟨lead ++ "/" ++ rest⟩ : Path).pieces =
      piece :: (pieces ++ (⟨rest⟩ : Path).pieces) := by
    rw [pieces_append, hpieces, List.cons_append]
  have habsolute : (⟨lead ++ "/" ++ rest⟩ : Path).isAbsolute =
      (⟨lead ++ "/"⟩ : Path).isAbsolute := by
    rw [isAbsolute, isAbsolute, String.toList_append, List.head?_append]
    simp
  have hempty : part? "" = none := by decide
  rw [parts_eq (pieces_slash hpieces), parts_eq hboth, habsolute]
  simp [hempty]

/-! ## Seen from a directory -/

/-- The path starts with a name or with the mark for the directory around. -/
def IsInner (p : Path) : Prop :=
  ∃ part, p.parts.head? = some part ∧ part ≠ .root ∧ part ≠ .here

/-- How a path is seen from a directory: the directory itself as nothing, and a path below it as
what its text holds behind the directory. -/
inductive Seen (root : Path) : Path → Path → Prop
  | itself {p : Path} : root.parts ≠ [] → p.parts = root.parts → Seen root p ⟨""⟩
  | below {lead rest : String} : (⟨lead ++ "/"⟩ : Path).parts = root.parts →
      (⟨rest⟩ : Path).IsInner → Seen root ⟨lead ++ "/" ++ rest⟩ ⟨rest⟩

private theorem eq_empty_of_isAbsolute (h : p.pieces = piece :: pieces)
    (habsolute : p.isAbsolute = true) : piece = "" := by
  obtain ⟨cs, hcs⟩ : ∃ cs, p.text.toList = '/' :: cs :=
    List.head?_eq_some_iff.1 (beq_iff_eq.1 habsolute)
  rw [Path.pieces, hcs, Text.splitOn, if_pos (by rfl)] at h
  exact (List.cons.inj h).1.symm

/-- The first text of a path that starts inside a directory is a part as it is. -/
private theorem isInner_iff (h : p.pieces = piece :: pieces) :
    p.IsInner ↔ (part? piece).isSome = true := by
  rw [IsInner, parts_eq h, firstPart?]
  split
  · next habsolute =>
    have hnone : part? "" = none := by decide
    simp [eq_empty_of_isAbsolute h habsolute, hnone]
  · next habsolute =>
    split
    · next hdot =>
      have hnone : part? "." = none := by decide
      simp [eq_of_beq hdot, hnone]
    · cases hpart : part? piece with
      | some part =>
        have hne : part ≠ .root ∧ part ≠ .here := by
          rw [part?] at hpart
          split at hpart
          · cases hpart
          · split at hpart <;> cases hpart <;> simp
        simpa using hne
      | none =>
        -- Only the empty path has a first text that is no part and no mark.
        have htext : p.text = "" := by
          by_contra hne
          have hsome := isSome_firstPart? h hne
          simp [firstPart?, *] at hsome
        have hpieces : pieces = [] := by
          rw [Path.pieces, htext] at h
          exact (List.cons.inj h).2.symm
        simp [hpieces]

/-- `dropParts` passes over texts with as many parts. -/
private theorem dropParts_append (lead rest : List String) :
    dropParts (lead.filterMap part?).length (lead ++ rest) = dropParts 0 rest := by
  -- Texts that are no parts are passed without being counted.
  induction lead with
  | nil => rfl
  | cons piece lead ih =>
    cases hpart : part? piece with
    | some part => simp [hpart, dropParts, ih]
    | none =>
      rw [List.filterMap_cons, hpart, List.cons_append]
      cases hcount : (lead.filterMap part?).length with
      | zero =>
        rw [hcount] at ih
        simpa [dropParts, hpart] using ih
      | succ count =>
        rw [hcount] at ih
        simpa [dropParts, hpart] using ih

/-- It stops at the next part. -/
private theorem exists_dropParts {count : Nat} (h : count ≤ (pieces.filterMap part?).length) :
    ∃ lead, pieces = lead ++ dropParts count pieces ∧ (lead.filterMap part?).length = count ∧
      ∀ piece ∈ (dropParts count pieces).head?, (part? piece).isSome = true := by
  induction pieces generalizing count with
  | nil =>
    obtain rfl : count = 0 := by simpa using h
    exact ⟨[], rfl, rfl, by simp [dropParts]⟩
  | cons piece pieces ih =>
    cases hpart : part? piece with
    | none =>
      -- A text that is no part is passed over, whatever the count is.
      have hdrop : dropParts count (piece :: pieces) = dropParts count pieces := by
        cases count <;> simp [dropParts, hpart]
      obtain ⟨lead, hlead, hcount, hfirst⟩ := ih (by simpa [hpart] using h)
      refine ⟨piece :: lead, ?_, by simpa [hpart] using hcount, by rwa [hdrop]⟩
      rw [hdrop, List.cons_append, ← hlead]
    | some part =>
      cases count with
      | zero => exact ⟨[], by simp [dropParts, hpart], rfl, by simp [dropParts, hpart]⟩
      | succ count =>
        have hdrop : dropParts (count + 1) (piece :: pieces) = dropParts count pieces := by
          simp [dropParts, hpart]
        obtain ⟨lead, hlead, hcount, hfirst⟩ := ih (by simpa [hpart] using h)
        refine ⟨piece :: lead, ?_, by simpa [hpart] using hcount, by rwa [hdrop]⟩
        rw [hdrop, List.cons_append, ← hlead]

/-- A path that leads through a directory is seen from there, by `relativeTo`. -/
private theorem seen_relativeTo {root : Path} (hne : root.parts ≠ [])
    (hleading : root.parts <+: p.parts) : root.Seen p (root.relativeTo p) := by
  obtain ⟨piece, pieces, hpieces⟩ := List.exists_cons_of_ne_nil (pieces_ne_nil p)
  have hparts := parts_eq hpieces
  have hsome : p.parts ≠ [] := fun hnil => hne (List.prefix_nil.1 (hnil ▸ hleading))
  obtain ⟨first, hfirst⟩ := exists_firstPart? hpieces hsome
  rw [hfirst] at hparts
  have hcount : root.parts.length - 1 ≤ (pieces.filterMap part?).length := by
    have hlength := hleading.length_le
    rw [hparts] at hlength
    simpa using hlength
  obtain ⟨lead, hlead, hlength, hinner⟩ := exists_dropParts hcount
  have hrelative : root.relativeTo p =
      ⟨"/".intercalate (dropParts (root.parts.length - 1) pieces)⟩ := by
    rw [relativeTo, hpieces, if_neg (by simp [hne, List.isPrefixOf_iff_prefix.2 hleading])]
    rfl
  -- The parts before the cut are those of the directory.
  have hroot : root.parts = first :: lead.filterMap part? := by
    have hsplit : first :: lead.filterMap part? <+: p.parts := by
      rw [hparts, hlead, List.filterMap_append]
      exact List.prefix_append ..
    refine List.IsPrefix.eq_of_length (List.prefix_of_prefix_length_le hleading hsplit ?_) ?_
    all_goals
      have hpos := List.length_pos_iff.2 hne
      simp only [List.length_cons]
      omega
  rw [hrelative]
  generalize dropParts (root.parts.length - 1) pieces = rest at hlead hinner
  -- Nothing is left, and the path is the directory; or the text is cut before the next part.
  cases hrest : rest with
  | nil =>
    refine .itself hne ?_
    rw [hparts, hroot, hlead, hrest, List.append_nil]
    rfl
  | cons next more =>
    rw [hrest] at hlead hinner
    have hslashes : ∀ text ∈ next :: more, '/' ∉ text.toList := fun text htext =>
      not_mem_of_mem_pieces (p := p) (by rw [hpieces, hlead]; simp [List.mem_cons.1 htext])
    have hcut : p = ⟨"/".intercalate (piece :: lead) ++ "/" ++ "/".intercalate (next :: more)⟩ := by
      rw [← String.intercalate_append_of_ne_nil (by simp) (by simp), List.cons_append, ← hlead,
        ← hpieces, intercalate_pieces]
    have hbehind := pieces_intercalate (by simp) hslashes
    have hsame := parts_append ("/".intercalate (piece :: lead)) ("/".intercalate (next :: more))
    rw [← hcut, hbehind, hparts, hlead, List.filterMap_append] at hsame
    rw [hcut]
    refine .below ?_ ((isInner_iff hbehind).2 (hinner next rfl))
    rw [hroot]
    exact (List.append_cancel_right (by simpa using hsame)).symm

private theorem relativeTo_eq {root : Path} {first : PathPart} {lead rest : List String}
    (hroot : root.parts = first :: lead.filterMap part?)
    (hpieces : p.pieces = piece :: (lead ++ rest)) (hleading : root.parts <+: p.parts) :
    root.relativeTo p = ⟨"/".intercalate (dropParts 0 rest)⟩ := by
  have hthrough : root.parts.isPrefixOf p.parts = true := List.isPrefixOf_iff_prefix.2 hleading
  have hsome : root.parts.isEmpty = false := by rw [hroot]; rfl
  rw [relativeTo, hthrough, hsome, hpieces, hroot, ← dropParts_append lead rest]
  rfl

/-- What a path is seen as is what `relativeTo` gives, for the paths that lead through the
directory. -/
theorem seen_iff {root q : Path} : root.Seen p q ↔
    root.parts ≠ [] ∧ root.parts <+: p.parts ∧ q = root.relativeTo p := by
  constructor
  · rintro (⟨hne, hsame⟩ | @⟨lead, rest, hlead, hinner⟩)
    · obtain ⟨piece, pieces, hpieces⟩ := List.exists_cons_of_ne_nil (pieces_ne_nil p)
      obtain ⟨first, hfirst⟩ := exists_firstPart? hpieces (hsame ▸ hne)
      have hparts := parts_eq hpieces
      rw [hfirst, hsame] at hparts
      have hleading : root.parts <+: p.parts := hsame ▸ List.prefix_rfl
      refine ⟨hne, hleading, ?_⟩
      rw [relativeTo_eq hparts (by rw [hpieces, List.append_nil]) hleading]
      rfl
    · obtain ⟨piece, pieces, hpieces⟩ := List.exists_cons_of_ne_nil (pieces_ne_nil ⟨lead⟩)
      obtain ⟨next, more, hrest⟩ := List.exists_cons_of_ne_nil (pieces_ne_nil ⟨rest⟩)
      obtain ⟨first, hfirst⟩ := exists_parts_slash hpieces
      rw [hlead] at hfirst
      have hleading : root.parts <+: (⟨lead ++ "/" ++ rest⟩ : Path).parts := by
        rw [parts_append, hlead]
        exact List.prefix_append ..
      refine ⟨by simp [hfirst], hleading, ?_⟩
      -- The texts behind the directory start with a part, so that none of them is dropped.
      obtain ⟨part, hpart⟩ := Option.isSome_iff_exists.1 ((isInner_iff hrest).1 hinner)
      have hstop : dropParts 0 (next :: more) = next :: more := by simp [dropParts, hpart]
      rw [relativeTo_eq hfirst (by rw [pieces_append, hpieces, List.cons_append]) hleading, hrest,
        hstop, ← hrest, intercalate_pieces]
  · rintro ⟨hne, hleading, rfl⟩
    exact seen_relativeTo hne hleading

end Path

end Endpoints
