import Endpoints.File.Disk
import Endpoints.Project.Discovery
import Endpoints.Proofs.Paths
import Mathlib.Data.List.Sort

/-!
# Which source files are found

`Entries.scan` takes the patterns, the paths that they stand for and the way through a directory
from a `Search`. Here all of them are fixed functions, as a `FileSystem` gives them. The files of a
project are then a set: those that an entry stands for, without those that are ignored and not
allowed. What `Entries.scan` returns is the ordered list of this set. In which order patterns are
given, and how often, makes no difference.

Two texts with the same parts are the same path.
-/

namespace Endpoints

open Endpoints.Path

variable {P : Type}

/-! ## Walks -/

/-- What a walk meets: a path that can not be reached, or a path with what it meets below it. -/
inductive Walk where
  | failed (message : String)
  | reached (p : Path) (below : List Walk)

namespace Walk

mutual

/-- What a walk gives that does not go into paths that are not wanted. -/
def items (wanted : Path → Bool) : Walk → List (Except String Path)
  | failed message => [.error message]
  | reached p below => if wanted p then .ok p :: allItems wanted below else []

def allItems (wanted : Path → Bool) : List Walk → List (Except String Path)
  | [] => []
  | walk :: walks => walk.items wanted ++ allItems wanted walks

end

/-- The walk gets to a path, and all paths on the way are wanted. -/
inductive Gets (wanted : Path → Prop) : Walk → Path → Prop
  | here {p : Path} {below : List Walk} : wanted p → Gets wanted (reached p below) p
  | inner {p q : Path} {walk : Walk} {below : List Walk} : wanted p → walk ∈ below →
      Gets wanted walk q → Gets wanted (reached p below) q

mutual

/-- `items` gives the paths that a walk gets to. -/
theorem mem_items {wanted : Path → Bool} {isWanted : Path → Prop}
    (hwanted : ∀ p, wanted p = true ↔ isWanted p) {q : Path} :
    ∀ walk : Walk, .ok q ∈ walk.items wanted ↔ walk.Gets isWanted q
  | failed message => by
    rw [items]
    exact ⟨fun h => by simp at h, fun h => by cases h⟩
  | reached p below => by
    rw [items]
    -- A path that is not wanted is left out with all that lies below it.
    by_cases hp : wanted p = true
    · rw [if_pos hp, List.mem_cons, mem_allItems hwanted below]
      constructor
      · rintro (hq | ⟨walk, hwalk, hgets⟩)
        · cases hq
          exact .here ((hwanted _).1 hp)
        · exact .inner ((hwanted _).1 hp) hwalk hgets
      · rintro (_ | ⟨_, hwalk, hgets⟩)
        · exact .inl rfl
        · exact .inr ⟨_, hwalk, hgets⟩
    · rw [if_neg hp]
      refine ⟨fun h => absurd h List.not_mem_nil, ?_⟩
      rintro (hq | ⟨hq, -, -⟩) <;> exact absurd ((hwanted _).2 hq) hp

private theorem mem_allItems {wanted : Path → Bool} {isWanted : Path → Prop}
    (hwanted : ∀ p, wanted p = true ↔ isWanted p) {q : Path} : ∀ walks : List Walk,
    .ok q ∈ allItems wanted walks ↔ ∃ walk ∈ walks, walk.Gets isWanted q
  | [] => by simp [allItems]
  | walk :: walks => by simp [allItems, mem_items hwanted walk, mem_allItems hwanted walks]

end

end Walk

/-! ## Names of source files -/

namespace Path

/-- The name of a path: its last part, or all of its text if that is no name. -/
def IsCalled (p : Path) (name : String) : Prop :=
  p.parts.getLast? = some (.name name) ∨
    (∀ text, p.parts.getLast? ≠ some (.name text)) ∧ name = p.text

/-- A walk below the directory goes into this path: the directory itself, and whatever is not hidden
and holds no dependencies. -/
def IsEntered (directory p : Path) : Prop :=
  p.parts = directory.parts ∨
    ∀ name, p.IsCalled name → (∀ rest, name ≠ "." ++ rest) ∧ name ≠ "node_modules"

/-- The path has the name of a source file that does not hold declarations only. -/
def IsSource (p : Path) : Prop :=
  (∃ stem, p.parts.getLast? = some (.name (stem ++ ".ts"))) ∧
    ∀ stem, p.parts.getLast? ≠ some (.name (stem ++ ".d.ts"))

private theorem name?_eq_some_iff {p : Path} {name : String} :
    p.name? = some name ↔ p.parts.getLast? = some (.name name) := by
  rw [name?]
  cases p.parts.getLast? with
  | none => simp
  | some part => cases part <;> simp

private theorem isCalled_iff {p : Path} {name : String} :
    p.IsCalled name ↔ name = p.name?.getD p.text := by
  rw [IsCalled]
  simp only [ne_eq, ← name?_eq_some_iff]
  cases p.name? with
  | none => simp
  | some text => simp [eq_comm]

theorem wants_iff {directory p : Path} :
    Search.wants directory p = true ↔ directory.IsEntered p := by
  simp only [Search.wants, isSkippedName, IsEntered, isCalled_iff, Bool.or_eq_true, beq_iff_eq,
    Bool.not_eq_true', ← Bool.not_eq_true, String.startsWith_iff_exists, forall_eq, not_or,
    not_exists, ne_eq]

/-- `isSourceName` asks for the name of a source file. -/
theorem isSourceName_iff {p : Path} :
    isSourceName (p.name?.getD "") = true ↔ p.IsSource := by
  rw [IsSource]
  simp only [ne_eq, ← name?_eq_some_iff, isSourceName, Bool.and_eq_true, Bool.not_eq_true',
    ← Bool.not_eq_true, String.endsWith_iff_exists, not_exists]
  cases p.name? with
  | none => simp
  | some name => simp

end Path

/-! ## File systems -/

/-- A file system and a language of patterns, as fixed functions. -/
structure FileSystem (P : Type) where
  compile : String → Except PatternError P
  accepts : P → Path → Bool
  /-- The paths that the pattern of a text stands for, and those that can not be reached. -/
  glob : String → Except PatternError (List (Except String Path))
  isFile : Path → Bool
  /-- What a walk meets that starts at a path. -/
  walk : Path → Walk

namespace FileSystem

/-- The search through a file system. -/
def search (fs : FileSystem P) : Search Id P where
  compile := fs.compile
  accepts := fs.accepts
  glob := fs.glob
  isFile := fs.isFile
  walk wanted p := (fs.walk p).items wanted

/-- The files that a path stands for: the path itself, if it leads to a file, or else the source
files below it that a walk gets to. -/
inductive Offers (fs : FileSystem P) : (q p : Path) → Prop
  | file {p : Path} : fs.isFile p = true → Offers fs p p
  | below {directory p : Path} : fs.isFile directory = false →
      (fs.walk directory).Gets directory.IsEntered p → fs.isFile p = true → p.IsSource →
      Offers fs directory p

end FileSystem

/-! ## Runs that give a value -/

namespace Run

variable {α β : Type} {x : Run Id α} {f : α → Run Id β} {a : α} {b : β}

/-- The run gives a value, possibly with warnings. -/
def Gives (x : Run Id α) (a : α) : Prop :=
  ∀ warnings, ∃ warnings', (ExceptT.run x).run warnings = (.ok a, warnings')

private theorem Gives.pure (a : α) : Gives (pure a) a :=
  fun warnings => ⟨warnings, rfl⟩

private theorem Gives.bind (hx : Gives x a) (hf : Gives (f a) b) : Gives (x >>= f) b := by
  intro warnings
  obtain ⟨warnings', hx⟩ := hx warnings
  obtain ⟨warnings'', hf⟩ := hf warnings'
  refine ⟨warnings'', ?_⟩
  rw [ExceptT.run_bind, StateT.run_bind, hx]
  exact hf

private theorem Gives.lift (x : Id α) : Gives (Run.lift x) x :=
  fun warnings => ⟨warnings, rfl⟩

private theorem Gives.warn (more : List Warning) : Gives (Run.warn more) () :=
  fun warnings => ⟨warnings ++ more, rfl⟩

/-- Going along a list gives a value if each step does; `Inv` holds after some items. -/
private theorem Gives.foldlM (Inv : List α → β → Prop) {step : β → α → Run Id β}
    (items : List α) (start : β) (hstart : Inv [] start)
    (hstep : ∀ before, ∀ item ∈ items, ∀ b, Inv before b →
      ∃ b', Gives (step b item) b' ∧ Inv (before ++ [item]) b') :
    ∃ b, Gives (items.foldlM step start) b ∧ Inv items b := by
  -- Induction on the items that are left, with those before them in hand.
  suffices ∀ rest before b, (∀ item ∈ rest, item ∈ items) → Inv before b →
      ∃ b', Gives (rest.foldlM step b) b' ∧ Inv (before ++ rest) b' from
    this items [] start (fun _ hitem => hitem) hstart
  intro rest
  induction rest with
  | nil => exact fun before b _ hb => ⟨b, .pure b, by rwa [List.append_nil]⟩
  | cons item rest ih =>
    intro before b hitems hb
    obtain ⟨hitem, hrest⟩ := List.forall_mem_cons.1 hitems
    obtain ⟨b', hgives, hb'⟩ := hstep before item hitem b hb
    obtain ⟨b'', hgives', hb''⟩ := ih (before ++ [item]) b' hrest hb'
    refine ⟨b'', ?_, by rwa [List.append_assoc] at hb''⟩
    rw [List.foldlM_cons]
    exact hgives.bind hgives'

end Run

/-! ## Files that have been found -/

namespace Found

/-- The files that have been found are those of a set, paths with the same parts being the same. -/
structure Holds (found : Found) (S : Path → Prop) : Prop where
  seen_iff : ∀ parts, parts ∈ found.seen ↔ parts ∈ found.files.map Path.parts
  nodup : (found.files.map Path.parts).Nodup
  sound : ∀ p ∈ found.files, S p
  complete : ∀ p, S p → p.parts ∈ found.files.map Path.parts

variable {found : Found} {S T : Path → Prop}

private theorem Holds.congr (h : found.Holds S) (hsame : ∀ p, S p ↔ T p) : found.Holds T where
  seen_iff := h.seen_iff
  nodup := h.nodup
  sound p hp := (hsame p).1 (h.sound p hp)
  complete p hp := h.complete p ((hsame p).2 hp)

/-- `add` adds one file to the set. -/
theorem Holds.add (h : found.Holds S) (p : Path) :
    (found.add p).Holds fun q => S q ∨ q = p := by
  -- A path with the same parts may be there already; then nothing changes.
  by_cases hseen : found.seen.contains p.parts = true
  · have hmem : p.parts ∈ found.files.map Path.parts :=
      (h.seen_iff _).1 (List.contains_iff_mem.1 hseen)
    rw [Found.add, if_pos hseen]
    refine ⟨h.seen_iff, h.nodup, fun q hq => .inl (h.sound q hq), ?_⟩
    rintro q (hq | rfl)
    · exact h.complete q hq
    · exact hmem
  -- Otherwise it is put at the end, and its parts are new.
  · have hnew : p.parts ∉ found.files.map Path.parts := fun hmem =>
      hseen (List.contains_iff_mem.2 ((h.seen_iff _).2 hmem))
    rw [Found.add, if_neg hseen]
    refine ⟨fun parts => ?_, ?_, fun q hq => ?_, ?_⟩
    · simp [h.seen_iff, or_comm]
    · rw [List.map_append, List.nodup_append]
      refine ⟨h.nodup, by simp, fun parts hparts last hlast heq => hnew ?_⟩
      rwa [← List.mem_singleton.1 hlast, ← heq]
    · rcases List.mem_append.1 hq with hq | hq
      · exact .inl (h.sound q hq)
      · exact .inr (List.mem_singleton.1 hq)
    · rintro q (hq | rfl)
      · simp only [List.map_append, List.mem_append]
        exact .inl (h.complete q hq)
      · simp

private theorem Holds.addAll (h : found.Holds S) (files : List Path) :
    (files.foldl Found.add found).Holds fun q => S q ∨ q ∈ files := by
  induction files generalizing found S with
  | nil => exact h.congr fun q => by simp
  | cons p files ih => exact (ih (h.add p)).congr fun q => by rw [List.mem_cons, or_assoc]

/-- Sorted by their keys, the files are in strictly increasing order. -/
private theorem Holds.pairwise_mergeSort (h : found.Holds S) :
    (found.files.mergeSort fun p q => !(q.key < p.key)).Pairwise Before := by
  have hsorted : (found.files.mergeSort fun p q => !(q.key < p.key)).Pairwise
      fun p q => (!decide (q.key < p.key)) = true := by
    apply List.pairwise_mergeSort
    · intro p q r hpq hqr
      simp only [Bool.not_eq_true', decide_eq_false_iff_not, not_lt] at hpq hqr ⊢
      exact hpq.trans hqr
    · intro p q
      simpa using le_total p.key q.key
  -- No two files have the same parts, so the order is strict.
  have hnodup : (found.files.mergeSort fun p q => !(q.key < p.key)).Pairwise
      fun p q => p.parts ≠ q.parts :=
    List.pairwise_map.1 (((List.mergeSort_perm ..).map Path.parts).nodup_iff.2 h.nodup)
  refine (hsorted.and hnodup).imp fun {p q} hpq => key_lt_iff.1 ?_
  have hle : p.key ≤ q.key := by simpa using hpq.1
  exact lt_of_le_of_ne hle fun hkey => hpq.2 (key_eq_iff.1 hkey)

end Found

/-! ## Entries -/

/-- `compilePatterns` gives the patterns of correct texts. -/
private theorem exists_compilePatterns {compile : String → Except PatternError P}
    {texts : List String} (h : ∀ text ∈ texts, ∃ pattern, compile text = .ok pattern) :
    ∃ patterns, compilePatterns compile texts = .ok patterns ∧
      ∀ test : P → Bool, patterns.any test = true ↔
        ∃ text ∈ texts, ∃ pattern, compile text = .ok pattern ∧ test pattern = true := by
  induction texts with
  | nil => exact ⟨[], rfl, fun test => by simp⟩
  | cons text texts ih =>
    obtain ⟨⟨pattern, hpattern⟩, htexts⟩ := List.forall_mem_cons.1 h
    obtain ⟨patterns, hpatterns, hany⟩ := ih htexts
    -- All texts are correct, so `mapM` goes on to the end.
    refine ⟨pattern :: patterns, ?_, fun test => ?_⟩
    · rw [compilePatterns, List.mapM_cons, hpattern]
      exact congrArg (· >>= fun patterns => pure (pattern :: patterns)) hpatterns
    · rw [List.any_cons, Bool.or_eq_true, hany]
      simp [hpattern]

namespace FileSystem

variable {fs : FileSystem P}

/-- `sources` keeps the source files among what a walk gives. -/
private theorem exists_sources (items : List (Except String Path)) :
    ∃ found, Run.Gives (fs.search.sources items) found ∧
      ∀ p, p ∈ found ↔ .ok p ∈ items ∧ fs.isFile p = true ∧ p.IsSource := by
  induction items with
  | nil => exact ⟨[], .pure [], fun p => by simp⟩
  | cons item items ih =>
    obtain ⟨found, hgives, hmem⟩ := ih
    cases item with
    | error message => exact ⟨found, (Run.Gives.warn _).bind hgives, fun p => by simp [hmem]⟩
    | ok q =>
      let isSource := fs.isFile q && isSourceName (q.name?.getD "")
      have hsource : isSource = true ↔ fs.isFile q = true ∧ q.IsSource := by
        rw [Bool.and_eq_true, Path.isSourceName_iff]
      -- What can not be reached is warned of and left out; a path is kept if it is a source file.
      refine ⟨if isSource then q :: found else found,
        (Run.Gives.lift (fs.isFile q)).bind (hgives.bind (.pure _)), fun p => ?_⟩
      by_cases hq : isSource = true
      · rw [if_pos hq]
        have hq := hsource.1 hq
        grind
      · rw [if_neg hq]
        have hq := mt hsource.2 hq
        grind

/-- `expand` gives the files that a path stands for. -/
private theorem exists_expand (q : Path) :
    ∃ found, Run.Gives (fs.search.expand q) found ∧ ∀ p, p ∈ found ↔ fs.Offers q p := by
  -- A file stands for itself; anything else is walked through.
  by_cases hfile : fs.isFile q = true
  · refine ⟨[q], ?_, fun p => ?_⟩
    · refine (Run.Gives.lift (fs.isFile q)).bind ?_
      rw [if_pos hfile]
      exact .pure [q]
    · rw [List.mem_singleton]
      constructor
      · rintro rfl
        exact .file hfile
      · rintro (_ | ⟨hnot, -, -, -⟩)
        · rfl
        · rw [hfile] at hnot
          cases hnot
  · obtain ⟨found, hgives, hmem⟩ := @exists_sources _ fs ((fs.walk q).items (Search.wants q))
    refine ⟨found, ?_, fun p => ?_⟩
    · refine (Run.Gives.lift (fs.isFile q)).bind ?_
      rw [if_neg hfile]
      exact (Run.Gives.lift _).bind hgives
    · rw [hmem, Walk.mem_items (fun _ => Path.wants_iff)]
      constructor
      · rintro ⟨hgets, hp, hsource⟩
        exact .below (Bool.eq_false_iff.2 hfile) hgets hp hsource
      · rintro (hp | ⟨-, hgets, hp, hsource⟩)
        · exact absurd hp hfile
        · exact ⟨hgets, hp, hsource⟩

/-- `addPath` adds the files of a path that are not left out. -/
private theorem exists_addPath {isOut : Path → Bool} {found : Found} {S : Path → Prop}
    (h : found.Holds S) (matched : Nat) (item : Except String Path) :
    ∃ found' matched',
      Run.Gives (fs.search.addPath isOut (found, matched) item) (found', matched') ∧
      found'.Holds fun p => S p ∨ ∃ q, item = .ok q ∧ fs.Offers q p ∧ isOut p = false := by
  cases item with
  | error message =>
    exact ⟨found, matched, (Run.Gives.warn _).bind (.pure _), h.congr fun p => by simp⟩
  | ok q =>
    obtain ⟨files, hgives, hmem⟩ := @exists_expand _ fs q
    refine ⟨_, _, hgives.bind (.pure _), (h.addAll _).congr fun p => ?_⟩
    simp [hmem]

/-- `addEntry` adds the files of the paths that an entry stands for. -/
private theorem exists_addEntry {root : Path} {isOut : Path → Bool} {found : Found}
    {S : Path → Prop} {text : String} {items : List (Except String Path)} (h : found.Holds S)
    (hglob : fs.glob (root.join text).text = .ok items) :
    ∃ found', Run.Gives (fs.search.addEntry root isOut found text) found' ∧
      found'.Holds fun p => S p ∨ ∃ q, .ok q ∈ items ∧ fs.Offers q p ∧ isOut p = false := by
  -- Along the paths of the entry, the files found are those of the paths so far.
  let Inv (before : List (Except String Path)) (state : Found × Nat) : Prop :=
    state.1.Holds fun p => S p ∨ ∃ q, .ok q ∈ before ∧ fs.Offers q p ∧ isOut p = false
  have hstep : ∀ before, ∀ item ∈ items, ∀ state, Inv before state →
      ∃ state', Run.Gives (fs.search.addPath isOut state item) state' ∧
        Inv (before ++ [item]) state' := by
    rintro before item - ⟨found, matched⟩ hholds
    obtain ⟨found', matched', hgives, hholds'⟩ := exists_addPath hholds matched item
    refine ⟨(found', matched'), hgives, hholds'.congr fun p => ?_⟩
    simp only [List.mem_append, List.mem_singleton, or_and_right, exists_or, or_assoc, eq_comm]
  obtain ⟨⟨found', matched⟩, hgives, hholds⟩ :=
    Run.Gives.foldlM Inv items (found, 0) (h.congr fun p => by simp) hstep
  refine ⟨found', ?_, hholds⟩
  have hsearch : fs.search.glob (root.join text).text = .ok items := hglob
  rw [Search.addEntry, hsearch]
  refine (Run.Gives.lift items).bind (hgives.bind ?_)
  -- An entry without files is warned of.
  by_cases hmatched : matched = 0
  · simp only [if_pos hmatched]
    exact (Run.Gives.warn _).bind (.pure _)
  · simp only [if_neg hmatched]
    exact .pure _

end FileSystem

namespace Entries

/-- All patterns are correct. Entries are patterns behind the root. -/
structure Valid (e : Entries) (fs : FileSystem P) : Prop where
  entries : ∀ text ∈ e.entries, ∃ items, fs.glob (e.root.join text).text = .ok items
  ignore : ∀ text ∈ e.ignore, ∃ pattern, fs.compile text = .ok pattern
  allow : ∀ text ∈ e.allow, ∃ pattern, fs.compile text = .ok pattern

/-- One of the entries stands for the file, directly or for a directory above it. -/
def StandsFor (e : Entries) (fs : FileSystem P) (p : Path) : Prop :=
  ∃ text ∈ e.entries, ∃ items, fs.glob (e.root.join text).text = .ok items ∧
    ∃ q, .ok q ∈ items ∧ fs.Offers q p

/-- One of the patterns accepts the file, by its whole path or as it is seen from the root. -/
def Lists (e : Entries) (fs : FileSystem P) (texts : List String) (p : Path) : Prop :=
  ∃ text ∈ texts, ∃ pattern, fs.compile text = .ok pattern ∧
    (fs.accepts pattern p = true ∨ ∃ q, e.root.Seen p q ∧ fs.accepts pattern q = true)

/-- The file is not ignored, or it is allowed. -/
def Keeps (e : Entries) (fs : FileSystem P) (p : Path) : Prop :=
  e.Lists fs e.ignore p → e.Lists fs e.allow p

/-- The two have the same root and the same patterns, in any order and number. -/
structure Same (e e' : Entries) : Prop where
  root : e.root = e'.root
  entries : ∀ text, text ∈ e.entries ↔ text ∈ e'.entries
  ignore : ∀ text, text ∈ e.ignore ↔ text ∈ e'.ignore
  allow : ∀ text, text ∈ e.allow ↔ text ∈ e'.allow

variable {e e' : Entries} {fs : FileSystem P}

/-- `isListed` tries both forms of a path. One that does not lead through the root has one. -/
private theorem accepts_or_iff {accepts : Path → Bool} {root p : Path} :
    (accepts (root.relativeTo p) || accepts p) = true ↔
      accepts p = true ∨ ∃ q, root.Seen p q ∧ accepts q = true := by
  rw [Bool.or_eq_true, or_comm]
  by_cases hseen : root.parts ≠ [] ∧ root.parts <+: p.parts
  · simp [Path.seen_iff, hseen]
  -- Outside the root both forms are the path itself.
  · have hsame : root.relativeTo p = p := by
      rw [relativeTo, if_pos]
      rw [Bool.or_eq_true, List.isEmpty_iff, Bool.not_eq_true', ← Bool.not_eq_true,
        List.isPrefixOf_iff_prefix]
      exact (not_and_or.1 hseen).imp_left not_not.1
    have hnot : ∀ q, ¬root.Seen p q := fun q hq =>
      hseen ⟨(Path.seen_iff.1 hq).1, (Path.seen_iff.1 hq).2.1⟩
    simp [hsame, hnot]

/-- The entries find the files that they stand for and that are not left out. -/
private theorem exists_found (h : ∀ text ∈ e.entries, ∃ items,
    fs.glob (e.root.join text).text = .ok items) (isOut : Path → Bool) :
    ∃ found, Run.Gives (e.entries.foldlM (fs.search.addEntry e.root isOut) ⟨[], []⟩) found ∧
      found.Holds fun p => e.StandsFor fs p ∧ isOut p = false := by
  -- Along the entries, the files found are those that the entries so far stand for.
  let Inv (before : List String) (found : Found) : Prop := found.Holds fun p =>
    ({ e with entries := before } : Entries).StandsFor fs p ∧ isOut p = false
  have hstart : Found.Holds ⟨[], []⟩ fun _ => False := ⟨by simp, by simp, by simp, by simp⟩
  have hstep : ∀ before, ∀ text ∈ e.entries, ∀ found, Inv before found →
      ∃ found', Run.Gives (fs.search.addEntry e.root isOut found text) found' ∧
        Inv (before ++ [text]) found' := by
    intro before text htext found hholds
    obtain ⟨items, hglob⟩ := h text htext
    obtain ⟨found', hgives, hholds'⟩ := FileSystem.exists_addEntry hholds hglob
    refine ⟨found', hgives, hholds'.congr fun p => ?_⟩
    simp only [StandsFor, List.mem_append, List.mem_singleton, or_and_right, exists_or,
      exists_eq_left, hglob, Except.ok.injEq, exists_eq_left', ← and_assoc, exists_and_right]
  exact Run.Gives.foldlM Inv e.entries _ (hstart.congr fun p => by simp [StandsFor]) hstep

/-- `scan` gives the ordered list of what the entries stand for and what is kept. -/
private theorem Valid.exists_scan (h : e.Valid fs) :
    ∃ paths, Run.Gives (e.scan fs.search) paths ∧ paths.Pairwise Before ∧
      (∀ p ∈ paths, e.StandsFor fs p ∧ e.Keeps fs p) ∧
      ∀ p, e.StandsFor fs p → e.Keeps fs p → p.parts ∈ paths.map Path.parts := by
  obtain ⟨ignore, hignore, hignored⟩ := exists_compilePatterns h.ignore
  obtain ⟨allow, hallow, hallowed⟩ := exists_compilePatterns h.allow
  let isOut := isFilteredOut fs.accepts e.root ignore allow
  have hlisted : ∀ {texts : List String} {patterns : List P}, (∀ test : P → Bool,
      patterns.any test = true ↔
        ∃ text ∈ texts, ∃ pattern, fs.compile text = .ok pattern ∧ test pattern = true) →
      ∀ p, isListed fs.accepts e.root patterns p = true ↔ e.Lists fs texts p := by
    intro texts patterns hpatterns p
    rw [isListed, hpatterns, Lists]
    simp only [accepts_or_iff]
  -- What is filtered out is exactly what is not kept.
  have hkept : ∀ p, isOut p = false ↔ e.Keeps fs p := by
    intro p
    rw [Keeps, ← hlisted hignored, ← hlisted hallowed]
    simp only [isOut, isFilteredOut]
    split <;> simp_all
  obtain ⟨found, hfound, hholds⟩ := exists_found h.entries isOut
  refine ⟨found.files.mergeSort fun p q => !(q.key < p.key), ?_, hholds.pairwise_mergeSort,
    fun p hp => ?_, fun p hstands hkeeps => ?_⟩
  · have hgives : ∀ {patterns : List P}, Run.Gives (Run.ofExcept (.ok patterns)) patterns :=
      .pure _
    have hignore : compilePatterns fs.search.compile e.ignore = .ok ignore := hignore
    have hallow : compilePatterns fs.search.compile e.allow = .ok allow := hallow
    have hcollect : Run.Gives (e.collect fs.search) found := by
      rw [collect, hignore, hallow]
      exact hgives.bind (hgives.bind hfound)
    exact hcollect.bind (.pure _)
  · obtain ⟨hstands, hout⟩ := hholds.sound p (List.mem_mergeSort.1 hp)
    exact ⟨hstands, (hkept p).1 hout⟩
  · have hmem := hholds.complete p ⟨hstands, (hkept p).2 hkeeps⟩
    exact ((List.mergeSort_perm ..).map Path.parts).mem_iff.2 hmem

namespace Same

private theorem valid (hsame : e.Same e') (h : e.Valid fs) : e'.Valid fs where
  entries text htext := hsame.root ▸ h.entries text ((hsame.entries text).2 htext)
  ignore text htext := h.ignore text ((hsame.ignore text).2 htext)
  allow text htext := h.allow text ((hsame.allow text).2 htext)

private theorem standsFor_iff (hsame : e.Same e') (p : Path) :
    e.StandsFor fs p ↔ e'.StandsFor fs p := by
  simp only [StandsFor, hsame.root, hsame.entries]

private theorem keeps_iff (hsame : e.Same e') (p : Path) : e.Keeps fs p ↔ e'.Keeps fs p := by
  simp only [Keeps, Lists, hsame.root, hsame.ignore, hsame.allow]

end Same

end Entries

/-- Ordered lists of the same paths are the same. -/
private theorem map_parts_eq {paths paths' : List Path} (h : paths.Pairwise Before)
    (h' : paths'.Pairwise Before)
    (hmem : ∀ parts, parts ∈ paths.map Path.parts ↔ parts ∈ paths'.map Path.parts) :
    paths.map Path.parts = paths'.map Path.parts := by
  -- Ordered lists of keys are known from their members, and keys from the parts.
  have hsorted : ∀ {paths : List Path}, paths.Pairwise Before →
      (paths.map Path.key).Pairwise (· < ·) := fun h =>
    List.pairwise_map.2 (h.imp key_lt_iff.2)
  have hkeys : ∀ {paths paths' : List Path},
      (∀ parts, parts ∈ paths.map Path.parts → parts ∈ paths'.map Path.parts) →
      ∀ key, key ∈ paths.map Path.key → key ∈ paths'.map Path.key := by
    intro paths paths' hsub key hkey
    obtain ⟨p, hp, rfl⟩ := List.mem_map.1 hkey
    obtain ⟨q, hq, hparts⟩ := List.mem_map.1 (hsub p.parts (List.mem_map_of_mem hp))
    exact List.mem_map.2 ⟨q, hq, key_eq_iff.2 hparts⟩
  refine map_key_eq_iff.1 ((hsorted h).eq_of_mem_iff (hsorted h') fun key => ?_)
  exact ⟨hkeys (fun parts => (hmem parts).1) key, hkeys (fun parts => (hmem parts).2) key⟩

/-- The source files of a project whose patterns are correct are found and are an ordered set,
whatever the patterns mean and however the file system is gone through. The paths that `scan` gives
are in strictly increasing order; a path is among them if and only if an entry stands for it, itself
or as a directory that it is a source file below, and it is not ignored unless it is allowed, paths
with the same parts being the same; and the order of the patterns and repeated patterns make no
difference. -/
theorem discovered_set (fs : FileSystem P) (e : Entries) (h : e.Valid fs) :
    ∃ paths warnings, (e.scan fs.search).outcome = (.ok paths, warnings) ∧
      paths.Pairwise Before ∧
      (∀ p ∈ paths, e.StandsFor fs p ∧ e.Keeps fs p) ∧
      (∀ parts, parts ∈ paths.map Path.parts ↔
        ∃ p, p.parts = parts ∧ e.StandsFor fs p ∧ e.Keeps fs p) ∧
      ∀ e', e.Same e' → ∃ paths' warnings',
        (e'.scan fs.search).outcome = (.ok paths', warnings') ∧
          paths'.map Path.parts = paths.map Path.parts := by
  -- What the list of one run holds is told by the entries alone.
  have hset : ∀ e' : Entries, e'.Valid fs → ∃ paths warnings,
      (e'.scan fs.search).outcome = (.ok paths, warnings) ∧ paths.Pairwise Before ∧
        (∀ p ∈ paths, e'.StandsFor fs p ∧ e'.Keeps fs p) ∧
        ∀ parts, parts ∈ paths.map Path.parts ↔
          ∃ p, p.parts = parts ∧ e'.StandsFor fs p ∧ e'.Keeps fs p := by
    intro e' h'
    obtain ⟨paths, hgives, hincreasing, hsound, hcomplete⟩ := h'.exists_scan
    obtain ⟨warnings, hrun⟩ := hgives []
    refine ⟨paths, warnings, hrun, hincreasing, hsound, fun parts => ⟨fun hparts => ?_, ?_⟩⟩
    · obtain ⟨p, hp, rfl⟩ := List.mem_map.1 hparts
      exact ⟨p, rfl, hsound p hp⟩
    · rintro ⟨p, rfl, hstands, hkeeps⟩
      exact hcomplete p hstands hkeeps
  obtain ⟨paths, warnings, hrun, hincreasing, hsound, hmem⟩ := hset e h
  refine ⟨paths, warnings, hrun, hincreasing, hsound, hmem, fun e' hsame => ?_⟩
  obtain ⟨paths', warnings', hrun', hincreasing', -, hmem'⟩ := hset e' (hsame.valid h)
  refine ⟨paths', warnings', hrun', map_parts_eq hincreasing' hincreasing fun parts => ?_⟩
  rw [hmem, hmem']
  simp only [hsame.standsFor_iff, hsame.keeps_iff]

/-! ## Files -/

namespace Files

/-- What a walk meets inside a directory. -/
def treesInside (files : Files Id) : (depth : Nat) → Path → List Walk
  | 0, _ => []
  | depth + 1, directory => (files.names directory).map fun name =>
    .reached (directory.join name)
      (if (files.isDirectory (directory.join name)).run then
        files.treesInside depth (directory.join name) else [])

/-- What a walk meets that starts at a path. -/
def tree (files : Files Id) (p : Path) : Walk :=
  match (files.kind? p).run with
  | none =>
    .failed ("IO error for operation on " ++ p.text ++ ": " ++ FileFault.missing.message)
  | some kind =>
    .reached p (if kind == .directory then files.treesInside PathPattern.maxNesting p else [])

/-- Files that do not change, as a file system with the patterns of `Pattern`. -/
def fileSystem (files : Files Id) : FileSystem Pattern where
  compile := Pattern.parse
  accepts pattern p := pattern.accepts p.text
  glob text := (PathPattern.parse text).map fun pattern => (pattern.expand files).map .ok
  isFile := files.isFile
  walk := files.tree

/-- The items of several steps are those of the walks that they take. -/
private theorem flatten_mapM {wanted : Path → Bool} {step : String → Id (List (Except String Path))}
    {node : String → Walk} (h : ∀ name, step name = (node name).items wanted)
    (names : List String) :
    (Id.run (names.mapM step)).flatten = Walk.allItems wanted (names.map node) := by
  induction names with
  | nil => rfl
  | cons name names ih =>
    rw [List.mapM_cons, List.map_cons, Walk.allItems, ← ih, ← h]
    exact List.flatten_cons

/-- `walkFrom` gives the items of a path, if `below` does so for what lies below it. -/
private theorem walkFrom_eq {wanted : Path → Bool} {below : Path → Id (List (Except String Path))}
    {trees : List Walk} {p : Path} (h : below p = Walk.allItems wanted trees) (isDirectory : Bool) :
    walkFrom wanted below p isDirectory =
      Walk.items wanted (.reached p (if isDirectory then trees else [])) := by
  rw [walkFrom, Walk.items]
  cases wanted p with
  | false => rfl
  | true =>
    cases isDirectory with
    | false => rfl
    | true => exact congrArg (List.cons _) h

/-- `walkInside` leaves out of the whole walk what is not wanted. -/
private theorem walkInside_eq (files : Files Id) (wanted : Path → Bool) (depth : Nat)
    (directory : Path) : files.walkInside wanted depth directory =
      Walk.allItems wanted (files.treesInside depth directory) := by
  -- Induction on the depth: each name in the directory is the start of a walk with one level less.
  induction depth generalizing directory with
  | zero => rfl
  | succ depth ih =>
    rw [walkInside, treesInside]
    refine flatten_mapM (fun name => ?_) (files.names directory)
    exact walkFrom_eq (ih (directory.join name)) (files.isDirectory (directory.join name)).run

/-- So does `walk`. -/
private theorem walk_eq (files : Files Id) (wanted : Path → Bool) (p : Path) :
    files.walk wanted p = (files.tree p).items wanted := by
  have hwalk : files.walk wanted p = match (files.kind? p).run with
      | none => _
      | some kind => walkFrom wanted (files.walkInside wanted PathPattern.maxNesting) p
          (kind == .directory) := rfl
  rw [hwalk, tree]
  cases (files.kind? p).run with
  | none => rfl
  | some kind => exact walkFrom_eq (walkInside_eq files wanted _ p) _

private theorem search_fileSystem (files : Files Id) : files.fileSystem.search = files.search := by
  have hwalk : files.fileSystem.search.walk = files.search.walk :=
    funext fun wanted => funext fun p => (walk_eq files wanted p).symm
  have hglob : files.fileSystem.search.glob = files.search.glob := rfl
  calc files.fileSystem.search
      = { files.search with walk := files.fileSystem.search.walk } := rfl
    _ = files.search := by rw [hwalk]

end Files

/-- Access to a disk that does not change. -/
def Disk.frozen (disk : Disk) : Files Id where
  kind? p := (disk.find p).toOption.map (·.kind)
  names p := ((disk.find p).toOption.map fun tree => tree.entries.map (·.1)).getD []
  read := disk.read
  makeDirectory _ := .error .missing
  write _ _ := .error .missing

/-- What `scan` gives, from what `collect` finds. -/
private theorem scan_outcome {search : Search Id P} {e : Entries} {files paths : List Path}
    {warnings : List Warning} (hscan : (e.scan search).outcome = (.ok paths, warnings))
    (hcollect : (e.collect search).outcome.1.toOption.map Found.files = some files) :
    paths = files.mergeSort fun p q => !(q.key < p.key) := by
  obtain ⟨found, hfound, rfl⟩ := Option.map_eq_some_iff.1 hcollect
  rw [Entries.scan, Run.outcome, ExceptT.run_bind, StateT.run_bind] at hscan
  rw [Run.outcome] at hfound
  revert hscan hfound
  -- `scan` sorts what `collect` gives, and fails as it does.
  rcases (e.collect search).run.run [] with ⟨_ | found', warnings'⟩
  · intro _ hfound
    cases hfound
  · intro hscan hfound
    cases hfound
    cases hscan
    rfl

/-- Seen from the root, an ignored directory with one allowed file; and a directory and a file in it
as entries. -/
theorem allowed_file_found :
    let disk : Disk := ⟨.directory [("api", .directory [("src", .directory [
      (".cache", .directory [("x.ts", .file none)]), ("app.ts", .file none),
      ("legacy", .directory [("keep.ts", .file none), ("old.ts", .file none)]),
      ("node_modules", .directory [("dep.ts", .file none)]), ("types.d.ts", .file none)])])], []⟩
    let e : Entries := ⟨⟨"api"⟩, ["src", "src/app.ts"], ["src/legacy/**"], ["**/keep.ts"]⟩
    e.Valid disk.frozen.fileSystem ∧ ∃ paths warnings,
      (e.discover disk.frozen).outcome = (.ok paths, warnings) ∧
        paths.Pairwise Before ∧
        paths = [⟨"api/src/app.ts"⟩, ⟨"api/src/legacy/keep.ts"⟩] := by
  intro disk e
  -- The patterns are well formed, so the walk does not fail.
  have hvalid : e.Valid disk.frozen.fileSystem := by
    have hentries : (e.entries.all fun text =>
        (disk.frozen.fileSystem.glob (e.root.join text).text).isOk) = true := by decide +kernel
    refine ⟨fun text htext => Except.exists_ok_of_isOk (List.all_eq_true.1 hentries text htext),
      ?_, ?_⟩ <;>
      exact fun text htext =>
        Except.exists_ok_of_isOk (by rw [List.mem_singleton.1 htext]; decide +kernel)
  obtain ⟨paths, warnings, hrun, hincreasing, -⟩ := discovered_set disk.frozen.fileSystem e hvalid
  rw [Files.search_fileSystem] at hrun
  -- The files are those that the walk collects, here already in order.
  have hfiles : (e.collect disk.frozen.search).outcome.1.toOption.map Found.files =
      some [⟨"api/src/app.ts"⟩, ⟨"api/src/legacy/keep.ts"⟩] := by decide +kernel
  refine ⟨hvalid, paths, warnings, hrun, hincreasing, (scan_outcome hrun hfiles).trans ?_⟩
  exact List.mergeSort_of_pairwise (by decide +kernel)

end Endpoints
