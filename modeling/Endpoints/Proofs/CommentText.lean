import Endpoints.Doc.Basic
import Endpoints.Proofs.TextParts

/-!
# Reading a written comment

A `WrittenComment` is what someone writes down in a documentation comment: lines of a description
and tags with lines of their own. `WrittenComment.text` is the text between the delimiters, with a
star in front of every line. Reading this text gives back what was written. Of a line only the star,
the blank behind it and white space at the end are taken away, so that indentation and further stars
stay; and a line belongs to the description or to the last tag before it, which one is known only
from the lines before.
-/

namespace Endpoints

open Text

/-! ## What is written -/

/-- A line of a comment. It does not open a tag and ends in no white space. -/
structure DocLine where
  chars : List Char
  oneLine : '\n' ∉ chars
  noWhiteEnd : ∀ c ∈ chars.getLast?, isWhite c = false
  noTag : chars.head? ≠ some '@'

/-- The line is not empty and starts without white space. -/
def DocLine.Flush (line : DocLine) : Prop :=
  line.chars ≠ [] ∧ ∀ c ∈ line.chars.head?, isWhite c = false

/-- A tag with the lines of its text. -/
structure DocTag.Written where
  name : List Char
  name_ne_nil : name ≠ []
  noWhite : ∀ c ∈ name, isWhite c = false
  lines : List DocLine
  lines_ne_nil : ∀ line ∈ lines, line.chars ≠ []
  first_flush : ∀ line ∈ lines.head?, line.Flush

/-- A comment: the lines of its description, if it has one, and its tags. -/
structure WrittenComment where
  description : List DocLine
  first_flush : ∀ line ∈ description.head?, line.Flush
  last_ne_nil : ∀ line ∈ description.getLast?, line.chars ≠ []
  tags : List DocTag.Written

/-- Lines joined by line breaks. -/
def joined (lines : List DocLine) : List Char :=
  ['\n'].intercalate (lines.map DocLine.chars)

namespace DocTag.Written

/-- The line that opens the tag, without its star. -/
def firstLine (tag : Written) : List Char :=
  '@' :: tag.name ++ ' ' :: (tag.lines.head?.map DocLine.chars).getD []

/-- The lines of the tag, without their stars. -/
def allLines (tag : Written) : List (List Char) :=
  tag.firstLine :: tag.lines.tail.map DocLine.chars

/-- The tag that is meant. -/
def meaning (tag : Written) : DocTag where
  name := String.ofList tag.name
  text := String.ofList (joined tag.lines)

end DocTag.Written

namespace WrittenComment

/-- The lines of the comment, without their stars. -/
def allLines (comment : WrittenComment) : List (List Char) :=
  comment.description.map DocLine.chars ++ comment.tags.flatMap DocTag.Written.allLines

/-- The text of the comment between its delimiters. The last line is one blank. -/
def text (comment : WrittenComment) : String :=
  String.ofList (['\n'].intercalate (comment.allLines.map (" * ".toList ++ ·) ++ [[' ']]))

/-- The comment that is meant. -/
def meaning (comment : WrittenComment) : DocComment where
  description :=
    if comment.description.isEmpty then none else some (String.ofList (joined comment.description))
  tags := comment.tags.map DocTag.Written.meaning

end WrittenComment

/-! ## Lines -/

private theorem DocLine.trimEnd_eq (line : DocLine) : trimEnd line.chars = line.chars :=
  trimEnd_eq_self line.noWhiteEnd

namespace DocComment

/-- Behind its star a line loses white space at its end and nothing else. -/
theorem lineText_starred (line : List Char) :
    lineText (" * ".toList ++ line) = trimEnd line := by
  have hstart : trimStart (" * ".toList ++ line) = ['*', ' '] ++ line := rfl
  -- The line is what is kept of it and white space behind that.
  obtain ⟨white, hwhite, hline⟩ := exists_white_end line
  have htrim : trim (" * ".toList ++ line) =
      trimEnd (['*', ' '] ++ trimEnd line) := by
    rw [trim, hstart, hline, ← List.append_assoc, trimEnd_append hwhite, ← hline]
  have hend : ∀ c ∈ (trimEnd line).getLast?, isWhite c = false :=
    fun c hc => isWhite_getLast?_trimEnd hc
  rw [lineText, htrim]
  generalize trimEnd line = kept at hend
  -- An empty line also loses the blank behind its star.
  cases kept with
  | nil => decide
  | cons c cs =>
    have hkept : trimEnd (['*', ' '] ++ c :: cs) = ['*', ' '] ++ c :: cs :=
      trimEnd_eq_self fun d hd => hend d (by simpa using hd)
    rw [hkept]
    exact trimEnd_eq_self hend

/-! ## Lines before the lines and tags that follow them -/

private theorem addLine_of_ne {line : List Char} (h : line.head? ≠ some '@')
    (after : List (List Char) × List DocTag) :
    addLine line after = (line :: after.1, after.2) := by
  cases line with
  | nil => rfl
  | cons c cs =>
    have hc : c ≠ '@' := fun heq => h (congrArg some heq)
    simp [addLine, hc]

/-- Lines that open no tag stay as they are. -/
theorem foldr_addLine (lines : List DocLine) (after : List (List Char) × List DocTag) :
    (lines.map DocLine.chars).foldr addLine after =
      (lines.map DocLine.chars ++ after.1, after.2) := by
  induction lines with
  | nil => rfl
  | cons line lines ih =>
    rw [List.map_cons, List.foldr_cons, ih, addLine_of_ne line.noTag]
    rfl

/-- Empty lines behind other lines are left out where lines are joined. -/
theorem joinLines_append {lines : List DocLine} (hlines : ∀ line ∈ lines, line.chars ≠ [])
    {more : List (List Char)} (hmore : ∀ line ∈ more, line = []) :
    joinLines (lines.map DocLine.chars ++ more) = String.ofList (joined lines) := by
  have hkeep : (lines.map DocLine.chars).filter (!·.isEmpty) = lines.map DocLine.chars := by
    refine List.filter_eq_self.2 fun chars hchars => ?_
    obtain ⟨line, hline, rfl⟩ := List.mem_map.1 hchars
    simpa using hlines line hline
  have hdrop : more.filter (!·.isEmpty) = [] :=
    List.filter_eq_nil_iff.2 fun line hline => by simp [hmore line hline]
  rw [joinLines, List.filter_append, hkeep, hdrop, List.append_nil, joined]

end DocComment

namespace DocTag.Written

open DocComment

variable {more : List (List Char)}

/-- The name of a tag ends before the first white space behind `@`. -/
private theorem tagOf_name (tag : Written) {rest : List Char}
    (hrest : ∀ c ∈ rest.head?, isWhite c = true) :
    tagOf (tag.name ++ rest) more =
      ⟨String.ofList tag.name, joinLines (trim rest :: more)⟩ := by
  have hname : ∀ c ∈ tag.name, (!isWhite c) = true := fun c hc => by simp [tag.noWhite c hc]
  rw [tagOf, List.takeWhile_append_of_pos hname, List.dropWhile_append_of_pos hname]
  cases rest with
  | nil => simp
  | cons c cs => simp [hrest c rfl]

/-- The line that opens a tag is read as the name and the first line of the text. -/
private theorem tagOf_firstLine (tag : Written) (hmore : ∀ line ∈ more, line = []) :
    ∃ rest, trimEnd tag.firstLine = '@' :: rest ∧
      tagOf rest (tag.lines.tail.map DocLine.chars ++ more) = tag.meaning := by
  -- A tag without text ends with its name, and the blank behind that is trimmed.
  cases hlines : tag.lines with
  | nil =>
    have hblank : ∀ c ∈ [' '], isWhite c = true := List.forall_mem_singleton.2 (by decide)
    have hend : trimEnd ('@' :: tag.name) = '@' :: tag.name := by
      refine trimEnd_eq_self fun c hc => tag.noWhite c (List.mem_of_mem_getLast? ?_)
      rwa [List.getLast?_cons_of_ne_nil tag.name_ne_nil] at hc
    refine ⟨tag.name ++ [], ?_, ?_⟩
    · rw [firstLine, hlines, List.append_nil]
      exact (trimEnd_append hblank).trans hend
    · have htext : joinLines ([] ++ [] :: more) = String.ofList (joined []) :=
        joinLines_append (List.forall_mem_nil _) (List.forall_mem_cons.2 ⟨rfl, hmore⟩)
      rw [tag.tagOf_name (by simp), meaning, hlines, ← htext]
      rfl
  | cons first others =>
    -- Otherwise the first line of the text stands behind the name.
    obtain ⟨hne, hflush⟩ := tag.first_flush first (by rw [hlines]; rfl)
    have htrim : trim (' ' :: first.chars) = first.chars := by
      have hstart : trimStart (' ' :: first.chars) = trimStart first.chars := rfl
      rw [trim, hstart, trimStart_eq_self hflush, first.trimEnd_eq]
    refine ⟨tag.name ++ ' ' :: first.chars, ?_, ?_⟩
    · have hline : tag.firstLine = ('@' :: tag.name ++ [' ']) ++ first.chars := by
        simp [firstLine, hlines]
      rw [hline, trimEnd_append_eq_self hne first.noWhiteEnd]
      simp
    · have htext := joinLines_append (hlines ▸ tag.lines_ne_nil) hmore
      have hblank : ∀ c ∈ (' ' :: first.chars).head?, isWhite c = true :=
        fun c hc => Option.some.inj hc ▸ by decide
      rw [tag.tagOf_name hblank, htrim, meaning, hlines, ← htext]
      rfl

/-- The lines of a tag become the tag, whatever tags follow. Only empty lines may stand between. -/
theorem foldr_addLine (tag : Written) (hmore : ∀ line ∈ more, line = []) (tags : List DocTag) :
    (tag.allLines.map trimEnd).foldr addLine (more, tags) = ([], tag.meaning :: tags) := by
  obtain ⟨rest, hfirst, hmeaning⟩ := tag.tagOf_firstLine hmore
  have hothers : (tag.lines.tail.map DocLine.chars).map trimEnd =
      tag.lines.tail.map DocLine.chars := by
    rw [List.map_map]
    exact List.map_congr_left fun line _ => line.trimEnd_eq
  rw [allLines, List.map_cons, List.foldr_cons, hothers, DocComment.foldr_addLine, hfirst,
    ← hmeaning]
  rfl

end DocTag.Written

/-! ## Whole comments -/

namespace WrittenComment

open DocComment

/-- The tags before the last line. That belongs to the description only if there is no tag. -/
private theorem foldr_addLine_tags (tags : List DocTag.Written) :
    ∃ more, (∀ line ∈ more, line = []) ∧
      ((tags.flatMap DocTag.Written.allLines).map trimEnd).foldr addLine ([[]], []) =
        (more, tags.map DocTag.Written.meaning) := by
  -- Induction on the tags from the last one on, as `addLine` takes the lines from the end.
  induction tags with
  | nil => exact ⟨[[]], List.forall_mem_singleton.2 rfl, rfl⟩
  | cons tag tags ih =>
    obtain ⟨more, hmore, htags⟩ := ih
    refine ⟨[], List.forall_mem_nil _, ?_⟩
    rw [List.flatMap_cons, List.map_append, List.foldr_append, htags, tag.foldr_addLine hmore,
      List.map_cons]

variable (comment : WrittenComment)

theorem exists_joined_eq_cons (h : comment.description ≠ []) :
    ∃ c rest, isWhite c = false ∧ joined comment.description = c :: rest := by
  obtain ⟨first, others, hlines⟩ := List.exists_cons_of_ne_nil h
  obtain ⟨hne, hflush⟩ := comment.first_flush first (by rw [hlines]; rfl)
  obtain ⟨c, cs, hchars⟩ := List.exists_cons_of_ne_nil hne
  rw [joined, hlines, List.map_cons, intercalate_cons, hchars]
  exact ⟨c, _, hflush c (by rw [hchars]; rfl), rfl⟩

/-- A description ends with its last line. -/
theorem exists_joined_eq_append (h : comment.description ≠ []) :
    ∃ before, ∃ last ∈ comment.description.getLast?,
      joined comment.description = before ++ last.chars := by
  have hconcat := List.dropLast_concat_getLast h
  generalize comment.description.dropLast = init at hconcat
  generalize comment.description.getLast h = last at hconcat
  rw [← hconcat, joined, List.map_append, List.map_singleton]
  -- A single line has no separator in front of it.
  cases init with
  | nil => exact ⟨[], last, rfl, by simp⟩
  | cons line init =>
    rw [intercalate_append _ (by simp), List.flatMap_singleton, ← List.append_assoc]
    exact ⟨_, last, List.getLast?_concat, rfl⟩

/-- White space behind a description is taken away, and nothing else. -/
private theorem trim_joined {white : List Char} (hwhite : ∀ c ∈ white, isWhite c = true)
    (h : comment.description ≠ []) :
    trim (joined comment.description ++ white) = joined comment.description := by
  obtain ⟨c, rest, hfirst, hstart⟩ := comment.exists_joined_eq_cons h
  obtain ⟨before, last, hmem, hend⟩ := comment.exists_joined_eq_append h
  have hkept : trimStart (c :: rest ++ white) = c :: rest ++ white :=
    trimStart_eq_self fun d hd => Option.some.inj hd ▸ hfirst
  rw [trim, hstart, hkept, trimEnd_append hwhite, ← hstart, hend]
  exact trimEnd_append_eq_self (comment.last_ne_nil last hmem) last.noWhiteEnd

/-- The description with empty lines behind it, trimmed. -/
private theorem trim_description {more : List (List Char)} (hmore : ∀ line ∈ more, line = []) :
    trim (['\n'].intercalate (comment.description.map DocLine.chars ++ more)) =
      joined comment.description := by
  -- Empty lines leave only line breaks behind, which are white space.
  have hwhite : ∀ more : List (List Char), (∀ line ∈ more, line = []) →
      ∀ c ∈ more.flatMap (['\n'] ++ ·), isWhite c = true := by
    intro more hmore c hc
    obtain ⟨line, hline, hc⟩ := List.mem_flatMap.1 hc
    rw [hmore line hline, List.append_nil, List.mem_singleton] at hc
    exact hc ▸ by decide
  by_cases h : comment.description = []
  · rw [h, List.map_nil, List.nil_append]
    refine trim_of_white ?_
    cases more with
    | nil => exact List.forall_mem_nil _
    | cons line more =>
      obtain ⟨hline, hmore⟩ := List.forall_mem_cons.1 hmore
      rw [intercalate_cons, hline]
      exact hwhite more hmore
  · rw [intercalate_append _ (by simpa using h)]
    exact comment.trim_joined (hwhite more hmore) h

/-- No line has a line break in it. -/
private theorem newline_not_mem : ∀ line ∈ comment.allLines, '\n' ∉ line := by
  intro line hline
  -- A line is one of the description, or the first or a later one of a tag.
  rcases List.mem_append.1 hline with hline | hline
  · obtain ⟨line, -, rfl⟩ := List.mem_map.1 hline
    exact line.oneLine
  · obtain ⟨tag, -, hline⟩ := List.mem_flatMap.1 hline
    rcases List.mem_cons.1 hline with rfl | hline
    · have hname : '\n' ∉ tag.name := fun hmem => absurd (tag.noWhite _ hmem) (by decide)
      have hfirst : '\n' ∉ (tag.lines.head?.map DocLine.chars).getD [] := by
        cases tag.lines with
        | nil => exact List.not_mem_nil
        | cons first others => exact first.oneLine
      simp [DocTag.Written.firstLine, hname, hfirst]
    · obtain ⟨line, -, rfl⟩ := List.mem_map.1 hline
      exact line.oneLine

/-- What is left of the lines of the text. -/
private theorem map_lineText :
    (splitOn '\n' comment.text.toList).map lineText =
      comment.allLines.map trimEnd ++ [[]] := by
  -- The text splits at the line breaks that were put between its lines, and at no others.
  have hlines : ∀ line ∈ comment.allLines.map (" * ".toList ++ ·) ++ [[' ']], '\n' ∉ line := by
    intro line hline
    rcases List.mem_append.1 hline with hline | hline
    · obtain ⟨line, hmem, rfl⟩ := List.mem_map.1 hline
      simp [comment.newline_not_mem line hmem]
    · rw [List.mem_singleton.1 hline]
      decide
  rw [text, String.toList_ofList, splitOn_eq, List.splitOn_intercalate '\n' hlines (by simp),
    List.map_append, List.map_map]
  exact congrArg (· ++ _) (List.map_congr_left fun line _ => lineText_starred line)

end WrittenComment

/-- A documentation comment is read as it was written: reading its text gives its description, with
line breaks between the lines, and its tags in order, each with its name and its text. -/
theorem parse_written (comment : WrittenComment) :
    DocComment.parse comment.text = comment.meaning := by
  obtain ⟨more, hmore, htags⟩ := WrittenComment.foldr_addLine_tags comment.tags
  have hdescription : (comment.description.map DocLine.chars).map trimEnd =
      comment.description.map DocLine.chars := by
    rw [List.map_map]
    exact List.map_congr_left fun line _ => line.trimEnd_eq
  -- From the end: the last line, then the tags, then the description.
  have hfold : ((splitOn '\n' comment.text.toList).map DocComment.lineText).foldr
      DocComment.addLine ([], []) =
        (comment.description.map DocLine.chars ++ more,
          comment.tags.map DocTag.Written.meaning) := by
    have hlast : [[]].foldr DocComment.addLine ([], []) = ([[]], []) := rfl
    rw [comment.map_lineText, List.foldr_append, hlast, WrittenComment.allLines, List.map_append,
      List.foldr_append, htags, hdescription, DocComment.foldr_addLine]
  -- A comment without description has none after reading either.
  have hempty : (joined comment.description).isEmpty = comment.description.isEmpty := by
    cases hlines : comment.description with
    | nil => rfl
    | cons first others =>
      obtain ⟨c, rest, -, hjoined⟩ :=
        comment.exists_joined_eq_cons (hlines ▸ List.cons_ne_nil first others)
      rw [← hlines, hjoined, hlines]
      rfl
  rw [DocComment.parse, hfold, WrittenComment.meaning]
  simp only [comment.trim_description hmore, hempty]

/-- Stars and indentation inside the lines stay. -/
theorem starred_comment_read :
    DocComment.parse
        " * A list:\n * \n * * one\n *   two\n * @example [1,\n *   2]\n * @deprecated \n " =
      ⟨some "A list:\n\n* one\n  two", [⟨"example", "[1,\n  2]"⟩, ⟨"deprecated", ""⟩]⟩ := by
  -- The lines without their stars, as the writer of the comment sees them.
  let list : DocLine := ⟨"A list:".toList, by decide, by simp; decide, by decide⟩
  let empty : DocLine := ⟨[], by decide, by simp, by decide⟩
  let one : DocLine := ⟨"* one".toList, by decide, by simp; decide, by decide⟩
  let two : DocLine := ⟨"  two".toList, by decide, by simp; decide, by decide⟩
  let array : DocLine := ⟨"[1,".toList, by decide, by simp; decide, by decide⟩
  let rest : DocLine := ⟨"  2]".toList, by decide, by simp; decide, by decide⟩
  let tag (name : List Char) (hne : name ≠ []) (hwhite : name.all (!isWhite ·) = true)
      (lines : List DocLine) (hlines : ∀ line ∈ lines, line.chars ≠ [])
      (hfirst : ∀ line ∈ lines.head?, line.Flush) : DocTag.Written :=
    ⟨name, hne, by simpa using hwhite, lines, hlines, hfirst⟩
  let comment : WrittenComment := {
    description := [list, empty, one, two]
    first_flush := fun line hline => Option.some.inj hline ▸ ⟨by decide, by simp [list]; decide⟩
    last_ne_nil := fun line hline => Option.some.inj hline ▸ by decide
    tags := [
      tag "example".toList (by decide) (by decide) [array, rest] (by simp [array, rest])
        (fun line hline => Option.some.inj hline ▸ ⟨by decide, by simp [array]; decide⟩),
      tag "deprecated".toList (by decide) (by decide) [] (by simp) (by simp)] }
  exact parse_written comment

end Endpoints
