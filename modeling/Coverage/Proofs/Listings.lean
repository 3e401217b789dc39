import Coverage.Render.Views
import Mathlib.Data.List.Forall2

/-!
# What is printed in a listing

A listing is text, and this says what stands in it without saying how it is put together.  The text
consists of lines, each with a line feed behind it (`Text.IsLines`).  The row of a line of a file
has two columns, each at the right end of its field (`Text.Fills`): the count of the line as a
numeral with commas (`Text.IsNumeral`), or a mark, and the number of the line.

* `LineCoverage.shownBy_row` — a row shows the line that it is of;
* `Report.prints_lineListing` — a listing has a page for every file, with a row for every line that
  is listed.
-/

namespace Coverage

open Render

/-! ## Texts -/

namespace Text

/-- `IsLines lines text`: the text consists of these lines, each with a line feed behind it. -/
def IsLines (lines : List String) (text : String) : Prop :=
  text.toList = lines.flatMap fun line => line.toList ++ ['\n']

/-- `Fills width text field`: blanks and then the text, as wide as the field is to be, or wider
where the text is. -/
structure Fills (width : Nat) (text field : List Char) : Prop where
  length : field.length = max width text.length
  blanks : ∃ pad, field = pad ++ text ∧ ∀ c ∈ pad, c = ' '

/-- `Separated digits text`: a comma stands in front of every three digits, counted from the end,
that have some before them. -/
def Separated (digits text : List Char) : Prop :=
  ∃ (first : List Char) (groups : List (List Char)),
    digits = first ++ groups.flatten ∧ text = first ++ groups.flatMap (',' :: ·)
      ∧ first ≠ [] ∧ first.length ≤ 3 ∧ ∀ group ∈ groups, group.length = 3

/-- `IsNumeral n text`: the number in decimal, with commas, and with a sign if it is negative. -/
def IsNumeral (n : Int) (text : List Char) : Prop :=
  ∃ digits, Separated (Nat.toDigits 10 n.natAbs) digits
    ∧ text = if n < 0 then '-' :: digits else digits

theorem isLines_join (lines : List String) : IsLines lines (String.join (lines.map textLine)) := by
  rw [IsLines, String.toList_join, List.flatMap_map]
  refine List.flatMap_congr fun line _ => ?_
  rw [textLine, String.toList_append]
  rfl

theorem fills_alignRight (width : Nat) (text : String) :
    Fills width text.toList (alignRight width text).toList where
  length := by
    simp only [alignRight, blanks, String.toList_append, String.toList_ofList, List.length_append,
      List.length_replicate, String.length_toList]
    omega
  blanks := by
    refine ⟨List.replicate (width - text.length) ' ', ?_, fun c => List.eq_of_mem_replicate⟩
    rw [alignRight, blanks, String.toList_append, String.toList_ofList]

/-- There is nothing in a field but blanks and its text. -/
theorem Fills.not_mem {width : Nat} {text field : List Char} (h : Fills width text field) {c : Char}
    (hblank : c ≠ ' ') (htext : c ∉ text) : c ∉ field := by
  obtain ⟨pad, rfl, hpad⟩ := h.blanks
  intro hc
  rcases List.mem_append.mp hc with hc | hc
  · exact hblank (hpad c hc)
  · exact htext hc

/-- Digits that come with the last one first are separated from there. -/
theorem separated_groupReversed {reversed : List Char} (h : reversed ≠ []) :
    Separated reversed.reverse (groupReversed reversed).reverse := by
  fun_induction groupReversed reversed with
  | case1 a b c d rest ih =>
    obtain ⟨first, groups, hdigits, htext, hfirst, hlength, hgroups⟩ := ih (List.cons_ne_nil d rest)
    refine ⟨first, groups ++ [[c, b, a]], ?_, ?_, hfirst, hlength, ?_⟩
    · rw [List.flatten_append, ← List.append_assoc, ← hdigits]
      simp
    · rw [List.flatMap_append, ← List.append_assoc, ← htext]
      simp
    · intro group hgroup
      rcases List.mem_append.mp hgroup with hgroup | hgroup
      · exact hgroups group hgroup
      · rw [List.mem_singleton.mp hgroup]
        rfl
  | case2 short hshort =>
    refine ⟨short.reverse, [], by simp, by simp, by simpa using h, ?_, by simp⟩
    rw [List.length_reverse]
    match short, hshort with
    | [], _ | [_], _ | [_, _], _ | [_, _, _], _ => simp
    | a :: b :: c :: d :: rest, hshort => exact (hshort a b c d rest rfl).elim

theorem isNumeral_grouped (n : Int) : IsNumeral n (grouped n).toList := by
  refine ⟨_, ?_, String.toList_ofList⟩
  have hdigits : (Nat.toDigits 10 n.natAbs).reverse ≠ [] := by
    rw [Ne, List.reverse_eq_nil_iff]
    exact List.ne_nil_of_length_pos Nat.length_toDigits_pos
  simpa using separated_groupReversed hdigits

theorem Separated.of_mem {digits text : List Char} (h : Separated digits text) {c : Char}
    (hc : c ∈ text) : c = ',' ∨ c ∈ digits := by
  obtain ⟨first, groups, rfl, rfl, -⟩ := h
  simp only [List.mem_append, List.mem_flatMap, List.mem_flatten, List.mem_cons] at hc ⊢
  grind

/-- A numeral holds digits, commas and a sign. -/
theorem IsNumeral.of_mem {n : Int} {text : List Char} (h : IsNumeral n text) {c : Char}
    (hc : c ∈ text) : c = '-' ∨ c = ',' ∨ c.isDigit := by
  obtain ⟨digits, hdigits, rfl⟩ := h
  have hmem : c = '-' ∨ c ∈ digits := by
    split at hc
    · exact List.mem_cons.mp hc
    · exact .inr hc
  refine hmem.imp_right fun hc => (hdigits.of_mem hc).imp_right fun hc => ?_
  exact Nat.isDigit_of_mem_toDigits (by decide) (by decide) hc

/-- A number in decimal holds digits and a sign. -/
theorem of_mem_toString {n : Int} {c : Char} (hc : c ∈ (toString n).toList) :
    c = '-' ∨ c.isDigit := by
  have hdigits : ∀ {m : Nat}, c ∈ m.repr.toList → c.isDigit := by
    intro m hm
    rw [Nat.toList_repr] at hm
    exact Nat.isDigit_of_mem_toDigits (by decide) (by decide) hm
  rw [Int.toString_eq_repr, Int.repr_eq_if] at hc
  split at hc
  · exact .inr (hdigits hc)
  · rw [String.toList_append, List.mem_append] at hc
    exact hc.imp List.mem_singleton.mp hdigits

end Text

open Text

/-! ## Rows -/

/-- A row shows a line of a file.  It has two columns, each behind two blanks: in ten places the
count of the line, or a mark if it was missed, and in six places its number. -/
structure LineCoverage.ShownBy (l : LineCoverage) (row : String) : Prop where
  columns : ∃ mark first last, row.toList = "  ".toList ++ first ++ "  ".toList ++ last
    ∧ (if l.executed then IsNumeral l.count mark else mark = "#####".toList)
    ∧ Fills 10 mark first ∧ Fills 6 (toString l.line).toList last
  /-- The row is a single line. -/
  single : '\n' ∉ row.toList

theorem LineCoverage.shownBy_row (l : LineCoverage) : l.ShownBy l.row := by
  have hcolumns : ∃ mark first last, l.row.toList = "  ".toList ++ first ++ "  ".toList ++ last
      ∧ (if l.executed then IsNumeral l.count mark else mark = "#####".toList)
      ∧ Fills 10 mark first ∧ Fills 6 (toString l.line).toList last := by
    refine ⟨_, _, _, ?_, ?_, fills_alignRight 10 (if l.executed then grouped l.count else "#####"),
      fills_alignRight 6 (toString l.line)⟩
    · simp only [row, String.toList_append]
    · split
      · exact isNumeral_grouped l.count
      · rfl
  refine ⟨hcolumns, ?_⟩
  obtain ⟨mark, first, last, hrow, hmark, hfirst, hlast⟩ := hcolumns
  have hfirst' : '\n' ∉ first := by
    refine hfirst.not_mem (by decide) fun hfeed => ?_
    split at hmark
    · exact absurd (hmark.of_mem hfeed) (by decide)
    · rw [hmark] at hfeed
      exact absurd hfeed (by decide)
  have hlast' : '\n' ∉ last := by
    refine hlast.not_mem (by decide) fun hfeed => ?_
    exact absurd (of_mem_toString hfeed) (by decide)
  rw [hrow]
  simp [hfirst', hlast']

/-- The count of a line that was missed is not shown. -/
theorem LineCoverage.shownBy_of_missed {l : LineCoverage} (h : l.executed = false) (count : Int) :
    LineCoverage.ShownBy { line := l.line, executed := false, count } l.row := by
  obtain ⟨hcolumns, hsingle⟩ := l.shownBy_row
  rw [h] at hcolumns
  exact ⟨hcolumns, hsingle⟩

/-! ## Pages -/

/-- A page of a listing: the name of a file, and rows. -/
structure Page where
  file : String
  rows : List String

/-- The name of the file, the rows, and an empty line. -/
def Page.lines (page : Page) : List String :=
  page.file :: page.rows ++ [""]

/-- A page shows lines of a file: under its name there is a row for each of them, in their order. -/
structure Page.Shows (page : Page) (file : String) (lines : List LineCoverage) : Prop where
  file : page.file = file
  rows : List.Forall₂ LineCoverage.ShownBy lines page.rows

/-- `Prints pages text`: the text consists of these pages, or of a message in place of none. -/
def Prints (pages : List Page) (text : String) : Prop :=
  IsLines (if pages.isEmpty then ["no matching source files"] else pages.flatMap (·.lines)) text

/-- The page of a file. -/
def FileCoverage.page (missedOnly : Bool) (coverage : FileCoverage) : Page where
  file := coverage.file
  rows := (coverage.listedLines missedOnly).map (·.row)

theorem FileCoverage.listedLines_false (coverage : FileCoverage) :
    coverage.listedLines false = coverage.lines := by
  simp [listedLines]

/-- All lines are listed. -/
theorem FileCoverage.page_shows_lines (coverage : FileCoverage) :
    (coverage.page false).Shows coverage.file coverage.lines where
  file := rfl
  rows := by
    rw [page, listedLines_false, List.forall₂_map_right_iff, List.forall₂_same]
    exact fun l _ => l.shownBy_row

/-- Of the missed lines the numbers are known, and that is what their rows show. -/
theorem FileCoverage.page_shows_missedLines (coverage : FileCoverage) :
    (coverage.page true).Shows coverage.file
      (coverage.missedLines.map fun line => { line, executed := false }) where
  file := rfl
  rows := by
    have hlisted : coverage.listedLines true = coverage.lines.filter (!·.executed) := by
      simp [listedLines]
    rw [page, hlisted, missedLines, List.forall₂_map_left_iff, List.forall₂_map_left_iff,
      List.forall₂_map_right_iff, List.forall₂_same]
    intro l hl
    exact LineCoverage.shownBy_of_missed (by simpa using (List.mem_filter.mp hl).2) 0

/-- A listing has a page for every file that is shown. -/
theorem Report.prints_lineListing (report : Report) (filter : Option String) (missedOnly : Bool) :
    Prints ((report.filterBy? filter).files.map (·.page missedOnly))
      (report.lineListing filter missedOnly) := by
  rw [Prints, List.isEmpty_map, lineListing]
  split
  · exact isLines_join ["no matching source files"]
  · rw [List.flatMap_map]
    exact isLines_join _

end Coverage
