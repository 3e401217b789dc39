import Coverage.Notes
import Coverage.Proofs.Records

/-!
# What the records of a notes file mention

A reader that goes through a notes file and takes down what its records mention: a function, its
blocks, a block of which lines follow, a source, or a line.  It knows how records are laid out, and
nothing else: it has no registry and no graphs, refuses nothing, and keeps no list of lines for a
block (`readItem`, `mentions`).

Where a line belongs is then a matter of what was mentioned before it, and of whether the function
was given other blocks after it (`attributed`).  One more mention adds a line, or takes away those
of a function (`attributed_concat`).
-/

namespace Coverage.Notes

/-! ## Mentions -/

/-- What a record of a notes file mentions. -/
inductive Mention where
  | function
  /-- The blocks of the function that was mentioned last. -/
  | blocks
  /-- The block that the lines of a record are for. -/
  | block (index : Nat)
  | source (name : String)
  | line (number : Nat)
deriving DecidableEq, Repr

namespace Mention

/-- The block that lines are for. -/
def block? : Mention → Option Nat
  | .block index => some index
  | _ => none

/-- The name of a source. -/
def source? : Mention → Option String
  | .source name => some name
  | _ => none

/-- The number of a line. -/
def line? : Mention → Option Nat
  | .line number => some number
  | _ => none

end Mention

/-! ## Reading them -/

/-- Where the reader stands. -/
inductive Place where
  | between
  /-- In a record of arcs, with `further` arcs after the next one. -/
  | inArcs (further : Nat)
  | inLines
deriving DecidableEq, Repr

/-- Before so many arcs of a record. -/
def Place.beforeArcs : Nat → Place
  | 0 => .between
  | further + 1 => .inArcs further

/-- Reads the head of a record, `length` words long, about the function that was mentioned last. -/
def readGraphItem (version length : Nat) : GraphRecord → Read (Place × Option Mention)
  | .blocks => do
    let _ ← readBlockCount version length
    return (.between, some .blocks)
  | .arcs => do
    let _ ← Cursor.word
    return (.beforeArcs ((length - 1) / 2), none)
  | .lines => do
    let index ← Cursor.word
    return (.inLines, some (.block index))

/-- Reads one item: a tag with the head of its record, an arc, or a token of a record of lines.
What the item mentions is given with the place behind it. -/
def readItem (version : Nat) : Place → Read (Place × Option Mention)
  | .between => do
    let word ← Cursor.word
    match Tag.ofWord? word with
    | none => return (.between, none)
    | some tag => do
      let length ← Cursor.word
      match tag with
      | .function => do
        let _ ← readHeader version
        return (.between, some .function)
      | .graph record => readGraphItem version length record
  | .inArcs further => do
    let _ ← readArcWords
    return (.beforeArcs further, none)
  | .inLines => do
    let word ← Cursor.word
    if word = 0 then
      let name ← Cursor.string
      return if name.isEmpty then (.between, none) else (.inLines, some (.source name))
    else return (.inLines, some (.line word))

/-- What the reader knows: where it stands, and what was mentioned so far. -/
structure Notepad where
  version : Nat
  place : Place := .between
  told : List Mention := []
deriving DecidableEq, Repr

/-- Takes down an item. -/
def Notepad.note (pad : Notepad) : Place × Option Mention → Notepad
  | (place, none) => { pad with place }
  | (place, some mention) => { pad with place, told := pad.told ++ [mention] }

/-- Reads an item and takes it down; at the end of the file nothing more is mentioned. -/
def takeDown (pad : Notepad) : Scanner Notepad (List Mention) :=
  Scanner.read (readItem pad.version pad.place) pad.told fun item => Scanner.goOn (pad.note item)

theorem readGraphItem_consumes (version length : Nat) (record : GraphRecord) :
    (readGraphItem version length record).Consumes 0 := by
  cases record with
  | blocks =>
    exact (readBlockCount_consumes version length).bind fun _ => Read.consumes_pure _
  | arcs =>
    exact (Cursor.word_consumes.bind fun _ => Read.consumes_pure _).mono (Nat.zero_le _)
  | lines =>
    exact (Cursor.word_consumes.bind fun _ => Read.consumes_pure _).mono (Nat.zero_le _)

theorem readItem_consumes (version : Nat) (place : Place) :
    (readItem version place).Consumes wordSize := by
  cases place with
  | between =>
    refine Read.Consumes.bind (m := 0) Cursor.word_consumes fun word => ?_
    split
    · exact Read.consumes_pure _
    · refine (Read.Consumes.bind (m := 0) Cursor.word_consumes fun length => ?_).mono
        (Nat.zero_le _)
      split
      · exact ((readHeader_consumes version).bind fun _ => Read.consumes_pure _).mono
          (Nat.zero_le _)
      · exact readGraphItem_consumes version length _
  | inArcs further =>
    exact readArcWords_consumes.bind fun _ => Read.consumes_pure _
  | inLines =>
    refine Read.Consumes.bind (m := 0) Cursor.word_consumes fun word => ?_
    split
    · exact (Cursor.string_consumes.bind fun _ => Read.consumes_pure _).mono (Nat.zero_le _)
    · exact Read.consumes_pure _

theorem advances_takeDown (pad : Notepad) : (takeDown pad).Advances wordSize :=
  Scanner.advances_read (readItem_consumes pad.version pad.place) fun _ => Scanner.advances_goOn _

/-- The reader as a machine. -/
def reader : Machine (Scan Notepad) (List Mention) :=
  Scanner.machine takeDown fun pad => (advances_takeDown pad).mono (by decide)

/-- What the records of a notes file mention, in the order of the file and up to its end. -/
def mentions (bytes : Bytes) : List Mention :=
  match records? .notes bytes with
  | none => []
  | some (version, cursor) => reader.run { cursor, state := { version } }

/-! ## Lines and their places -/

/-- The number of functions. -/
def functionCount (told : List Mention) : Nat :=
  told.count .function

/-- The block that was mentioned last. -/
def lastBlock? (told : List Mention) : Option Nat :=
  (told.filterMap Mention.block?).getLast?

/-- The source that was named last, in whatever record and function. -/
def lastSource? (told : List Mention) : Option String :=
  (told.filterMap Mention.source?).getLast?

/-- The mentions up to the next function. -/
def untilFunction (told : List Mention) : List Mention :=
  told.takeWhile (· ≠ .function)

/-- The mention at `k`, if it is a line of block `b` of the function at position `i`: it comes after
that function and not after the next one, the block was mentioned last before it, and the function
is not given other blocks after it.  The line is given with the source that was named last before
it. -/
def attributedAt? (told : List Mention) (i b k : Nat) : Option (Option String × Nat) :=
  let before := told.take k
  if functionCount before = i + 1 ∧ lastBlock? before = some b
      ∧ .blocks ∉ untilFunction (told.drop k) then
    (told[k]?.bind Mention.line?).map (lastSource? before, ·)
  else none

/-- The lines of block `b` of the function at position `i`, in the order of the file. -/
def attributed (told : List Mention) (i b : Nat) : List (Option String × Nat) :=
  (List.range told.length).filterMap (attributedAt? told i b)

variable {told : List Mention} {m : Mention}

@[simp] theorem functionCount_concat (told : List Mention) (m : Mention) :
    functionCount (told ++ [m]) = functionCount told + if m = .function then 1 else 0 := by
  simp [functionCount, List.count_singleton]

@[simp] theorem lastBlock?_concat (told : List Mention) (m : Mention) :
    lastBlock? (told ++ [m]) = m.block?.or (lastBlock? told) := by
  cases h : m.block? <;> simp [lastBlock?, h]

@[simp] theorem lastSource?_concat (told : List Mention) (m : Mention) :
    lastSource? (told ++ [m]) = m.source?.or (lastSource? told) := by
  cases h : m.source? <;> simp [lastSource?, h]

/-- Other blocks are mentioned before the next function, or last of all if there is no next
function. -/
theorem blocks_mem_untilFunction_concat (after : List Mention) (m : Mention) :
    .blocks ∈ untilFunction (after ++ [m])
      ↔ .blocks ∈ untilFunction after ∨ m = .blocks ∧ .function ∉ after := by
  induction after with
  | nil =>
    cases m <;> simp [untilFunction]
  | cons a after ih =>
    by_cases ha : a = .function
    · simp [untilFunction, ha]
    · have hcons : ∀ more, untilFunction (a :: more) = a :: untilFunction more := by
        intro more
        simp [untilFunction, ha]
      rw [List.cons_append, hcons, hcons, List.mem_cons, List.mem_cons, ih, List.mem_cons]
      simp [Ne.symm ha, or_assoc]

/-- No function comes after the first `k` mentions if these have all of them. -/
theorem function_not_mem_drop {k : Nat} :
    .function ∉ told.drop k ↔ functionCount told = functionCount (told.take k) := by
  have hsplit : functionCount told
      = functionCount (told.take k) + (told.drop k).count .function := by
    rw [functionCount, functionCount, ← List.count_append, List.take_append_drop]
  rw [hsplit, ← List.count_eq_zero]
  omega

/-- What an earlier mention says still holds after another one, unless this gives the function other
blocks. -/
theorem attributedAt?_concat {k : Nat} (hk : k < told.length) (m : Mention) (i b : Nat) :
    attributedAt? (told ++ [m]) i b k
      = if m = .blocks ∧ functionCount told = i + 1 then none else attributedAt? told i b k := by
  have hbefore : (told ++ [m]).take k = told.take k :=
    List.take_append_of_le_length (Nat.le_of_lt hk)
  have hafter : (told ++ [m]).drop k = told.drop k ++ [m] :=
    List.drop_append_of_le_length (Nat.le_of_lt hk)
  have hget : (told ++ [m])[k]? = told[k]? :=
    List.getElem?_append_left hk
  simp only [attributedAt?, hbefore, hafter, hget, blocks_mem_untilFunction_concat,
    function_not_mem_drop]
  by_cases hcount : functionCount (told.take k) = i + 1
  · rw [hcount]
    by_cases hother : m = .blocks ∧ functionCount told = i + 1
    · simp [hother]
    · simp [hother]
  · simp [hcount]

/-- One more mention takes away the lines of the function that was mentioned last, if it is given
other blocks, or adds a line to the block that was mentioned last. -/
theorem attributed_concat (told : List Mention) (m : Mention) (i b : Nat) :
    attributed (told ++ [m]) i b
      = (if m = .blocks ∧ functionCount told = i + 1 then [] else attributed told i b)
        ++ if functionCount told = i + 1 ∧ lastBlock? told = some b
          then (m.line?.map (lastSource? told, ·)).toList else [] := by
  have hlast : attributedAt? (told ++ [m]) i b told.length
      = if functionCount told = i + 1 ∧ lastBlock? told = some b
        then m.line?.map (lastSource? told, ·) else none := by
    cases m <;> simp [attributedAt?, untilFunction, Mention.line?]
  have hearlier : (List.range told.length).filterMap (attributedAt? (told ++ [m]) i b)
      = if m = .blocks ∧ functionCount told = i + 1 then [] else attributed told i b := by
    rw [List.filterMap_congr fun k hk => attributedAt?_concat (List.mem_range.mp hk) m i b]
    split
    · simp
    · rfl
  rw [attributed, List.length_append, List.length_singleton, List.range_succ,
    List.filterMap_append, hearlier, List.filterMap_cons, List.filterMap_nil, hlast]
  by_cases hline : functionCount told = i + 1 ∧ lastBlock? told = some b
  · rw [if_pos hline, if_pos hline]
    cases m.line? <;> rfl
  · rw [if_neg hline, if_neg hline]

/-- A line is one more line of the block that was mentioned last. -/
theorem attributed_concat_line (told : List Mention) (line i b : Nat) :
    attributed (told ++ [.line line]) i b
      = attributed told i b ++ if functionCount told = i + 1 ∧ lastBlock? told = some b
        then [(lastSource? told, line)] else [] := by
  simp [attributed_concat, Mention.line?]

/-- Other blocks have no lines. -/
theorem attributed_concat_blocks (told : List Mention) (i b : Nat) :
    attributed (told ++ [.blocks]) i b
      = if functionCount told = i + 1 then [] else attributed told i b := by
  simp [attributed_concat, Mention.line?]

/-- What is neither blocks nor a line leaves all lines where they are. -/
theorem attributed_concat_of_silent (told : List Mention) (m : Mention) (hblocks : m ≠ .blocks)
    (hline : m.line? = none) (i b : Nat) :
    attributed (told ++ [m]) i b = attributed told i b := by
  simp [attributed_concat, hblocks, hline]

end Coverage.Notes
