import Coverage.Binary.Scan
import Coverage.Format
import Coverage.Source

/-!
# Notes files

A notes file describes the flow graph of every function and attributes source lines to blocks.  It
is read record by record: a function record opens a function, and block, arc and line records
describe the function that is open.  Words that are no tag are passed over, so whatever stands
between records is ignored.  The file may end anywhere; what was read by then counts.

A step of the decoder reads a tag with the head of its record, one arc, or one token of a record
of lines.  The source file that was named last stays current across records and functions.
-/

namespace Coverage.Notes

/-! ## State -/

/-- The records that the decoder knows. -/
inductive Tag where
  | function
  | graph (record : GraphRecord)
deriving DecidableEq, Repr

/-- The record that a word is the tag of. -/
def Tag.ofWord? (word : Nat) : Option Tag :=
  if word = functionTag then some .function
  else ([.blocks, .arcs, .lines].find? fun (r : GraphRecord) => word = r.tag).map .graph

/-- Where the decoder stands. -/
inductive Mode where
  /-- Between records. -/
  | between
  /-- In a record of arcs that leave block `src`, with `further` arcs after the next one. -/
  | inArcs (src further : Nat)
  /-- In a record of lines of a block; `emitted` is the source that the block's list names last,
  if this record has put it there. -/
  | inLines (block : Nat) (emitted : Option Nat)
deriving DecidableEq, Repr

/-- Before so many arcs of a record. -/
def Mode.beforeArcs (src : Nat) : Nat → Mode
  | 0 => .between
  | further + 1 => .inArcs src further

/-- What the decoder knows. -/
structure State where
  version : Nat
  registry : Registry
  /-- The functions that are complete. -/
  finished : List Func := []
  /-- The function that is open. -/
  current : Option Func := none
  /-- The position of the source file that was named last. -/
  source : Option Nat := none
  mode : Mode := .between
  log : List LogEvent := []
deriving DecidableEq

/-- What decoding leaves behind: the registry, and the functions in the order of the file. -/
abbrev Result := Outcome Registry (List Func)

/-- One step of the decoder. -/
abbrev Step := Scanner State Result

namespace State

/-- All functions so far. -/
def functions (s : State) : List Func :=
  s.finished ++ s.current.toList

/-- The end of the file. -/
def close (s : State) : Result where
  state := s.registry
  result := .ok s.functions
  log := s.log

/-- Goes on reading. -/
def goOn (s : State) : Step :=
  Scanner.goOn s

/-- Ends at a record that cannot be accepted. -/
def refuse (s : State) (error : CoverageError) : Step :=
  Scanner.finish { state := s.registry, result := .error error, log := s.log }

/-- Reads, or closes the file where it ends. -/
def read {α : Type} (s : State) (action : Read α) (use : α → Step) : Step :=
  Scanner.read action s.close use

/-- Goes on with the open function. -/
def within (s : State) (record : GraphRecord) (use : Func → Step) : Step :=
  match s.current with
  | some func => use func
  | none => s.refuse (.outsideFunction record)

/-- Goes on with a block number, if the function has such a block. -/
def withBlock (s : State) (func : Func) (index : Nat) (use : Step) : Step :=
  if index < func.graph.size then use
  else s.refuse (.noSuchBlock index func.name func.graph.size)

end State

/-! ## Functions -/

/-- The head of a function. -/
def readHeader (version : Nat) : Read Func := do
  let ident ← Cursor.word
  let checksum ← Cursor.word
  Cursor.skipWords (Version.graphChecksumWords version)
  let name ← Cursor.string
  Cursor.skipWords (Version.artificialWords version)
  let source ← Cursor.string
  let firstLine ← Cursor.word
  Cursor.skipWords (Version.extentWords version)
  return { ident, checksum, name, source, firstLine }

/-- Opens a function; the one that was open is complete. -/
def openFunction (s : State) (header : Func) : State :=
  let (func, registry) := s.registry.addFunc header
  { s with
    registry
    finished := s.functions
    current := some func
    log := s.log ++ [.function func.name func.ident func.source func.firstLine] }

/-! ## Blocks -/

/-- The number of blocks of a function: a word, or the length of a list of flags that are skipped.
-/
def readBlockCount (version length : Nat) : Read Nat := do
  if Version.hasExtent version then
    Cursor.word
  else
    Cursor.skipWords length
    return length

/-- Gives a function its blocks; those that it had are forgotten together with their arcs. -/
def setBlocks (s : State) (func : Func) (count : Nat) : State :=
  { s with current := some { func with graph := .ofSize count } }

/-! ## Arcs -/

/-- Adds an arc to a function; a fake arc makes its source a call site. -/
def linkArc (func : Func) (src dst flags : Nat) : Func :=
  let arc : Arc := { src, dst, flags }
  func.mapGraph fun g =>
    let linked := g.addArc arc
    if arc.fake then linked.mapBlock src fun b => { b with callSite := true } else linked

/-- The two words of an arc: its destination and its flags. -/
def readArcWords : Read (Nat × Nat) := do
  let dst ← Cursor.word
  let flags ← Cursor.word
  return (dst, flags)

/-- Reads one arc, with `further` arcs after it. -/
def readArc (s : State) (func : Func) (src further : Nat) : Step :=
  s.read readArcWords fun (dst, flags) =>
    s.withBlock func dst <|
      { s with
        current := some (linkArc func src dst flags)
        mode := .beforeArcs src further : State }.goOn

/-! ## Lines -/

/-- Attributes a line to a block.  The source is put in front where this record has not put it
there. -/
def addLine (func : Func) (block source line : Nat) (emitted : Option Nat) : Func :=
  let tokens := if emitted = some source then [line] else [0, source, line]
  func.mapGraph (·.mapBlock block fun b => { b with lines := b.lines ++ tokens })

/-- Makes the source file of a name the current one. -/
def nameSource (s : State) (name : String) : State :=
  let (index, registry) := s.registry.findOrAdd name
  { s with registry, source := some index }

/-- Puts a line of the current source file on the list of a block. -/
def emitLine (s : State) (func : Func) (block source line : Nat) (emitted : Option Nat) : State :=
  { s with
    registry := s.registry.mapFile source (·.extendTo line)
    current := some (addLine func block source line emitted)
    mode := .inLines block (some source) }

/-- Reads one token of a record of lines: a line, or a zero and a name, of which the empty one
ends the record. -/
def readLine (s : State) (func : Func) (block : Nat) (emitted : Option Nat) : Step :=
  s.read Cursor.word fun line =>
    if line = 0 then
      s.read Cursor.string fun name =>
        if name.isEmpty then { s with mode := .between : State }.goOn
        else (nameSource s name).goOn
    else
      match s.source with
      | none => s.refuse (.lineBeforeSource line func.name)
      | some source => (emitLine s func block source line emitted).goOn

/-! ## Records -/

/-- Reads the head of a record, `length` words long, about the open function. -/
def readGraphRecord (s : State) (record : GraphRecord) (length : Nat) : Step :=
  s.within record fun func =>
    match record with
    | .blocks => s.read (readBlockCount s.version length) fun count => (setBlocks s func count).goOn
    | .arcs =>
      s.read Cursor.word fun src =>
        s.withBlock func src { s with mode := .beforeArcs src ((length - 1) / 2) : State }.goOn
    | .lines =>
      s.read Cursor.word fun block =>
        s.withBlock func block { s with mode := .inLines block none : State }.goOn

/-- Reads a word that may be a tag, and the head of the record if it is one. -/
def readTag (s : State) : Step :=
  s.read Cursor.word fun word =>
    match Tag.ofWord? word with
    | none => s.goOn
    | some tag =>
      s.read Cursor.word fun length =>
        match tag with
        | .function => s.read (readHeader s.version) fun header => (openFunction s header).goOn
        | .graph record => readGraphRecord s record length

/-- One step of the decoder. -/
def step (s : State) : Step :=
  match s.mode with
  | .between => readTag s
  | .inArcs src further => s.within .arcs fun func => readArc s func src further
  | .inLines block emitted => s.within .lines fun func => readLine s func block emitted

/-! ## Running

Every step that goes on has read a word. -/

theorem advances_goOn (s : State) : s.goOn.Advances 0 :=
  Scanner.advances_goOn s

theorem advances_refuse (s : State) (error : CoverageError) (n : Nat) :
    (s.refuse error).Advances n :=
  Scanner.advances_finish _ n

theorem advances_read {α : Type} {s : State} {action : Read α} {use : α → Step} {n m : Nat}
    (h : action.Consumes n) (huse : ∀ a, (use a).Advances m) :
    (s.read action use).Advances (n + m) :=
  Scanner.advances_read h huse

theorem advances_within {s : State} {record : GraphRecord} {use : Func → Step} {n : Nat}
    (h : ∀ func, (use func).Advances n) : (s.within record use).Advances n := by
  unfold State.within
  split
  · exact h _
  · exact advances_refuse s _ n

theorem advances_withBlock {s : State} {func : Func} {index n : Nat} {use : Step}
    (h : use.Advances n) : (s.withBlock func index use).Advances n := by
  unfold State.withBlock
  split
  · exact h
  · exact advances_refuse s _ n

theorem readArcWords_consumes : readArcWords.Consumes wordSize :=
  (Cursor.word_consumes.bind fun _ => Cursor.word_consumes.bind fun _ =>
    Read.consumes_pure _).mono (by decide)

theorem readBlockCount_consumes (version length : Nat) :
    (readBlockCount version length).Consumes 0 := by
  unfold readBlockCount
  split
  · exact Cursor.word_consumes.mono (Nat.zero_le _)
  · exact (Cursor.skipWords_consumes _).bind fun _ => Read.consumes_pure _

theorem readHeader_consumes (version : Nat) : (readHeader version).Consumes wordSize :=
  (Cursor.word_consumes.bind fun _ => Cursor.word_consumes.bind fun _ =>
    (Cursor.skipWords_consumes _).bind fun _ => Cursor.string_consumes.bind fun _ =>
    (Cursor.skipWords_consumes _).bind fun _ => Cursor.string_consumes.bind fun _ =>
    Cursor.word_consumes.bind fun _ => (Cursor.skipWords_consumes _).bind fun _ =>
    Read.consumes_pure _).mono (by decide)

theorem advances_readArc (s : State) (func : Func) (src further : Nat) :
    (readArc s func src further).Advances wordSize :=
  advances_read readArcWords_consumes fun _ => advances_withBlock (advances_goOn _)

theorem advances_readLine (s : State) (func : Func) (block : Nat) (emitted : Option Nat) :
    (readLine s func block emitted).Advances wordSize := by
  refine advances_read (m := 0) Cursor.word_consumes fun line => ?_
  split
  · refine (advances_read (m := 0) Cursor.string_consumes fun name => ?_).mono (Nat.zero_le _)
    split
    · exact advances_goOn _
    · exact advances_goOn _
  · split
    · exact advances_refuse s _ 0
    · exact advances_goOn _

theorem advances_readGraphRecord (s : State) (record : GraphRecord) (length : Nat) :
    (readGraphRecord s record length).Advances 0 := by
  refine advances_within fun func => ?_
  cases record with
  | blocks => exact advances_read (readBlockCount_consumes _ _) fun _ => advances_goOn _
  | arcs =>
    exact advances_read (Cursor.word_consumes.mono (Nat.zero_le _)) fun _ =>
      advances_withBlock (advances_goOn _)
  | lines =>
    exact advances_read (Cursor.word_consumes.mono (Nat.zero_le _)) fun _ =>
      advances_withBlock (advances_goOn _)

theorem advances_readTag (s : State) : (readTag s).Advances wordSize := by
  refine advances_read (m := 0) Cursor.word_consumes fun word => ?_
  split
  · exact advances_goOn _
  · refine (advances_read (m := 0) Cursor.word_consumes fun length => ?_).mono (Nat.zero_le _)
    split
    · exact (advances_read (readHeader_consumes _) fun _ => advances_goOn _).mono (Nat.zero_le _)
    · exact advances_readGraphRecord _ _ _

/-- Every step that goes on has read a word. -/
theorem advances_step (s : State) : (step s).Advances wordSize := by
  unfold step
  split
  · exact advances_readTag s
  · exact advances_within fun func => advances_readArc s func _ _
  · exact advances_within fun func => advances_readLine s func _ _

/-- The decoder as a machine. -/
def machine : Machine (Scan State) Result :=
  Scanner.machine step fun s => (advances_step s).mono (by decide)

/-- Decodes a file of which the header was read, with the sources that are registered by now. -/
def decodeRecords (registry : Registry) (version : Nat) (cursor : Cursor) : Result :=
  machine.run { cursor, state := { version, registry } }

/-- Decodes a notes file.  Functions and sources go to a registry; the functions are given in the
order of the file.  A file that ends in its header has none. -/
def decode (registry : Registry) (bytes : Bytes) : Result :=
  match openFile .notes bytes with
  | .error error => .fail registry error
  | .ok cursor =>
    let order : LogEvent := .byteOrder .notes cursor.order
    match readVersion.run cursor with
    | .error _ _ => { state := registry, result := .ok [], log := [order] }
    | .ok version cursor =>
      let decoded := decodeRecords registry version cursor
      { decoded with log := order :: .version .notes version :: decoded.log }

end Coverage.Notes
