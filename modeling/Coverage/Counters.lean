import Coverage.Binary.Scan
import Coverage.Format
import Coverage.Source

/-!
# Data files

A data file brings the counters of the arcs that were measured.  A function record selects a
function by its ident and confirms it by its checksum; the record of counters that follows gives
one counter to every arc off the spanning tree, in the order of `FlowGraph.orderedArcs`.  Each
record is left at its declared end, however much of it was read.  The file may end anywhere; what
was read by then counts.

A step of the decoder reads a tag with the head of its record, or one counter.
-/

namespace Coverage.Counters

/-! ## State -/

/-- The function that the next counters belong to. -/
inductive Selection where
  | none
  /-- A function that the notes do not have. -/
  | unmatched
  /-- The function at a position. -/
  | matched (position : Nat)
deriving DecidableEq, Repr

/-- Where the decoder stands. -/
inductive Mode where
  /-- Between records. -/
  | between
  /-- In a record that ends at `fin`, before the counter of the exit `next` of a function. -/
  | inCounters (position : Nat) (next : Exit) (further : List Exit) (fin : Nat)
deriving DecidableEq, Repr

/-- What the decoder knows. -/
structure State where
  version : Nat
  functions : List Func
  selection : Selection := .none
  mode : Mode := .between
  log : List LogEvent := []
deriving DecidableEq

/-- What decoding leaves behind: the functions with their counters. -/
abbrev Result := Outcome (List Func) Unit

/-- One step of the decoder. -/
abbrev Step := Scanner State Result

namespace State

/-- The end of the file. -/
def close (s : State) : Result where
  state := s.functions
  result := .ok ()
  log := s.log

/-- Goes on reading. -/
def goOn (s : State) : Step :=
  Scanner.goOn s

/-- Ends at a record that cannot be accepted. -/
def refuse (s : State) (error : CoverageError) : Step :=
  Scanner.finish { state := s.functions, result := .error error, log := s.log }

/-- Reads, or closes the file where it ends. -/
def read {α : Type} (s : State) (action : Read α) (use : α → Step) : Step :=
  Scanner.read action s.close use

/-- Leaves a record at its end. -/
def leave (s : State) (fin : Nat) : Step :=
  s.read (Cursor.skipTo fin) fun _ => { s with mode := .between : State }.goOn

/-- Changes the function that the next counters belong to. -/
def select (s : State) (selection : Selection) : State :=
  { s with selection }

/-- Logs an event. -/
def logging (s : State) (event : LogEvent) : State :=
  { s with log := s.log ++ [event] }

end State

/-! ## Functions -/

/-- Compares the checksum of a function, and selects the function. -/
def confirm (s : State) (position : Nat) (func : Func) (fin : Nat) : Step :=
  s.read Cursor.word fun checksum =>
    if checksum = func.checksum then
      s.read (Cursor.skipWords (Version.graphChecksumWords s.version)) fun _ =>
        (s.select (.matched position)).leave fin
    else s.refuse (.checksumMismatch func.name func.checksum checksum)

/-- The first function with an ident, and its position. -/
def findFunction? (functions : List Func) (ident : Nat) : Option (Nat × Func) := do
  let position ← functions.findIdx? (·.ident == ident)
  let func ← functions[position]?
  return (position, func)

/-- Selects the first function with the ident that the record names. -/
def readFunction (s : State) (fin : Nat) : Step :=
  s.read Cursor.word fun ident =>
    match findFunction? s.functions ident with
    | some (position, func) => confirm s position func fin
    | none => ((s.select .unmatched).logging (.unmatchedFunction ident)).leave fin

/-! ## Counters -/

/-- The exits of arcs that carry a counter, in the order of the counters. -/
def measuredExits (g : FlowGraph) : List Exit :=
  g.listedExits.filter fun exit => (g.arcs[exit.id]?).any (!·.onTree)

/-- Gives an arc its counter.  It is pending no longer among the exits of the block that lists it,
nor among the entries of its destination. -/
def countArc (g : FlowGraph) (exit : Exit) (arc : Arc) (count : Nat) : FlowGraph :=
  ((g.mapArc exit.id fun arc => { arc with count, resolved := true }).mapBlock exit.block
    (·.mapPending .exits (· - 1))).mapBlock arc.dst (·.mapPending .entries (· - 1))

/-- Goes on with the exits that are left of a record of counters. -/
def resume (s : State) (position : Nat) (exits : List Exit) (fin : Nat) : Step :=
  match exits with
  | [] => (s.select .none).leave fin
  | next :: further => { s with mode := .inCounters position next further fin : State }.goOn

/-- Begins a record of counters. -/
def beginCounters (s : State) (fin : Nat) : Step :=
  match s.selection with
  | .none => s.refuse .countersBeforeFunction
  | .unmatched => ((s.select .none).logging .skippedCounters).leave fin
  | .matched position =>
    match s.functions[position]? with
    | none => s.refuse .outOfRange
    | some func =>
      if func.graph.size = 0 then s.refuse (.countersWithoutBlocks func.name)
      else resume s position (measuredExits func.graph) fin

/-- Gives an arc of a function its counter. -/
def assign (s : State) (position : Nat) (exit : Exit) (arc : Arc) (count : Nat) : State :=
  { s with functions := s.functions.modify position (·.mapGraph (countArc · exit arc count)) }

/-- Reads the counter of an exit of a function.  That the arc leads to no block shows only when it
is counted. -/
def readCounter (s : State) (position : Nat) (exit : Exit) (further : List Exit) (fin : Nat) :
    Step :=
  s.read Cursor.counter fun count =>
    match s.functions[position]? with
    | none => s.refuse .outOfRange
    | some func =>
      match func.graph.arcs[exit.id]? with
      | none => s.refuse .outOfRange
      | some arc =>
        if arc.dst < func.graph.size then
          resume (assign s position exit arc count) position further fin
        else (assign s position exit arc count).refuse .outOfRange

/-! ## Records -/

/-- The words of a summary of an object file. -/
def objectSummaryWords (version : Nat) : Nat :=
  if Version.hasShortSummary version then 2 else 6

/-- The least number of words of a summary of a program. -/
def programSummaryWords : Nat := 3

/-- The length of a record and the offset of its end. -/
def readFrame : Read (Nat × Nat) := do
  let length ← Cursor.word
  let cursor ← get
  return (length, cursor.offset + length * wordSize)

/-- Reads a tag, and the head of its record; a zero is padding. -/
def readTag (s : State) : Step :=
  s.read Cursor.word fun tag =>
    if tag = 0 then s.goOn
    else
      s.read readFrame fun (length, fin) =>
        if tag = functionTag then readFunction s fin
        else if tag = countersTag then beginCounters s fin
        else if tag = objectSummaryTag then
          s.read (Cursor.skipWords (objectSummaryWords s.version)) fun _ => s.leave fin
        else if tag = programSummaryTag then
          s.read (Cursor.skipWords (max programSummaryWords length)) fun _ => s.leave fin
        else s.leave fin

/-- One step of the decoder. -/
def step (s : State) : Step :=
  match s.mode with
  | .between => readTag s
  | .inCounters position next further fin => readCounter s position next further fin

/-! ## Running

Every step that goes on has read a word. -/

theorem advances_goOn (s : State) : s.goOn.Advances 0 :=
  Scanner.advances_goOn s

theorem advances_refuse (s : State) (error : CoverageError) (n : Nat) :
    (s.refuse error).Advances n :=
  Scanner.advances_finish _ n

theorem advances_read {α : Type} {s : State} {action : Read α} {use : α → Step} {n m : Nat}
    (h : action.Consumes n) (huse : ∀ a, (use a).Advances m) :
    (s.read action use).Advances (n + m) :=
  Scanner.advances_read h huse

theorem advances_leave (s : State) (fin : Nat) : (s.leave fin).Advances 0 :=
  advances_read (Cursor.skipTo_consumes _) fun _ => advances_goOn _

theorem advances_confirm (s : State) (position : Nat) (func : Func) (fin : Nat) :
    (confirm s position func fin).Advances 0 := by
  refine advances_read (m := 0) (Cursor.word_consumes.mono (Nat.zero_le _)) fun checksum => ?_
  split
  · exact advances_read (Cursor.skipWords_consumes _) fun _ => advances_leave _ _
  · exact advances_refuse s _ 0

theorem advances_readFunction (s : State) (fin : Nat) : (readFunction s fin).Advances 0 := by
  refine advances_read (m := 0) (Cursor.word_consumes.mono (Nat.zero_le _)) fun ident => ?_
  split
  · exact advances_confirm _ _ _ _
  · exact advances_leave _ _

theorem advances_resume (s : State) (position : Nat) (exits : List Exit) (fin : Nat) :
    (resume s position exits fin).Advances 0 := by
  cases exits with
  | nil => exact advances_leave _ _
  | cons next further => exact advances_goOn _

theorem advances_beginCounters (s : State) (fin : Nat) : (beginCounters s fin).Advances 0 := by
  unfold beginCounters
  split
  · exact advances_refuse s _ 0
  · exact advances_leave _ _
  · split
    · exact advances_refuse s _ 0
    · split
      · exact advances_refuse s _ 0
      · exact advances_resume _ _ _ _

theorem advances_readCounter (s : State) (position : Nat) (exit : Exit) (further : List Exit)
    (fin : Nat) : (readCounter s position exit further fin).Advances wordSize := by
  refine advances_read (m := 0) Cursor.counter_consumes fun count => ?_
  split
  · exact advances_refuse s _ 0
  · split
    · exact advances_refuse s _ 0
    · split
      · exact advances_resume _ _ _ _
      · exact advances_refuse _ _ 0

theorem readFrame_consumes : readFrame.Consumes 0 :=
  (Cursor.word_consumes.bind fun _ => Read.consumes_get.bind fun _ =>
    Read.consumes_pure _).mono (Nat.zero_le _)

theorem advances_readTag (s : State) : (readTag s).Advances wordSize := by
  refine advances_read (m := 0) Cursor.word_consumes fun tag => ?_
  split
  · exact advances_goOn _
  · refine advances_read (m := 0) readFrame_consumes fun (length, fin) => ?_
    dsimp only
    split
    · exact advances_readFunction _ _
    · split
      · exact advances_beginCounters _ _
      · split
        · exact advances_read (Cursor.skipWords_consumes _) fun _ => advances_leave _ _
        · split
          · exact advances_read (Cursor.skipWords_consumes _) fun _ => advances_leave _ _
          · exact advances_leave _ _

/-- Every step that goes on has read a word. -/
theorem advances_step (s : State) : (step s).Advances wordSize := by
  unfold step
  split
  · exact advances_readTag s
  · exact advances_readCounter s _ _ _ _

/-- The decoder as a machine. -/
def machine : Machine (Scan State) Result :=
  Scanner.machine step fun s => (advances_step s).mono (by decide)

/-- Decodes a file of which the header was read. -/
def decodeRecords (functions : List Func) (version : Nat) (cursor : Cursor) : Result :=
  machine.run { cursor, state := { version, functions } }

/-- Decodes a data file onto functions.  A file that ends in its header changes nothing. -/
def decode (functions : List Func) (bytes : Bytes) : Result :=
  match openFile .data bytes with
  | .error error => .fail functions error
  | .ok cursor =>
    let order : LogEvent := .byteOrder .data cursor.order
    match readVersion.run cursor with
    | .error _ _ => { state := functions, result := .ok (), log := [order] }
    | .ok version cursor =>
      let decoded := decodeRecords functions version cursor
      { decoded with log := order :: .version .data version :: decoded.log }

end Coverage.Counters
