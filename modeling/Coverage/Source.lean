import Coverage.FlowGraph

/-!
# Functions and source files

A function of the measured program has a header and a flow graph.  Source files are registered
under their exact names, in the order in which they are first named; a file knows how many lines
it has at least, the functions that name it, and, once lines have been collected, a table of its
lines.
-/

namespace Coverage

/-! ## Functions -/

/-- A function as a source file lists it.  The serial number tells apart functions that agree in
name. -/
structure FuncRef where
  serial : Nat
  name : String
deriving DecidableEq, Repr

/-- A function of the measured program. -/
structure Func where
  /-- Its place among all functions that were registered, failed readings included. -/
  serial : Nat := 0
  ident : Nat
  checksum : Nat
  name : String
  source : String
  firstLine : Nat
  graph : FlowGraph := {}
deriving DecidableEq, Repr

namespace Func

/-- The function as a source file lists it. -/
def ref (func : Func) : FuncRef where
  serial := func.serial
  name := func.name

/-- Changes the flow graph. -/
def mapGraph (func : Func) (f : FlowGraph → FlowGraph) : Func :=
  { func with graph := f func.graph }

end Func

/-! ## Source files -/

/-- A block of a function, by the position of the function in a list of functions. -/
structure BlockRef where
  func : Nat
  block : Nat
deriving DecidableEq, Repr

/-- A line of a source file. -/
structure SourceLine where
  /-- Whether some block was compiled from the line. -/
  instrumented : Bool := false
  count : Int := 0
  /-- The blocks compiled from the line, without repetition, in ascending order. -/
  owners : List BlockRef := []
deriving DecidableEq, Repr

/-- A source file. -/
structure SourceFile where
  name : String
  index : Nat
  /-- One more than the greatest line number that was seen. -/
  lineCount : Nat := 1
  lines : Array SourceLine := #[]
  functions : List FuncRef := []
deriving DecidableEq, Repr

namespace SourceFile

/-- Makes the bound on line numbers admit a line. -/
def extendTo (file : SourceFile) (line : Int) : SourceFile :=
  { file with lineCount := max file.lineCount (line + 1).toNat }

/-- Lists a function, unless it is listed already. -/
def addFunction (file : SourceFile) (func : FuncRef) : SourceFile :=
  if func ∈ file.functions then file else { file with functions := file.functions ++ [func] }

/-- Starts a table of lines afresh. -/
def resetLines (file : SourceFile) : SourceFile :=
  { file with lines := Array.replicate file.lineCount {} }

end SourceFile

/-! ## The registry -/

/-- The source files in the order of registration. -/
structure Registry where
  files : Array SourceFile := #[]
  /-- The number of functions that were registered. -/
  issued : Nat := 0
deriving DecidableEq, Repr

namespace Registry

/-- The position of the file of a name. -/
def indexOf? (r : Registry) (name : String) : Option Nat :=
  r.files.toList.findIdx? (·.name == name)

/-- The position of the file of a name, which is registered first if need be. -/
def findOrAdd (r : Registry) (name : String) : Nat × Registry :=
  match r.indexOf? name with
  | some index => (index, r)
  | none => (r.files.size, { r with files := r.files.push { name, index := r.files.size } })

/-- A position as a list index; a negative one counts from the end. -/
def position? (r : Registry) (i : Int) : Option Nat :=
  let position := if i < 0 then i + r.files.size else i
  if 0 ≤ position ∧ position < r.files.size then some position.toNat else none

/-- Changes a file. -/
def mapFile (r : Registry) (index : Nat) (f : SourceFile → SourceFile) : Registry :=
  { r with files := r.files.modify index f }

/-- Changes a line, if the file has it in its table. -/
def mapLine? (r : Registry) (index line : Nat) (f : SourceLine → SourceLine) : Option Registry :=
  match r.files[index]? with
  | some file =>
    if line < file.lines.size then
      some (r.mapFile index fun file => { file with lines := file.lines.modify line f })
    else none
  | none => none

/-- A line, if the file has it in its table. -/
def line? (r : Registry) (index line : Nat) : Option SourceLine := do
  let file ← r.files[index]?
  file.lines[line]?

/-- Starts the tables of lines of all files afresh. -/
def resetLines (r : Registry) : Registry :=
  { r with files := (r.files.toList.map (·.resetLines)).toArray }

/-- Registers a function with the source file that it names. -/
def addFunc (r : Registry) (func : Func) : Func × Registry :=
  let func := { func with serial := r.issued }
  let (index, r) := r.findOrAdd func.source
  let r := r.mapFile index fun file => (file.extendTo func.firstLine).addFunction func.ref
  (func, { r with issued := r.issued + 1 })

end Registry

end Coverage
