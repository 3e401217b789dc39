import Coverage.Report

/-!
# Sessions

Decoding, solving and counting in any order, on one registry.  A session keeps all functions that
were decoded, of which the newest are those of the last notes file.  Whatever fails leaves behind
what it had done by then.
-/

namespace Coverage

/-- A registry together with the functions that were decoded onto it. -/
structure Session where
  registry : Registry := {}
  functions : List Func := []
  /-- The number of functions, at the end of the list, that the last notes file brought. -/
  newest : Nat := 0
deriving DecidableEq

namespace Session

/-- The functions that were decoded before the last notes file. -/
def older (s : Session) : List Func :=
  s.functions.take (s.functions.length - s.newest)

/-- The functions of the last notes file. -/
def latest (s : Session) : List Func :=
  s.functions.drop (s.functions.length - s.newest)

/-- Decodes a notes file.  Its functions join the session if all goes well. -/
def readNotes (s : Session) (bytes : Bytes) : Outcome Session (List Func) :=
  let decoded := Notes.decode s.registry bytes
  let state := match decoded.result with
    | .ok functions =>
      { registry := decoded.state
        functions := s.functions ++ functions
        newest := functions.length }
    | .error _ => { s with registry := decoded.state }
  { state, result := decoded.result, log := decoded.log }

/-- Decodes a data file onto all functions. -/
def readDataOntoAll (s : Session) (bytes : Bytes) : Outcome Session Unit :=
  let decoded := Counters.decode s.functions bytes
  { state := { s with functions := decoded.state }, result := decoded.result, log := decoded.log }

/-- Decodes a data file onto the functions of the last notes file. -/
def readData (s : Session) (bytes : Bytes) : Outcome Session Unit :=
  let decoded := Counters.decode s.latest bytes
  { state := { s with functions := s.older ++ decoded.state }
    result := decoded.result
    log := decoded.log }

/-- Solves all functions, up to the first failure. -/
def solveAll (s : Session) : Outcome Session Unit :=
  let solved := Func.solveAll s.functions
  { state := { s with functions := solved.state }, result := solved.result, log := solved.log }

/-- Solves the function at a position. -/
def solve (s : Session) (position : Nat) : Outcome Session Unit :=
  match s.functions[position]? with
  | none => .fail s .outOfRange
  | some func =>
    let solved := func.solve
    { state := { s with functions := s.functions.set position solved.state }
      result := solved.result
      log := solved.log }

/-- Applies a pass over lines to the registry. -/
def onRegistry (s : Session) (pass : Registry → List Func → Outcome Registry Unit) :
    Outcome Session Unit :=
  let passed := pass s.registry s.functions
  { state := { s with registry := passed.state }, result := passed.result, log := passed.log }

/-- Collects which blocks were compiled from which line. -/
def collectLines (s : Session) : Outcome Session Unit :=
  s.onRegistry Registry.collectLines

/-- Counts the lines that were collected. -/
def accumulateCounts (s : Session) : Outcome Session Unit :=
  s.onRegistry Registry.accumulateCounts

/-- The coverage of all files. -/
def summarize (s : Session) : List FileCoverage :=
  s.registry.summarize

end Session

end Coverage
