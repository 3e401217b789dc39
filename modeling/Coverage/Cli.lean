import Coverage.Files.Unit
import Coverage.Render.Views

/-!
# The command line

Three commands show a report on compilation units: `summary`, `lines` and `functions`.  What a
call of the program prints and how it exits is a function of its arguments and of the files that
it finds.
-/

namespace Coverage.Cli

/-! ## Calls -/

/-- A command with its options. -/
inductive Command where
  | summary (filter : Option String) (json : Bool)
  | lines (filter : Option String) (missedOnly : Bool)
  | functions
deriving DecidableEq, Repr

/-- A call of the program. -/
structure Call where
  verbose : Bool := false
  command : Command
  units : List String
deriving DecidableEq, Repr

/-! ## Arguments -/

/-- An option of a command. -/
inductive Flag where
  | filter
  | json
  | missed
deriving DecidableEq, Repr

/-- Whether an option is followed by a value. -/
def Flag.takesValue : Flag → Bool
  | .filter => true
  | _ => false

/-- The names of the commands. -/
inductive CommandName where
  | summary
  | lines
  | functions
deriving DecidableEq, Repr

namespace CommandName

/-- The command of a name. -/
def ofString? : String → Option CommandName
  | "summary" => some summary
  | "lines" => some lines
  | "functions" => some functions
  | _ => none

/-- The option of a long name. -/
def longFlag? : CommandName → String → Option Flag
  | summary, "file" | lines, "file" => some .filter
  | summary, "json" => some .json
  | lines, "missed" => some .missed
  | _, _ => none

/-- The option of a letter. -/
def shortFlag? : CommandName → Char → Option Flag
  | summary, 'f' | lines, 'f' => some .filter
  | lines, 'm' => some .missed
  | _, _ => none

end CommandName

/-- What was found among the arguments of a command. -/
structure Found where
  filter : Option String := none
  json : Bool := false
  missed : Bool := false
  units : List String := []
deriving DecidableEq, Repr

namespace Found

/-- Notes an option that takes no value. -/
def set (found : Found) : Flag → Found
  | .json => { found with json := true }
  | .missed => { found with missed := true }
  | .filter => found

/-- Notes letters of options that stand behind one dash.  The second part says whether the value
of the last one is still to come. -/
def setLetters (name : CommandName) (found : Found) : List Char → Option (Found × Bool)
  | [] => some (found, false)
  | c :: rest =>
    match name.shortFlag? c with
    | none => none
    | some flag =>
      if flag.takesValue then
        if rest.isEmpty then some (found, true)
        else some ({ found with filter := some (String.ofList rest) }, false)
      else (found.set flag).setLetters name rest

/-- Notes a long option, which may have its value behind an equals sign. -/
def setLong (name : CommandName) (found : Found) (text : List Char) : Option (Found × Bool) :=
  let key := String.ofList (text.takeWhile (· ≠ '='))
  let value := (text.dropWhile (· ≠ '=')).drop 1
  let hasValue := text.contains '='
  match name.longFlag? key with
  | none => none
  | some flag =>
    if flag.takesValue then
      if hasValue then some ({ found with filter := some (String.ofList value) }, false)
      else some (found, true)
    else if hasValue then none
    else some (found.set flag, false)

/-- Notes an argument that is no value of an option; the second part of the result says whether
the value of an option comes next. -/
def setArgument (name : CommandName) (found : Found) (argument : String) : Option (Found × Bool) :=
  match argument.toList with
  | '-' :: '-' :: rest => found.setLong name rest
  | '-' :: c :: rest => found.setLetters name (c :: rest)
  | _ => some ({ found with units := found.units ++ [argument] }, false)

/-- Notes all arguments of a command.  Options and files may be mixed, up to a double dash. -/
def setAll (name : CommandName) (found : Found) (awaiting : Bool) : List String → Option Found
  | [] => if awaiting then none else some found
  | argument :: rest =>
    if awaiting then { found with filter := some argument : Found }.setAll name false rest
    else if argument = "--" then some { found with units := found.units ++ rest }
    else
      match found.setArgument name argument with
      | none => none
      | some (found, awaiting) => found.setAll name awaiting rest

/-- The command that options make up. -/
def command (found : Found) : CommandName → Command
  | .summary => .summary found.filter found.json
  | .lines => .lines found.filter found.missed
  | .functions => .functions

end Found

/-- Whether an argument asks for debug messages; letters may be repeated. -/
def isVerbose (argument : String) : Bool :=
  argument = "--verbose" ||
    match argument.toList with
    | '-' :: letters => !letters.isEmpty && letters.all (· = 'v')
    | _ => false

/-- The call that some arguments stand for, if they stand for one. -/
def Call.ofArguments? (verbose : Bool) : List String → Option Call
  | [] => none
  | argument :: rest =>
    if isVerbose argument then ofArguments? true rest
    else do
      let name ← CommandName.ofString? argument
      let found ← Found.setAll name {} false rest
      if found.units.isEmpty then none
      else
        let units := found.units.map fun text => (Path.ofString text).toString
        some { verbose, command := found.command name, units }

/-! ## Running -/

/-- What a call of the program leaves. -/
structure Result where
  exitCode : UInt8 := 0
  output : String := ""
  errors : String := ""
deriving DecidableEq, Repr

namespace Call

open Render

/-- Whether an event is shown. -/
def shows (call : Call) (event : LogEvent) : Bool :=
  call.verbose || event.level = .warning

/-- The events of a log that are shown. -/
def logText (call : Call) (log : List LogEvent) : String :=
  String.join ((log.filter call.shows).map fun event =>
    textLine s!"{event.level.name} gcovtool: {event.text}")

/-- The main figures that precede the output of some commands. -/
def statsText (call : Call) (report : Report) : String :=
  if !call.verbose then ""
  else
    match call.command with
    | .summary .. => report.stats s!"{call.units.length} compilation unit(s)"
    | .functions => report.stats ""
    | .lines .. => ""

/-- The output of the command proper. -/
def reportText (call : Call) (report : Report) : String :=
  match call.command with
  | .summary filter json => if json then report.jsonText filter else report.summaryText filter
  | .lines filter missedOnly => report.lineListing filter missedOnly
  | .functions => report.functionTable

/-- What the call leaves, given the files that are there. -/
def run (call : Call) (file? : Path → Option Bytes) : Result :=
  let outcome := Report.ofPaths file? call.units
  let logged := call.logText outcome.log
  match outcome.result with
  | .ok report => { output := call.statsText report ++ call.reportText report, errors := logged }
  | .error error =>
    { exitCode := 1, errors := logged ++ textLine s!"error loading coverage: {error.message}" }

end Call

end Coverage.Cli
