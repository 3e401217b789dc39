import Coverage.Binary.ByteOrder
import Coverage.Text.Quoted

/-!
# Outcomes

What an operation leaves behind: the state as far as it got, the events that it logged, and its
result or the reason why it failed.  Reasons and events are values; their wording is given by
`CoverageError.message` and `LogEvent.text`.
-/

namespace Coverage

/-! ## The files of a unit -/

/-- The two files of a compilation unit. -/
inductive FileKind where
  /-- The flow graphs of the functions, written by the compiler. -/
  | notes
  /-- The counters, written when the program ends. -/
  | data
deriving DecidableEq, Repr

namespace FileKind

/-- The name of the kind. -/
def name : FileKind → String
  | notes => "notes"
  | data => "data"

/-- The word that begins such a file. -/
def magic : FileKind → Nat
  | notes => 0x67636E6F
  | data => 0x67636461

end FileKind

/-- The records that describe a function in a notes file. -/
inductive GraphRecord where
  | blocks
  | arcs
  | lines
deriving DecidableEq, Repr

namespace GraphRecord

/-- The name of the record. -/
def name : GraphRecord → String
  | blocks => "blocks"
  | arcs => "arcs"
  | lines => "lines"

end GraphRecord

/-! ## Errors -/

/-- Why coverage could not be reconstructed. -/
inductive CoverageError where
  | noBuffer (kind : FileKind) (unit : String)
  | fileNotFound (path : String)
  | noMagic (kind : FileKind)
  | wrongMagic (kind : FileKind) (found : Nat)
  | outsideFunction (record : GraphRecord)
  | noSuchBlock (index : Nat) (func : String) (blocks : Nat)
  | lineBeforeSource (line : Nat) (func : String)
  | countersBeforeFunction
  | countersWithoutBlocks (func : String)
  | inconsistentCounts (func : String)
  | noFunctions (unit : String)
  | checksumMismatch (func : String) (notes data : Nat)
  /-- A position beyond the end of a list, which no decoded unit leads to. -/
  | outOfRange
deriving DecidableEq, Repr

/-- The kinds of errors. -/
inductive ErrorKind where
  | missingFile
  | unsupportedFormat
  | parsing
  | checksumMismatch
  | index
deriving DecidableEq, Repr

namespace CoverageError

open Text

/-- The kind of an error. -/
def kind : CoverageError → ErrorKind
  | noBuffer .. | fileNotFound .. => .missingFile
  | noMagic .. | wrongMagic .. => .unsupportedFormat
  | checksumMismatch .. => .checksumMismatch
  | outOfRange => .index
  | _ => .parsing

/-- The wording of an error. -/
def message : CoverageError → String
  | noBuffer kind unit => s!"no {kind.name} buffer for {unit}"
  | fileNotFound path => s!"file not found: {path}"
  | noMagic kind => s!"{kind.name} buffer is too short to hold a magic"
  | wrongMagic kind found =>
    s!"unsupported {kind.name} format: magic 0x{hexWord found} (expected 0x{hexWord kind.magic})"
  | outsideFunction record => s!"{record.name} record outside of a function"
  | noSuchBlock index func blocks =>
    s!"block {index} out of range in function {quoted func} ({blocks} blocks)"
  | lineBeforeSource line func => s!"line {line} in function {quoted func} precedes any source file"
  | countersBeforeFunction => "arc counters record without a preceding function"
  | countersWithoutBlocks func => s!"arc counters for function {quoted func} without blocks"
  | inconsistentCounts func => s!"inconsistent arc counts in function {quoted func}"
  | noFunctions unit => s!"no functions in notes for {unit}"
  | checksumMismatch func notes data =>
    s!"checksum mismatch for function {quoted func}: notes 0x{hexWord notes}, data 0x{hexWord data}"
  | outOfRange => "list index out of range"

end CoverageError

/-! ## The log -/

/-- The character of a byte of a version word. -/
def versionChar (version shift : Nat) : Char :=
  Char.ofNat (version / shift % 0x100)

/-- A version word as the four characters that it packs. -/
def versionText (version : Nat) : String :=
  String.ofList ([0x1000000, 0x10000, 0x100, 1].map (versionChar version))

/-- A version as the four characters that it packs, if it fits a word. -/
def versionTag? (version : Int) : Option String :=
  if 0 ≤ version ∧ version < wordRange then some (versionText version.toNat) else none

/-- What is worth a line in the log. -/
inductive LogEvent where
  | byteOrder (kind : FileKind) (order : ByteOrder)
  | version (kind : FileKind) (word : Nat)
  | function (name : String) (ident : Nat) (source : String) (line : Nat)
  | unmatchedFunction (ident : Nat)
  | skippedCounters
  | unitDecoded (unit : String) (functions : Nat)
  | unresolvedArcs (func : String) (left total : Nat)
deriving DecidableEq, Repr

/-- How much an event matters. -/
inductive LogLevel where
  | debug
  | warning
deriving DecidableEq, Repr

namespace LogLevel

/-- The name of a level. -/
def name : LogLevel → String
  | debug => "DEBUG"
  | warning => "WARNING"

end LogLevel

namespace LogEvent

open Text

/-- How much an event matters. -/
def level : LogEvent → LogLevel
  | unmatchedFunction .. | skippedCounters => .warning
  | _ => .debug

/-- The wording of an event. -/
def text : LogEvent → String
  | byteOrder kind .big => s!"{kind.name} buffer is big-endian"
  | byteOrder kind .little => s!"{kind.name} buffer is little-endian"
  | version kind word => s!"{kind.name} version {versionText word}"
  | function name ident source line => s!"function {quoted name} (0x{hex ident}) in {source}:{line}"
  | unmatchedFunction ident => s!"data file function 0x{hex ident} has no notes counterpart"
  | skippedCounters => "skipping arc counters of an unmatched function"
  | unitDecoded unit functions => s!"{unit}: {functions} functions"
  | unresolvedArcs func left total => s!"function {quoted func}: {left} of {total} arcs unresolved"

end LogEvent

/-! ## Outcomes -/

/-- What an operation leaves behind. -/
structure Outcome (σ α : Type) where
  state : σ
  result : Except CoverageError α
  log : List LogEvent := []

namespace Outcome

variable {σ α β γ : Type}

/-- Success without anything to log. -/
def ok (state : σ) (value : α) : Outcome σ α where
  state
  result := .ok value

/-- Failure without anything to log. -/
def fail (state : σ) (error : CoverageError) : Outcome σ α where
  state
  result := .error error

/-- Goes on after a success; a failure ends the whole. -/
def bind (o : Outcome σ α) (next : σ → α → Outcome σ β) : Outcome σ β :=
  match o.result with
  | .ok value =>
    let after := next o.state value
    { after with log := o.log ++ after.log }
  | .error error => { state := o.state, result := .error error, log := o.log }

/-- Changes the value of a success. -/
def map (f : α → β) (o : Outcome σ α) : Outcome σ β where
  state := o.state
  result := o.result.map f
  log := o.log

/-- Does the same for every element of a list, up to the first failure. -/
def forEach (step : σ → γ → Outcome σ Unit) (state : σ) (items : List γ) : Outcome σ Unit :=
  items.foldl (fun o item => o.bind fun state _ => step state item) (ok state ())

/-! ### Laws -/

@[simp] theorem ok_bind (state : σ) (a : α) (next : σ → α → Outcome σ β) :
    (ok state a).bind next = next state a := by
  simp [ok, bind]

@[simp] theorem bind_ok (o : Outcome σ Unit) : (o.bind fun state _ => ok state ()) = o := by
  rcases o with ⟨state, _ | _, log⟩ <;> simp [ok, bind]

theorem bind_assoc (o : Outcome σ α) (f : σ → α → Outcome σ β) (g : σ → β → Outcome σ γ) :
    (o.bind f).bind g = o.bind fun state a => (f state a).bind g := by
  rcases o with ⟨state, e | a, log⟩
  · rfl
  · simp only [bind]
    cases (f state a).result <;> simp

@[simp] theorem forEach_nil (step : σ → γ → Outcome σ Unit) (state : σ) :
    forEach step state [] = ok state () := rfl

/-- The first element, then the others on what it leaves. -/
theorem forEach_cons (step : σ → γ → Outcome σ Unit) (state : σ) (item : γ) (rest : List γ) :
    forEach step state (item :: rest)
      = (step state item).bind fun state _ => forEach step state rest := by
  suffices key : ∀ (items : List γ) (o : Outcome σ Unit),
      items.foldl (fun o item => o.bind fun state _ => step state item) o
        = o.bind fun state _ => forEach step state items by
    rw [forEach, List.foldl_cons, ok_bind, key]
  intro items
  induction items with
  | nil => simp
  | cons item items ih =>
    intro o
    rw [List.foldl_cons, ih, bind_assoc]
    congr 1
    funext state _
    rw [forEach, List.foldl_cons, ok_bind, ih]

end Outcome

end Coverage
