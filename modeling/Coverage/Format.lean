import Coverage.Binary.Cursor
import Coverage.Outcome

/-!
# The file format

Notes files and data files begin alike: a magic word, a version word and a stamp.  The magic shows
the byte order.  Records follow, each with a tag and a length in words.  What a record holds
depends on the version in a few places, which are named here.
-/

namespace Coverage

/-! ## Tags -/

/-- The tag of a record that begins a function, in either file. -/
def functionTag : Nat := 0x01000000

/-- The tag of a graph record. -/
def GraphRecord.tag : GraphRecord → Nat
  | .blocks => 0x01410000
  | .arcs => 0x01430000
  | .lines => 0x01450000

/-- The tag of a record of arc counters. -/
def countersTag : Nat := 0x01A10000

/-- The tag of the summary of an object file. -/
def objectSummaryTag : Nat := 0xA1000000

/-- The tag of the summary of a program. -/
def programSummaryTag : Nat := 0xA3000000

/-! ## Versions

A version is four characters packed into a word, so that later releases have greater words. -/

namespace Version

/-- The version that is written unless another one is asked for: `A91*`. -/
def standard : Int := 0x4139312A

/-- The words of a second checksum, that of the graph: functions have one from `407*` on. -/
def graphChecksumWords (version : Int) : Nat :=
  if 0x3430372A ≤ version then 1 else 0

/-- Whether functions tell their extent, and their blocks are counted rather than listed, which is
so from `A81*` on. -/
def hasExtent (version : Int) : Bool :=
  0x4138312A ≤ version

/-- The words that tell whether a function was made up by the compiler. -/
def artificialWords (version : Int) : Nat :=
  if hasExtent version then 1 else 0

/-- The words after the first line of a function: its start column and its end line, and from
`A91*` on its end column. -/
def extentWords (version : Int) : Nat :=
  if 0x4139312A ≤ version then 3 else if hasExtent version then 2 else 0

/-- Whether there is a single summary, of two words, which is so from `A90*` on. -/
def hasShortSummary (version : Int) : Bool :=
  0x4139302A ≤ version

end Version

/-! ## Opening a file -/

/-- Reads the magic word; the cursor is left behind it, with the byte order that it shows. -/
def openFile (kind : FileKind) (bytes : Bytes) : Except CoverageError Cursor :=
  match Cursor.word.run (.ofBytes bytes) with
  | .error _ _ => .error (.noMagic kind)
  | .ok found cursor =>
    if found = kind.magic then .ok { cursor with order := .big }
    else if byteSwap found = kind.magic then .ok { cursor with order := .little }
    else .error (.wrongMagic kind found)

/-- The rest of the header: the version. -/
def readVersion : Read Nat := do
  let version ← Cursor.word
  let _ ← Cursor.word
  return version

end Coverage
