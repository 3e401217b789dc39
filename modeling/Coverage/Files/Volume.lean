import Coverage.Files.Unit
import Coverage.Plan.Files

/-!
# Volumes

A tree of files and directories held in memory, with a working directory that relative paths start
from.  Going up from the top stays at the top, and every name on the way to a file has to be that
of a directory.
-/

namespace Coverage

/-- A file with its content, or a directory. -/
inductive Entry where
  | file (content : Bytes)
  | directory
deriving DecidableEq

/-- Why a path cannot be used. -/
inductive VolumeError where
  | notFound
  | isDirectory
  | notDirectory
deriving DecidableEq, Repr

/-- Files and directories by the names on the way to them from the top. -/
structure Volume where
  entries : List (List String × Entry) := [(["work"], .directory)]
  working : List String := ["work"]
deriving DecidableEq

namespace Volume

/-! ## Places -/

/-- What lies at a place. -/
def entry? (v : Volume) (place : List String) : Option Entry :=
  if place = [] then some .directory else v.entries.lookup place

/-- Puts something at a place. -/
def setEntry (v : Volume) (place : List String) (entry : Entry) : Volume :=
  { v with entries := (place, entry) :: v.entries.filter (·.1 ≠ place) }

/-- The place where a path starts. -/
def start (v : Volume) (path : Path) : List String :=
  if path.slashes = 0 then v.working else []

/-- The place that a name denotes in a directory. -/
def descend (place : List String) (name : String) : List String :=
  if name = ".." then place.dropLast else place ++ [name]

/-- The place that is reached over some names; the last of them may be missing there. -/
def walk (v : Volume) (place : List String) : List String → Except VolumeError (List String)
  | [] => .ok place
  | name :: rest =>
    match v.entry? place with
    | some .directory => v.walk (descend place name) rest
    | some (.file _) => .error .notDirectory
    | none => .error .notFound

/-- The place that a path denotes. -/
def locate (v : Volume) (path : Path) : Except VolumeError (List String) :=
  v.walk (v.start path) path.names

/-! ## Files -/

/-- The content of a file. -/
def get (v : Volume) (path : Path) : Except VolumeError Bytes := do
  let place ← v.locate path
  match v.entry? place with
  | some (.file content) => return content
  | some .directory => throw .isDirectory
  | none => throw .notFound

/-- The content of a path that is a file. -/
def file? (v : Volume) (path : Path) : Option Bytes :=
  (v.get path).toOption

/-- Writes a file into a directory that is there. -/
def write (v : Volume) (path : Path) (content : Bytes) : Except VolumeError Volume := do
  let place ← v.locate path
  match v.entry? place with
  | some .directory => throw .isDirectory
  | _ => return v.setEntry place (.file content)

/-- Removes a file. -/
def remove (v : Volume) (path : Path) : Except VolumeError Volume := do
  let place ← v.locate path
  match v.entry? place with
  | some (.file _) => return { v with entries := v.entries.filter (·.1 ≠ place) }
  | some .directory => throw .isDirectory
  | none => throw .notFound

/-! ## Directories -/

/-- Makes the directories on the way over some names that are not there yet. -/
def makeWay (v : Volume) (place : List String) : List String → Except VolumeError Volume
  | [] => .ok v
  | name :: rest =>
    let next := descend place name
    match v.entry? next with
    | some .directory => v.makeWay next rest
    | some (.file _) => .error .notDirectory
    | none => (v.setEntry next .directory).makeWay next rest

/-- Makes a directory, and those that it lies in. -/
def makeDirectory (v : Volume) (path : Path) : Except VolumeError Volume :=
  v.makeWay (v.start path) path.names

/-- Writes a file, and makes the directories that it lies in. -/
def put (v : Volume) (path : Path) (content : Bytes) : Except VolumeError Volume := do
  let v ← v.makeDirectory path.parent
  v.write path content

/-! ## Planned units -/

/-- Writes the files of a plan next to each other under a base path, the notes first.  What was
written stays when the data cannot be. -/
def writePlan (v : Volume) (base : String) (plan : UnitPlan) : Volume × Except VolumeError Unit :=
  match v.write (FileKind.notes.path base) plan.notes with
  | .error error => (v, .error error)
  | .ok noted =>
    match noted.write (FileKind.data.path base) plan.data with
    | .error error => (noted, .error error)
    | .ok written => (written, .ok ())

end Volume

end Coverage
