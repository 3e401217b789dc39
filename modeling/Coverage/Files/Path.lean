/-!
# Paths

A path is a list of names behind no, one or two slashes.  Empty names and single dots mean nothing
and are dropped; names that go up a directory are kept, since what they mean depends on the files.
Two slashes in front are kept as they are, three or more count as one.
-/

namespace Coverage

/-- A path. -/
structure Path where
  /-- The number of slashes in front: none, one or two. -/
  slashes : Nat := 0
  names : List String
deriving DecidableEq, Repr

namespace Path

/-- Splits a text at its slashes. -/
def splitSlashes : List Char → List (List Char)
  | [] => [[]]
  | c :: rest =>
    match splitSlashes rest with
    | [] => [[c]]
    | first :: others => if c = '/' then [] :: first :: others else (c :: first) :: others

/-- Whether a part of a path means something. -/
def isName (part : List Char) : Bool :=
  part ≠ [] ∧ part ≠ ['.']

/-- The path that a text denotes. -/
def ofString (text : String) : Path :=
  let leading := (text.toList.takeWhile (· = '/')).length
  { slashes := if leading = 2 then 2 else min leading 1
    names := ((splitSlashes text.toList).filter isName).map String.ofList }

/-- The text of a path; a path without names and slashes is a single dot. -/
def toString (path : Path) : String :=
  if path.slashes = 0 ∧ path.names = [] then "."
  else String.ofList (List.replicate path.slashes '/') ++ "/".intercalate path.names

/-- The name at the end of a path. -/
def name (path : Path) : String :=
  path.names.getLast?.getD ""

/-- The path of the directory that a path lies in. -/
def parent (path : Path) : Path :=
  { path with names := path.names.dropLast }

end Path

/-! ## Suffixes -/

/-- A text without a suffix, if it ends in it. -/
def dropSuffix? (suffix text : String) : Option String :=
  let whole := text.toList
  let kept := whole.length - suffix.length
  if whole.drop kept = suffix.toList then some (String.ofList (whole.take kept)) else none

/-- Takes a suffix off the last name of a path, unless nothing of the name would be left. -/
def Path.withoutSuffix (suffix : String) (path : Path) : Path :=
  match dropSuffix? suffix path.name with
  | none => path
  | some stem =>
    if stem.isEmpty then path else { path with names := path.names.dropLast ++ [stem] }

end Coverage
