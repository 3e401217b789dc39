import Coverage.Decimal.Layout
import Coverage.Text.Numeral

/-!
# JSON text

Values of the JSON data format, and their indented text.  Only ASCII characters are written: every
other one is escaped as the UTF-16 units that it consists of.
-/

namespace Coverage

/-- A value of the data format.  The members of an object keep their order. -/
inductive Json where
  | null
  | int (n : Int)
  | number (x : Binary64)
  | string (text : String)
  | array (items : List Json)
  | object (members : List (String × Json))

namespace Json

open Text

/-! ## Strings -/

/-- The UTF-16 units of a code point. -/
def utf16Units (n : Nat) : List Nat :=
  if n < 0x10000 then [n]
  else [0xD800 + (n - 0x10000) / 0x400, 0xDC00 + (n - 0x10000) % 0x400]

/-- An escape by number. -/
def escapeUnit (unit : Nat) : List Char :=
  '\\' :: 'u' :: hexPadded 4 unit

/-- A character inside a string. -/
def escapeChar (c : Char) : List Char :=
  if c = '"' then ['\\', '"']
  else if c = '\\' then ['\\', '\\']
  else if c = '\n' then ['\\', 'n']
  else if c = '\r' then ['\\', 'r']
  else if c = '\t' then ['\\', 't']
  else if c = '\x08' then ['\\', 'b']
  else if c = '\x0c' then ['\\', 'f']
  else if 0x20 ≤ c.toNat && c.toNat < 0x7F then [c]
  else (utf16Units c.toNat).flatMap escapeUnit

/-- A text as a string of the format. -/
def quote (text : String) : String :=
  String.ofList ('"' :: text.toList.flatMap escapeChar ++ ['"'])

/-! ## Values -/

/-- The start of a line at a depth of nesting. -/
def lineStart (depth : Nat) : String :=
  "\n" ++ String.ofList (List.replicate (2 * depth) ' ')

/-- Items between brackets, each on a line of its own; no items leave the brackets empty. -/
def enclose (opening closing : String) (depth : Nat) (items : List String) : String :=
  if items.isEmpty then opening ++ closing
  else
    opening ++ ",".intercalate (items.map (lineStart (depth + 1) ++ ·)) ++ lineStart depth
      ++ closing

mutual

/-- The text of a value at a depth of nesting. -/
def pretty (depth : Nat) : Json → String
  | null => "null"
  | int n => toString n
  | number x => DecimalLayout.standard.write x
  | string text => quote text
  | array items => enclose "[" "]" depth (prettyItems (depth + 1) items)
  | object members => enclose "\x7b" "\x7d" depth (prettyMembers (depth + 1) members)

/-- The texts of some values. -/
def prettyItems (depth : Nat) : List Json → List String
  | [] => []
  | item :: rest => pretty depth item :: prettyItems depth rest

/-- The texts of some members of an object. -/
def prettyMembers (depth : Nat) : List (String × Json) → List String
  | [] => []
  | (name, value) :: rest => (quote name ++ ": " ++ pretty depth value) :: prettyMembers depth rest

end

end Json

end Coverage
