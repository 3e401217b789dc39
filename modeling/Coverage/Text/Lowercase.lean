import Coverage.Text.CaseTable
import Coverage.Text.Ranges

/-!
# Lower-casing

The full lower-case mapping of a text.  Two rules go beyond letter by letter: the capital dotted I
becomes two characters, and a capital sigma is written in its final form where it ends a word,
that is, where a letter stands before it and none after it, characters that do not separate
letters left aside.
-/

namespace Coverage.Text

/-- Whether a character is looked through when the neighbours of a sigma are sought. -/
def isCaseIgnorable (c : Char) : Bool :=
  inRanges caseIgnorableRanges c

/-- Whether a character counts as a neighbouring letter of a sigma. -/
def isCased (c : Char) : Bool :=
  inRanges casedRanges c

/-- The lower-case letter of a character by the simple mapping. -/
def lowerChar (c : Char) : Char :=
  let n := c.toNat
  let run? := lowercaseRuns.find? fun run =>
    run.first ≤ n && n ≤ run.last && (n - run.first) % run.stride == 0
  match run? with
  | some run => Char.ofNat (n + run.shift).toNat
  | none => c

/-- Whether the first character that is not looked through has a case. -/
def meetsCased (text : List Char) : Bool :=
  match text.dropWhile isCaseIgnorable with
  | c :: _ => isCased c
  | [] => false

/-- Lower-cases a text of which `before`, in reversed order, has been passed. -/
def lowerFrom (before : List Char) : List Char → List Char
  | [] => []
  | c :: after =>
    let lowered :=
      if c = 'Σ' then [if meetsCased before && !meetsCased after then 'ς' else 'σ']
      else if c = 'İ' then ['i', '\u0307']
      else [lowerChar c]
    lowered ++ lowerFrom (c :: before) after

/-- A text in lower case. -/
def lower (text : String) : String :=
  String.ofList (lowerFrom [] text.toList)

/-- Whether the text `part` stands somewhere in another one. -/
def occurs (part : List Char) : List Char → Bool
  | [] => part.isEmpty
  | c :: rest => part.isPrefixOf (c :: rest) || occurs part rest

theorem occurs_iff {part text : List Char} : occurs part text = true ↔ part <:+: text := by
  induction text with
  | nil => simp [occurs]
  | cons c rest ih =>
    rw [occurs, Bool.or_eq_true, ih, List.isPrefixOf_iff_prefix, List.infix_cons_iff]

end Coverage.Text
