/-!
# Alignment

Texts brought to a given width by blanks.  A text that is already as wide is left alone.
-/

namespace Coverage.Text

/-- So many blanks. -/
def blanks (count : Nat) : String :=
  String.ofList (List.replicate count ' ')

/-- A text at the left end of its width. -/
def alignLeft (width : Nat) (text : String) : String :=
  text ++ blanks (width - text.length)

/-- A text at the right end of its width. -/
def alignRight (width : Nat) (text : String) : String :=
  blanks (width - text.length) ++ text

/-- A text in the middle of its width; an odd blank goes to the right. -/
def alignCenter (width : Nat) (text : String) : String :=
  let free := width - text.length
  blanks (free / 2) ++ text ++ blanks (free - free / 2)

/-- A text of at most `limit` characters: a longer one is cut, and its last place shows an
ellipsis. -/
def cutTo (limit : Nat) (text : String) : String :=
  if text.length ≤ limit then text
  else String.ofList (text.toList.take (limit - 1)) ++ "…"

end Coverage.Text
