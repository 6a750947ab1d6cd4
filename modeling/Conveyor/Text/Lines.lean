/-!
Lines of a text. A line ends at a line feed, a carriage return, the two together, a vertical tab, a
form feed, an information separator above the unit separator, or one of the Unicode line ends.
-/

namespace Conveyor.Text

def isLineEnd (c : Char) : Bool :=
  (0x0a ≤ c.toNat && c.toNat ≤ 0x0d) || (0x1c ≤ c.toNat && c.toNat ≤ 0x1e) ||
    c.toNat == 0x85 || c.toNat == 0x2028 || c.toNat == 0x2029

/-- Splits into lines; `current` holds the open line, last character first. -/
def linesFrom (current : List Char) : List Char → List (List Char)
  | [] => if current.isEmpty then [] else [current.reverse]
  | '\r' :: '\n' :: rest => current.reverse :: linesFrom [] rest
  | c :: rest =>
    if isLineEnd c then current.reverse :: linesFrom [] rest else linesFrom (c :: current) rest

/-- The lines of a text without their ends; a text that ends with a line end has no line after it. -/
def lines (s : String) : List String := (linesFrom [] s.toList).map String.ofList

/-- The first line of a text, which is empty for the empty text. -/
def firstLine (s : String) : String := (lines s).headD ""

end Conveyor.Text
