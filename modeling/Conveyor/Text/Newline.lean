/-!
Line ends of text files. A carriage return, alone or before a line feed, reads as a line feed.
-/

namespace Conveyor.Text

def unifyNewlineChars : List Char → List Char
  | '\r' :: '\n' :: rest => '\n' :: unifyNewlineChars rest
  | '\r' :: rest => '\n' :: unifyNewlineChars rest
  | c :: rest => c :: unifyNewlineChars rest
  | [] => []

def unifyNewlines (s : String) : String := String.ofList (unifyNewlineChars s.toList)

end Conveyor.Text
