/-!
Ends of texts.
-/

namespace Conveyor.Text

def tailLimit : Int := 4000

/-- The last `limit` characters of a text. A limit of zero keeps all of it, and a limit below zero
drops as many characters from the front. -/
def tail (limit : Int) (s : String) : String :=
  let cs := s.toList
  if limit < 0 then String.ofList (cs.drop (-limit).toNat)
  else if limit = 0 then s
  else String.ofList (cs.drop (cs.length - limit.toNat))

end Conveyor.Text
