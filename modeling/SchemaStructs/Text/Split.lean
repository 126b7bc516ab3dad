set_option autoImplicit false

namespace SchemaStructs

/-- The pieces between the occurrences of `sep`; `skip` characters of an occurrence are still to
be passed over. -/
def piecesFrom (sep : List Char) : Nat → List Char → List (List Char)
  | _, [] => [[]]
  | skip + 1, _ :: cs => piecesFrom sep skip cs
  | 0, c :: cs =>
    if sep.isPrefixOf (c :: cs) then [] :: piecesFrom sep (sep.length - 1) cs
    else
      match piecesFrom sep 0 cs with
      | [] => [[c]]
      | p :: ps => (c :: p) :: ps

def pieces (sep text : String) : List String :=
  (piecesFrom sep.toList 0 text.toList).map String.ofList

/-- Every occurrence of `old` gives way to `new`; what `new` brings in is not looked at again. -/
def substitute (old new text : String) : String := new.intercalate (pieces old text)

def holds (part text : String) : Bool := 1 < (pieces part text).length

def wordsBy (isBreak : Char → Bool) : List Char → List (List Char)
  | [] => [[]]
  | c :: cs =>
    if isBreak c then [] :: wordsBy isBreak cs
    else
      match wordsBy isBreak cs with
      | [] => [[c]]
      | w :: ws => (c :: w) :: ws

end SchemaStructs
