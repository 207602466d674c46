import Callable.Json.Problem

/-! Readers: they take what they read off the front of the text. -/

namespace Callable.Json

abbrev Reader := StateT (List Char) (Except Problem)

def isBlank (c : Char) : Bool := c == ' ' || c == '\t' || c == '\n' || c == '\r'

namespace Reader

def skipBlanks : Reader Unit := modify (·.dropWhile isBlank)

def skip : Reader Unit := modify List.tail

/-- The first character of the next token, which is left where it is. -/
def ahead : Reader Char := do
  skipBlanks
  match ← get with
  | [] => throw .ended
  | c :: _ => return c

def word : List Char → Reader Unit
  | [] => pure ()
  | c :: cs => do
    match ← get with
    | [] => throw .ended
    | d :: rest =>
      if c = d then
        set rest
        word cs
      else throw .malformed

end Reader

end Callable.Json
