/-! Texts of structured values: a name followed by its fields between braces, and lists between
brackets. The braces of a record are written here and nowhere else. -/

namespace Callable.Text

def fields (name : String) (items : List (String × String)) : String :=
  let shown := items.map fun (label, text) => label ++ ": " ++ text
  name ++ " \x7b " ++ String.intercalate ", " shown ++ " \x7d"

def tagged (name text : String) : String := name ++ "(" ++ text ++ ")"

def bracketed (items : List String) : String := "[" ++ String.intercalate ", " items ++ "]"

def optional : Option String → String
  | none => "None"
  | some text => tagged "Some" text

def truth (b : Bool) : String := if b then "true" else "false"

end Callable.Text
