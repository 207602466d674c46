import Callable.Text.Fields
import Callable.Text.Quoted

/-! Where a body was written, and the target of a call: the name under which a body is known,
the label that finds it in a table of bodies, and its place, if it has one. -/

namespace Callable

structure Location where
  file : String
  line : UInt32
  column : UInt32
  deriving DecidableEq

namespace Location

def text (l : Location) : String :=
  l.file ++ ":" ++ toString l.line.toNat ++ ":" ++ toString l.column.toNat

def debug (l : Location) : String :=
  Text.fields "SourceLocation"
    [("file", Text.quote l.file), ("line", toString l.line.toNat),
      ("column", toString l.column.toNat)]

end Location

structure Target where
  name : String
  body : Nat
  location : Option Location
  deriving DecidableEq

def Target.debug (t : Target) : String := Text.tagged "BuiltinCallTarget" t.name

end Callable
