/-
# What can go wrong with parts

`PatternError` says why a pattern has no parts, and `GenerationError` why nothing can be made
from parts.
-/
import ComponentPattern.Part.Basic
import ComponentPattern.Token.Reading

namespace ComponentPattern

/-! ## From a pattern to parts -/

/-- Why a pattern has no parts. -/
inductive PatternError where
  | fault (f : Fault)
  | nonAscii (e : NonAscii)
  | duplicateName (name : Name) (index : Nat)
  | openBrace (index : Nat)
  | unexpected (found : Token.Kind) (index : Nat)
deriving DecidableEq, Repr

namespace PatternError

/-- The wording of the error. -/
def message : PatternError → String
  | fault f => f.message
  | nonAscii e => e.message
  | duplicateName name index => s!"duplicate name '{String.ofList name.text}' at index {index}"
  | openBrace index => s!"'\x7b' at index {index} has no matching '\x7d'"
  | unexpected found index =>
    s!"expected {Token.Kind.final.title} token but found {found.title} at index {index}"

/-- The place in the pattern that an error points at. -/
def index? : PatternError → Option Nat
  | fault f => some f.index
  | nonAscii _ => none
  | duplicateName _ index => some index
  | openBrace index => some index
  | unexpected _ index => some index

end PatternError

/-! ## From parts to an expression or a pattern -/

/-- Why nothing can be generated from parts. -/
inductive GenerationError where
  | nonAscii (e : NonAscii)
  | undelimited (name : Name)
  | unnamed (position : Nat)
  | invalid (expression : Text)
deriving DecidableEq, Repr

/-- The wording of the error; an expression that fails its check is reported without one. -/
def GenerationError.message? : GenerationError → Option String
  | .nonAscii e => some e.message
  | .undelimited name =>
    some s!"repeating part '{String.ofList name.text}' needs a non-empty prefix or suffix"
  | .unnamed position => some s!"capturing part at position {position} has no name"
  | .invalid _ => none

end ComponentPattern
