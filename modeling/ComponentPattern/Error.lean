/-
# Errors

Every error of the library comes from one of three stages. `Error.Kind` names its cause apart
from the stage.
-/
import ComponentPattern.Options.Basic
import ComponentPattern.Part.Error

namespace ComponentPattern

/-- An error of the library. -/
inductive Error where
  | options (e : OptionsError)
  | pattern (e : PatternError)
  | generation (e : GenerationError)
deriving DecidableEq, Repr

/-- What went wrong. -/
inductive Error.Kind where
  | invalidOptions
  | unterminatedEscape
  | invalidName
  | invalidGroup
  | emptyGroup
  | duplicateName
  | openBrace
  | unexpectedToken
  | undelimitedRepetition
  | unnamedCapture
  | nonAscii
  | invalidExpression
deriving DecidableEq, Repr

/-- The word for a kind of error. -/
def Error.Kind.label : Error.Kind → String
  | .invalidOptions => "InvalidOptions"
  | .unterminatedEscape => "UnterminatedEscape"
  | .invalidName => "InvalidNameSyntax"
  | .invalidGroup => "UnterminatedOrInvalidGroup"
  | .emptyGroup => "EmptyGroupBody"
  | .duplicateName => "DuplicateName"
  | .openBrace => "MalformedBrace"
  | .unexpectedToken => "UnexpectedToken"
  | .undelimitedRepetition => "InvalidRepeatingPartDelimiters"
  | .unnamedCapture => "MissingCaptureName"
  | .nonAscii => "NonAsciiInput"
  | .invalidExpression => "InvalidRegex"

/-- The kind of error that a cause of a fault is. -/
def Fault.Cause.kind : Fault.Cause → Error.Kind
  | .danglingEscape => .unterminatedEscape
  | .missingName => .invalidName
  | .badGroup _ => .invalidGroup
  | .emptyGroup => .emptyGroup

namespace Error

/-- The word for the stage that an error comes from. -/
def stage : Error → String
  | options _ => "options"
  | pattern _ => "pattern"
  | generation _ => "generator"

/-- The kind of an error. -/
def kind : Error → Kind
  | options _ => .invalidOptions
  | pattern (.fault f) => f.cause.kind
  | pattern (.nonAscii _) => .nonAscii
  | pattern (.duplicateName _ _) => .duplicateName
  | pattern (.openBrace _) => .openBrace
  | pattern (.unexpected _ _) => .unexpectedToken
  | generation (.nonAscii _) => .nonAscii
  | generation (.undelimited _) => .undelimitedRepetition
  | generation (.unnamed _) => .unnamedCapture
  | generation (.invalid _) => .invalidExpression

/-- The place in the pattern that an error points at, if there is one. -/
def index? : Error → Option Nat
  | pattern e => e.index?
  | _ => none

/-- The wording of an error, if it has one. -/
def message? : Error → Option String
  | options e => some e.message
  | pattern e => some e.message
  | generation e => e.message?

end Error

end ComponentPattern
