/-
# Options from a document

Options are read from a record with the entries `delimiter_code_point`, `prefix_code_point` and
`validate_regex`, of which only the last has to be there, or from a list of the three values in
this order.
-/
import ComponentPattern.Options.Basic

namespace ComponentPattern

/-- A data document; numbers and the like, which no option holds, are all alike. -/
inductive Document where
  | null
  | bool (b : Bool)
  | text (t : Text)
  | list (items : List Document)
  | record (entries : List (Text × Document))
  | other
deriving Inhabited

namespace Document

/-- The value of a record's entry. -/
def entry? (key : String) (entries : List (Text × Document)) : Option Document :=
  (entries.find? fun e => e.1 == key.toList).map (·.2)

/-- A code point that may be left out: nothing, or a text of exactly one code point. -/
def optionalChar? : Document → Option (Option Char)
  | null => some none
  | text [c] => some (some c)
  | _ => none

/-- A truth value. -/
def bool? : Document → Option Bool
  | bool b => some b
  | _ => none

end Document

/-- The options a document describes. They are not checked to be ASCII. -/
def Options.ofDocument? : Document → Option Options
  | .record entries => do
    let delimiter ← ((Document.entry? "delimiter_code_point" entries).getD .null).optionalChar?
    let lead ← ((Document.entry? "prefix_code_point" entries).getD .null).optionalChar?
    let checked ← (← Document.entry? "validate_regex" entries).bool?
    return { delimiter, lead, checked }
  | .list [d, l, c] => do
    let delimiter ← d.optionalChar?
    let lead ← l.optionalChar?
    let checked ← c.bool?
    return { delimiter, lead, checked }
  | _ => none

end ComponentPattern
