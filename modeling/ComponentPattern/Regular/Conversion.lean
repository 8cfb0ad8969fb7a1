/-
# Expressions as regular expressions

The expressions of the library use two forms that the notation of `Regular` lacks: the class
`[^]` of all code points, which has an equivalent there, and look-around, which has none. Both
count only where they are not part of a class or behind a backslash. `Regular.ofExpression?`
leaves everything else as it is.
-/
import ComponentPattern.Text.Basic

namespace ComponentPattern.Regular

/-- The regular expression of a single code point, whichever it is. -/
def anyChar : Text := ['(', '?', 's', ':', '.', ')']

/-- Whether the text behind a `(` makes it open a look-around. -/
def opensLookAround : Text → Bool
  | '?' :: '=' :: _ => true
  | '?' :: '!' :: _ => true
  | '?' :: '<' :: '=' :: _ => true
  | '?' :: '<' :: '!' :: _ => true
  | _ => false

/-- The regular expression of the rest of an expression that is read from inside or from outside a
class; nothing if it contains look-around. -/
def ofRest? (inClass : Bool) : Text → Option Text
  | [] => some []
  | ['\\'] => some ['\\']
  | '\\' :: c :: t => (ofRest? inClass t).map fun r => '\\' :: c :: r
  | '[' :: t =>
    if inClass then (ofRest? true t).map ('[' :: ·)
    else
      match t with
      | '^' :: ']' :: t => (ofRest? false t).map (anyChar ++ ·)
      | t => (ofRest? true t).map ('[' :: ·)
  | c :: t =>
    if c = '(' && !inClass && opensLookAround t then none
    else (ofRest? (inClass && c != ']') t).map (c :: ·)

/-- The regular expression of an expression; nothing if it contains look-around. -/
def ofExpression? (t : Text) : Option Text := ofRest? false t

end ComponentPattern.Regular
