/-
# Parts

A pattern stands for a list of parts: fixed texts, and captures with a name and with fixed text
before and after what they capture. A modifier says how often a part occurs.
-/
import ComponentPattern.Text.Basic

namespace ComponentPattern

/-! ## Modifiers -/

/-- How often a part occurs. -/
inductive Modifier where
  | once
  | optional
  | zeroOrMore
  | oneOrMore
deriving DecidableEq, Repr

namespace Modifier

/-- The modifier that is written as `t`; any other text modifies nothing. -/
def ofText : Text → Modifier
  | ['?'] => optional
  | ['*'] => zeroOrMore
  | ['+'] => oneOrMore
  | _ => once

/-- How a modifier is written, in patterns and in expressions alike. -/
def text : Modifier → Text
  | once => []
  | optional => ['?']
  | zeroOrMore => ['*']
  | oneOrMore => ['+']

/-- Whether a part with this modifier may occur more than once. -/
def repeats : Modifier → Bool
  | zeroOrMore => true
  | oneOrMore => true
  | _ => false

/-- The word for a modifier in data. -/
def label : Modifier → String
  | once => "none"
  | optional => "optional"
  | zeroOrMore => "zero-or-more"
  | oneOrMore => "one-or-more"

@[simp] theorem ofText_text (m : Modifier) : ofText m.text = m := by cases m <;> rfl

end Modifier

/-! ## Names -/

/-- The name of a capture: the one given in the pattern, or an ordinal for a capture without one. -/
inductive Name where
  | custom (text : Text)
  | ordinal (n : Nat)
deriving DecidableEq, Repr

namespace Name

/-- Whether the name was given in the pattern. -/
def isCustom : Name → Bool
  | custom _ => true
  | ordinal _ => false

/-- The name as text. -/
def text : Name → Text
  | custom t => t
  | ordinal n => (toString n).toList

end Name

/-! ## Parts -/

/-- What a part matches: its own text, a run without the delimiter, any run, or an expression. -/
inductive Part.Kind where
  | fixed
  | segment
  | wildcard
  | expression
deriving DecidableEq, Repr

/-- The word for a kind of part in data. -/
def Part.Kind.label : Part.Kind → String
  | .fixed => "fixed-text"
  | .segment => "segment-wildcard"
  | .wildcard => "full-wildcard"
  | .expression => "regexp"

/-- A part. A capture has a name; `before` and `after` are the fixed texts that come with each
occurrence of what it captures. -/
structure Part where
  kind : Part.Kind
  value : Text
  modifier : Modifier
  name : Option Name
  before : Text
  after : Text
deriving DecidableEq, Repr

namespace Part

/-- Fixed text. -/
def fixed (value : Text) (modifier : Modifier) : Part := ⟨.fixed, value, modifier, none, [], []⟩

/-- A capture. -/
def capture (kind : Kind) (value : Text) (modifier : Modifier) (name : Name) (before after : Text) :
    Part :=
  ⟨kind, value, modifier, some name, before, after⟩

/-- Whether a part is fixed text. -/
def isFixed (p : Part) : Bool := p.kind == .fixed

/-- The expression of a wildcard that matches any run. -/
def wildcardSource : Text := ['.', '*']

end Part

end ComponentPattern
