/-
# Expressions

The regular expression of a list of parts, anchored at both ends, with one capturing group for
each capture. Each part contributes a fragment of its own (`Part.fragment`), and the expression
is the fragments in order.
-/
import ComponentPattern.Journal
import ComponentPattern.Options.Basic
import ComponentPattern.Part.Error
import ComponentPattern.Regular.Conversion
import ComponentPattern.Regular.Reader

namespace ComponentPattern

/-! ## Fragments -/

namespace Fragment

/-- A group that captures nothing. -/
def group (t : Text) : Text := ['(', '?', ':'] ++ t ++ [')']

/-- A group that captures what it matches. -/
def capture (t : Text) : Text := ['('] ++ t ++ [')']

/-- Any number of `inner` from one on, each between `before` and `after`, captured without the outer
two. -/
def repetition (before inner after : Text) : Text :=
  group
    (before ++ capture (group inner ++ group (after ++ before ++ group inner) ++ ['*']) ++ after)

/-- `inner` between `before` and `after`, as often as the modifier says, with `inner` captured. -/
def ofCapture (modifier : Modifier) (before inner after : Text) : Text :=
  if modifier.repeats then
    repetition before inner after ++ if modifier = .zeroOrMore then ['?'] else []
  else if before = [] ∧ after = [] then capture inner ++ modifier.text
  else group (before ++ capture inner ++ after) ++ modifier.text

end Fragment

namespace Part

/-- The expression for what a capture matches. -/
def source (segment : Text) (p : Part) : Text :=
  match p.kind with
  | .segment => segment
  | .wildcard => wildcardSource
  | _ => p.value

/-- The fragment of fixed text. -/
def fixedFragment (p : Part) : Except GenerationError Text := do
  let t ← (Text.escapeExpression p.value).mapError .nonAscii
  return if p.modifier = .once then t else Fragment.group t ++ p.modifier.text

/-- The fragment of a capture of the given name. One that repeats needs something to divide its
occurrences. -/
def captureFragment (segment : Text) (name : Name) (p : Part) : Except GenerationError Text := do
  let before ← (Text.escapeExpression p.before).mapError .nonAscii
  let after ← (Text.escapeExpression p.after).mapError .nonAscii
  if p.modifier.repeats ∧ before = [] ∧ after = [] then .error (.undelimited name)
  else return Fragment.ofCapture p.modifier before (p.source segment) after

/-- What a part at a position contributes to the expression, and its name if it captures. -/
def fragment (segment : Text) (position : Nat) (p : Part) :
    Except GenerationError (Text × Option Name) :=
  if p.isFixed then p.fixedFragment.map (·, none)
  else
    match p.name with
    | none => .error (.unnamed position)
    | some name => (p.captureFragment segment name).map (·, some name)

/-- The fragments of parts in order, the first of them at `position`. -/
def fragments (segment : Text) (position : Nat) :
    List Part → Except GenerationError (List (Text × Option Name))
  | [] => .ok []
  | p :: ps => do
    let f ← p.fragment segment position
    let fs ← fragments segment (position + 1) ps
    return f :: fs

end Part

/-! ## Expressions -/

/-- A regular expression and the names of its capturing groups. -/
structure Expression where
  source : Text
  names : List Name
deriving DecidableEq, Repr

namespace Expression

/-- The anchored expression of fragments. -/
def ofFragments (fragments : List (Text × Option Name)) : Expression where
  source := ['^'] ++ fragments.flatMap (·.1) ++ ['$']
  names := fragments.filterMap (·.2)

/-- The expression of parts, unchecked. -/
def build (o : Options) (parts : List Part) : Except GenerationError Expression := do
  let segment ← o.segmentSource.mapError .nonAscii
  let fragments ← Part.fragments segment 0 parts
  return ofFragments fragments

/-- Checks an expression. One with look-around is let pass, which is reported. -/
def check (e : Expression) : Run GenerationError Unit :=
  match Regular.ofExpression? e.source with
  | none => Run.note (.unchecked e.source)
  | some t => if Regular.accepts t then pure () else Run.fail (.invalid e.source)

/-- The expression of parts, checked if the options ask for it. -/
def ofParts (o : Options) (parts : List Part) : Run GenerationError Expression :=
  Run.within (.expression parts.length) do
    let e ← Run.ofExcept (build o parts)
    if o.checked then e.check
    pure e

end Expression

end ComponentPattern
