/-
# From items to parts

A draft holds the parts made so far and the plain text that waits to become one. Plain text is
kept until a part has to follow it, so that neighbouring texts become one part. Every text that
ends up in a part goes through the caller's encoder first; nothing is decided by what the
encoder gives back.
-/
import ComponentPattern.Token.Scan
import ComponentPattern.Options.Basic
import ComponentPattern.Part.Error
import ComponentPattern.Part.Item

namespace ComponentPattern

/-! ## Drafts -/

/-- What stays the same while the parts of a pattern are made. -/
structure Draft.Context where
  options : Options
  /-- The expression of a segment under these options. -/
  segment : Text
  encode : Text → Text

/-- The parts made so far, the text that waits to become one, and the next ordinal to hand out. -/
structure Draft where
  parts : List Part := []
  pending : Text := []
  ordinal : Nat := 0
deriving DecidableEq, Repr

namespace Draft

/-- Adds plain text. -/
def addText (d : Draft) (t : Text) : Draft := { d with pending := d.pending ++ t }

/-- Adds a part. -/
def addPart (d : Draft) (p : Part) : Draft := { d with parts := d.parts ++ [p] }

/-- Makes a part of the waiting text, if there is any. -/
def flush (x : Context) (d : Draft) : Run PatternError Draft :=
  if d.pending = [] then pure d
  else do
    let value ← Run.encode x.encode d.pending
    pure { d with parts := d.parts ++ [Part.fixed value .once], pending := [] }

/-- Adds fixed text with a modifier. -/
def addFixed (x : Context) (d : Draft) (t : Text) (modifier : Modifier) :
    Run PatternError Draft := do
  let d ← d.flush x
  let value ← Run.encode x.encode t
  pure (d.addPart (Part.fixed value modifier))

/-- The expression that a capture spells out; a name alone stands for a segment. -/
def Context.source (x : Context) : Capture → Text
  | .named _ _ none => x.segment
  | .named _ _ (some body) => body
  | .group _ body => body
  | .wildcard _ => Part.wildcardSource

/-- The kind and the value of a part that matches an expression. The expressions of the wildcards
are recognised, however they were spelt. -/
def Context.classify (x : Context) (source : Text) : Part.Kind × Text :=
  if source = x.segment then (.segment, [])
  else if source = Part.wildcardSource then (.wildcard, [])
  else (.expression, source)

/-- The name of a capture: its own, or the next ordinal. -/
def nameOf (d : Draft) : Capture → Name
  | .named _ name _ => .custom name
  | _ => .ordinal d.ordinal

/-- The next ordinal to hand out behind a capture. -/
def ordinalAfter (d : Draft) : Capture → Nat
  | .named _ _ _ => d.ordinal
  | _ => d.ordinal + 1

/-- The part that a capture becomes. -/
def Context.part (x : Context) (c : Capture) (modifier : Modifier) (name : Name)
    (before after : Text) : Part :=
  let classified := x.classify (x.source c)
  Part.capture classified.1 classified.2 modifier name before after

/-- Adds a capture to a draft without waiting text. -/
def place (x : Context) (d : Draft) (before : Text) (c : Capture) (after : Text)
    (modifier : Modifier) : Run PatternError Draft :=
  if d.parts.any (·.name = some (d.nameOf c)) then do
    Run.note (.duplicateName (d.nameOf c) c.index)
    Run.fail (.duplicateName (d.nameOf c) c.index)
  else do
    let before ← Run.encode x.encode before
    let after ← Run.encode x.encode after
    pure { d with
      parts := d.parts ++ [x.part c modifier (d.nameOf c) before after]
      ordinal := d.ordinalAfter c }

/-- Adds a capture with the text before and after it. -/
def addCapture (x : Context) (d : Draft) (before : Text) (c : Capture) (after : Text)
    (modifier : Modifier) : Run PatternError Draft := do
  let d ← d.flush x
  d.place x before c after modifier

/-- Adds an item. The code point before a capture goes with the capture if it is the leading one,
and to the plain text otherwise. Braces without a capture only matter if there is something to
modify. -/
def addItem (x : Context) (d : Draft) : Item → Run PatternError Draft
  | .text t => pure (d.addText t)
  | .capture lead c modifier =>
    if x.options.isLead lead then d.addCapture x lead c [] modifier
    else (d.addText lead).addCapture x [] c [] modifier
  | .braces before none _ modifier =>
    if modifier = .once ∨ before = [] then pure (d.addText before)
    else d.addFixed x before modifier
  | .braces before (some c) after modifier => d.addCapture x before c after modifier

/-- Adds items in order. -/
def addItems (x : Context) (d : Draft) : List Item → Run PatternError Draft
  | [] => pure d
  | i :: items => do
    let d ← d.addItem x i
    d.addItems x items

/-- The parts of a draft whose items end in the given way. -/
def finish (x : Context) (d : Draft) : Item.Ending → Run PatternError (List Part)
  | .complete => do
    let d ← d.flush x
    pure d.parts
  | .openBrace index => Run.fail (.openBrace index)
  | .unexpected found index => do
    let _ ← d.flush x
    Run.fail (.unexpected found index)

end Draft

/-- The parts of a pattern. -/
def Part.parse (o : Options) (encode : Text → Text) (pattern : Text) :
    Run PatternError (List Part) :=
  Run.within (.parts pattern) do
    let tokens ← (Token.scan .strict pattern).mapError .fault
    let segment ← (Run.ofExcept o.segmentSource).mapError .nonAscii
    let x : Draft.Context := ⟨o, segment, encode⟩
    let d ← Draft.addItems x {} (Item.all tokens).1
    d.finish x (Item.all tokens).2

end ComponentPattern
