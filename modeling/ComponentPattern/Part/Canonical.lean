/-
# Canonical patterns

Parts are written back as a pattern that reads to the same parts. A capture is put into braces
where its neighbours, or the text that comes with it, would otherwise be read differently.
-/
import ComponentPattern.Journal
import ComponentPattern.Options.Basic
import ComponentPattern.Part.Error
import ComponentPattern.Text.Identifier

namespace ComponentPattern

namespace Part

/-! ## When braces are needed -/

/-- Whether a part has a name of its own. -/
def hasCustomName (p : Part) : Bool := p.name.any Name.isCustom

/-- Whether a part would be read into the bare name before it: text that goes on with the name, or a
capture without a name of its own. -/
def extendsName (p : Part) : Bool :=
  p.before.isEmpty && p.after.isEmpty &&
    if p.isFixed then p.value.startsInName else p.name.any fun n => !n.isCustom

/-- Whether a capture has to be written in braces, given the parts before and after it. -/
def needsBraces (o : Options) (previous : Option Part) (p : Part) (next : Option Part) : Bool :=
  (!p.after.isEmpty || (!p.before.isEmpty && !o.isLead p.before))
  || (p.hasCustomName && p.kind == .segment && p.modifier == .once && next.any extendsName)
  || (p.before.isEmpty && previous.any fun q => q.isFixed && o.endsWithLead q.value)

/-! ## Writing parts -/

/-- Whether a wildcard can be written as an asterisk, which right behind an unmodified capture would
be read as a modifier. -/
def bareAsterisk (previous : Option Part) (p : Part) (braced : Bool) : Bool :=
  !p.hasCustomName
    && (previous.all (fun q => q.isFixed || q.modifier != .once) || braced || !p.before.isEmpty)

/-- How a part's expression is written: not at all for a segment with a name of its own. -/
def writeSource (o : Options) (previous : Option Part) (p : Part) (braced : Bool) :
    Except NonAscii Text :=
  match p.kind with
  | .fixed => .ok []
  | .expression => .ok ('(' :: (p.value ++ [')']))
  | .segment =>
    if p.hasCustomName then .ok []
    else o.segmentSource.map fun s => '(' :: (s ++ [')'])
  | .wildcard =>
    if bareAsterisk previous p braced then .ok ['*'] else .ok ('(' :: (wildcardSource ++ [')']))

/-- The text after a capture, kept apart from a bare name before it. -/
def writeAfter (p : Part) : Text :=
  if p.kind == .segment && p.hasCustomName && p.after.startsInName then
    '\\' :: Text.escapePattern p.after
  else Text.escapePattern p.after

/-- Puts a text into braces. -/
def inBraces (t : Text) : Text := '{' :: (t ++ ['}'])

/-- Writes a part between its neighbours. -/
def write (o : Options) (position : Nat) (previous : Option Part) (p : Part) (next : Option Part) :
    Except GenerationError Text :=
  if p.isFixed then
    if p.modifier = .once then .ok (Text.escapePattern p.value)
    else .ok (inBraces (Text.escapePattern p.value) ++ p.modifier.text)
  else
    match p.name with
    | none => .error (.unnamed position)
    | some name => do
      let braced := p.needsBraces o previous next
      let source ← (p.writeSource o previous braced).mapError .nonAscii
      let label := if name.isCustom then ':' :: name.text else []
      let inner := Text.escapePattern p.before ++ label ++ source ++ p.writeAfter
      return (if braced then inBraces inner else inner) ++ p.modifier.text

/-- Writes parts in order, behind `previous`. -/
def writeAll (o : Options) (position : Nat) (previous : Option Part) :
    List Part → Except GenerationError Text
  | [] => .ok []
  | p :: ps => do
    let t ← p.write o position previous ps.head?
    let rest ← writeAll o (position + 1) (some p) ps
    return t ++ rest

/-- The canonical pattern of a list of parts. -/
def canonical (o : Options) (parts : List Part) : Run GenerationError Text :=
  Run.within (.canonical parts.length) (Run.ofExcept (writeAll o 0 none parts))

end Part

end ComponentPattern
