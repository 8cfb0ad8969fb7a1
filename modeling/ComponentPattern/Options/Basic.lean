/-
# Options

What depends on the component of a URL that a pattern is for: the delimiter of its segments, and
the code point that a capture takes along when it stands right before it. Both have to be ASCII,
which is checked where a component is compiled and where options are built step by step.
-/
import ComponentPattern.Text.Basic

namespace ComponentPattern

/-- The options of a component. -/
structure Options where
  /-- The code point that no segment contains. -/
  delimiter : Option Char := none
  /-- The code point that belongs to the capture right behind it. -/
  lead : Option Char := none
  /-- Whether the expression is checked before it is handed out. -/
  checked : Bool := false
deriving DecidableEq, Repr

/-- Why options are refused. -/
inductive OptionsError where
  | delimiter (found : Char)
  | lead (found : Char)
deriving DecidableEq, Repr

/-- The wording of the error. -/
def OptionsError.message : OptionsError → String
  | .delimiter found => s!"delimiter code point '{found}' must be ASCII"
  | .lead found => s!"prefix code point '{found}' must be ASCII"

namespace Options

/-- For hosts: labels are divided by dots. -/
def hostname : Options := { delimiter := some '.' }

/-- For paths: segments are divided by slashes, and a slash belongs to the capture behind it. -/
def pathname : Options := { delimiter := some '/', lead := some '/' }

/-- Refuses code points that are not ASCII, the delimiter first. -/
def validate (o : Options) : Except OptionsError Unit :=
  match o.delimiter.filter fun c => !isAscii c with
  | some c => .error (.delimiter c)
  | none =>
    match o.lead.filter fun c => !isAscii c with
    | some c => .error (.lead c)
    | none => .ok ()

/-- The expression of a segment: a shortest non-empty run without the delimiter. -/
def segmentSource (o : Options) : Except NonAscii Text :=
  (Text.escapeExpression o.delimiter.toList).map fun d => ['[', '^'] ++ d ++ [']', '+', '?']

/-- Whether a text is just the leading code point. -/
def isLead (o : Options) (t : Text) : Bool :=
  match o.lead with
  | some p => t == [p]
  | none => false

/-- Whether a text ends with the leading code point. -/
def endsWithLead (o : Options) (t : Text) : Bool :=
  match o.lead with
  | some p => t.getLast? == some p
  | none => false

/-! ## Building options step by step -/

/-- One choice. -/
inductive Setting where
  | delimiter (c : Char)
  | lead (c : Char)
  | checked (b : Bool)
deriving DecidableEq, Repr

/-- Makes one choice, over any earlier one. -/
def set (o : Options) : Setting → Options
  | .delimiter c => { o with delimiter := some c }
  | .lead c => { o with lead := some c }
  | .checked b => { o with checked := b }

/-- The options with the given choices, made in order, if they are valid. -/
def build (settings : List Setting) : Except OptionsError Options :=
  let o := settings.foldl set {}
  o.validate.map fun _ => o

/-! ## Laws -/

/-- Valid options have no delimiter or an ASCII one. -/
theorem isAscii_of_validate {o : Options} (h : o.validate = .ok ()) :
    ∀ c ∈ o.delimiter, isAscii c = true := by
  intro c hc
  unfold validate at h
  split at h
  · cases h
  · next hnone =>
    rw [Option.filter_eq_none_iff] at hnone
    simpa using hnone c hc

/-- The delimiter of paths is ASCII. -/
theorem isAscii_delimiter_pathname : ∀ c ∈ pathname.delimiter, isAscii c = true :=
  isAscii_of_validate rfl

end Options

end ComponentPattern
