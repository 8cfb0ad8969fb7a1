/-
# Token lists

The tokens of a pattern under a policy: `Token.scan` is what both policies make of the same
readings.
-/
import ComponentPattern.Journal

namespace ComponentPattern

/-- The tokens of a list of readings under a policy. -/
def Reading.tokens (readings : List Reading) : Token.Policy → Run Fault (List Token)
  | .strict => .ofExcept (readings.mapM Reading.toExcept)
  | .lenient =>
    ⟨(readings.filterMap Reading.fault?).map fun f => .noted (.recovered f),
      .ok (readings.map Reading.toToken)⟩

/-- The tokens of a pattern under a policy. -/
def Token.scan (policy : Token.Policy) (pattern : Text) : Run Fault (List Token) :=
  (Reading.tokens (Reading.all 0 pattern) policy).within (.tokens pattern.length policy)

end ComponentPattern
