/-
# Components

A pattern for a component of a URL is compiled to an anchored regular expression, the names of
its captures and the canonical spelling of the pattern.
-/
import ComponentPattern.Error
import ComponentPattern.Expression.Basic
import ComponentPattern.Part.Canonical
import ComponentPattern.Part.Draft

namespace ComponentPattern

/-- A compiled pattern. -/
structure Component where
  source : Text
  names : List Name
  canonical : Text
deriving DecidableEq, Repr

namespace Component

/-- The pattern of a component for which none is given: it matches everything. -/
def defaultPattern : Text := ['*']

/-- Compiles a pattern under options that have to be valid. -/
def compile (o : Options) (encode : Text → Text) (pattern : Text) : Run Error Component :=
  Run.within (.component pattern) do
    (Run.ofExcept o.validate).mapError .options
    let parts ← (Part.parse o encode pattern).mapError .pattern
    let e ← (Expression.ofParts o parts).mapError .generation
    let canonical ← (Part.canonical o parts).mapError .generation
    Run.note (.compiled parts.length e.names.length e.source)
    pure ⟨e.source, e.names, canonical⟩

/-- Compiles a pattern, or the default pattern if there is none. -/
def compileOrDefault (o : Options) (encode : Text → Text) (pattern : Option Text) :
    Run Error Component :=
  compile o encode (pattern.getD defaultPattern)

end Component

end ComponentPattern
