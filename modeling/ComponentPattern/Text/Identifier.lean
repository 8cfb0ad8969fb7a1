/-
# Identifiers

The names of captures: a dollar sign, an underscore or an alphabetic code point, then any number
of those, of numeric code points and of the two zero-width joiners.
-/
import ComponentPattern.Text.Numeric

namespace ComponentPattern

/-- Whether an identifier can start with `c`. -/
def isNameStart (c : Char) : Bool := c == '$' || c == '_' || isAlphabetic c

/-- Whether an identifier can go on with `c`. -/
def isNameContinue (c : Char) : Bool :=
  c == '$' || c == '_' || c == '\u200c' || c == '\u200d' || isAlphanumeric c

/-- The longest identifier at the start of a text, empty if there is none, and what follows it. -/
def Text.splitName : Text → Text × Text
  | [] => ([], [])
  | c :: t =>
    if isNameStart c then (c :: t.takeWhile isNameContinue, t.dropWhile isNameContinue)
    else ([], c :: t)

/-- Whether a text starts with a code point that would go on with a name before it. -/
def Text.startsInName (t : Text) : Bool := t.head?.any isNameContinue

/-! ## Laws -/

/-- What starts an identifier can also go on with it. -/
theorem isNameContinue_of_isNameStart {c : Char} (h : isNameStart c = true) :
    isNameContinue c = true := by
  simp only [isNameStart, isNameContinue, isAlphanumeric, Bool.or_eq_true] at h ⊢
  grind

/-- Splitting off a name loses nothing. -/
theorem Text.splitName_append (t : Text) : t.splitName.1 ++ t.splitName.2 = t := by
  cases t with
  | nil => rfl
  | cons c t => by_cases h : isNameStart c <;> simp [Text.splitName, h]

end ComponentPattern
