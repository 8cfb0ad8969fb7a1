/-
# Texts

A text is a list of code points, so every index the library reports counts code points. This
module also holds the two ways of putting a backslash in front of the symbols of a notation:

* `Text.escapePattern` : for text inside a pattern, where any code point may stand;
* `Text.escapeExpression` : for text inside a regular expression, where only ASCII may stand.
-/

namespace ComponentPattern

/-- A text: a list of Unicode code points. -/
abbrev Text := List Char

/-- Whether a code point is ASCII. -/
def isAscii (c : Char) : Bool := c.toNat < 128

namespace Text

/-- The position of the first code point that is not ASCII. -/
def firstNonAscii? (t : Text) : Option Nat := t.findIdx? fun c => !isAscii c

/-- Puts a backslash in front of every code point of `t` that is one of `symbols`. -/
def escapeSymbols (symbols : List Char) (t : Text) : Text :=
  t.flatMap fun c => if c ∈ symbols then ['\\', c] else [c]

/-- The code points with a meaning of their own in a pattern. -/
def patternSymbols : List Char := ['+', '*', '?', ':', '{', '}', '(', ')', '\\']

/-- The code points that are written with a backslash in a regular expression. -/
def expressionSymbols : List Char :=
  ['.', '+', '*', '?', '^', '$', '{', '}', '(', ')', '[', ']', '|', '/', '\\']

/-- `t` as it is written inside a pattern to stand for itself. -/
def escapePattern (t : Text) : Text := escapeSymbols patternSymbols t

end Text

/-- A text that had to be ASCII and is not, with the position of its first other code point. -/
structure NonAscii where
  text : Text
  index : Nat
deriving DecidableEq, Repr

/-- The wording of the error. -/
def NonAscii.message (e : NonAscii) : String :=
  s!"'{String.ofList e.text}' contains a non-ASCII code point at index {e.index}"

namespace Text

/-- `t` as it is written inside a regular expression to match itself; only ASCII can be. -/
def escapeExpression (t : Text) : Except NonAscii Text :=
  match t.firstNonAscii? with
  | some index => .error ⟨t, index⟩
  | none => .ok (escapeSymbols expressionSymbols t)

/-! ## How escaping splits -/

@[simp] theorem escapeSymbols_nil (symbols : List Char) : escapeSymbols symbols [] = [] := rfl

theorem escapeSymbols_cons (symbols : List Char) (c : Char) (t : Text) :
    escapeSymbols symbols (c :: t)
      = (if c ∈ symbols then ['\\', c] else [c]) ++ escapeSymbols symbols t := rfl

/-- Texts in a row are escaped one after the other. -/
@[simp] theorem escapeSymbols_append (symbols : List Char) (s t : Text) :
    escapeSymbols symbols (s ++ t) = escapeSymbols symbols s ++ escapeSymbols symbols t := by
  simp [escapeSymbols]

/-- Escaping leaves nothing empty that was not. -/
theorem escapeSymbols_eq_nil_iff {symbols : List Char} {t : Text} :
    escapeSymbols symbols t = [] ↔ t = [] := by
  cases t with
  | nil => simp
  | cons c t => rw [escapeSymbols_cons]; split <;> simp

/-- A text has no first non-ASCII code point exactly when all of it is ASCII. -/
theorem firstNonAscii?_eq_none_iff {t : Text} :
    t.firstNonAscii? = none ↔ ∀ c ∈ t, isAscii c = true := by
  simp [firstNonAscii?]

end Text

end ComponentPattern
