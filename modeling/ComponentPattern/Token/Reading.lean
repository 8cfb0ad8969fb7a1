/-
# Reading a pattern

A pattern is read from left to right into tokens. Reading never stops: where no token can be
read it leaves a fault and goes on behind the one code point that caused it. `Token.Policy`
decides what faults mean:

* `strict` : the first fault is the outcome;
* `lenient` : every fault stands for an invalid token, and is reported.

The main facts here are that a lexeme takes at least its own first code point
(`Lexeme.length_rest`), which is what ends the reading, and that it loses none
(`Lexeme.source_append`).
-/
import ComponentPattern.Text.Identifier
import ComponentPattern.Token.Basic
import ComponentPattern.Token.Group

namespace ComponentPattern

/-! ## Faults -/

/-- Why no token can be read at a place. -/
inductive Fault.Cause where
  | danglingEscape
  | missingName
  | badGroup (defect : GroupDefect)
  | emptyGroup
deriving DecidableEq, Repr

/-- The code point at which a cause arises. -/
def Fault.Cause.mark : Fault.Cause → Char
  | .danglingEscape => '\\'
  | .missingName => ':'
  | .badGroup _ => '('
  | .emptyGroup => '('

/-- A place at which no token can be read. -/
structure Fault where
  index : Nat
  cause : Fault.Cause
deriving DecidableEq, Repr

namespace Fault

/-- The wording of a fault. -/
def message (f : Fault) : String :=
  match f.cause with
  | .danglingEscape => s!"trailing '\\' at index {f.index} has nothing to escape"
  | .missingName => s!"':' at index {f.index} is not followed by a valid name"
  | .badGroup defect => s!"regexp group opened at index {f.index} {defect.message}"
  | .emptyGroup => s!"regexp group opened at index {f.index} is empty"

/-- The invalid token that stands for a fault. -/
def token (f : Fault) : Token := ⟨.invalid, f.index, [f.cause.mark]⟩

end Fault

/-! ## Lexemes -/

/-- The kind and the value of a token, and the text that follows it. -/
structure Lexeme where
  kind : Token.Kind
  value : Text
  rest : Text
deriving DecidableEq, Repr

namespace Lexeme

/-- Reads the token that starts with `c` and goes on in `t`. -/
def read (c : Char) (t : Text) : Except Fault.Cause Lexeme :=
  match c with
  | '*' => .ok ⟨.asterisk, [c], t⟩
  | '+' => .ok ⟨.modifier, [c], t⟩
  | '?' => .ok ⟨.modifier, [c], t⟩
  | '{' => .ok ⟨.lbrace, [c], t⟩
  | '}' => .ok ⟨.rbrace, [c], t⟩
  | '\\' =>
    match t with
    | [] => .error .danglingEscape
    | d :: t => .ok ⟨.escaped, [d], t⟩
  | ':' =>
    match t.splitName with
    | ([], _) => .error .missingName
    | (name, rest) => .ok ⟨.name, name, rest⟩
  | '(' =>
    match Group.scan t with
    | .error defect => .error (.badGroup defect)
    | .ok ([], _) => .error .emptyGroup
    | .ok (body, rest) => .ok ⟨.group, body, rest⟩
  | _ => .ok ⟨.char, [c], t⟩

/-- The source of a lexeme and its rest are the text that was read. -/
theorem source_append {c : Char} {t : Text} {l : Lexeme} (h : read c t = .ok l) :
    l.kind.source l.value ++ l.rest = c :: t := by
  unfold read at h
  split at h
  case h_6 =>
    split at h
    · cases h
    · cases h; rfl
  case h_7 =>
    split at h
    · cases h
    · rename_i name rest _ hs
      cases h
      have := Text.splitName_append t
      rw [hs] at this
      simp [Token.Kind.source, this]
  case h_8 =>
    split at h
    · cases h
    · cases h
    · rename_i hs
      cases h
      simp [Token.Kind.source, Group.eq_append_of_scan hs]
  all_goals cases h; rfl

/-- A lexeme takes at least one code point. -/
theorem length_rest {c : Char} {t : Text} {l : Lexeme} (h : read c t = .ok l) :
    l.rest.length ≤ t.length := by
  have := congrArg List.length (source_append h)
  have hv : 0 < (l.kind.source l.value).length := by
    unfold read at h
    split at h
    case h_6 =>
      split at h <;> cases h
      simp [Token.Kind.source]
    case h_7 =>
      split at h <;> cases h
      simp [Token.Kind.source]
    case h_8 =>
      split at h <;> cases h
      simp [Token.Kind.source]
    all_goals cases h; simp [Token.Kind.source]
  simp at this
  omega

end Lexeme

/-! ## Readings -/

/-- What is found at a place of a pattern. -/
inductive Reading where
  | token (t : Token)
  | fault (f : Fault)
deriving DecidableEq, Repr

namespace Reading

/-- All that is found in a text that starts at `index`, in order, and the final token behind it. -/
def all (index : Nat) : Text → List Reading
  | [] => [token ⟨.final, index, []⟩]
  | c :: t =>
    match h : Lexeme.read c t with
    | .ok l =>
      token ⟨l.kind, index, l.value⟩ :: all (index + (l.kind.source l.value).length) l.rest
    | .error cause => fault ⟨index, cause⟩ :: all (index + 1) t
termination_by t => t.length
decreasing_by
  · have := Lexeme.length_rest h
    simp
    omega
  · simp

/-- The token of a reading; a fault gives its invalid token. -/
def toToken : Reading → Token
  | token t => t
  | fault f => f.token

/-- The fault of a reading, if it is one. -/
def fault? : Reading → Option Fault
  | token _ => none
  | fault f => some f

/-- The token of a reading, or the fault as an error. -/
def toExcept : Reading → Except Fault Token
  | token t => .ok t
  | fault f => .error f

end Reading

/-- What is made of a place at which no token can be read. -/
inductive Token.Policy where
  | strict
  | lenient
deriving DecidableEq, Repr

/-- The word for a policy. -/
def Token.Policy.title : Token.Policy → String
  | .strict => "Strict"
  | .lenient => "Lenient"

end ComponentPattern
