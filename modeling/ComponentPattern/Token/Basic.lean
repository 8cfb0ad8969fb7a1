/-
# Tokens

The lexical units of a pattern. `Token.source` gives back the text a token was read from, so
that the concatenated sources of a token list are the text of the pattern.
-/
import ComponentPattern.Text.Basic

namespace ComponentPattern

/-- What a token is. -/
inductive Token.Kind where
  | asterisk
  | modifier
  | escaped
  | lbrace
  | rbrace
  | name
  | group
  | char
  | invalid
  | final
deriving DecidableEq, Repr

/-- The word for a kind of token in data. -/
def Token.Kind.label : Token.Kind → String
  | .asterisk => "asterisk"
  | .modifier => "other-modifier"
  | .escaped => "escaped-char"
  | .lbrace => "open"
  | .rbrace => "close"
  | .name => "name"
  | .group => "regexp"
  | .char => "char"
  | .invalid => "invalid-char"
  | .final => "end"

/-- The word for a kind of token in messages. -/
def Token.Kind.title : Token.Kind → String
  | .asterisk => "Asterisk"
  | .modifier => "OtherModifier"
  | .escaped => "EscapedChar"
  | .lbrace => "Open"
  | .rbrace => "Close"
  | .name => "Name"
  | .group => "Regexp"
  | .char => "Char"
  | .invalid => "InvalidChar"
  | .final => "End"

/-- A lexical unit of a pattern: its kind, the index it starts at, and its value, which leaves out
the backslash of an escape, the colon of a name and the parentheses of a group. -/
structure Token where
  kind : Token.Kind
  index : Nat
  value : Text
deriving DecidableEq, Repr

namespace Token

/-- Whether a token can say how often the unit before it is repeated. -/
def isModifier (t : Token) : Bool := t.kind == .modifier || t.kind == .asterisk

/-- The text a token of this kind and value is read from. -/
def Kind.source (kind : Kind) (value : Text) : Text :=
  match kind with
  | .escaped => '\\' :: value
  | .name => ':' :: value
  | .group => '(' :: (value ++ [')'])
  | _ => value

/-- The text a token is read from. -/
def source (t : Token) : Text := t.kind.source t.value

end Token

end ComponentPattern
