/-
# The state of a reader of regular expressions

Regular expressions are checked by reading them one code point at a time. What has been read so
far is kept in a `State`: the modes in force, the groups and classes that are open, how deep what
stands in them is nested, and in the middle of what the reader is. Of what is complete only the
nesting is kept: no tree is built.
-/
import ComponentPattern.Text.Basic

namespace ComponentPattern.Regular

/-! ## Modes -/

/-- Settings that a flag changes for the rest of the group it stands in. -/
structure Mode where
  /-- Blanks and comments are skipped. -/
  spaced : Bool := false
  /-- Classes are sets of bytes, and nothing may match half a code point. -/
  bytes : Bool := false
deriving DecidableEq, Repr

/-- The letters that are flags. -/
def flagLetters : List Char := ['i', 'm', 's', 'U', 'u', 'R', 'x']

/-- Whether a letter is switched on or off by flags, of which those behind a hyphen are switched
off. -/
def switched? (flags : Text) (letter : Char) : Option Bool :=
  if letter ∈ flags.takeWhile (· != '-') then some true
  else if letter ∈ flags then some false
  else none

/-- The modes after flags. -/
def Mode.apply (m : Mode) (flags : Text) : Mode where
  spaced := (switched? flags 'x').getD m.spaced
  bytes := ((switched? flags 'u').map (!·)).getD m.bytes

/-! ## Nesting -/

/-- How deep expressions may be nested. -/
def maxNesting : Nat := 250

/-- The nesting of things that stand side by side: that of the only one, or one more than that of
the deepest. -/
def nestingOf : List Nat → Nat
  | [] => 0
  | [n] => n
  | ns => ns.foldr Nat.max 0 + 1

/-- What has been read of a group, or of the whole expression. Groups, repetitions, classes, rows of
items and choices of alternatives count for one level of nesting each. -/
structure Body where
  /-- The nesting of the items of the alternative under way, the latest first. -/
  items : List Nat := []
  /-- The nesting of the alternatives before it, the latest first. -/
  alternatives : List Nat := []
deriving DecidableEq, Repr

namespace Body

/-- The nesting of all that has been read. -/
def nesting (b : Body) : Nat := nestingOf (nestingOf b.items :: b.alternatives)

/-- Adds an item of the given nesting. -/
def push (b : Body) (nesting : Nat) : Body := { b with items := nesting :: b.items }

/-- Repeats the latest item. -/
def again (b : Body) : Body :=
  match b.items with
  | [] => b
  | n :: ns => { b with items := (n + 1) :: ns }

/-- Starts another alternative. -/
def alternate (b : Body) : Body := ⟨[], nestingOf b.items :: b.alternatives⟩

end Body

/-! ## Classes -/

/-- An open class. -/
structure Bracket where
  negated : Bool := false
  /-- The nesting of the members since the last operator, the latest first. -/
  members : List Nat := []
  /-- The nesting of what is on the left of the last operator. -/
  left : Option Nat := none
  /-- The text read since the class was opened. -/
  source : Text := []
deriving DecidableEq, Repr

namespace Bracket

/-- The nesting of all members, where each operator counts for one level. -/
def nesting (b : Bracket) : Nat :=
  match b.left with
  | none => nestingOf b.members
  | some n => Nat.max n (nestingOf b.members) + 1

/-- Adds a member of the given nesting. -/
def push (b : Bracket) (nesting : Nat) : Bracket := { b with members := nesting :: b.members }

/-- Goes on behind an operator. -/
def operate (b : Bracket) : Bracket := { b with left := some b.nesting, members := [] }

/-- The names of the ASCII classes. -/
def asciiNames : List String :=
  ["alnum", "alpha", "ascii", "blank", "cntrl", "digit", "graph", "lower", "print", "punct",
   "space", "upper", "word", "xdigit"]

/-- Whether a class, read to its closing bracket, is spelt as an ASCII class. -/
def isNamed (b : Bracket) : Bool :=
  asciiNames.any fun n => b.source == [':'] ++ n.toList ++ [':', ']']

/-- Whether a class, read to its closing bracket, is spelt as the complement of an ASCII class. -/
def isComplement (b : Bracket) : Bool :=
  asciiNames.any fun n => b.source == [':', '^'] ++ n.toList ++ [':', ']']

end Bracket

/-! ## Phases -/

/-- Where an escape or a code point stands: outside classes, as a member of a class, or at the end
of a range of members. -/
inductive Place where
  | outside
  | member
  | rangeEnd (low : Char)
deriving DecidableEq, Repr

/-- What an escape stands for. -/
inductive Atom where
  | literal (c : Char)
  | set
  | assertion
deriving DecidableEq, Repr

/-- How much of a counted repetition has been read. -/
inductive Count where
  | start
  | least (n : Nat)
  | leastEnd (n : Nat)
  | comma (n : Nat)
  | gap (n : Nat)
  | most (n m : Nat)
  | mostEnd (n m : Nat)
deriving DecidableEq, Repr

/-- What the reader is in the middle of. -/
inductive Phase where
  /-- Between items. -/
  | item
  /-- Behind a `(`. -/
  | group
  /-- Behind a `(?`. -/
  | special
  /-- Behind a `(?P`. -/
  | specialName
  /-- In the name of a group. -/
  | name (read : Text)
  /-- In the flags of a group. -/
  | flags (read : Text)
  /-- Behind a backslash. -/
  | escape (place : Place)
  /-- Behind the letter of a hexadecimal escape with that many digits. -/
  | hex (place : Place) (digits : Nat)
  /-- In the digits of a hexadecimal escape, with some left to read. -/
  | hexDigits (place : Place) (digits left value : Nat)
  /-- In the braces of a hexadecimal escape. -/
  | hexBraces (place : Place) (value : Option Nat)
  /-- Behind the letter of a property. -/
  | property (place : Place)
  /-- In the braces of a property. -/
  | propertyName (place : Place) (read : Text)
  /-- Behind a word boundary, which braces may follow. -/
  | boundary
  /-- Behind a word boundary and a brace. -/
  | boundaryBrace
  /-- In the name of a word boundary. -/
  | boundaryName (read : Text)
  /-- In a counted repetition. -/
  | count (c : Count)
  /-- Behind a repetition, which a question mark may follow, perhaps with blanks between. -/
  | repeated (blanks : Bool)
  /-- At the start of a class, perhaps behind a caret or behind hyphens. -/
  | classStart (caret hyphens : Bool)
  /-- Between members of a class. -/
  | members
  /-- Behind a code point that is an operator if it is doubled, and a member otherwise. -/
  | operator (c : Char)
  /-- Behind a member, which can start a range if it is a single code point. -/
  | member (low : Option Char)
  /-- Behind a member and a hyphen. -/
  | range (low : Option Char)
  /-- Behind a member, a hyphen and a blank that is skipped. -/
  | rangeGap (low : Option Char)
  /-- Behind a member, a hyphen and the start of a comment, of which only blanks have been read; the
  comment may have ended with one of them. -/
  | rangeComment (low : Option Char) (ended : Bool)
  /-- Before the code point that ends a range. -/
  | rangeLast (low : Char)
deriving DecidableEq, Repr

/-- Whether blanks and comments can be skipped in a phase. -/
def Phase.skips : Phase → Bool
  | special | specialName | name _ | flags _ | escape _ | boundary | operator _ => false
  | range _ | rangeGap _ | rangeComment _ _ => false
  | repeated blanks => blanks
  | _ => true

/-! ## States -/

/-- All that matters about what has been read. -/
structure State where
  phase : Phase := .item
  mode : Mode := {}
  /-- What has been read of the innermost open group. -/
  body : Body := {}
  /-- The modes and the bodies to return to behind the groups that are open, innermost first. -/
  groups : List (Mode × Body) := []
  /-- The names of groups so far. -/
  names : List Text := []
  /-- Whether what was read last can be repeated. -/
  repeatable : Bool := false
  /-- Whether the reader is inside a comment. -/
  comment : Bool := false
  /-- The classes that are open, innermost first. -/
  classes : List Bracket := []
deriving DecidableEq, Repr

namespace State

/-- Goes on to another phase. -/
def enter (s : State) (p : Phase) : State := { s with phase := p }

/-- Adds an item of the given nesting, which can be repeated. -/
def push (s : State) (nesting : Nat) : State :=
  { s with phase := .item, repeatable := true, body := s.body.push nesting }

/-- Repeats the latest item. -/
def again (s : State) (blanks : Bool) : State :=
  { s with phase := .repeated blanks, repeatable := true, body := s.body.again }

/-- Starts another alternative. -/
def alternate (s : State) : State :=
  { s with phase := .item, repeatable := false, body := s.body.alternate }

/-- Switches modes for the rest of the group; what does so is an item that cannot be repeated. -/
def switch (s : State) (mode : Mode) : State := { s.push 0 with repeatable := false, mode }

/-- Opens a group with its own modes. -/
def openGroup (s : State) (mode : Mode) : State :=
  { s with
    phase := .item, repeatable := false, mode, body := {}, groups := (s.mode, s.body) :: s.groups }

/-- Closes the innermost group. -/
def closeGroup? (s : State) : Option State :=
  match s.groups with
  | [] => none
  | (mode, body) :: groups =>
    some ({ s with body, groups, mode }.push (s.body.nesting + 1))

/-- Opens a class. -/
def openClass (s : State) : State :=
  { s with phase := .classStart false false, classes := {} :: s.classes }

/-- Changes the innermost class. -/
def mapClass (s : State) (f : Bracket → Bracket) : State :=
  match s.classes with
  | [] => s
  | b :: classes => { s with classes := f b :: classes }

/-- Adds a single member to the innermost class. -/
def addMember (s : State) : State := s.mapClass (·.push 0)

/-- Closes the innermost class. Inside a class it may turn out to be the name of an ASCII class,
which is a single member. Where classes are sets of bytes, they only hold ASCII, so no complement is
one. -/
def closeClass? (s : State) : Option State :=
  match s.classes with
  | [] => none
  | [b] =>
    if s.mode.bytes && b.negated then none
    else some ({ s with classes := [] }.push (b.nesting + 1))
  | b :: outer :: classes =>
    if s.mode.bytes && (b.negated || b.isComplement) then none
    else
      let nesting := if b.isNamed || b.isComplement then 0 else b.nesting + 1
      some { s with phase := .members, classes := outer.push nesting :: classes }

/-- Whether nothing is left open where the reader is. -/
def isSettled (s : State) : Bool :=
  match s.phase with
  | .item | .boundary | .repeated _ => s.groups.isEmpty
  | _ => false

/-- Whether what has been read is a whole expression, nested no deeper than allowed. -/
def isFinal (s : State) : Bool := s.isSettled && s.body.nesting ≤ maxNesting

end State

end ComponentPattern.Regular
