/-
# The syntax of regular expressions

`Regular.accepts` decides whether a text is a regular expression without look-around and
back-references, as automata can match it: items with repetitions, alternatives, groups with
flags, classes with nesting and operators, escapes. The text is read from left to right by
`State.step?`, so the verdict on a text put together from pieces comes from reading the pieces
in turn (`State.steps?_append`).
-/
import ComponentPattern.Regular.State
import ComponentPattern.Regular.Property
import ComponentPattern.Text.Blank
import ComponentPattern.Text.Numeric

namespace ComponentPattern.Regular

/-! ## Single code points -/

/-- The value of a decimal digit. -/
def decimal? (c : Char) : Option Nat := if c.isDigit then some (c.toNat - '0'.toNat) else none

/-- The value of a hexadecimal digit. -/
def hexadecimal? (c : Char) : Option Nat :=
  if c.isDigit then some (c.toNat - '0'.toNat)
  else if 'a' ≤ c && c ≤ 'f' then some (c.toNat - 'a'.toNat + 10)
  else if 'A' ≤ c && c ≤ 'F' then some (c.toNat - 'A'.toNat + 10)
  else none

/-- The code point of a number, if there is one. -/
def codePoint? (n : Nat) : Option Char := if n.isValidChar then some (Char.ofNat n) else none

/-- The largest bound of a repetition: the largest number of 32 bits. -/
def maxCount : Nat := 0xFFFFFFFF

/-- Whether the name of a group can contain `c`, at its start or behind it. -/
def isGroupName (first : Bool) (c : Char) : Bool :=
  if first then c == '_' || isAlphabetic c
  else c == '_' || c == '.' || c == '[' || c == ']' || isAlphanumeric c

/-- The code points that escapes by a letter stand for. -/
def letterEscape? : Char → Option Char
  | 'a' => some '\x07'
  | 'f' => some '\x0c'
  | 't' => some '\t'
  | 'n' => some '\n'
  | 'r' => some '\r'
  | 'v' => some '\x0b'
  | _ => none

/-- The words that may stand in braces behind a word boundary. -/
def boundaryWords : List String := ["start", "end", "start-half", "end-half"]

namespace State

/-! ## Atoms -/

/-- Goes on behind an atom at a place. A class of bytes has only ASCII members. -/
def put? (s : State) : Place → Atom → Option State
  | .outside, _ => some (s.push 0)
  | _, .assertion => none
  | .member, .set => some (s.addMember.enter (.member none))
  | .member, .literal c =>
    if s.mode.bytes && !isAscii c then none else some (s.addMember.enter (.member (some c)))
  | .rangeEnd _, .set => none
  | .rangeEnd low, .literal c =>
    if s.mode.bytes && !isAscii c then none
    else if low ≤ c then some (s.enter .members) else none

/-- Reads the code point behind a backslash. -/
def escape? (s : State) (place : Place) (c : Char) : Option State :=
  if c = 'x' then some (s.enter (.hex place 2))
  else if c = 'u' then some (s.enter (.hex place 4))
  else if c = 'U' then some (s.enter (.hex place 8))
  else if c = 'p' || c = 'P' then if s.mode.bytes then none else some (s.enter (.property place))
  else if c = 'd' || c = 's' || c = 'w' then s.put? place .set
  else if c = 'D' || c = 'S' || c = 'W' then if s.mode.bytes then none else s.put? place .set
  else if c = 'b' then if place = .outside then some ((s.push 0).enter .boundary) else none
  else if c ∈ ['A', 'z', 'B', '<', '>'] then s.put? place .assertion
  else
    match letterEscape? c with
    | some d => s.put? place (.literal d)
    | none => if isAscii c && !c.isAlphanum then s.put? place (.literal c) else none

/-- Goes on behind a hexadecimal escape. A byte beyond ASCII is half a code point. -/
def putHex? (s : State) (place : Place) (isByte : Bool) (value : Nat) : Option State :=
  if s.mode.bytes && isByte && 128 ≤ value then none
  else (codePoint? value).bind fun c => s.put? place (.literal c)

/-! ## Items -/

/-- Reads the start of an item. -/
def item? (s : State) (c : Char) : Option State :=
  match c with
  | '(' => some (s.enter .group)
  | ')' => s.closeGroup?
  | '|' => some s.alternate
  | '[' => some s.openClass
  | '?' => if s.repeatable then some (s.again false) else none
  | '*' => if s.repeatable then some (s.again false) else none
  | '+' => if s.repeatable then some (s.again false) else none
  | '{' => if s.repeatable then some (s.enter (.count .start)) else none
  | '\\' => some (s.enter (.escape .outside))
  | '.' => if s.mode.bytes then none else some (s.push 0)
  | _ => some (s.push 0)

/-- Reads a code point in the flags of a group, behind those read so far. A hyphen counts as a flag:
it stands only once, and not at the end. -/
def flag? (s : State) (read : Text) (c : Char) : Option State :=
  if c = ':' then
    if read.getLast? = some '-' then none else some (s.openGroup (s.mode.apply read))
  else if c = ')' then
    if read = [] || read.getLast? = some '-' then none
    else some (s.switch (s.mode.apply read))
  else if c ∈ '-' :: flagLetters && c ∉ read then some (s.enter (.flags (read ++ [c])))
  else none

/-- Reads a code point in the name of a group. -/
def name? (s : State) (read : Text) (c : Char) : Option State :=
  if c = '>' then
    if read = [] || read ∈ s.names then none
    else some { s.openGroup s.mode with names := read :: s.names }
  else if isGroupName (read = []) c then some (s.enter (.name (read ++ [c])))
  else none

/-- Goes on behind a counted repetition, if its bounds are in order. -/
def counted? (s : State) (n m : Nat) : Option State :=
  if n ≤ m && m ≤ maxCount then some (s.again true) else none

/-- Reads a code point in a counted repetition. Blanks may stand around the numbers, but not alone
behind the comma. -/
def count? (s : State) (k : Count) (c : Char) : Option State :=
  match k, decimal? c with
  | .start, some d => some (s.enter (.count (.least d)))
  | .start, none => if isBlank c then some (s.enter (.count .start)) else none
  | .least n, some d => some (s.enter (.count (.least (10 * n + d))))
  | .least n, none =>
    if isBlank c then some (s.enter (.count (.leastEnd n)))
    else if c = ',' then some (s.enter (.count (.comma n)))
    else if c = '}' then s.counted? n n
    else none
  | .leastEnd n, _ =>
    if isBlank c then some (s.enter (.count (.leastEnd n)))
    else if c = ',' then some (s.enter (.count (.comma n)))
    else if c = '}' then s.counted? n n
    else none
  | .comma n, some d => some (s.enter (.count (.most n d)))
  | .comma n, none =>
    if isBlank c then some (s.enter (.count (.gap n)))
    else if c = '}' then s.counted? n n
    else none
  | .gap n, some d => some (s.enter (.count (.most n d)))
  | .gap n, none => if isBlank c then some (s.enter (.count (.gap n))) else none
  | .most n m, some d => some (s.enter (.count (.most n (10 * m + d))))
  | .most n m, none =>
    if isBlank c then some (s.enter (.count (.mostEnd n m)))
    else if c = '}' then s.counted? n m
    else none
  | .mostEnd n m, _ =>
    if isBlank c then some (s.enter (.count (.mostEnd n m)))
    else if c = '}' then s.counted? n m
    else none

/-! ## Members of classes -/

/-- Reads the start of a member. -/
def member? (s : State) (c : Char) : Option State :=
  match c with
  | '[' => some s.openClass
  | ']' => s.closeClass?
  | '&' => some (s.enter (.operator c))
  | '-' => some (s.enter (.operator c))
  | '~' => some (s.enter (.operator c))
  | '\\' => some (s.enter (.escape .member))
  | _ => s.put? .member (.literal c)

/-- Reads what follows a member. -/
def afterMember? (s : State) (low : Option Char) (c : Char) : Option State :=
  if c = '-' then some (s.enter (.range low)) else s.member? c

/-- Applies an operator. -/
def operate (s : State) : State := (s.enter .members).mapClass Bracket.operate

/-- Reads the code point that ends a range. -/
def rangeLast? (s : State) (low c : Char) : Option State :=
  if c = '\\' then some (s.enter (.escape (.rangeEnd low)))
  else s.put? (.rangeEnd low) (.literal c)

/-- Reads what follows a member and a hyphen, and is no hyphen: the end of the class, which makes
the hyphen a member, or the end of a range. -/
def range? (s : State) (low : Option Char) (c : Char) : Option State :=
  if c = ']' then s.addMember.closeClass?
  else low.bind fun low => s.rangeLast? low c

/-- Reads what follows a member, a hyphen, the start of a comment and blanks. Whether the hyphen
makes a range is decided by this code point, even if it is part of the comment. -/
def rangeComment? (s : State) (low : Option Char) (ended : Bool) (c : Char) : Option State :=
  if isBlank c then some (s.enter (.rangeComment low (ended || c == '\n')))
  else if c = ']' || c = '-' then
    let s := s.addMember.enter (.member (some '-'))
    if ended then s.afterMember? (some '-') c else some { s with comment := true }
  else
    low.bind fun low =>
      if ended && c != '#' then s.rangeLast? low c
      else some { s.enter (.rangeLast low) with comment := true }

/-- Reads a code point at the start of a class: a caret, then hyphens or else a closing bracket as
members. -/
def classStart? (s : State) (caret hyphens : Bool) (c : Char) : Option State :=
  if c = '^' && !caret && !hyphens then
    some ((s.enter (.classStart true false)).mapClass fun b => { b with negated := true })
  else if c = '-' then some (s.addMember.enter (.classStart caret true))
  else if c = ']' && !hyphens then some (s.addMember.enter .members)
  else s.member? c

/-! ## Blanks and comments -/

/-- Skips a blank or starts a comment, if that is possible now; otherwise reads on by `f`. -/
def skipping? (s : State) (c : Char) (f : State → Option State) : Option State :=
  if s.mode.spaced && isBlank c then some s
  else if s.mode.spaced && c = '#' then some { s with comment := true }
  else f s

/-! ## Steps -/

/-- Reads a code point that is neither skipped nor in a comment. -/
def read? (s : State) (c : Char) : Option State :=
  match s.phase with
  | .item => s.item? c
  | .group => if c = '?' then some (s.enter .special) else (s.openGroup s.mode).item? c
  | .special =>
    if c = '<' then some (s.enter (.name []))
    else if c = 'P' then some (s.enter .specialName)
    else s.flag? [] c
  | .specialName => if c = '<' then some (s.enter (.name [])) else none
  | .name read => s.name? read c
  | .flags read => s.flag? read c
  | .escape place => s.escape? place c
  | .hex place digits =>
    if c = '{' then some (s.enter (.hexBraces place none))
    else (hexadecimal? c).map fun d => s.enter (.hexDigits place digits (digits - 1) d)
  | .hexDigits place digits left value =>
    (hexadecimal? c).bind fun d =>
      if left ≤ 1 then s.putHex? place (digits = 2) (16 * value + d)
      else some (s.enter (.hexDigits place digits (left - 1) (16 * value + d)))
  | .hexBraces place value =>
    if c = '}' then value.bind fun v => s.putHex? place false v
    else (hexadecimal? c).map fun d => s.enter (.hexBraces place (some (16 * value.getD 0 + d)))
  | .property place =>
    if c = '{' then some (s.enter (.propertyName place []))
    else if Property.knownName [c] then s.put? place .set
    else none
  | .propertyName place read =>
    if c = '}' then if Property.known read then s.put? place .set else none
    else some (s.enter (.propertyName place (read ++ [c])))
  | .boundary =>
    if c = '{' then some (s.enter .boundaryBrace)
    else (s.enter .item).skipping? c fun s => s.item? c
  | .boundaryBrace =>
    if c.isAlpha || c = '-' then some (s.enter (.boundaryName [c])) else s.count? .start c
  | .boundaryName read =>
    if c.isAlpha || c = '-' then some (s.enter (.boundaryName (read ++ [c])))
    else if c = '}' && boundaryWords.any (fun w => w.toList == read) then some (s.enter .item)
    else none
  | .count k => s.count? k c
  | .repeated _ =>
    if c = '?' then some (s.enter .item) else (s.enter .item).skipping? c fun s => s.item? c
  | .classStart caret hyphens => s.classStart? caret hyphens c
  | .members => s.member? c
  | .operator o =>
    if c = o then some s.operate
    else (s.addMember.enter (.member (some o))).skipping? c fun s => s.afterMember? (some o) c
  | .member low => s.afterMember? low c
  | .range low =>
    if c = '-' then some s.operate
    else if s.mode.spaced && isBlank c then some (s.enter (.rangeGap low))
    else if s.mode.spaced && c = '#' then some (s.enter (.rangeComment low false))
    else s.range? low c
  | .rangeGap low =>
    if isBlank c then some s
    else if c = '#' then some (s.enter (.rangeComment low false))
    else if c = '-' then some (s.addMember.enter (.range (some '-')))
    else s.range? low c
  | .rangeComment low ended => s.rangeComment? low ended c
  | .rangeLast low => s.rangeLast? low c

/-- Reads a code point. -/
def step? (s : State) (c : Char) : Option State :=
  let s := s.mapClass fun b => { b with source := b.source ++ [c] }
  if s.comment then some { s with comment := c != '\n' }
  else if s.phase.skips then s.skipping? c fun s => s.read? c
  else s.read? c

/-- Reads a text. -/
def steps? (s : State) (t : Text) : Option State := t.foldlM step? s

@[simp] theorem steps?_nil (s : State) : s.steps? [] = some s := rfl

@[simp] theorem steps?_cons (s : State) (c : Char) (t : Text) :
    s.steps? (c :: t) = (s.step? c).bind fun s => s.steps? t := rfl

/-- A text put together from two is read in turn. -/
theorem steps?_append (s : State) (t u : Text) :
    s.steps? (t ++ u) = (s.steps? t).bind fun s => s.steps? u := by
  simp [steps?, List.foldlM_append]

end State

/-- Whether a text is a regular expression. -/
def accepts (t : Text) : Bool := (State.steps? {} t).any State.isFinal

end ComponentPattern.Regular
