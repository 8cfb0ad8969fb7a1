/-
# Regular expressions: notation and meaning

The regular expressions of ECMAScript, over code points and without flags that change `^`, `$` or
`.`: their notation (`Regexp.read?`) and what they match (`Regexp.IsMatch`). Back references,
classes with a name, counted repetitions, look-around and named groups are left out; a text with
one of them is not read.

`Regexp.Spells t L` says that `t` may stand anywhere between complete pieces of an expression, and
matches there the texts of the language `L`. A text between `^` and `$` then matches just these
texts (`Spells.isMatch_anchored`).
-/
import Mathlib.Computability.Language
import ComponentPattern.Proofs.Fragment

open scoped Computability

namespace ComponentPattern

/-- A regular expression. -/
inductive Regexp where
  | empty
  | char (c : Char)
  | any
  /-- A code point in one of the ranges, or in none of them. -/
  | oneOf (negated : Bool) (ranges : List (Char × Char))
  | atStart
  | atEnd
  | group (captures : Bool) (r : Regexp)
  | seq (r s : Regexp)
  | alt (r s : Regexp)
  | rep (least : Nat) (most : Option Nat) (isLazy : Bool) (r : Regexp)
deriving Repr

namespace Regexp

/-! ## What an expression matches -/

/-- The code points that `.` does not match: LF, CR, U+2028 and U+2029. -/
def lineTerminators : List Char := ['\n', '\r', '\u2028', '\u2029']

/-- A text cut into pieces that match, at least `least` and at most `most` of them. Once there are
enough, no further piece is empty. -/
inductive Iterates (P : Text → Text → Text → Prop) :
    Nat → Option Nat → Text → Text → Text → Prop where
  | done {most : Option Nat} {l t : Text} : Iterates P 0 most l [] t
  | must {n : Nat} {most : Option Nat} {l u v t : Text} (hmost : most ≠ some 0)
      (hu : P l u (v ++ t)) (hv : Iterates P n (most.map (· - 1)) (l ++ u) v t) :
      Iterates P (n + 1) most l (u ++ v) t
  | more {most : Option Nat} {l u v t : Text} (hmost : most ≠ some 0) (hne : u ≠ [])
      (hu : P l u (v ++ t)) (hv : Iterates P 0 (most.map (· - 1)) (l ++ u) v t) :
      Iterates P 0 most l (u ++ v) t

/-- The expression matches `u` where it stands between `l` and `t`. -/
def Matches : Regexp → Text → Text → Text → Prop
  | empty, _, u, _ => u = []
  | char c, _, u, _ => u = [c]
  | any, _, u, _ => ∃ c, u = [c] ∧ c ∉ lineTerminators
  | oneOf negated ranges, _, u, _ =>
    ∃ c, u = [c] ∧ (ranges.any fun r => r.1 ≤ c && c ≤ r.2) = !negated
  | atStart, l, u, _ => l = [] ∧ u = []
  | atEnd, _, u, t => u = [] ∧ t = []
  | group _ r, l, u, t => r.Matches l u t
  | seq r s, l, u, t => ∃ v w, u = v ++ w ∧ r.Matches l v (w ++ t) ∧ s.Matches (l ++ v) w t
  | alt r s, l, u, t => r.Matches l u t ∨ s.Matches l u t
  | rep least most _ r, l, u, t => Iterates r.Matches least most l u t

/-- The expression matches somewhere in `w`. -/
def IsMatch (r : Regexp) (w : Text) : Prop :=
  ∃ l u t, w = l ++ u ++ t ∧ r.Matches l u t

/-! ## Notation -/

/-- The code points that stand for themselves only behind a backslash. -/
def symbols : List Char := ['^', '$', '\\', '.', '*', '+', '?', '(', ')', '[', ']', '{', '}', '|']

/-- Pieces in a row, the latest first. -/
def ofPieces : List Regexp → Regexp
  | [] => empty
  | r :: rs => seq (ofPieces rs) r

/-- What has been read of a group, or of the whole expression. -/
structure Level where
  captures : Bool := false
  /-- The alternatives before the one under way, the latest first. -/
  alternatives : List Regexp := []
  /-- The pieces of the alternative under way, the latest first. -/
  pieces : List Regexp := []

/-- The expression of all that has been read. -/
def Level.regexp (k : Level) : Regexp :=
  k.alternatives.foldl (fun r a => alt a r) (ofPieces k.pieces)

/-- More pieces, the latest first. -/
def Level.push (k : Level) (rs : List Regexp) : Level := { k with pieces := rs ++ k.pieces }

/-- What a class may go on with: a code point that may begin a range, or the end of a range. -/
inductive Pending where
  | nothing
  | first (c : Char)
  | range (c : Char)

/-- What has been read of a class. -/
structure Class where
  negated : Bool := false
  ranges : List (Char × Char) := []
  pending : Pending := .nothing

namespace Class

/-- Adds a code point that stands for itself. -/
def put (k : Class) (c : Char) : Option Class :=
  match k.pending with
  | .nothing => some { k with pending := .first c }
  | .first a => some { k with ranges := (a, a) :: k.ranges, pending := .first c }
  | .range a =>
    if a ≤ c then some { k with ranges := (a, c) :: k.ranges, pending := .nothing } else none

/-- Adds a hyphen: behind a code point it makes a range. -/
def hyphen (k : Class) : Option Class :=
  match k.pending with
  | .first a => some { k with pending := .range a }
  | _ => k.put '-'

/-- The class as an expression. -/
def regexp (k : Class) : Regexp :=
  match k.pending with
  | .nothing => oneOf k.negated k.ranges
  | .first a => oneOf k.negated ((a, a) :: k.ranges)
  | .range a => oneOf k.negated ((a, a) :: ('-', '-') :: k.ranges)

end Class

/-- What stands in front of the next code point: something that can be repeated, a repetition that
`?` makes lazy, or neither. -/
inductive Front where
  | piece
  | repetition
  | nothing

/-- In the middle of what the reader is. -/
inductive Mode where
  | ready (front : Front)
  | escaped
  | opened
  | asked
  | classOpened
  | inClass (k : Class)
  | inClassEscaped (k : Class)

/-- The state of a reader: the groups around the innermost open one, this one, and the mode. -/
structure Reader where
  outer : List Level := []
  level : Level := {}
  mode : Mode := .ready .nothing

namespace Reader

/-- Adds a complete piece. -/
def add (s : Reader) (r : Regexp) (front : Front) : Reader :=
  { s with level := s.level.push [r], mode := .ready front }

/-- Repeats the piece in front. -/
def repeated (s : Reader) (least : Nat) (most : Option Nat) : Front → Option Reader
  | .piece =>
    match s.level.pieces with
    | r :: rs => some { s with
        level := { s.level with pieces := rep least most false r :: rs }
        mode := .ready .repetition }
    | [] => none
  | _ => none

/-- Makes the repetition in front lazy. -/
def lazily (s : Reader) : Option Reader :=
  match s.level.pieces with
  | rep least most _ r :: rs => some { s with
      level := { s.level with pieces := rep least most true r :: rs }
      mode := .ready .nothing }
  | _ => none

/-- Opens a group. -/
def enter (s : Reader) (captures : Bool) : Reader where
  outer := s.level :: s.outer
  level := { captures := captures }

/-- Closes the innermost group. -/
def leave (s : Reader) : Option Reader :=
  match s.outer with
  | k :: ks => some (add ⟨ks, k, .ready .nothing⟩ (group s.level.captures s.level.regexp) .piece)
  | [] => none

/-- Begins the next alternative. -/
def choose (s : Reader) : Reader :=
  { s with
    level := { s.level with
      alternatives := ofPieces s.level.pieces :: s.level.alternatives, pieces := [] }
    mode := .ready .nothing }

/-- Reads a code point behind complete pieces. -/
def stepReady (s : Reader) (front : Front) (c : Char) : Option Reader :=
  match c with
  | '\\' => some { s with mode := .escaped }
  | '(' => some { s with mode := .opened }
  | ')' => s.leave
  | '[' => some { s with mode := .classOpened }
  | '|' => some s.choose
  | '^' => some (s.add .atStart .nothing)
  | '$' => some (s.add .atEnd .nothing)
  | '.' => some (s.add .any .piece)
  | '*' => s.repeated 0 none front
  | '+' => s.repeated 1 none front
  | '?' =>
    match front with
    | .repetition => s.lazily
    | _ => s.repeated 0 (some 1) front
  | c => if c ∈ symbols then none else some (s.add (.char c) .piece)

/-- Reads a code point in a class. -/
def stepClass (s : Reader) (k : Class) (c : Char) : Option Reader :=
  match c with
  | ']' => some (s.add k.regexp .piece)
  | '\\' => some { s with mode := .inClassEscaped k }
  | '-' => k.hyphen.map fun k => { s with mode := .inClass k }
  | c => (k.put c).map fun k => { s with mode := .inClass k }

/-- Reads one code point. -/
def step (s : Reader) (c : Char) : Option Reader :=
  match s.mode with
  | .ready front => s.stepReady front c
  | .escaped => if c ∈ '/' :: symbols then some (s.add (.char c) .piece) else none
  | .opened =>
    if c = '?' then some { s with mode := .asked } else (s.enter true).stepReady .nothing c
  | .asked => if c = ':' then some (s.enter false) else none
  | .classOpened =>
    if c = '^' then some { s with mode := .inClass { negated := true } } else s.stepClass {} c
  | .inClass k => s.stepClass k c
  | .inClassEscaped k =>
    if c ∈ '-' :: '/' :: symbols then (k.put c).map fun k => { s with mode := .inClass k } else none

/-- Reads code points in order. -/
def run (s : Reader) (t : Text) : Option Reader := t.foldlM step s

/-- The expression that has been read, if it is complete. -/
def finish (s : Reader) : Option Regexp :=
  match s.outer, s.mode with
  | [], .ready _ => some s.level.regexp
  | _, _ => none

end Reader

/-- The expression that is written as `t`. -/
def read? (t : Text) : Option Regexp := (({} : Reader).run t).bind Reader.finish

example : read? "a|[^b-d]+?".toList
    = some (alt (seq empty (char 'a'))
      (seq empty (rep 1 none true (oneOf true [('b', 'd')])))) := rfl

example : read? "a**".toList = none := rfl

/-! ## Languages of expressions -/

/-- Wherever it stands, the expression matches the texts of `L`. -/
def Denotes (r : Regexp) (L : Language Char) : Prop := ∀ l u t, r.Matches l u t ↔ u ∈ L

/-- The texts of one code point for which `P` holds. -/
def oneChar (P : Char → Prop) : Language Char := {u | ∃ c, u = [c] ∧ P c}

theorem denotes_char (c : Char) : Denotes (char c) {[c]} := fun _ _ _ => Iff.rfl

theorem denotes_any : Denotes any (oneChar (· ∉ lineTerminators)) := fun _ _ _ => Iff.rfl

/-- A group matches what stands in it, captured or not. -/
theorem Denotes.group {r : Regexp} {L : Language Char} (h : Denotes r L) (captures : Bool) :
    Denotes (group captures r) L := h

section Iterates

variable {P : Text → Text → Text → Prop} {L : Language Char}

/-- A text cut into matching pieces is a product of their language. -/
theorem mem_of_iterates (hP : ∀ l u t, P l u t ↔ u ∈ L) {n : Nat} {most : Option Nat}
    {l u t : Text} (h : Iterates P n most l u t) : u ∈ L ^ n * L∗ := by
  induction h with
  | done => simp [Language.nil_mem_kstar]
  | must _ hu _ ih =>
    rw [pow_succ', mul_assoc]
    exact Language.append_mem_mul ((hP _ _ _).mp hu) ih
  | more _ _ hu _ ih =>
    have hle : L * L∗ ≤ L∗ := mul_kstar_le_kstar
    rw [pow_zero, one_mul] at ih ⊢
    exact hle (Language.append_mem_mul ((hP _ _ _).mp hu) ih)

/-- Every text of the star can be cut into pieces. -/
theorem iterates_of_mem_kstar (hP : ∀ l u t, P l u t ↔ u ∈ L) {u : Text} (h : u ∈ L∗)
    (l t : Text) : Iterates P 0 none l u t := by
  -- empty pieces add nothing to the text, and are not allowed once there are enough
  obtain ⟨us, rfl, hus⟩ := Language.mem_kstar_iff_exists_nonempty.mp h
  clear h
  induction us generalizing l with
  | nil => exact .done
  | cons u us ih =>
    obtain ⟨hu, hne⟩ := hus u List.mem_cons_self
    refine .more nofun hne ((hP _ _ _).mpr hu) (ih _ fun v hv => hus v (List.mem_cons_of_mem _ hv))

/-- `n` texts of the language and then any number can be cut into pieces, at least `n` of them. -/
theorem iterates_of_mem (hP : ∀ l u t, P l u t ↔ u ∈ L) {n : Nat} {u : Text}
    (h : u ∈ L ^ n * L∗) (l t : Text) : Iterates P n none l u t := by
  induction n generalizing l u with
  | zero =>
    rw [pow_zero, one_mul] at h
    exact iterates_of_mem_kstar hP h l t
  | succ n ih =>
    rw [pow_succ', mul_assoc, Language.mem_mul] at h
    obtain ⟨v, hv, w, hw, rfl⟩ := h
    exact .must nofun ((hP _ _ _).mpr hv) (ih hw _)

/-- At most once. -/
theorem iterates_one_iff (hP : ∀ l u t, P l u t ↔ u ∈ L) (l u t : Text) :
    Iterates P 0 (some 1) l u t ↔ u ∈ 1 + L := by
  constructor
  · intro h
    cases h with
    | done => exact .inl rfl
    | more _ _ hu hv =>
      cases hv with
      | done => rw [List.append_nil]; exact .inr ((hP _ _ _).mp hu)
      | more hmost => exact absurd rfl hmost
  · rintro (rfl | hu)
    · exact .done
    · by_cases hne : u = []
      · rw [hne]; exact .done
      · have honce : Iterates P 0 (some 1) l (u ++ []) t :=
          .more nofun hne ((hP l u ([] ++ t)).mpr hu) .done
        rwa [List.append_nil] at honce

end Iterates

/-- A repetition without an upper bound matches `n` texts and then any number, lazy or not. -/
theorem Denotes.rep {r : Regexp} {L : Language Char} (h : Denotes r L) (n : Nat) (isLazy : Bool) :
    Denotes (rep n none isLazy r) (L ^ n * L∗) :=
  fun l _ t => ⟨mem_of_iterates h, fun hu => iterates_of_mem h hu l t⟩

/-- An optional piece matches nothing or once. -/
theorem Denotes.repOne {r : Regexp} {L : Language Char} (h : Denotes r L) :
    Denotes (Regexp.rep 0 (some 1) false r) (1 + L) := iterates_one_iff h

/-- The negated class of the given code point, if any, matches any other one. -/
theorem denotes_except (d : Option Char) :
    Denotes (oneOf true (d.toList.map fun c => (c, c))) (oneChar (· ∉ d)) := by
  intro l u t
  have hd : ∀ c, ((d.toList.map fun a => (a, a)).any fun r => r.1 ≤ c && c ≤ r.2) = false
      ↔ c ∉ d := by
    intro c
    cases d with
    | none => simp
    | some a => grind
  simp only [Matches, Bool.not_true, hd]
  rfl

/-- Wherever they stand, the pieces in a row match the texts of `L`. -/
def Means (rs : List Regexp) (L : Language Char) : Prop :=
  ∀ ps l u t, (ofPieces (rs ++ ps)).Matches l u t ↔
    ∃ v w, u = v ++ w ∧ (ofPieces ps).Matches l v (w ++ t) ∧ w ∈ L

theorem means_nil : Means [] 1 := by
  intro ps l u t
  constructor
  · intro h
    exact ⟨u, [], (List.append_nil u).symm, h, rfl⟩
  · rintro ⟨v, w, rfl, h, rfl⟩
    simpa using h

/-- A single piece means what it denotes. -/
theorem Denotes.means {r : Regexp} {L : Language Char} (h : Denotes r L) : Means [r] L := by
  intro ps l u t
  constructor
  · rintro ⟨v, w, rfl, hv, hw⟩
    exact ⟨v, w, rfl, hv, (h _ _ _).mp hw⟩
  · rintro ⟨v, w, rfl, hv, hw⟩
    exact ⟨v, w, rfl, hv, (h _ _ _).mpr hw⟩

/-- Pieces one after the other match texts one after the other; the latest stand first. -/
theorem Means.append {xs ys : List Regexp} {K L : Language Char} (hx : Means xs K)
    (hy : Means ys L) : Means (ys ++ xs) (K * L) := by
  intro ps l u t
  rw [List.append_assoc, hy]
  constructor
  · rintro ⟨v, w, rfl, hv, hw⟩
    obtain ⟨v, v', rfl, hv, hv'⟩ := (hx ps l v (w ++ t)).mp hv
    refine ⟨v, v' ++ w, List.append_assoc .., ?_, Language.append_mem_mul hv' hw⟩
    rwa [List.append_assoc]
  · rintro ⟨v, x, rfl, hv, hx'⟩
    obtain ⟨v', hv', w, hw, rfl⟩ := Language.mem_mul.mp hx'
    refine ⟨v ++ v', w, (List.append_assoc ..).symm, (hx ps l _ _).mpr ⟨v, v', rfl, ?_, hv'⟩, hw⟩
    rwa [← List.append_assoc]

/-- The pieces of a whole expression match the texts they mean. -/
theorem Means.denotes {rs : List Regexp} {L : Language Char} (h : Means rs L) :
    Denotes (ofPieces rs) L := by
  intro l u t
  have hrs := h [] l u t
  rw [List.append_nil] at hrs
  rw [hrs]
  constructor
  · rintro ⟨v, w, rfl, rfl, hw⟩
    exact hw
  · intro hu
    exact ⟨[], u, rfl, rfl, hu⟩

/-! ## Reading -/

namespace Reader

@[simp] theorem run_nil (s : Reader) : s.run [] = some s := rfl

@[simp] theorem run_cons (s : Reader) (c : Char) (t : Text) :
    s.run (c :: t) = (s.step c).bind fun s' => s'.run t := rfl

/-- Two texts are read one after the other. -/
theorem run_append (s : Reader) (a b : Text) : s.run (a ++ b) = (s.run a).bind fun s' => s'.run b :=
  List.foldlM_append

/-- A code point without a meaning of its own is a piece. -/
theorem stepReady_of_not_mem {c : Char} (h : c ∉ symbols) (s : Reader) (front : Front) :
    s.stepReady front c = some (s.add (.char c) .piece) := by
  unfold stepReady
  split
  case h_12 => rw [if_neg h]
  all_goals exact absurd (by decide) h

end Reader

/-- Behind complete pieces, `t` is read as further pieces, the latest first. -/
def Reads (t : Text) (rs : List Regexp) : Prop :=
  ∀ outer k front, ∃ front', (⟨outer, k, .ready front⟩ : Reader).run t
    = some ⟨outer, k.push rs, .ready front'⟩

/-- Behind complete pieces, `t` is read as one piece that can be repeated. -/
def ReadsPiece (t : Text) (r : Regexp) : Prop :=
  ∀ outer k front, (⟨outer, k, .ready front⟩ : Reader).run t
    = some ⟨outer, k.push [r], .ready .piece⟩

theorem reads_nil : Reads [] [] := fun _ _ front => ⟨front, rfl⟩

/-- What can be repeated can also stand alone. -/
theorem ReadsPiece.reads {t : Text} {r : Regexp} (h : ReadsPiece t r) : Reads t [r] :=
  fun outer k front => ⟨.piece, h outer k front⟩

/-- Two texts that are read as pieces can be put together. -/
theorem Reads.append {a b : Text} {xs ys : List Regexp} (ha : Reads a xs) (hb : Reads b ys) :
    Reads (a ++ b) (ys ++ xs) := by
  intro outer k front
  obtain ⟨front, ha⟩ := ha outer k front
  obtain ⟨front, hb⟩ := hb outer (k.push xs) front
  refine ⟨front, ?_⟩
  rw [Reader.run_append, ha, Option.bind_some, hb]
  simp [Level.push]

/-- What is escaped are the symbols of expressions and the slash. -/
theorem mem_expressionSymbols_iff {c : Char} :
    c ∈ Text.expressionSymbols ↔ c ∈ '/' :: symbols := by
  constructor
  · exact fun h => (by decide : Text.expressionSymbols ⊆ '/' :: symbols) h
  · exact fun h => (by decide : '/' :: symbols ⊆ Text.expressionSymbols) h

/-- A code point without a meaning of its own is a piece. -/
theorem readsPiece_char {c : Char} (h : c ∉ symbols) : ReadsPiece [c] (char c) := by
  intro outer k front
  rw [Reader.run_cons]
  simp only [Reader.step, Reader.stepReady_of_not_mem h, Option.bind_some]
  rfl

/-- A symbol behind a backslash stands for itself. -/
theorem readsPiece_escaped {c : Char} (h : c ∈ '/' :: symbols) :
    ReadsPiece ['\\', c] (char c) := by
  intro outer k front
  simp only [Reader.run_cons, Reader.step, Reader.stepReady, Option.bind_some, if_pos h]
  rfl

theorem readsPiece_any : ReadsPiece ['.'] any := fun _ _ _ => rfl

/-- In a group, what has been read becomes one piece. -/
theorem Reads.group {t : Text} {rs : List Regexp} (h : Reads t rs) :
    ReadsPiece (Fragment.group t) (group false (ofPieces rs)) := by
  intro outer k front
  obtain ⟨front', ht⟩ := h (k :: outer) {} .nothing
  have hopen : (⟨outer, k, .ready front⟩ : Reader).run ['(', '?', ':']
    = some ⟨k :: outer, {}, .ready .nothing⟩ := rfl
  rw [Fragment.group, Reader.run_append, Reader.run_append, hopen, Option.bind_some, ht,
    Option.bind_some]
  simp [Reader.step, Reader.stepReady, Reader.leave, Reader.add, Level.push, Level.regexp]

/-- Behind a `(` that no `?` follows, a capturing group has begun. -/
theorem Reader.run_opened (outer : List Level) (k : Level) {c : Char} (hc : c ≠ '?') (t : Text) :
    (⟨outer, k, .opened⟩ : Reader).run (c :: t)
      = (⟨k :: outer, { captures := true }, .ready .nothing⟩ : Reader).run (c :: t) := by
  simp [Reader.step, Reader.enter, hc]

/-- In a capture, too, what has been read becomes one piece, as long as no `?` follows its `(`. -/
theorem Reads.capture {t : Text} {rs : List Regexp} (h : Reads t rs) (hq : t.head? ≠ some '?') :
    ReadsPiece (Fragment.capture t) (Regexp.group true (ofPieces rs)) := by
  intro outer k front
  obtain ⟨front', ht⟩ := h (k :: outer) { captures := true } .nothing
  have hopen : (⟨outer, k, .opened⟩ : Reader).run (t ++ [')'])
      = (⟨k :: outer, { captures := true }, .ready .nothing⟩ : Reader).run (t ++ [')']) := by
    cases t with
    | nil => exact Reader.run_opened outer k (by decide) _
    | cons c t => exact Reader.run_opened outer k (by simpa using hq) _
  calc (⟨outer, k, .ready front⟩ : Reader).run (Fragment.capture t)
      = (⟨outer, k, .opened⟩ : Reader).run (t ++ [')']) := rfl
    _ = some ⟨outer, k.push [Regexp.group true (ofPieces rs)], .ready .piece⟩ := by
        rw [hopen, Reader.run_append, ht, Option.bind_some]
        simp [Reader.step, Reader.stepReady, Reader.leave, Reader.add, Level.push, Level.regexp]

/-- Behind a piece, `q` is read as a repetition of it. -/
def Repeats (q : Text) (least : Nat) (most : Option Nat) (isLazy : Bool) : Prop :=
  ∀ outer k r, ∃ front, (⟨outer, Level.push k [r], .ready .piece⟩ : Reader).run q
    = some ⟨outer, k.push [rep least most isLazy r], .ready front⟩

/-- A piece and its repetition. -/
theorem ReadsPiece.append {t q : Text} {r : Regexp} {least : Nat} {most : Option Nat}
    {isLazy : Bool} (h : ReadsPiece t r) (hq : Repeats q least most isLazy) :
    Reads (t ++ q) [rep least most isLazy r] := by
  intro outer k front
  rw [Reader.run_append, h]
  exact hq outer k r

/-- The class of the code points other than the given one, if any. -/
theorem readsPiece_except (d : Option Char) :
    ReadsPiece (['[', '^'] ++ Text.escaped d.toList ++ [']'])
      (oneOf true (d.toList.map fun c => (c, c))) := by
  intro outer k front
  rcases d with - | c
  · rfl
  · have hopen : (⟨outer, k, .ready front⟩ : Reader).run ['[', '^']
      = some ⟨outer, k, .inClass { negated := true }⟩ := rfl
    have hin : (⟨outer, k, .inClass { negated := true }⟩ : Reader).run
        (Text.escaped [c])
          = some ⟨outer, k, .inClass { negated := true, pending := .first c }⟩ := by
      rw [Text.escaped_cons, Text.escaped_nil, List.append_nil]
      split
      · next h =>
        have hc : c ∈ '-' :: '/' :: symbols :=
          List.mem_cons_of_mem _ (mem_expressionSymbols_iff.mp h)
        simp [Reader.step, Reader.stepClass, Class.put, hc]
      · next h =>
        have hne : c ≠ ']' ∧ c ≠ '\\' := by
          constructor <;> rintro rfl <;> exact h (by decide)
        -- a hyphen in front of everything else in a class stands for itself
        by_cases hc : c = '-'
        · rw [hc]; rfl
        · simp [Reader.step, Reader.stepClass, Class.put, hne]
    rw [Reader.run_append, Reader.run_append, hopen, Option.bind_some, Option.toList_some, hin]
    rfl

/-! ## Spelling languages -/

/-- Behind complete pieces, `t` is read as pieces that match the texts of `L`. -/
def Spells (t : Text) (L : Language Char) : Prop := ∃ rs, Reads t rs ∧ Means rs L

/-- Behind complete pieces, `t` is read as one piece, which can be repeated and matches the texts of
`L`. -/
def SpellsPiece (t : Text) (L : Language Char) : Prop := ∃ r, ReadsPiece t r ∧ Denotes r L

theorem spells_nil : Spells [] 1 := ⟨[], reads_nil, means_nil⟩

/-- Texts in a row spell the product of their languages. -/
theorem Spells.append {a b : Text} {K L : Language Char} (ha : Spells a K) (hb : Spells b L) :
    Spells (a ++ b) (K * L) := by
  obtain ⟨xs, hxs, hK⟩ := ha
  obtain ⟨ys, hys, hL⟩ := hb
  exact ⟨ys ++ xs, hxs.append hys, hK.append hL⟩

/-- A group spells what stands in it, and can be repeated. -/
theorem Spells.group {t : Text} {L : Language Char} (h : Spells t L) :
    SpellsPiece (Fragment.group t) L := by
  obtain ⟨rs, hrs, hL⟩ := h
  exact ⟨_, hrs.group, hL.denotes.group false⟩

/-- So does a capture. -/
theorem Spells.capture {t : Text} {L : Language Char} (h : Spells t L) (hq : t.head? ≠ some '?') :
    SpellsPiece (Fragment.capture t) L := by
  obtain ⟨rs, hrs, hL⟩ := h
  exact ⟨_, hrs.capture hq, hL.denotes.group true⟩

namespace SpellsPiece

variable {t : Text} {L : Language Char}

/-- What can be repeated also spells without a repetition. -/
theorem spells (h : SpellsPiece t L) : Spells t L := by
  obtain ⟨r, hr, hL⟩ := h
  exact ⟨[r], hr.reads, hL.means⟩

/-- At least `n` times. -/
theorem repeated {q : Text} {n : Nat} {isLazy : Bool} (h : SpellsPiece t L)
    (hq : Repeats q n none isLazy) : Spells (t ++ q) (L ^ n * L∗) := by
  obtain ⟨r, hr, hL⟩ := h
  exact ⟨_, hr.append hq, (hL.rep n isLazy).means⟩

/-- Any number of times. -/
theorem star (h : SpellsPiece t L) : Spells (t ++ ['*']) L∗ := by
  have hq : Repeats ['*'] 0 none false := fun _ _ _ => ⟨.repetition, rfl⟩
  simpa using h.repeated hq

/-- At least once. -/
theorem plus (h : SpellsPiece t L) : Spells (t ++ ['+']) (L * L∗) := by
  have hq : Repeats ['+'] 1 none false := fun _ _ _ => ⟨.repetition, rfl⟩
  simpa using h.repeated hq

/-- At least once, lazily: the same texts. -/
theorem lazyPlus (h : SpellsPiece t L) : Spells (t ++ ['+', '?']) (L * L∗) := by
  have hq : Repeats ['+', '?'] 1 none true := fun _ _ _ => ⟨.nothing, rfl⟩
  simpa using h.repeated hq

/-- At most once. -/
theorem optional (h : SpellsPiece t L) : Spells (t ++ ['?']) (1 + L) := by
  have hq : Repeats ['?'] 0 (some 1) false := fun _ _ _ => ⟨.repetition, rfl⟩
  obtain ⟨r, hr, hL⟩ := h
  exact ⟨_, hr.append hq, hL.repOne.means⟩

end SpellsPiece

/-- An escaped text matches itself only. -/
theorem spells_escaped (t : Text) :
    Spells (Text.escaped t) {t} := by
  induction t with
  | nil => exact spells_nil
  | cons c t ih =>
    have hc : SpellsPiece (if c ∈ Text.expressionSymbols then ['\\', c] else [c]) {[c]} := by
      split
      · next h => exact ⟨_, readsPiece_escaped (mem_expressionSymbols_iff.mp h), denotes_char c⟩
      · next h =>
        have hc : c ∉ symbols := fun hc =>
          h (mem_expressionSymbols_iff.mpr (List.mem_cons_of_mem _ hc))
        exact ⟨_, readsPiece_char hc, denotes_char c⟩
    have hmul : ({[c]} : Language Char) * {t} = {c :: t} := by
      rw [Language.mul_def]
      exact Set.image2_singleton
    rw [Text.escaped_cons, ← hmul]
    exact hc.spells.append ih

/-- The dot spells the texts of one code point that ends no line. -/
theorem spellsPiece_any : SpellsPiece ['.'] (oneChar (· ∉ lineTerminators)) :=
  ⟨any, readsPiece_any, denotes_any⟩

/-- The class without the delimiter spells the texts of one other code point. -/
theorem spellsPiece_except (d : Option Char) :
    SpellsPiece (['[', '^'] ++ Text.escaped d.toList ++ [']'])
      (oneChar (· ∉ d)) :=
  ⟨_, readsPiece_except d, denotes_except d⟩

/-- Between `^` and `$`, a text matches what it spells, and only as a whole. -/
theorem Spells.isMatch_anchored {t : Text} {L : Language Char} (h : Spells t L) :
    ∃ r, read? (['^'] ++ t ++ ['$']) = some r ∧ ∀ w, r.IsMatch w ↔ w ∈ L := by
  obtain ⟨rs, hrs, hL⟩ := h
  obtain ⟨front, ht⟩ := hrs [] (({} : Level).push [atStart]) .nothing
  have hstart : ({} : Reader).run ['^']
      = some ⟨[], ({} : Level).push [atStart], .ready .nothing⟩ := rfl
  -- `^` leaves nothing to the left of the match, and `$` nothing to the right
  refine ⟨seq (ofPieces (rs ++ [atStart])) atEnd, ?_, fun w => ?_⟩
  · rw [read?, Reader.run_append, Reader.run_append, hstart, Option.bind_some, ht]
    rfl
  · constructor
    · rintro ⟨l, u, t, rfl, v, w, rfl, hv, rfl, rfl⟩
      obtain ⟨v, x, rfl, ⟨a, b, rfl, rfl, hl, rfl⟩, hx⟩ := (hL _ _ _ _).mp hv
      rw [List.append_nil] at hl
      simpa [hl] using hx
    · intro hw
      refine ⟨[], w, [], by simp, w, [], by simp, (hL _ _ _ _).mpr ⟨[], w, rfl, ?_, hw⟩, rfl, rfl⟩
      exact ⟨[], [], rfl, rfl, rfl, rfl⟩

end Regexp

end ComponentPattern
