/-
# Group bodies

A group is `(`, a body and `)`. Its body is ASCII, does not start with `?`, keeps its
parentheses balanced, and opens no group of its own without a `?` right behind the parenthesis.
A backslash takes the next code point with it.
-/
import ComponentPattern.Text.Basic

namespace ComponentPattern

/-- Why the text behind a `(` is not the body of a group. -/
inductive GroupDefect where
  | nonAscii
  | leadingQuestion
  | capturing
  | unterminated
  | unterminatedEscape
deriving DecidableEq, Repr

namespace GroupDefect

/-- The word for a defect in data. -/
def label : GroupDefect → String
  | nonAscii => "non-ascii"
  | leadingQuestion => "leading-question-mark"
  | capturing => "nested-group-not-non-capturing"
  | unterminated => "unterminated"
  | unterminatedEscape => "unterminated-escape"

/-- The wording of a defect, to stand behind the words for the group. -/
def message : GroupDefect → String
  | nonAscii => "contains a non-ASCII code point"
  | leadingQuestion => "starts with '?'"
  | capturing => "opens a nested group not followed by '?'"
  | unterminated => "is missing its closing ')'"
  | unterminatedEscape => "ends with a lone '\\'"

end GroupDefect

/-- Puts `u` in front of the body that was read. -/
def Group.prepend (u : Text) (r : Text × Text) : Text × Text := (u ++ r.1, r.2)

/-- Reads a body up to the `)` that closes it, with `depth` groups open inside it: the body and what
follows the `)`. -/
def Group.body : Nat → Text → Except GroupDefect (Text × Text)
  | _, [] => .error .unterminated
  | depth, c :: t =>
    if isAscii c = false then .error .nonAscii
    else if c = '\\' then
      match t with
      | [] => .error .unterminatedEscape
      | d :: t' =>
        if isAscii d then (Group.body depth t').map (Group.prepend [c, d]) else .error .nonAscii
    else if c = ')' then
      match depth with
      | 0 => .ok ([], t)
      | depth + 1 => (Group.body depth t).map (Group.prepend [c])
    else if c = '(' then
      match t with
      | [] => .error .unterminated
      | d :: _ =>
        if d = '?' then (Group.body (depth + 1) t).map (Group.prepend [c]) else .error .capturing
    else (Group.body depth t).map (Group.prepend [c])

/-- Reads the text behind a `(`: the body and what follows the closing `)`. -/
def Group.scan : Text → Except GroupDefect (Text × Text)
  | '?' :: _ => .error .leadingQuestion
  | t => Group.body 0 t

/-! ## Nothing is lost -/

/-- A prepended reading comes from a reading of the shorter body. -/
theorem Group.eq_of_map_prepend {x : Except GroupDefect (Text × Text)} {v u r : Text}
    (h : x.map (Group.prepend v) = .ok (u, r)) : ∃ u', x = .ok (u', r) ∧ u = v ++ u' := by
  cases x with
  | error e => cases h
  | ok p => cases h; exact ⟨p.1, rfl, rfl⟩

/-- The body, the `)` and the rest are the text that was read. -/
theorem Group.eq_append_of_body {depth : Nat} {t u r : Text}
    (h : Group.body depth t = .ok (u, r)) : t = u ++ ')' :: r := by
  fun_induction Group.body depth t generalizing u r with
  | case1 => cases h
  | case2 => cases h
  | case3 => cases h
  | case4 _ _ _ _ _ ih =>
    obtain ⟨u', hu, rfl⟩ := Group.eq_of_map_prepend h
    simp [ih hu]
  | case5 => cases h
  | case6 => cases h; rfl
  | case7 _ _ _ _ ih =>
    obtain ⟨u', hu, rfl⟩ := Group.eq_of_map_prepend h
    simp [ih hu]
  | case8 => cases h
  | case9 _ _ _ _ _ ih =>
    obtain ⟨u', hu, rfl⟩ := Group.eq_of_map_prepend h
    simp [ih hu]
  | case10 => cases h
  | case11 _ _ _ _ _ _ _ ih =>
    obtain ⟨u', hu, rfl⟩ := Group.eq_of_map_prepend h
    simp [ih hu]

/-- The body, the `)` and the rest are the text behind the `(`. -/
theorem Group.eq_append_of_scan {t u r : Text} (h : Group.scan t = .ok (u, r)) :
    t = u ++ ')' :: r := by
  unfold Group.scan at h
  split at h
  · cases h
  · exact Group.eq_append_of_body h

end ComponentPattern
