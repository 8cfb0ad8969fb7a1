/-
# The grammar of group bodies

What stands between the parentheses of a group is a row of escape pairs, of other code points
and of nested groups, all of it ASCII, where the content of a nested group starts with `?`.
`Group.Balanced` is that grammar, said apart from the function that reads a body.

The two directions are `body_append_of_balanced` (a balanced text is read through) and
`closes_of_body` (what is read is balanced); together they give `scan_eq_ok_iff`.
-/
import ComponentPattern.Token.Group

namespace ComponentPattern

namespace Group

/-! ## Balanced texts -/

/-- A row of escape pairs, of plain code points and of nested groups. -/
inductive Balanced : Text → Prop where
  | nil : Balanced []
  | escape {d : Char} {t : Text} (hd : isAscii d = true) (ht : Balanced t) :
      Balanced ('\\' :: d :: t)
  | plain {c : Char} {t : Text} (hc : isAscii c = true) (hs : c ≠ '\\' ∧ c ≠ '(' ∧ c ≠ ')')
      (ht : Balanced t) : Balanced (c :: t)
  | nested {u t : Text} (hu : Balanced ('?' :: u)) (ht : Balanced t) :
      Balanced ('(' :: ('?' :: u ++ ')' :: t))

/-- The body of a group: balanced, not empty, and not starting with `?`. -/
structure IsBody (u : Text) : Prop where
  ne_nil : u ≠ []
  head_ne : u.head? ≠ some '?'
  balanced : Balanced u

/-- Balanced texts in a row are balanced. -/
theorem Balanced.append {u v : Text} (hu : Balanced u) (hv : Balanced v) : Balanced (u ++ v) := by
  induction hu with
  | nil => exact hv
  | escape hd _ ih => exact .escape hd ih
  | plain hc hs _ ih => exact .plain hc hs ih
  | nested hu _ _ ih =>
    have h := Balanced.nested hu ih
    simp only [List.cons_append, List.append_assoc] at h ⊢
    exact h

/-! ## Reading through a balanced text -/

theorem map_prepend_nil (x : Except GroupDefect (Text × Text)) : x.map (prepend []) = x := by
  cases x <;> rfl

theorem map_prepend_prepend (x : Except GroupDefect (Text × Text)) (u v : Text) :
    (x.map (prepend u)).map (prepend v) = x.map (prepend (v ++ u)) := by
  cases x with
  | error e => rfl
  | ok p => simp [Except.map, prepend]

/-- An ASCII code point behind a backslash belongs to the body, whichever it is. -/
theorem body_escape {d : Char} (hd : isAscii d = true) (depth : Nat) (t : Text) :
    body depth ('\\' :: d :: t) = (body depth t).map (prepend ['\\', d]) := by
  rw [body.eq_def]
  simp only
  rw [if_neg (by decide), if_pos trivial, if_pos hd]

/-- Alone, any of them belongs to it but the backslash and the parentheses. -/
theorem body_plain {c : Char} (hc : isAscii c = true) (hs : c ≠ '\\' ∧ c ≠ '(' ∧ c ≠ ')')
    (depth : Nat) (t : Text) : body depth (c :: t) = (body depth t).map (prepend [c]) := by
  rw [body.eq_def]
  simp only
  rw [if_neg (by simp [hc]), if_neg hs.1, if_neg hs.2.2, if_neg hs.2.1]

/-- A `(` with a `?` behind it goes one level deeper. -/
theorem body_open (depth : Nat) (t : Text) :
    body depth ('(' :: '?' :: t) = (body (depth + 1) ('?' :: t)).map (prepend ['(']) := by
  rw [body.eq_def]
  simp only
  rw [if_neg (by decide), if_neg (by decide), if_neg (by decide), if_pos trivial, if_pos trivial]

/-- On the outermost level a `)` ends the body. -/
theorem body_close_zero (t : Text) : body 0 (')' :: t) = .ok ([], t) := by
  rw [body.eq_def]
  rfl

/-- On any other level it closes a nested group. -/
theorem body_close_succ (depth : Nat) (t : Text) :
    body (depth + 1) (')' :: t) = (body depth t).map (prepend [')']) := by
  rw [body.eq_def]
  rfl

/-- A balanced text is read through at any depth. -/
theorem body_append_of_balanced {u : Text} (hu : Balanced u) (depth : Nat) (r : Text) :
    body depth (u ++ r) = (body depth r).map (prepend u) := by
  induction hu generalizing depth r with
  | nil => rw [List.nil_append, map_prepend_nil]
  | escape hd _ ih =>
    rw [List.cons_append, List.cons_append, body_escape hd, ih, map_prepend_prepend]
    rfl
  | plain hc hs _ ih =>
    rw [List.cons_append, body_plain hc hs, ih, map_prepend_prepend]
    rfl
  | @nested u t _ _ ihu iht =>
    -- the nested group is read one level deeper, up to the `)` that comes back
    have hsplit : '(' :: ('?' :: u ++ ')' :: t) ++ r = '(' :: '?' :: (u ++ ')' :: (t ++ r)) := by
      simp
    have hinner := ihu (depth + 1) (')' :: (t ++ r))
    rw [List.cons_append] at hinner
    rw [hsplit, body_open, hinner, body_close_succ, iht]
    simp only [map_prepend_prepend]
    congr 2

/-! ## What is read is balanced -/

/-- What is read at a depth: balanced texts, one more than the depth, with a `)` between any two. -/
def Closes : Nat → Text → Prop
  | 0, u => Balanced u
  | depth + 1, u => ∃ v w, u = v ++ ')' :: w ∧ Balanced v ∧ Closes depth w

/-- A balanced text can be put in front. -/
theorem Closes.balanced_append {depth : Nat} {v u : Text} (hv : Balanced v)
    (hu : Closes depth u) : Closes depth (v ++ u) := by
  cases depth with
  | zero => exact hv.append hu
  | succ depth =>
    obtain ⟨w, z, rfl, hw, hz⟩ := hu
    exact ⟨v ++ w, z, by simp, hv.append hw, hz⟩

/-- Whatever is read as a body closes what was open. -/
theorem closes_of_body {depth : Nat} {t u r : Text} (h : body depth t = .ok (u, r)) :
    Closes depth u := by
  fun_induction body depth t generalizing u r with
  | case1 => cases h
  | case2 => cases h
  | case3 => cases h
  | case4 depth d t' hd _ ih =>
    obtain ⟨u', hu', rfl⟩ := eq_of_map_prepend h
    exact (ih hu').balanced_append (.escape hd .nil)
  | case5 => cases h
  | case6 =>
    cases h
    exact .nil
  | case7 t depth _ _ ih =>
    obtain ⟨u', hu', rfl⟩ := eq_of_map_prepend h
    exact ⟨[], u', rfl, .nil, ih hu'⟩
  | case8 => cases h
  | case9 depth t _ _ _ ih =>
    obtain ⟨u', hu', rfl⟩ := eq_of_map_prepend h
    have happ := eq_append_of_body hu'
    obtain ⟨v, w, rfl, hv, hw⟩ := ih hu'
    cases v with
    | nil => simp at happ
    | cons e v =>
      -- the code point behind the `(` is the `?` that was looked for
      have he : e = '?' := by
        simp only [List.cons_append, List.cons.injEq] at happ
        exact happ.1.symm
      subst he
      have hn := Closes.balanced_append (Balanced.nested hv .nil) hw
      simpa using hn
  | case10 => cases h
  | case11 depth c t hascii hb hc ho ih =>
    obtain ⟨u', hu', rfl⟩ := eq_of_map_prepend h
    have hplain : Balanced [c] := .plain (by simpa using hascii) ⟨hb, ho, hc⟩ .nil
    exact (ih hu').balanced_append hplain

/-! ## Groups -/

/-- **What is read behind a `(`** is a balanced text that does not start with `?`, up to a `)`. -/
theorem scan_eq_ok_iff {t u r : Text} :
    scan t = .ok (u, r) ↔ t = u ++ ')' :: r ∧ Balanced u ∧ u.head? ≠ some '?' := by
  constructor
  · intro h
    have happ := eq_append_of_scan h
    refine ⟨happ, ?_, ?_⟩
    · unfold scan at h
      split at h
      · cases h
      · exact closes_of_body h
    · intro hu
      cases u with
      | nil => cases hu
      | cons c u =>
        obtain rfl : c = '?' := Option.some.inj hu
        rw [happ] at h
        cases h
  · rintro ⟨rfl, hu, hne⟩
    have hbody : body 0 (u ++ ')' :: r) = .ok (u, r) := by
      rw [body_append_of_balanced hu, body_close_zero]
      simp [Except.map, prepend]
    unfold scan
    split
    · rename_i hq
      cases u with
      | nil => simp at hq
      | cons c u => simp_all
    · exact hbody

end Group

end ComponentPattern
