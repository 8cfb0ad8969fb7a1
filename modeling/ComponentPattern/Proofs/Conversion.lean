/-
# What conversion changes

An expression falls, from left to right, into pieces: a backslash with the code point behind it, the
class `[^]` of all code points, any other class as a whole, and single code points. Conversion to
the notation of regular expressions writes `(?s:.)` for `[^]` and copies every other piece; it gives
up where a single `(` opens a look-around.

* `pieces` : the pieces of an expression, which are all of it (`flatMap_text_pieces`);
* `ofRest?_next` : what conversion does with one piece;
* `ofExpression?_eq_flatMap_converted` : what it does with all of them, and that it has nothing left
  to do in its own results.
-/
import ComponentPattern.Regular.Conversion

namespace ComponentPattern

namespace Regular

/-! ## One code point -/

/-- A code point that is a backslash neither at the end nor in front of another is none. -/
theorem ne_backslash {c : Char} {t : Text} (hlone : c = '\\' → t = [] → False)
    (hescape : ∀ d u, c = '\\' → t = d :: u → False) : c ≠ '\\' := by
  intro hc
  cases t with
  | nil => exact hlone hc rfl
  | cons d u => exact hescape d u hc rfl

/-- Any code point but a backslash and a `[` is copied, unless it opens a look-around. -/
theorem ofRest?_cons {c : Char} (h : c ≠ '\\') (h' : c ≠ '[') (q : Bool) (t : Text) :
    ofRest? q (c :: t) = if c = '(' && !q && opensLookAround t then none
      else (ofRest? (q && c != ']') t).map (c :: ·) := by
  rw [ofRest?] <;> simp [h, h']

/-- A class is read as one, unless it is that of all code points. -/
theorem ofRest?_class {t : Text} (h : ∀ r, t ≠ '^' :: ']' :: r) :
    ofRest? false ('[' :: t) = (ofRest? true t).map ('[' :: ·) := by
  rw [ofRest?]
  · rfl
  · exact h

/-- Without a `?` behind the parenthesis there is no look-around. -/
theorem opensLookAround_of_head_ne {t : Text} (h : t.head? ≠ some '?') :
    opensLookAround t = false := by
  unfold opensLookAround
  split
  case h_5 => rfl
  all_goals exact absurd rfl h

/-- What makes a `(` open a look-around. -/
def lookAroundOpeners : List Text := [['?', '='], ['?', '!'], ['?', '<', '='], ['?', '<', '!']]

/-- A look-around is what starts with one of the openers. -/
theorem opensLookAround_iff {t : Text} :
    opensLookAround t = true ↔ ∃ o ∈ lookAroundOpeners, o <+: t := by
  constructor
  · intro h
    unfold opensLookAround at h
    split at h
    · exact ⟨['?', '='], by decide, _, rfl⟩
    · exact ⟨['?', '!'], by decide, _, rfl⟩
    · exact ⟨['?', '<', '='], by decide, _, rfl⟩
    · exact ⟨['?', '<', '!'], by decide, _, rfl⟩
    · cases h
  · rintro ⟨o, ho, r, rfl⟩
    simp only [lookAroundOpeners, List.mem_cons, List.not_mem_nil, or_false] at ho
    rcases ho with rfl | rfl | rfl | rfl <;> rfl

/-! ## Pieces -/

/-- A piece of an expression. -/
inductive Piece where
  /-- A backslash and the code point behind it. -/
  | escape (c : Char)
  /-- A backslash with nothing behind it. -/
  | backslash
  /-- The class `[^]` of all code points. -/
  | anyClass
  /-- Any other class, with what follows its `[`. -/
  | bracket (t : Text)
  /-- Any other code point. -/
  | single (c : Char)
deriving DecidableEq, Repr

namespace Piece

/-- The text of a piece. -/
def text : Piece → Text
  | escape c => ['\\', c]
  | backslash => ['\\']
  | anyClass => ['[', '^', ']']
  | bracket t => '[' :: t
  | single c => [c]

/-- The text of a piece as a regular expression. -/
def converted : Piece → Text
  | anyClass => anyChar
  | p => p.text

/-- Takes the rest of a class off the front of a text: through the first `]` that is not behind a
backslash, or all of the text. -/
def takeClass : Text → Text × Text
  | [] => ([], [])
  | ['\\'] => (['\\'], [])
  | '\\' :: c :: t => ('\\' :: c :: (takeClass t).1, (takeClass t).2)
  | c :: t => if c = ']' then ([c], t) else (c :: (takeClass t).1, (takeClass t).2)

/-- Takes a piece off the front of a text. -/
def next : Char → Text → Piece × Text
  | '\\', [] => (backslash, [])
  | '\\', c :: t => (escape c, t)
  | '[', '^' :: ']' :: t => (anyClass, t)
  | '[', t => (bracket (takeClass t).1, (takeClass t).2)
  | c, t => (single c, t)

/-- Taking the rest of a class loses nothing. -/
theorem takeClass_append (t : Text) : (takeClass t).1 ++ (takeClass t).2 = t := by
  fun_induction takeClass t with
  | case1 => rfl
  | case2 => rfl
  | case3 c t ih => simp [ih]
  | case4 t => rfl
  | case5 c t _ _ _ ih => simp [ih]

/-- Taking a piece off loses nothing. -/
theorem text_next_append (c : Char) (t : Text) : (next c t).1.text ++ (next c t).2 = c :: t := by
  fun_cases next c t with
  | case4 t _ => simp [text, takeClass_append]
  | _ => simp [text]

theorem text_ne_nil (p : Piece) : p.text ≠ [] := by
  cases p <;> simp [text]

/-- What is left behind a piece is shorter. -/
theorem length_next (c : Char) (t : Text) : (next c t).2.length ≤ t.length := by
  have h := congrArg List.length (text_next_append c t)
  have hpos := List.length_pos_iff.mpr (text_ne_nil (next c t).1)
  simp only [List.length_append, List.length_cons] at h
  omega

end Piece

/-- The pieces of an expression. -/
def pieces : Text → List Piece
  | [] => []
  | c :: t => (Piece.next c t).1 :: pieces (Piece.next c t).2
termination_by t => t.length
decreasing_by
  have := Piece.length_next c t
  simp
  omega

/-- The pieces of an expression are all of it. -/
theorem flatMap_text_pieces (e : Text) : (pieces e).flatMap Piece.text = e := by
  fun_induction pieces e with
  | case1 => rfl
  | case2 c t ih => rw [List.flatMap_cons, ih, Piece.text_next_append]

/-- Whether one of the pieces is a `(` that opens a look-around. -/
def LooksAround (ps : List Piece) : Prop :=
  ∃ us vs, ps = us ++ .single '(' :: vs ∧ ∃ o ∈ lookAroundOpeners, o <+: vs.flatMap Piece.text

theorem not_looksAround_nil : ¬ LooksAround [] := by
  rintro ⟨us, vs, h, -⟩
  simp at h

/-- A look-around opens at the first piece or behind it. -/
theorem looksAround_cons_iff {p : Piece} {ps : List Piece} :
    LooksAround (p :: ps)
      ↔ (p = .single '(' ∧ ∃ o ∈ lookAroundOpeners, o <+: ps.flatMap Piece.text)
        ∨ LooksAround ps := by
  constructor
  · rintro ⟨us, vs, h, ho⟩
    rcases List.cons_eq_append_iff.mp h with ⟨-, heq⟩ | ⟨us', -, heq⟩
    · obtain ⟨rfl, rfl⟩ := List.cons.inj heq
      exact .inl ⟨rfl, ho⟩
    · exact .inr ⟨us', vs, heq, ho⟩
  · rintro (⟨rfl, ho⟩ | ⟨us, vs, rfl, ho⟩)
    · exact ⟨[], ps, rfl, ho⟩
    · exact ⟨p :: us, vs, rfl, ho⟩

/-! ## Conversion piece by piece -/

/-- Inside a class every code point is copied, and only `]` leads out. -/
theorem ofRest?_true_cons {c : Char} (h : c ≠ '\\') (t : Text) :
    ofRest? true (c :: t) = (ofRest? (c != ']') t).map (c :: ·) := by
  by_cases hopen : c = '['
  · subst hopen
    rw [ofRest?.eq_def]
    rfl
  · rw [ofRest?_cons h hopen]
    simp

/-- The rest of a class is copied, and what follows it is read from outside. -/
theorem ofRest?_takeClass (t : Text) :
    ofRest? true t
      = (ofRest? false (Piece.takeClass t).2).map ((Piece.takeClass t).1 ++ ·) := by
  fun_induction Piece.takeClass t with
  | case1 => rfl
  | case2 => rfl
  | case3 c t ih =>
    rw [ofRest?, ih, Option.map_map]
    rfl
  | case4 t => exact ofRest?_true_cons (by decide) t
  | case5 c t hlone hescape hclose ih =>
    have hc := ne_backslash hlone hescape
    have hstays : (c != ']') = true := by simpa using hclose
    rw [ofRest?_true_cons hc, hstays, ih, Option.map_map]
    rfl

/-- **One piece.** A `(` that opens a look-around ends conversion; any other piece is converted on
its own. -/
theorem ofRest?_next (c : Char) (t : Text) :
    ofRest? false (c :: t)
      = if (Piece.next c t).1 = .single '(' ∧ opensLookAround (Piece.next c t).2 then none
        else (ofRest? false (Piece.next c t).2).map ((Piece.next c t).1.converted ++ ·) := by
  fun_cases Piece.next c t with
  | case1 => rfl
  | case2 c t => simp [ofRest?, Piece.converted, Piece.text]
  | case3 t => simp [ofRest?, Piece.converted]
  | case4 t hany =>
    rw [ofRest?_class hany, ofRest?_takeClass, Option.map_map, if_neg (by simp)]
    rfl
  | case5 c t hlone hescape _ hbracket =>
    have hc := ne_backslash hlone hescape
    rw [ofRest?_cons hc hbracket]
    simp [Piece.converted, Piece.text]

/-- **All pieces.** Conversion fails on a look-around, and else puts the converted pieces
together. -/
theorem ofExpression?_cases (e : Text) :
    (LooksAround (pieces e) ∧ ofExpression? e = none)
      ∨ (¬ LooksAround (pieces e)
        ∧ ofExpression? e = some ((pieces e).flatMap Piece.converted)) := by
  unfold ofExpression?
  fun_induction pieces e with
  | case1 => exact .inr ⟨not_looksAround_nil, rfl⟩
  | case2 c t ih =>
    have hopens : opensLookAround (Piece.next c t).2 = true
        ↔ ∃ o ∈ lookAroundOpeners, o <+: (pieces (Piece.next c t).2).flatMap Piece.text := by
      rw [flatMap_text_pieces, opensLookAround_iff]
    rw [looksAround_cons_iff, ← hopens, ofRest?_next]
    by_cases hlook : (Piece.next c t).1 = .single '(' ∧ opensLookAround (Piece.next c t).2 = true
    · exact .inl ⟨.inl hlook, if_pos hlook⟩
    · rw [if_neg hlook]
      rcases ih with ⟨hrest, hnone⟩ | ⟨hrest, hsome⟩
      · exact .inl ⟨.inr hrest, by rw [hnone]; rfl⟩
      · exact .inr ⟨not_or.mpr ⟨hlook, hrest⟩, by rw [hsome]; rfl⟩

/-! ## Nothing is left to convert -/

/-- Code points other than backslashes, brackets and parentheses come from themselves. -/
theorem eq_cons_of_ofRest? {q : Bool} {t r : Text} {d : Char} (h : ofRest? q t = some (d :: r))
    (hd : d ∉ ['\\', '[', '(']) : ∃ t', t = d :: t' ∧ ofRest? (q && d != ']') t' = some r := by
  simp only [List.mem_cons, List.not_mem_nil, or_false, not_or] at hd
  fun_induction ofRest? q t with
  | case1 => cases h
  | case2 =>
    cases h
    exact absurd rfl hd.1
  | case3 q c t _ =>
    obtain ⟨_, -, heq⟩ := Option.map_eq_some_iff.mp h
    exact absurd (List.cons.inj heq).1.symm hd.1
  | case4 t _ =>
    obtain ⟨_, -, heq⟩ := Option.map_eq_some_iff.mp h
    exact absurd (List.cons.inj heq).1.symm hd.2.1
  | case5 q _ t _ =>
    obtain ⟨_, -, heq⟩ := Option.map_eq_some_iff.mp h
    exact absurd (List.cons.inj heq).1.symm hd.2.2
  | case6 q _ t _ _ =>
    obtain ⟨_, -, heq⟩ := Option.map_eq_some_iff.mp h
    exact absurd (List.cons.inj heq).1.symm hd.2.1
  | case7 => cases h
  | case8 q c t _ _ _ _ _ =>
    obtain ⟨_, hrest, heq⟩ := Option.map_eq_some_iff.mp h
    obtain ⟨rfl, rfl⟩ := List.cons.inj heq
    exact ⟨t, rfl, hrest⟩

/-- What starts the result, and is made of such code points, started the text. -/
theorem isPrefix_of_ofRest? {q : Bool} {o t r : Text} (h : ofRest? q t = some r)
    (ho : ∀ d ∈ o, d ∉ ['\\', '[', '(']) (hr : o <+: r) : o <+: t := by
  induction o generalizing q t r with
  | nil => exact List.nil_prefix
  | cons d o ih =>
    obtain ⟨hd, ho⟩ := List.forall_mem_cons.mp ho
    obtain ⟨r, rfl⟩ := hr
    obtain ⟨t, rfl, ht⟩ := eq_cons_of_ofRest? h hd
    exact List.cons_prefix_cons.mpr ⟨rfl, ih ht ho (List.prefix_append o r)⟩

/-- A look-around in the result was one before. -/
theorem opensLookAround_of_ofRest? {t r : Text} (h : ofRest? false t = some r)
    (hr : opensLookAround r = true) : opensLookAround t = true := by
  rw [opensLookAround_iff] at hr ⊢
  obtain ⟨o, ho, hprefix⟩ := hr
  refine ⟨o, ho, isPrefix_of_ofRest? h ?_ hprefix⟩
  simp only [lookAroundOpeners, List.mem_cons, List.not_mem_nil, or_false] at ho
  rcases ho with rfl | rfl | rfl | rfl <;> simp

/-- A result is converted to itself, from inside a class and from outside. -/
theorem ofRest?_of_ofRest? {q : Bool} {t r : Text} (h : ofRest? q t = some r) :
    ofRest? q r = some r := by
  fun_induction ofRest? q t generalizing r with
  | case1 => cases h; rfl
  | case2 => cases h; rfl
  | case3 q c t ih =>
    obtain ⟨r, hr, rfl⟩ := Option.map_eq_some_iff.mp h
    rw [ofRest?, ih hr]
    rfl
  | case4 t ih =>
    obtain ⟨r, hr, rfl⟩ := Option.map_eq_some_iff.mp h
    rw [ofRest?_true_cons (by decide)]
    show (ofRest? true r).map _ = _
    rw [ih hr]
    rfl
  | case5 q hq t ih =>
    obtain ⟨r, hr, rfl⟩ := Option.map_eq_some_iff.mp h
    obtain rfl : q = false := by simpa using hq
    simp [anyChar, ofRest?, opensLookAround, ih hr]
  | case6 q hq t hany ih =>
    obtain ⟨r, hr, rfl⟩ := Option.map_eq_some_iff.mp h
    obtain rfl : q = false := by simpa using hq
    -- the class would have started with `^]` before
    have hany' : ∀ u, r ≠ '^' :: ']' :: u := by
      rintro u rfl
      obtain ⟨v, rfl⟩ := isPrefix_of_ofRest? (o := ['^', ']']) hr (by simp) ⟨u, rfl⟩
      exact hany v rfl
    rw [ofRest?_class hany', ih hr]
    rfl
  | case7 => cases h
  | case8 q c t hlone hescape hbracket hlook ih =>
    obtain ⟨r, hr, rfl⟩ := Option.map_eq_some_iff.mp h
    have hlook' : ¬ (c = '(' && !q && opensLookAround r) = true := by
      simp only [Bool.and_eq_true, decide_eq_true_eq, Bool.not_eq_true'] at hlook ⊢
      rintro ⟨⟨hc, rfl⟩, hopens⟩
      exact hlook ⟨⟨hc, rfl⟩, opensLookAround_of_ofRest? hr hopens⟩
    rw [ofRest?_cons (ne_backslash hlone hescape) hbracket, if_neg hlook', ih hr]
    rfl

/-- **What conversion changes.** An expression is the text of its pieces. It has no regular
expression exactly if one of them is a `(` that opens a look-around. Otherwise its regular
expression is the text of the converted pieces, and that is its own regular expression. -/
theorem ofExpression?_eq_flatMap_converted (e : Text) :
    (pieces e).flatMap Piece.text = e
      ∧ (ofExpression? e = none ↔ LooksAround (pieces e))
      ∧ (¬ LooksAround (pieces e) → ofExpression? e = some ((pieces e).flatMap Piece.converted))
      ∧ ∀ x, ofExpression? e = some x → ofExpression? x = some x := by
  refine ⟨flatMap_text_pieces e, ?_, ?_, fun x => ofRest?_of_ofRest?⟩
  · rcases ofExpression?_cases e with ⟨hlook, hnone⟩ | ⟨hlook, hsome⟩
    · exact iff_of_true hnone hlook
    · exact iff_of_false (by simp [hsome]) hlook
  · intro hlook
    rcases ofExpression?_cases e with ⟨hlook', -⟩ | ⟨-, hsome⟩
    · exact absurd hlook' hlook
    · exact hsome

/-- Behind a backslash and inside a class, `[^]` is not the class of all code points. -/
example : pieces "\\[^][[^][^]](".toList
    = [.escape '[', .single '^', .single ']', .bracket ['[', '^', ']'], .anyClass, .single ']',
      .single '('] := by
  decide +kernel

end Regular

end ComponentPattern
