/-
# Expressions that pass their check

The check of an expression first converts it to the notation of regular expressions and then reads
the result. What the library writes by itself, that is without expressions of the pattern, passes
both: its classes `[^…]` hold at most one code point, its groups open no look-around, and it is not
nested deep.

`Regular.Passes t n` says that `t`, between complete items, is converted to items nested at most `n`
deep, whatever stands around it. It is proved for each way in which fragments are put together, and
so for all of them (`Part.passes_flatMap_expressed`). The statement about whole expressions is
`Expression.accepted_of_unchecked`.
-/
import ComponentPattern.Proofs.Conversion
import ComponentPattern.Proofs.Fragment

namespace ComponentPattern

namespace Regular

/-! ## Conversion -/

/-- In front of anything, `t` is converted to `u`. -/
def Converts (t u : Text) : Prop := ∀ r, ofRest? false (t ++ r) = (ofRest? false r).map (u ++ ·)

theorem converts_nil : Converts [] [] := by
  intro r
  simp

/-- Texts in a row are converted one after the other. -/
theorem Converts.append {a b u v : Text} (ha : Converts a u) (hb : Converts b v) :
    Converts (a ++ b) (u ++ v) := by
  intro r
  rw [List.append_assoc, ha, hb, Option.map_map]
  congr 1
  funext x
  simp

/-- What is converted in front of anything is converted alone. -/
theorem Converts.ofExpression?_eq {t u : Text} (h : Converts t u) : ofExpression? t = some u := by
  have hall := h []
  rw [List.append_nil] at hall
  rw [ofExpression?, hall]
  show some (u ++ []) = some u
  rw [List.append_nil]

/-- Any code point but these three stays as it is. -/
theorem converts_plain {c : Char} (h : c ∉ ['\\', '[', '(']) : Converts [c] [c] := by
  intro r
  have hc : c ≠ '\\' ∧ c ≠ '[' ∧ c ≠ '(' := by simpa using h
  rw [List.singleton_append, ofRest?_cons hc.1 hc.2.1]
  simp [hc.2.2]

/-- A code point behind a backslash stays as it is. -/
theorem converts_escape (c : Char) : Converts ['\\', c] ['\\', c] := by
  intro r
  simp [ofRest?]

/-- Parentheses stay where they open no look-around. -/
theorem Converts.parens {t u : Text} (h : Converts t u)
    (hlook : ∀ r, opensLookAround (t ++ [')'] ++ r) = false) :
    Converts (['('] ++ t ++ [')']) (['('] ++ u ++ [')']) := by
  intro r
  have hclose := h.append (converts_plain (c := ')') (by decide))
  rw [List.append_assoc, List.append_assoc, List.singleton_append, ← List.append_assoc t,
    ofRest?_cons (by decide) (by decide), hlook, Bool.false_and, hclose]
  simp [Function.comp_def]

/-- A group stays around what is converted in it. -/
theorem Converts.group {t u : Text} (h : Converts t u) :
    Converts (Fragment.group t) (Fragment.group u) := by
  have hasked : Converts ['?', ':'] ['?', ':'] :=
    (converts_plain (c := '?') (by decide)).append (converts_plain (c := ':') (by decide))
  exact (hasked.append h).parens fun r => rfl

/-- So does a capture, as long as no `?` follows its `(`. -/
theorem Converts.capture {t u : Text} (h : Converts t u) (hq : t.head? ≠ some '?') :
    Converts (Fragment.capture t) (Fragment.capture u) := by
  refine h.parens fun r => opensLookAround_of_head_ne ?_
  cases t with
  | nil => simp
  | cons c t => simpa using hq

/-- The class of the code points other than the given one: as it is, or as a group if there is
none. -/
def exceptSource : Option Char → Text
  | none => anyChar
  | some c => ['[', '^'] ++ Text.escaped [c] ++ [']']

/-- A class that leaves out the delimiter stays as it is; without a delimiter it becomes a group. -/
theorem converts_except (d : Option Char) :
    Converts (['[', '^'] ++ Text.escaped d.toList ++ [']']) (exceptSource d) := by
  intro r
  rcases d with - | c
  · simp [exceptSource, ofRest?]
  · rw [exceptSource, Option.toList_some, Text.escaped_cons, Text.escaped_nil, List.append_nil]
    split
    · simp [ofRest?, Option.map_map, Function.comp_def]
    · next h =>
      have hc : c ≠ '\\' ∧ c ≠ '[' ∧ c ≠ ']' := by
        refine ⟨?_, ?_, ?_⟩ <;> rintro rfl <;> exact h (by decide)
      show ofRest? false ('[' :: '^' :: c :: ']' :: r) = _
      rw [ofRest?_class (by simp [hc]), ofRest?_cons (by decide) (by decide),
        ofRest?_cons hc.1 hc.2.1, ofRest?_cons (by decide) (by decide)]
      simp [Option.map_map, Function.comp_def]

/-- Conversion puts no question mark in front. -/
theorem Converts.head_ne {t u : Text} (h : Converts t u) (hq : t.head? ≠ some '?') :
    u.head? ≠ some '?' := by
  have hu : ofRest? false t = some u := h.ofExpression?_eq
  intro hhead
  obtain ⟨v, rfl⟩ := List.head?_eq_some_iff.mp hhead
  obtain ⟨t', rfl, -⟩ := eq_cons_of_ofRest? hu (by decide)
  exact hq rfl

/-! ## Reading -/

/-- What stands in front of the next code point: something that can be repeated, a repetition, or
neither. -/
inductive Front where
  | item
  | repetition
  | nothing

namespace State

/-- The state between items, outside of classes and with no mode set. -/
def behind (front : Front) (b : Body) (groups : List (Mode × Body)) (names : List Text) :
    State where
  phase :=
    match front with
    | .repetition => .repeated false
    | _ => .item
  body := b
  groups := groups
  names := names
  repeatable :=
    match front with
    | .nothing => false
    | _ => true

variable {front : Front} {b : Body} {groups : List (Mode × Body)} {names : List Text} {c : Char}

/-- Only a question mark depends on what stands in front of it. -/
theorem step?_behind (h : c ≠ '?') : (behind front b groups names).step? c
    = ((behind front b groups names).enter .item).item? c := by
  cases front with
  | item => rfl
  | nothing => rfl
  | repetition =>
    show (if c = '?' then _ else _) = _
    rw [if_neg h]
    rfl

/-- A code point without a meaning of its own is an item. -/
theorem item?_of_not_mem {s : State} (h : c ∉ ['(', ')', '|', '[', '?', '*', '+', '{', '\\'])
    (hbytes : s.mode.bytes = false) : s.item? c = some (s.push 0) := by
  unfold item?
  split
  case h_10 => rw [hbytes]; rfl
  case h_11 => rfl
  all_goals exact absurd (by decide) h

/-- Behind a backslash, the symbols of expressions stand for themselves. -/
theorem escape?_of_mem {s : State} {place : Place} (h : c ∈ Text.expressionSymbols) :
    s.escape? place c = s.put? place (.literal c) := by
  simp only [Text.expressionSymbols, List.mem_cons, List.not_mem_nil, or_false] at h
  rcases h with rfl | rfl | rfl | rfl | rfl | rfl | rfl | rfl | rfl | rfl | rfl | rfl | rfl | rfl
    | rfl
  all_goals rfl

/-- A code point without a meaning of its own in classes is a member. -/
theorem member?_of_not_mem {s : State} (h : c ∉ ['[', ']', '&', '-', '~', '\\']) :
    s.member? c = s.put? .member (.literal c) := by
  unfold member?
  split
  case h_7 => rfl
  all_goals exact absurd (by decide) h

end State

open State

/-- Between items, `t` is read as further items, nested at most `n` deep. -/
def Reads (t : Text) (n : Nat) : Prop :=
  ∀ front b groups names, ∃ front' ms, (∀ m ∈ ms, m ≤ n) ∧ (behind front b groups names).steps? t
    = some (behind front' { b with items := ms ++ b.items } groups names)

/-- Between items, `t` is read as one item that can be repeated, nested at most `n` deep. -/
def ReadsItem (t : Text) (n : Nat) : Prop :=
  ∀ front b groups names, ∃ m ≤ n,
    (behind front b groups names).steps? t = some (behind .item (b.push m) groups names)

theorem reads_nil (n : Nat) : Reads [] n := fun front _ _ _ => ⟨front, [], nofun, rfl⟩

/-- A bound on the nesting can be raised. -/
theorem Reads.mono {t : Text} {n k : Nat} (h : Reads t n) (hle : n ≤ k) : Reads t k := by
  intro front b groups names
  obtain ⟨front', ms, hms, ht⟩ := h front b groups names
  exact ⟨front', ms, fun m hm => Nat.le_trans (hms m hm) hle, ht⟩

/-- What is read as one item is read as items. -/
theorem ReadsItem.reads {t : Text} {n : Nat} (h : ReadsItem t n) : Reads t n := by
  intro front b groups names
  obtain ⟨m, hm, ht⟩ := h front b groups names
  exact ⟨.item, [m], by simpa using hm, ht⟩

/-- Texts in a row are read as the items of both. -/
theorem Reads.append {t u : Text} {n : Nat} (ht : Reads t n) (hu : Reads u n) :
    Reads (t ++ u) n := by
  intro front b groups names
  obtain ⟨front₁, ms, hms, ht⟩ := ht front b groups names
  obtain ⟨front₂, ks, hks, hu⟩ := hu front₁ { b with items := ms ++ b.items } groups names
  refine ⟨front₂, ks ++ ms, ?_, ?_⟩
  · intro m hm
    rcases List.mem_append.mp hm with hm | hm
    · exact hks m hm
    · exact hms m hm
  · rw [steps?_append, ht, Option.bind_some, hu, List.append_assoc]

/-- A code point without a meaning of its own is an item. -/
theorem readsItem_plain {c : Char} (h : c ∉ ['(', ')', '|', '[', '?', '*', '+', '{', '\\']) :
    ReadsItem [c] 0 := by
  intro front b groups names
  have hq : c ≠ '?' := by
    rintro rfl
    exact h (by decide)
  refine ⟨0, Nat.le_refl 0, ?_⟩
  rw [steps?_cons, step?_behind hq, item?_of_not_mem h rfl]
  rfl

/-- So is a symbol of expressions behind a backslash. -/
theorem readsItem_escape {c : Char} (h : c ∈ Text.expressionSymbols) : ReadsItem ['\\', c] 0 := by
  intro front b groups names
  refine ⟨0, Nat.le_refl 0, ?_⟩
  rw [steps?_cons, step?_behind (by decide)]
  show (((behind front b groups names).enter (.escape .outside)).step? c).bind _ = _
  show (((behind front b groups names).enter (.escape .outside)).escape? .outside c).bind _ = _
  rw [escape?_of_mem h]
  rfl

/-- Things that stand side by side are nested one level deeper at most. -/
theorem nestingOf_le {ms : List Nat} {n : Nat} (h : ∀ m ∈ ms, m ≤ n) : nestingOf ms ≤ n + 1 := by
  have hmax : ms.foldr Nat.max 0 ≤ n := by
    induction ms with
    | nil => exact Nat.zero_le n
    | cons m ms ih =>
      obtain ⟨hm, hms⟩ := List.forall_mem_cons.mp h
      exact Nat.max_le.mpr ⟨hm, ih hms⟩
  unfold nestingOf
  split
  · omega
  · next m => exact Nat.le_succ_of_le (h m List.mem_cons_self)
  · omega

/-- A closing parenthesis makes an item of what has been read since the opening one. -/
theorem steps?_close (front : Front) (ms : List Nat) (b : Body) (groups : List (Mode × Body))
    (names : List Text) : (behind front ⟨ms, []⟩ (({}, b) :: groups) names).steps? [')']
      = some (behind .item (b.push (nestingOf ms + 1)) groups names) := by
  rw [steps?_cons, step?_behind (by decide)]
  rfl

/-- In a group, texts are read as outside. -/
theorem Reads.close {t : Text} {n : Nat} (h : Reads t n) (b : Body) (groups : List (Mode × Body))
    (names : List Text) : ∃ m ≤ n + 2,
      (behind .nothing {} (({}, b) :: groups) names).steps? (t ++ [')'])
        = some (behind .item (b.push m) groups names) := by
  obtain ⟨front, ms, hms, ht⟩ := h .nothing {} (({}, b) :: groups) names
  refine ⟨nestingOf ms + 1, Nat.succ_le_succ (nestingOf_le hms), ?_⟩
  rw [steps?_append, ht, Option.bind_some, List.append_nil, steps?_close]

/-- A group is an item, nested at most two levels deeper than what stands in it. -/
theorem Reads.group {t : Text} {n : Nat} (h : Reads t n) :
    ReadsItem (Fragment.group t) (n + 2) := by
  intro front b groups names
  have hopen : (behind front b groups names).steps? ['(', '?', ':']
      = some (behind .nothing {} (({}, b) :: groups) names) := by
    cases front <;> rfl
  rw [Fragment.group, List.append_assoc, steps?_append, hopen, Option.bind_some]
  exact h.close b groups names

/-- A single code point, whichever it is, is read as a group. -/
theorem readsItem_anyChar : ReadsItem anyChar 2 := by
  intro front b groups names
  have hopen : (behind front b groups names).steps? ['(', '?', 's', ':']
      = some (behind .nothing {} (({}, b) :: groups) names) := by
    cases front <;> rfl
  show ∃ m ≤ 2, (behind front b groups names).steps? (['(', '?', 's', ':'] ++ ['.'] ++ [')']) = _
  rw [List.append_assoc, steps?_append, hopen, Option.bind_some]
  exact (readsItem_plain (c := '.') (by decide)).reads.close b groups names

/-- Behind a `(` that no `?` follows, a group has begun. -/
theorem steps?_opened (front : Front) (b : Body) (groups : List (Mode × Body)) (names : List Text)
    {c : Char} (h : c ≠ '?') (t : Text) :
    (behind front b groups names).steps? ('(' :: c :: t)
      = (behind .nothing {} (({}, b) :: groups) names).steps? (c :: t) := by
  rw [steps?_cons, step?_behind (by decide)]
  show (((behind front b groups names).enter .group).step? c).bind _ = _
  rw [steps?_cons, step?_behind h]
  show (if c = '?' then _ else _ : Option State).bind _ = _
  rw [if_neg h]
  rfl

/-- A capture is nested as deep as a group, as long as no `?` follows its `(`. -/
theorem Reads.capture {t : Text} {n : Nat} (h : Reads t n) (hq : t.head? ≠ some '?') :
    ReadsItem (Fragment.capture t) (n + 2) := by
  intro front b groups names
  have hopen : (behind front b groups names).steps? ('(' :: (t ++ [')']))
      = (behind .nothing {} (({}, b) :: groups) names).steps? (t ++ [')']) := by
    cases t with
    | nil => exact steps?_opened front b groups names (by decide) []
    | cons c t => exact steps?_opened front b groups names (by simpa using hq) (t ++ [')'])
  show ∃ m ≤ n + 2, (behind front b groups names).steps? ('(' :: (t ++ [')'])) = _
  rw [hopen]
  exact h.close b groups names

/-- Behind an item, `q` is read as a repetition of it. -/
def Repeats (q : Text) : Prop :=
  ∀ b m groups names, ∃ front, (behind .item (Body.push b m) groups names).steps? q
    = some (behind front (b.push (m + 1)) groups names)

/-- A repetition is nested one level deeper than what it repeats. -/
theorem ReadsItem.repeated {t q : Text} {n : Nat} (h : ReadsItem t n) (hq : Repeats q) :
    Reads (t ++ q) (n + 1) := by
  intro front b groups names
  obtain ⟨m, hm, ht⟩ := h front b groups names
  obtain ⟨front', hq⟩ := hq b m groups names
  refine ⟨front', [m + 1], by simpa using hm, ?_⟩
  rw [steps?_append, ht, Option.bind_some, hq]
  rfl

/-- Behind `[^`, a code point that stands for itself, escaped where expressions ask for it, and a
closing bracket are read as the rest of a class. -/
theorem steps?_except (front : Front) (b : Body) (groups : List (Mode × Body)) (names : List Text)
    (c : Char) :
    { behind front b groups names with
      phase := .classStart true false
      classes := [{ negated := true, source := ['^'] }] : State }.steps? (Text.escaped [c] ++ [']'])
      = some (behind .item (b.push 1) groups names) := by
  rw [Text.escaped_cons, Text.escaped_nil, List.append_nil]
  split
  · next h =>
    show (State.escape? _ .member c).bind _ = _
    rw [escape?_of_mem h]
    rfl
  · next h =>
    have hc : c ≠ '\\' ∧ c ≠ '[' ∧ c ≠ ']' := by
      refine ⟨?_, ?_, ?_⟩ <;> rintro rfl <;> exact h (by decide)
    -- a hyphen at the start of a class, and the sign of an operator alone, are members as well
    by_cases hsign : c = '-' ∨ c = '&' ∨ c = '~'
    · rcases hsign with rfl | rfl | rfl <;> rfl
    · simp only [not_or] at hsign
      show (State.classStart? _ true false c).bind _ = _
      rw [classStart?, if_neg (by simp), if_neg hsign.1, if_neg (by simp [hc]),
        member?_of_not_mem (by simp [hc, hsign])]
      rfl

/-- The class without the delimiter is an item, whether it was changed or not. -/
theorem readsItem_except (d : Option Char) : ReadsItem (exceptSource d) 2 := by
  rcases d with - | c
  · exact readsItem_anyChar
  · intro front b groups names
    have hopen : (behind front b groups names).steps? ['[', '^']
        = some { behind front b groups names with
          phase := .classStart true false
          classes := [{ negated := true, source := ['^'] }] } := by
      cases front <;> rfl
    refine ⟨1, by decide, ?_⟩
    rw [exceptSource, List.append_assoc, steps?_append, hopen, Option.bind_some]
    exact steps?_except front b groups names c

/-- A whole text is accepted if it is read as items that are not nested too deep. -/
theorem Reads.accepts {t : Text} {n : Nat} (h : Reads t n) (hn : n < maxNesting) :
    accepts t = true := by
  obtain ⟨front, ms, hms, ht⟩ := h .nothing {} [] []
  have hnesting : nestingOf ms ≤ maxNesting := Nat.le_trans (nestingOf_le hms) hn
  have hfinal : (behind front ⟨ms, []⟩ [] []).isFinal = true := by
    have hsettled : (behind front ⟨ms, []⟩ [] []).isSettled = true := by
      cases front <;> rfl
    rw [isFinal, hsettled, Bool.true_and, decide_eq_true_eq]
    exact hnesting
  rw [List.append_nil] at ht
  show (State.steps? (behind .nothing {} [] []) t).any isFinal = true
  rw [ht]
  exact hfinal

/-! ## Passing -/

/-- Between items, `t` is converted to items that are nested at most `n` deep. -/
def Passes (t : Text) (n : Nat) : Prop := ∃ u, Converts t u ∧ Reads u n

/-- Between items, `t` is converted to one item that can be repeated, nested at most `n` deep. -/
def PassesItem (t : Text) (n : Nat) : Prop := ∃ u, Converts t u ∧ ReadsItem u n

variable {t u q : Text} {n k : Nat}

theorem passes_nil (n : Nat) : Passes [] n := ⟨[], converts_nil, reads_nil n⟩

/-- A bound on the nesting can be raised. -/
theorem Passes.mono (h : Passes t n) (hle : n ≤ k) : Passes t k := by
  obtain ⟨u, hu, hn⟩ := h
  exact ⟨u, hu, hn.mono hle⟩

/-- Texts that pass also pass in a row. -/
theorem Passes.append (ht : Passes t n) (hu : Passes u n) : Passes (t ++ u) n := by
  obtain ⟨v, hv, hn⟩ := ht
  obtain ⟨w, hw, hm⟩ := hu
  exact ⟨v ++ w, hv.append hw, hn.append hm⟩

/-- A text that passes does so in a group. -/
theorem Passes.group (h : Passes t n) : PassesItem (Fragment.group t) (n + 2) := by
  obtain ⟨u, hu, hn⟩ := h
  exact ⟨_, hu.group, hn.group⟩

/-- It does so in a capture, as long as no `?` follows the `(`. -/
theorem Passes.capture (h : Passes t n) (hq : t.head? ≠ some '?') :
    PassesItem (Fragment.capture t) (n + 2) := by
  obtain ⟨u, hu, hn⟩ := h
  exact ⟨_, hu.capture hq, hn.capture (hu.head_ne hq)⟩

theorem PassesItem.passes (h : PassesItem t n) : Passes t n := by
  obtain ⟨u, hu, hn⟩ := h
  exact ⟨u, hu, hn.reads⟩

/-- An item that passes may be repeated, by what conversion leaves alone. -/
theorem PassesItem.repeated (h : PassesItem t n) (hc : Converts q q) (hq : Repeats q) :
    Passes (t ++ q) (n + 1) := by
  obtain ⟨u, hu, hn⟩ := h
  exact ⟨u ++ q, hu.append hc, hn.repeated hq⟩

/-- A code point without a meaning of its own passes. -/
theorem passesItem_plain {c : Char} (h : c ∉ ['(', ')', '|', '[', '?', '*', '+', '{', '\\']) :
    PassesItem [c] 0 := by
  have hsub : ['\\', '[', '('] ⊆ ['(', ')', '|', '[', '?', '*', '+', '{', '\\'] := by decide
  exact ⟨[c], converts_plain fun hc => h (hsub hc), readsItem_plain h⟩

/-- An escaped text passes without any nesting. -/
theorem passes_escaped (t : Text) : Passes t.escaped 0 := by
  induction t with
  | nil => exact passes_nil 0
  | cons c t ih =>
    have hc : PassesItem (if c ∈ Text.expressionSymbols then ['\\', c] else [c]) 0 := by
      split
      · next h => exact ⟨_, converts_escape c, readsItem_escape h⟩
      · next h =>
        have hsub : ['(', ')', '|', '[', '?', '*', '+', '{', '\\'] ⊆ Text.expressionSymbols := by
          decide
        exact passesItem_plain fun hc => h (hsub hc)
    rw [Text.escaped_cons]
    exact hc.passes.append ih

/-- An item that passes may have a modifier. -/
theorem PassesItem.modified (h : PassesItem t n) (m : Modifier) : Passes (t ++ m.text) (n + 1) := by
  cases m with
  | once =>
    rw [Modifier.text, List.append_nil]
    exact h.passes.mono (Nat.le_succ n)
  | optional => exact h.repeated (converts_plain (by decide)) fun _ _ _ _ => ⟨.repetition, rfl⟩
  | zeroOrMore => exact h.repeated (converts_plain (by decide)) fun _ _ _ _ => ⟨.repetition, rfl⟩
  | oneOrMore => exact h.repeated (converts_plain (by decide)) fun _ _ _ _ => ⟨.repetition, rfl⟩

/-- Between `^` and `$`, a text that passes is a regular expression. -/
theorem Passes.anchored (h : Passes t n) (hn : n < maxNesting) :
    ∃ x, ofExpression? (['^'] ++ t ++ ['$']) = some x ∧ accepts x = true := by
  have hstart : Passes ['^'] n := (passesItem_plain (by decide)).passes.mono (Nat.zero_le n)
  have hend : Passes ['$'] n := (passesItem_plain (by decide)).passes.mono (Nat.zero_le n)
  obtain ⟨x, hx, hreads⟩ := (hstart.append h).append hend
  exact ⟨x, hx.ofExpression?_eq, hreads.accepts hn⟩

end Regular

/-! ## Fragments -/

namespace Fragment

open Regular

variable {before inner after : Text}

/-- A repetition is nested at most nine levels deeper than what it repeats. -/
theorem passesItem_repetition {n : Nat} (hb : Passes before n) (hi : Passes inner n)
    (ha : Passes after n) : PassesItem (repetition before inner after) (n + 9) := by
  have hinner : Passes (group inner) (n + 2) := hi.group.passes
  have hmore : Passes (group (after ++ before ++ group inner) ++ ['*']) (n + 5) := by
    have hdivided := ((ha.append hb).mono (Nat.le_add_right n 2)).append hinner
    exact hdivided.group.modified .zeroOrMore
  have hall : Passes (capture (group inner ++ group (after ++ before ++ group inner) ++ ['*']))
      (n + 7) := by
    rw [List.append_assoc]
    exact (((hinner.mono (by omega)).append hmore).capture (by simp [group])).passes
  have hle : n ≤ n + 7 := Nat.le_add_right n 7
  exact (((hb.mono hle).append hall).append (ha.mono hle)).group

/-- The fragment of a capture is nested at most ten levels deeper than what is captured. -/
theorem passes_ofCapture {n : Nat} (hi : Passes inner n) (hq : inner.head? ≠ some '?')
    (m : Modifier) (b a : Text) :
    Passes (ofCapture m b.escaped inner a.escaped) (n + 10) := by
  have hb := (passes_escaped b).mono (Nat.zero_le n)
  have ha := (passes_escaped a).mono (Nat.zero_le n)
  have hcapture : PassesItem (capture inner) (n + 2) := hi.capture hq
  by_cases hrepeats : m.repeats = true
  · have hrepetition := passesItem_repetition hb hi ha
    rw [ofCapture, if_pos hrepeats]
    split
    · exact hrepetition.modified .optional
    · rw [List.append_nil]
      exact hrepetition.passes.mono (by omega)
  · rw [ofCapture, if_neg hrepeats]
    split
    · exact (hcapture.modified m).mono (by omega)
    · have hle : n ≤ n + 2 := Nat.le_add_right n 2
      have hall := ((hb.mono hle).append hcapture.passes).append (ha.mono hle)
      exact (hall.group.modified m).mono (by omega)

end Fragment

/-! ## Parts -/

namespace Part

open Regular

/-- The expression of segments passes. -/
theorem passes_segmentSource {o : Options} {segment : Text} (hs : o.segmentSource = .ok segment) :
    Passes segment 3 := by
  obtain ⟨-, rfl⟩ := Options.segmentSource_eq_ok_iff.mp hs
  have hclass : PassesItem (['[', '^'] ++ Text.escaped o.delimiter.toList ++ [']']) 2 :=
    ⟨_, converts_except o.delimiter, readsItem_except o.delimiter⟩
  have hlazy : Converts ['+', '?'] ['+', '?'] :=
    (converts_plain (c := '+') (by decide)).append (converts_plain (c := '?') (by decide))
  have h := hclass.repeated hlazy fun _ _ _ _ => ⟨.item, rfl⟩
  rwa [List.append_assoc] at h

theorem passes_wildcardSource : Passes wildcardSource 1 :=
  (passesItem_plain (c := '.') (by decide)).modified .zeroOrMore

/-- The fragment of a part passes. -/
theorem passes_expressed {o : Options} {segment : Text} (hs : o.segmentSource = .ok segment)
    {p : Part} (hp : p.kind ≠ .expression) : Passes (p.expressed segment) 13 := by
  rw [expressed]
  split
  · split
    · exact (passes_escaped p.value).mono (by omega)
    · exact ((passes_escaped p.value).group.modified p.modifier).mono (by omega)
  · next hfixed =>
    have hinner : Passes (p.source segment) 3 := by
      rw [source]
      cases hk : p.kind with
      | fixed => exact absurd (by rw [isFixed, hk]; rfl) hfixed
      | segment => exact passes_segmentSource hs
      | wildcard => exact passes_wildcardSource.mono (by omega)
      | expression => exact absurd hk hp
    have hq := head?_source_ne hs hfixed hp
    exact Fragment.passes_ofCapture hinner hq p.modifier p.before p.after

/-- The fragments of parts pass one after the other. -/
theorem passes_flatMap_expressed {o : Options} {segment : Text} (hs : o.segmentSource = .ok segment)
    {ps : List Part} (hps : ∀ p ∈ ps, p.kind ≠ .expression) :
    Passes (ps.flatMap (expressed segment)) 13 := by
  induction ps with
  | nil => exact passes_nil 13
  | cons p ps ih =>
    obtain ⟨hp, hps⟩ := List.forall_mem_cons.mp hps
    rw [List.flatMap_cons]
    exact (passes_expressed hs hp).append (ih hps)

end Part

/-! ## Expressions -/

namespace Expression

/-- An expression that passes its check leaves no trace of it. -/
theorem ofParts_of_check {o : Options} {ps : List Part} {e : Expression} (h : build o ps = .ok e)
    (hcheck : e.check = pure ()) : ofParts o ps = Run.within (.expression ps.length) (pure e) := by
  rw [ofParts, h]
  show Run.within _ (if o.checked = true then e.check >>= fun _ => pure e else pure e) = _
  rw [hcheck]
  show Run.within _ (if o.checked = true then pure e else pure e) = _
  rw [ite_self]

/-- **What the library writes by itself passes its check.** The expression of parts without
expressions of their own is converted, which look-around would prevent, the result is a regular
expression, and so the check changes nothing and reports nothing. -/
theorem accepted_of_unchecked {o : Options} {ps : List Part} {e : Expression}
    (hps : ∀ p ∈ ps, p.kind ≠ .expression)
    (h : (ofParts { o with checked := false } ps).outcome = .ok e) :
    (∃ x, Regular.ofExpression? e.source = some x ∧ Regular.accepts x = true)
      ∧ (ofParts { o with checked := true } ps).outcome = .ok e
      ∧ (ofParts { o with checked := true } ps).events = [] := by
  have hbuild : build { o with checked := true } ps = .ok e :=
    build_of_ofParts (o := { o with checked := false }) h
  obtain ⟨-, segment, hs, rfl⟩ := build_eq_ok_iff.mp hbuild
  obtain ⟨x, hx, haccepts⟩ := (Part.passes_flatMap_expressed hs hps).anchored (by decide)
  have hcheck : (expressed segment ps).check = pure () := by
    rw [check, expressed, hx]
    show (if Regular.accepts x = true then _ else _) = _
    rw [if_pos haccepts]
  rw [ofParts_of_check hbuild hcheck, Run.events_within]
  exact ⟨⟨x, hx, haccepts⟩, rfl, rfl⟩

/-- Without a delimiter a segment is made of all code points, and its class is no class of regular
expressions; the expression passes all the same. -/
theorem accepted_of_unchecked_anyChar :
    (ofParts { checked := false }
        [Part.fixed [']'] .optional,
          Part.capture .segment [] .zeroOrMore (.custom ['x']) ['('] ['-']]).outcome
      = .ok ⟨"^(?:\\])?(?:\\(((?:[^]+?)(?:-\\((?:[^]+?))*)-)?$".toList, [.custom ['x']]⟩
    ∧ (ofParts { checked := true }
        [Part.fixed [']'] .optional,
          Part.capture .segment [] .zeroOrMore (.custom ['x']) ['('] ['-']]).outcome
      = .ok ⟨"^(?:\\])?(?:\\(((?:[^]+?)(?:-\\((?:[^]+?))*)-)?$".toList, [.custom ['x']]⟩ := by
  have h : (ofParts { checked := false }
      [Part.fixed [']'] .optional,
        Part.capture .segment [] .zeroOrMore (.custom ['x']) ['('] ['-']]).outcome
      = .ok ⟨"^(?:\\])?(?:\\(((?:[^]+?)(?:-\\((?:[^]+?))*)-)?$".toList, [.custom ['x']]⟩ := by
    rfl
  exact ⟨h, (accepted_of_unchecked (o := {}) (by decide) h).2.1⟩

end Expression

end ComponentPattern
