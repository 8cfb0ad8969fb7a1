/-
# Which parts have an expression

A part has a fragment exactly if it is `Part.IsExpressible`, and then it is `Part.expressed`. Of
parts the expression is these fragments in order, between `^` and `$`
(`Expression.build_eq_ok_iff`).
-/
import ComponentPattern.Expression.Basic
import ComponentPattern.Proofs.Draft

namespace ComponentPattern

/-- A text with a backslash in front of every symbol of expressions. -/
def Text.escaped (t : Text) : Text := Text.escapeSymbols Text.expressionSymbols t

@[simp] theorem Text.escaped_nil : escaped [] = [] := rfl

theorem Text.escaped_cons (c : Char) (t : Text) :
    escaped (c :: t) = (if c ∈ expressionSymbols then ['\\', c] else [c]) ++ escaped t := rfl

/-- Escaping leaves nothing empty that was not. -/
@[simp] theorem Text.escaped_eq_nil_iff {t : Text} : t.escaped = [] ↔ t = [] :=
  escapeSymbols_eq_nil_iff

/-- Exactly the ASCII texts can be escaped. -/
theorem Text.escapeExpression_eq_ok_iff {t u : Text} :
    Text.escapeExpression t = .ok u ↔ (∀ c ∈ t, isAscii c = true) ∧ u = t.escaped := by
  rw [← firstNonAscii?_eq_none_iff, escapeExpression, escaped]
  cases t.firstNonAscii? <;> simp [eq_comm]

/-- Segments have an expression exactly if the delimiter is absent or ASCII: the class of all other
code points, repeated lazily. -/
theorem Options.segmentSource_eq_ok_iff {o : Options} {segment : Text} :
    o.segmentSource = .ok segment ↔ (∀ c ∈ o.delimiter, isAscii c = true)
      ∧ segment = ['[', '^'] ++ Text.escaped o.delimiter.toList ++ [']', '+', '?'] := by
  simp only [segmentSource, map_eq_ok_iff, Text.escapeExpression_eq_ok_iff,
    Option.mem_toList, Option.mem_def, and_assoc, exists_and_left, exists_eq_left]

namespace Part

/-! ## One part -/

/-- The texts of the part are ASCII. A capture has a name, and one that repeats has something to
divide its occurrences. -/
def IsExpressible (p : Part) : Prop :=
  if p.isFixed then ∀ c ∈ p.value, isAscii c = true
  else p.name ≠ none ∧ (∀ c ∈ p.before, isAscii c = true) ∧ (∀ c ∈ p.after, isAscii c = true)
    ∧ (p.modifier.repeats = true → p.before = [] → p.after ≠ [])

/-- The fragment of the part. -/
def expressed (segment : Text) (p : Part) : Text :=
  if p.isFixed then
    if p.modifier = .once then p.value.escaped
    else Fragment.group p.value.escaped ++ p.modifier.text
  else Fragment.ofCapture p.modifier p.before.escaped (p.source segment) p.after.escaped

/-- What a segment or a wildcard captures does not start with `?`, so behind its `(` it stays a
capture. -/
theorem head?_source_ne {o : Options} {segment : Text} (hs : o.segmentSource = .ok segment)
    {p : Part} (hfixed : ¬ p.isFixed = true) (hp : p.kind ≠ .expression) :
    (p.source segment).head? ≠ some '?' := by
  rw [source]
  cases hk : p.kind with
  | fixed => exact absurd (by rw [isFixed, hk]; rfl) hfixed
  | segment =>
    obtain ⟨-, rfl⟩ := Options.segmentSource_eq_ok_iff.mp hs
    simp
  | wildcard => simp [wildcardSource]
  | expression => exact absurd hk hp

/-- The name that the part contributes. -/
def captured? (p : Part) : Option Name := if p.isFixed then none else p.name

/-- A part that has a fragment contributes a name exactly if it captures. -/
theorem IsExpressible.isSome_captured? {p : Part} (h : p.IsExpressible) :
    p.captured?.isSome = !p.isFixed := by
  rw [IsExpressible] at h
  rw [captured?]
  cases hfixed : p.isFixed with
  | true => rfl
  | false =>
    rw [hfixed] at h
    exact Option.isSome_iff_ne_none.mpr h.1

/-- Fixed text has a fragment exactly if it is ASCII. -/
theorem fixedFragment_eq_ok_iff {p : Part} {t : Text} :
    p.fixedFragment = .ok t ↔ (∀ c ∈ p.value, isAscii c = true)
      ∧ t = if p.modifier = .once then p.value.escaped
        else Fragment.group p.value.escaped ++ p.modifier.text := by
  constructor
  · intro h
    obtain ⟨u, hu, ht⟩ := exists_of_bind_eq_ok h
    obtain ⟨hascii, rfl⟩ := Text.escapeExpression_eq_ok_iff.mp (mapError_eq_ok_iff.mp hu)
    exact ⟨hascii, (Except.ok.inj ht).symm⟩
  · rintro ⟨hascii, rfl⟩
    rw [fixedFragment, Text.escapeExpression_eq_ok_iff.mpr ⟨hascii, rfl⟩]
    rfl

/-- A capture has a fragment exactly if the texts around it are ASCII and, where it repeats, not
both empty. -/
theorem captureFragment_eq_ok_iff {segment t : Text} {name : Name} {p : Part} :
    p.captureFragment segment name = .ok t ↔
      ((∀ c ∈ p.before, isAscii c = true) ∧ (∀ c ∈ p.after, isAscii c = true)
        ∧ (p.modifier.repeats = true → p.before = [] → p.after ≠ []))
      ∧ t = Fragment.ofCapture p.modifier p.before.escaped (p.source segment) p.after.escaped := by
  constructor
  · intro h
    obtain ⟨before, hbefore, h⟩ := exists_of_bind_eq_ok h
    obtain ⟨after, hafter, h⟩ := exists_of_bind_eq_ok h
    obtain ⟨hb, rfl⟩ := Text.escapeExpression_eq_ok_iff.mp (mapError_eq_ok_iff.mp hbefore)
    obtain ⟨ha, rfl⟩ := Text.escapeExpression_eq_ok_iff.mp (mapError_eq_ok_iff.mp hafter)
    split at h
    · cases h
    · next hdelimited =>
      rw [Text.escaped_eq_nil_iff, Text.escaped_eq_nil_iff] at hdelimited
      exact ⟨⟨hb, ha, fun h₁ h₂ h₃ => hdelimited ⟨h₁, h₂, h₃⟩⟩, (Except.ok.inj h).symm⟩
  · rintro ⟨⟨hb, ha, hdelimited⟩, rfl⟩
    have hnot : ¬ (p.modifier.repeats = true ∧ p.before.escaped = [] ∧ p.after.escaped = []) := by
      rw [Text.escaped_eq_nil_iff, Text.escaped_eq_nil_iff]
      rintro ⟨h₁, h₂, h₃⟩
      exact hdelimited h₁ h₂ h₃
    rw [captureFragment, Text.escapeExpression_eq_ok_iff.mpr ⟨hb, rfl⟩,
      Text.escapeExpression_eq_ok_iff.mpr ⟨ha, rfl⟩]
    exact if_neg hnot

/-- The parts that have a fragment are the expressible ones. -/
theorem fragment_eq_ok_iff {segment : Text} {position : Nat} {p : Part} {f : Text × Option Name} :
    p.fragment segment position = .ok f ↔
      p.IsExpressible ∧ f = (p.expressed segment, p.captured?) := by
  rw [fragment, IsExpressible, expressed, captured?]
  by_cases hfixed : p.isFixed = true
  · simp only [hfixed, if_true, map_eq_ok_iff, fixedFragment_eq_ok_iff, and_assoc,
      exists_and_left, exists_eq_left]
  · rw [if_neg hfixed, if_neg hfixed, if_neg hfixed, if_neg hfixed]
    cases p.name with
    | none => simp
    | some name =>
      simp only [map_eq_ok_iff, captureFragment_eq_ok_iff, and_assoc, exists_and_left,
        exists_eq_left, ne_eq, reduceCtorEq, not_false_eq_true, true_and]

/-! ## All parts -/

/-- Parts have fragments exactly if each of them has one; the position matters to errors only. -/
theorem fragments_eq_ok_iff {segment : Text} {position : Nat} {ps : List Part}
    {fs : List (Text × Option Name)} :
    fragments segment position ps = .ok fs ↔
      (∀ p ∈ ps, p.IsExpressible) ∧ fs = ps.map fun p => (p.expressed segment, p.captured?) := by
  induction ps generalizing position fs with
  | nil => simp [fragments, eq_comm]
  | cons p ps ih =>
    constructor
    · intro h
      obtain ⟨f, hf, h⟩ := exists_of_bind_eq_ok h
      obtain ⟨gs, hgs, h⟩ := exists_of_bind_eq_ok h
      obtain ⟨hp, rfl⟩ := fragment_eq_ok_iff.mp hf
      obtain ⟨hps, rfl⟩ := ih.mp hgs
      exact ⟨List.forall_mem_cons.mpr ⟨hp, hps⟩, (Except.ok.inj h).symm⟩
    · rintro ⟨hall, rfl⟩
      obtain ⟨hp, hps⟩ := List.forall_mem_cons.mp hall
      rw [fragments, fragment_eq_ok_iff.mpr ⟨hp, rfl⟩, ih.mpr ⟨hps, rfl⟩]
      rfl

end Part

namespace Expression

/-- The expression of parts that have one. -/
def expressed (segment : Text) (ps : List Part) : Expression where
  source := ['^'] ++ ps.flatMap (Part.expressed segment) ++ ['$']
  names := ps.filterMap Part.captured?

/-- Fragments put together are the expression of the parts they belong to. -/
theorem ofFragments_map (segment : Text) (ps : List Part) :
    ofFragments (ps.map fun p => (p.expressed segment, p.captured?)) = expressed segment ps := by
  simp only [ofFragments, expressed, List.flatMap_map, List.filterMap_map]
  rfl

/-- Building an expression takes the expression of segments and then the fragments. -/
theorem exists_of_build {o : Options} {ps : List Part} {e : Expression} (h : build o ps = .ok e) :
    ∃ segment fs, o.segmentSource = .ok segment ∧ Part.fragments segment 0 ps = .ok fs
      ∧ e = ofFragments fs := by
  obtain ⟨segment, hs, h⟩ := exists_of_bind_eq_ok h
  obtain ⟨fs, hfs, h⟩ := exists_of_bind_eq_ok h
  exact ⟨segment, fs, mapError_eq_ok_iff.mp hs, hfs, (Except.ok.inj h).symm⟩

/-- **Which parts have an expression**, and which one it is. -/
theorem build_eq_ok_iff {o : Options} {ps : List Part} {e : Expression} :
    build o ps = .ok e ↔ (∀ p ∈ ps, p.IsExpressible)
      ∧ ∃ segment, o.segmentSource = .ok segment ∧ e = expressed segment ps := by
  constructor
  · intro h
    obtain ⟨segment, fs, hs, hfs, rfl⟩ := exists_of_build h
    obtain ⟨hps, rfl⟩ := Part.fragments_eq_ok_iff.mp hfs
    exact ⟨hps, segment, hs, ofFragments_map segment ps⟩
  · rintro ⟨hps, segment, hs, rfl⟩
    rw [build, hs, ← ofFragments_map]
    show (Part.fragments segment 0 ps >>= fun fs => pure (ofFragments fs)) = _
    rw [Part.fragments_eq_ok_iff.mpr ⟨hps, rfl⟩]
    rfl

/-- A checked expression is the same as an unchecked one. -/
theorem build_of_ofParts {o : Options} {ps : List Part} {e : Expression}
    (h : (ofParts o ps).outcome = .ok e) : build o ps = .ok e := by
  simp only [ofParts, Run.within, Run.outcome_bind] at h
  obtain ⟨e', he', h⟩ := exists_of_bind_eq_ok h
  have heq : e' = e := by
    split at h
    · rw [Run.outcome_bind] at h
      obtain ⟨-, -, h⟩ := exists_of_bind_eq_ok h
      exact Except.ok.inj h
    · exact Except.ok.inj h
  rw [← heq]
  exact he'

end Expression

end ComponentPattern
