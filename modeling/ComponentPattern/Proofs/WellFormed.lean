/-
# Well-formed part lists

The lists of parts that patterns stand for. `Part.IsProper` is what holds of each part by itself,
and `Part.WellFormed` adds what holds of the list: unmodified texts are never neighbours, custom
names differ, and ordinals count up from zero.

Lists grow at their end while a pattern is read, so the main fact is `Part.wellFormed_concat_iff`:
a list stays well formed exactly if the new part continues it.
-/
import Mathlib.Data.List.Chain
import ComponentPattern.Part.Canonical
import ComponentPattern.Proofs.Draft

namespace ComponentPattern

/-! ## The expressions of the wildcards -/

/-- The source of wildcards is the body of a group. -/
theorem Group.isBody_wildcardSource : Group.IsBody Part.wildcardSource where
  ne_nil := by decide
  head_ne := by decide
  balanced := .plain rfl (by decide) (.plain rfl (by decide) .nil)

/-- Where the delimiter is ASCII, a segment has an expression, which is the body of a group. -/
theorem Options.exists_segmentSource {o : Options} (h : ∀ c ∈ o.delimiter, isAscii c = true) :
    ∃ segment, o.segmentSource = .ok segment ∧ Group.IsBody segment
      ∧ segment ≠ Part.wildcardSource := by
  have hascii : Text.firstNonAscii? o.delimiter.toList = none := by
    rw [Text.firstNonAscii?_eq_none_iff]
    intro c hc
    exact h c (by simpa using hc)
  refine ⟨['[', '^'] ++ Text.escapeSymbols Text.expressionSymbols o.delimiter.toList
    ++ [']', '+', '?'], ?_, ⟨by simp, by simp, ?_⟩, by simp [Part.wildcardSource]⟩
  · rw [segmentSource, Text.escapeExpression, hascii]
    rfl
  · have htail : Group.Balanced [']', '+', '?'] :=
      .plain rfl (by decide) (.plain rfl (by decide) (.plain rfl (by decide) .nil))
    have hmid : Group.Balanced
        (Text.escapeSymbols Text.expressionSymbols o.delimiter.toList) := by
      cases hd : o.delimiter with
      | none => exact .nil
      | some c =>
        have hc : isAscii c = true := h c hd
        show Group.Balanced (Text.escapeSymbols Text.expressionSymbols [c])
        rw [Text.escapeSymbols_cons]
        split
        · exact .escape hc .nil
        · rename_i hs
          refine .plain hc ⟨?_, ?_, ?_⟩ .nil
          · rintro rfl; exact hs (by decide)
          · rintro rfl; exact hs (by decide)
          · rintro rfl; exact hs (by decide)
    exact .plain rfl (by decide) (.plain rfl (by decide) (hmid.append htail))

namespace Part

/-! ## Proper parts -/

/-- Whether a part is text that no modifier stands behind. -/
def isPlain (p : Part) : Bool := p.isFixed && p.modifier == .once

/-- The name that a part was given in the pattern. -/
def custom? (p : Part) : Option Text :=
  match p.name with
  | some (.custom t) => some t
  | _ => none

/-- The ordinal of a part without a name of its own. -/
def ordinal? (p : Part) : Option Nat :=
  match p.name with
  | some (.ordinal n) => some n
  | _ => none

theorem isFixed_iff {p : Part} : p.isFixed = true ↔ p.kind = .fixed := beq_iff_eq

/-- What holds of each part by itself. -/
structure IsProper (o : Options) (p : Part) : Prop where
  /-- A text has a value and nothing else. -/
  text : p.kind = .fixed → p.name = none ∧ p.before = [] ∧ p.after = [] ∧ p.value ≠ []
  /-- A capture has a name. -/
  named : p.kind ≠ .fixed → p.name ≠ none
  /-- The kinds of wildcards say all that there is to say. -/
  wildcard : p.kind = .segment ∨ p.kind = .wildcard → p.value = []
  /-- An expression is the body of a group, and not that of a wildcard. -/
  expression : p.kind = .expression →
    Group.IsBody p.value ∧ o.segmentSource ≠ .ok p.value ∧ p.value ≠ wildcardSource
  /-- A name of its own is an identifier. -/
  identifier : ∀ t ∈ p.custom?, t.IsIdentifier

/-! ## Well-formed lists -/

/-- **The part lists that patterns stand for.** -/
structure WellFormed (o : Options) (ps : List Part) : Prop where
  proper : ∀ p ∈ ps, p.IsProper o
  /-- Unmodified texts are never neighbours. -/
  separated : ps.IsChain fun p q => ¬ (p.isPlain = true ∧ q.isPlain = true)
  /-- Custom names differ. -/
  distinct : (ps.filterMap custom?).Nodup
  /-- Ordinals are handed out in order. -/
  numbered : ps.filterMap ordinal? = List.range (ps.filterMap ordinal?).length

/-- What makes a part fit behind a list. -/
structure Continues (o : Options) (ps : List Part) (q : Part) : Prop where
  proper : q.IsProper o
  separated : ∀ p ∈ ps.getLast?, ¬ (p.isPlain = true ∧ q.isPlain = true)
  fresh : ∀ t ∈ q.custom?, t ∉ ps.filterMap custom?
  next : ∀ n ∈ q.ordinal?, n = (ps.filterMap ordinal?).length

theorem wellFormed_nil (o : Options) : WellFormed o [] where
  proper := by simp
  separated := .nil
  distinct := .nil
  numbered := rfl

/-- The front of a well-formed list is well formed. -/
theorem WellFormed.left_of_append {o : Options} {ps qs : List Part}
    (h : WellFormed o (ps ++ qs)) : WellFormed o ps where
  proper p hp := h.proper p (List.mem_append_left qs hp)
  separated := h.separated.left_of_append
  distinct := by
    have hd := h.distinct
    rw [List.filterMap_append] at hd
    exact (List.nodup_append.mp hd).1
  numbered := by
    have hn := congrArg (List.take (ps.filterMap ordinal?).length) h.numbered
    rw [List.filterMap_append, List.take_left, List.take_range, List.length_append] at hn
    rwa [Nat.min_eq_left (Nat.le_add_right _ _)] at hn

/-- **A list stays well formed** exactly if the part at its end continues it. -/
theorem wellFormed_concat_iff {o : Options} {ps : List Part} {q : Part} :
    WellFormed o (ps ++ [q]) ↔ WellFormed o ps ∧ Continues o ps q := by
  constructor
  · intro h
    refine ⟨h.left_of_append, h.proper q (by simp), ?_, ?_, ?_⟩
    · intro p hp
      exact (List.isChain_append.mp h.separated).2.2 p hp q rfl
    · intro t ht hin
      have hd := h.distinct
      rw [List.filterMap_append] at hd
      have ht' : t ∈ [q].filterMap custom? := by
        rw [List.mem_filterMap]
        exact ⟨q, by simp, ht⟩
      exact (List.nodup_append.mp hd).2.2 t hin t ht' rfl
    · intro n hn
      have hnum := h.numbered
      have hq : [q].filterMap ordinal? = [n] := by
        rw [List.filterMap_cons_some hn]
        rfl
      rw [List.filterMap_append, hq, List.length_append, List.length_singleton,
        List.range_succ] at hnum
      have hlast := (List.append_inj' hnum rfl).2
      simpa using hlast
  · rintro ⟨h, hq⟩
    refine ⟨?_, ?_, ?_, ?_⟩
    · intro p hp
      rcases List.mem_append.mp hp with hp | hp
      · exact h.proper p hp
      · obtain rfl := List.mem_singleton.mp hp
        exact hq.proper
    · refine h.separated.append (.singleton q) ?_
      intro p hp r hr
      obtain rfl : q = r := Option.some.inj hr
      exact hq.separated p hp
    · rw [List.filterMap_append, List.nodup_append]
      refine ⟨h.distinct, ?_, ?_⟩
      · cases hc : q.custom? <;> simp [List.filterMap, hc]
      · rintro t ht _ hu rfl
        obtain ⟨r, hr, hru⟩ := List.mem_filterMap.mp hu
        obtain rfl := List.mem_singleton.mp hr
        exact hq.fresh t hru ht
    · rw [List.filterMap_append, List.length_append]
      cases hn : q.ordinal? with
      | none =>
        simp only [List.filterMap, hn, List.append_nil, List.length_nil, Nat.add_zero]
        exact h.numbered
      | some n =>
        simp only [List.filterMap, hn, List.length_cons, List.length_nil, List.range_succ,
          Nat.zero_add]
        rw [hq.next n hn, ← h.numbered]

end Part

end ComponentPattern
