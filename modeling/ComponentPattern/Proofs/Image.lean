/-
# The part lists that patterns stand for

A list of parts comes from a pattern exactly if it is well formed
(`Part.exists_parse_iff_wellFormed`).

* From a pattern to a well-formed list: `Draft.IsSound` is kept by every item
  (`Draft.isSound_of_addItem`), hence by a whole reading (`Draft.wellFormed_of_read`).
* From a well-formed list to a pattern: `Part.spellOut` writes each part so that its neighbours
  cannot matter, every code point behind a backslash and every capture in braces, with its
  expression in full (`Part.yields_spellOut`).
-/
import ComponentPattern.Expression.Basic
import ComponentPattern.Proofs.Spelling
import ComponentPattern.Proofs.WellFormed

namespace ComponentPattern

/-! ## Captures of a pattern -/

/-- What holds of the values of a token in a pattern. -/
def Token.IsSound (t : Token) : Prop :=
  (t.kind = .name → t.value.IsIdentifier) ∧ (t.kind = .group → Group.IsBody t.value)

/-- The tokens of a pattern are sound. -/
theorem Token.Covers.isSound {i : Nat} {ts : List Token} {s : Text} (h : Token.Covers i ts s) :
    ∀ t ∈ ts, t.IsSound := by
  induction h with
  | final =>
    intro t ht
    obtain rfl := List.mem_singleton.mp ht
    exact ⟨nofun, nofun⟩
  | cons ha _ ih =>
    intro t ht
    rcases List.mem_cons.mp ht with rfl | ht
    · constructor
      · rintro rfl
        exact ha.1
      · rintro rfl
        exact ha
    · exact ih t ht

/-- What holds of a capture in a pattern. -/
def Capture.IsSound : Capture → Prop
  | .named _ name body => name.IsIdentifier ∧ ∀ b ∈ body, Group.IsBody b
  | .group _ body => Group.IsBody body
  | .wildcard _ => True

/-- A capture taken off sound tokens is sound. -/
theorem Capture.isSound_of_take? {ts rest : List Token} {c : Capture}
    (hts : ∀ t ∈ ts, t.IsSound) (h : take? ts = some (c, rest)) :
    c.IsSound ∧ rest <:+ ts := by
  unfold take? at h
  split at h
  · cases h
    have hname := hts _ List.mem_cons_self
    have hgroup := hts _ (List.mem_cons_of_mem _ List.mem_cons_self)
    refine ⟨⟨hname.1 rfl, fun b hb => ?_⟩, (List.suffix_cons _ _).trans (List.suffix_cons _ _)⟩
    obtain rfl := Option.some.inj hb
    exact hgroup.2 rfl
  · cases h
    have hname := hts _ List.mem_cons_self
    exact ⟨⟨hname.1 rfl, nofun⟩, List.suffix_cons _ _⟩
  · cases h
    have hgroup := hts _ List.mem_cons_self
    exact ⟨hgroup.2 rfl, List.suffix_cons _ _⟩
  · cases h
    exact ⟨trivial, List.suffix_cons _ _⟩
  · cases h

namespace Item

/-- The capture in an item. -/
def capture? : Item → Option Capture
  | .text _ => none
  | .capture _ c _ => some c
  | .braces _ c _ _ => c

/-- Taking a modifier leaves an end of the tokens. -/
theorem takeModifier_suffix (ts : List Token) : (takeModifier ts).2 <:+ ts := by
  cases ts with
  | nil => exact List.suffix_rfl
  | cons t ts =>
    rw [takeModifier]
    split
    · exact List.suffix_cons t ts
    · exact List.suffix_rfl

/-- So does taking text. -/
theorem takeText_suffix (ts : List Token) : (takeText ts).2 <:+ ts := by
  induction ts with
  | nil => exact List.suffix_rfl
  | cons t ts ih =>
    rw [takeText]
    split
    · exact ih.trans (List.suffix_cons t ts)
    · exact List.suffix_rfl

/-- A capture in braces is sound if the tokens are. -/
theorem isSound_of_takeCapture {ts : List Token} (hts : ∀ t ∈ ts, t.IsSound) :
    (∀ c ∈ (takeCapture ts).1, c.IsSound) ∧ (takeCapture ts).2 <:+ ts := by
  unfold takeCapture
  cases h : Capture.take? ts with
  | none => exact ⟨nofun, List.suffix_rfl⟩
  | some p =>
    obtain ⟨c, rest⟩ := p
    obtain ⟨hc, hrest⟩ := Capture.isSound_of_take? hts h
    refine ⟨fun c' hc' => ?_, hrest⟩
    obtain rfl : c = c' := Option.some.inj hc'
    exact hc

/-- A capture with its modifier is sound if the tokens are. -/
theorem isSound_of_takeModified? {lead : Text} {ts rest : List Token} {i : Item}
    (hts : ∀ t ∈ ts, t.IsSound) (h : takeModified? lead ts = some (i, rest)) :
    (∀ c ∈ i.capture?, c.IsSound) ∧ rest <:+ ts := by
  unfold takeModified? at h
  split at h
  · rename_i c us hc
    obtain ⟨rfl, rfl⟩ := Prod.mk.inj (Option.some.inj h)
    obtain ⟨hsound, hsuffix⟩ := Capture.isSound_of_take? hts hc
    refine ⟨fun c' hc' => ?_, (takeModifier_suffix us).trans hsuffix⟩
    obtain rfl : c = c' := Option.some.inj hc'
    exact hsound
  · cases h

/-- What stands in braces is sound if the tokens are. -/
theorem isSound_of_takeBraces? {ts rest : List Token} {i : Item}
    (hts : ∀ t ∈ ts, t.IsSound) (h : takeBraces? ts = some (i, rest)) :
    (∀ c ∈ i.capture?, c.IsSound) ∧ rest <:+ ts := by
  have hbefore := takeText_suffix ts
  obtain ⟨hsound, hinner⟩ := isSound_of_takeCapture (fun t ht => hts t (hbefore.subset ht))
  have hafter := takeText_suffix (takeCapture (takeText ts).2).2
  unfold takeBraces? at h
  simp only at h
  split at h
  · rename_i us he
    obtain ⟨rfl, rfl⟩ := Prod.mk.inj (Option.some.inj h)
    refine ⟨hsound, ?_⟩
    have hrest : us <:+ (takeText (takeCapture (takeText ts).2).2).2 := by
      rw [he]
      exact List.suffix_cons _ us
    exact (takeModifier_suffix us).trans
      (hrest.trans (hafter.trans (hinner.trans hbefore)))
  · cases h

/-- The captures of a pattern are sound, and reading goes on behind them. -/
theorem isSound_of_step {ts rest : List Token} {i : Item} (hts : ∀ t ∈ ts, t.IsSound)
    (h : step ts = .item i rest) : (∀ c ∈ i.capture?, c.IsSound) ∧ rest <:+ ts := by
  unfold step at h
  split at h
  · cases h
  · rename_i t ts
    have hts' : ∀ u ∈ ts, u.IsSound := fun u hu => hts u (List.mem_cons_of_mem t hu)
    split at h
    · rename_i hm
      cases h
      exact isSound_of_takeModified? hts hm
    · split at h
      · split at h
        · rename_i hm
          cases h
          obtain ⟨hc, hs⟩ := isSound_of_takeModified? hts' hm
          exact ⟨hc, hs.trans (List.suffix_cons t ts)⟩
        · cases h
          exact ⟨nofun, List.suffix_cons t rest⟩
      · cases h
        exact ⟨nofun, List.suffix_cons t rest⟩
      · split at h
        · rename_i hb
          cases h
          obtain ⟨hc, hs⟩ := isSound_of_takeBraces? hts' hb
          exact ⟨hc, hs.trans (List.suffix_cons t ts)⟩
        · cases h
      · cases h
      · cases h

end Item

/-! ## Reading keeps lists well formed -/

namespace Part

/-- Text that is not empty continues parts, unless it is plain and so is the last of them. -/
theorem continues_fixed {o : Options} {ps : List Part} {t : Text} {m : Modifier} (ht : t ≠ [])
    (hm : m = .once → ∀ p ∈ ps.getLast?, p.isPlain = false) :
    Continues o ps (Part.fixed t m) where
  proper :=
    { text := fun _ => ⟨rfl, rfl, rfl, ht⟩
      named := fun h => absurd rfl h
      wildcard := by rintro (h | h) <;> cases h
      expression := nofun
      identifier := nofun }
  separated := by
    rintro p hp ⟨hplain, hq⟩
    have honce : m = .once := by simpa [isPlain, Part.fixed, isFixed] using hq
    rw [hm honce p hp] at hplain
    cases hplain
  fresh := nofun
  next := nofun

end Part

namespace Draft

/-- What holds of a draft between two items. -/
structure IsSound (o : Options) (d : Draft) : Prop where
  parts : Part.WellFormed o d.parts
  /-- The last part is never plain text: that still waits. -/
  last : ∀ p ∈ d.parts.getLast?, p.isPlain = false
  ordinal : d.ordinal = (d.parts.filterMap Part.ordinal?).length

/-- What is left of it when the waiting text was made a part. -/
structure IsFlushed (o : Options) (d : Draft) : Prop where
  parts : Part.WellFormed o d.parts
  pending : d.pending = []
  ordinal : d.ordinal = (d.parts.filterMap Part.ordinal?).length

theorem isSound_empty (o : Options) : IsSound o {} where
  parts := Part.wellFormed_nil o
  last := nofun
  ordinal := rfl

theorem IsSound.addText {o : Options} {d : Draft} (h : d.IsSound o) (t : Text) :
    (d.addText t).IsSound o := ⟨h.parts, h.last, h.ordinal⟩

/-- Making a part of the waiting text keeps a draft sound. -/
theorem IsSound.flushed {o : Options} {d : Draft} (h : d.IsSound o) :
    (d.flushed id).IsFlushed o := by
  unfold Draft.flushed
  split
  · rename_i hp
    exact ⟨h.parts, hp, h.ordinal⟩
  · rename_i hp
    refine ⟨?_, rfl, ?_⟩
    · exact Part.wellFormed_concat_iff.mpr
        ⟨h.parts, Part.continues_fixed hp fun _ => h.last⟩
    · show d.ordinal = _
      rw [List.filterMap_append, List.length_append, h.ordinal]
      rfl

/-- A part that is not plain text is added behind a flushed draft. -/
theorem IsFlushed.isSound_of_concat {o : Options} {d d' : Draft} {q : Part} (h : d.IsFlushed o)
    (hq : Part.Continues o d.parts q) (hplain : q.isPlain = false)
    (hparts : d'.parts = d.parts ++ [q])
    (hord : d'.ordinal = d.ordinal + q.ordinal?.toList.length) : d'.IsSound o where
  parts := by
    rw [hparts]
    exact Part.wellFormed_concat_iff.mpr ⟨h.parts, hq⟩
  last p hp := by
    rw [hparts, List.getLast?_concat] at hp
    obtain rfl := Option.some.inj hp
    exact hplain
  ordinal := by
    rw [hord, hparts, List.filterMap_append, List.length_append, h.ordinal]
    cases hn : q.ordinal? <;> simp [List.filterMap, hn]

variable {o : Options} {segment : Text}

/-- The source of a sound capture is the body of a group. -/
theorem isBody_source (hb : Group.IsBody segment) {c : Capture} (hc : c.IsSound) :
    Group.IsBody (Context.source ⟨o, segment, id⟩ c) := by
  cases c with
  | named i name body =>
    cases body with
    | none => exact hb
    | some body => exact hc.2 body rfl
  | group i body => exact hc
  | wildcard i => exact Group.isBody_wildcardSource

/-- A capture of a pattern becomes a proper part. -/
theorem isProper_part (hs : o.segmentSource = .ok segment) (hb : Group.IsBody segment)
    {c : Capture} (hc : c.IsSound) (d : Draft) (m : Modifier)
    (before after : Text) :
    Part.IsProper o (Context.part ⟨o, segment, id⟩ c m (d.nameOf c) before after) where
  text h := absurd h (Context.classify_ne_fixed _ _)
  named _ := by simp [Context.part, Part.capture]
  wildcard := by
    show (Context.classify _ _).1 = _ ∨ (Context.classify _ _).1 = _ →
      (Context.classify _ _).2 = []
    unfold Context.classify
    split
    · intro _; rfl
    · split
      · intro _; rfl
      · rintro (h | h) <;> cases h
  expression := by
    show (Context.classify _ _).1 = _ → Group.IsBody (Context.classify _ _).2 ∧
      o.segmentSource ≠ .ok (Context.classify _ _).2 ∧ (Context.classify _ _).2 ≠ _
    -- an expression is left as one only if it is that of neither wildcard
    unfold Context.classify
    split
    · intro h; cases h
    · rename_i hseg
      split
      · intro h; cases h
      · rename_i hwild
        intro _
        refine ⟨isBody_source hb hc, ?_, hwild⟩
        rw [hs]
        intro he
        exact hseg (Except.ok.inj he).symm
  identifier t ht := by
    cases c with
    | named i name body =>
      obtain rfl : name = t := Option.some.inj ht
      exact hc.1
    | group i body => cases ht
    | wildcard i => cases ht

/-- A capture whose name is free continues a flushed draft. -/
theorem IsFlushed.continues_part (hs : o.segmentSource = .ok segment)
    (hb : Group.IsBody segment) {d : Draft} (hd : d.IsFlushed o) {c : Capture} (hc : c.IsSound)
    (hfree : d.isTaken c = false) (m : Modifier) (before after : Text) :
    Part.Continues o d.parts
      (Context.part ⟨o, segment, id⟩ c m (d.nameOf c) before after) where
  proper := isProper_part hs hb hc d m before after
  separated p _ h := by
    simp [Part.isPlain] at h
  fresh t ht hin := by
    obtain ⟨p, hp, hpt⟩ := List.mem_filterMap.mp hin
    have hname : p.name = some (.custom t) := by
      unfold Part.custom? at hpt
      split at hpt <;> simp_all
    cases c with
    | named i name body =>
      obtain rfl : name = t := Option.some.inj ht
      have htaken := List.any_eq_false.mp hfree p hp
      simp [nameOf, hname] at htaken
    | group i body => cases ht
    | wildcard i => cases ht
  next n hn := by
    cases c with
    | named i name body => cases hn
    | group i body =>
      obtain rfl : d.ordinal = n := Option.some.inj hn
      exact hd.ordinal
    | wildcard i =>
      obtain rfl : d.ordinal = n := Option.some.inj hn
      exact hd.ordinal

/-- A sound capture keeps a draft sound. -/
theorem isSound_of_addCapture (hs : o.segmentSource = .ok segment) (hb : Group.IsBody segment)
    {d d' : Draft} (hd : d.IsSound o) {c : Capture} (hc : c.IsSound) {before after : Text}
    {m : Modifier} (h : (d.addCapture ⟨o, segment, id⟩ before c after m).outcome = .ok d') :
    d'.IsSound o := by
  rw [outcome_addCapture, outcome_place] at h
  split at h
  · cases h
  · rename_i hfree
    cases h
    have hflushed := hd.flushed
    have hcont := hflushed.continues_part hs hb hc (by simpa using hfree) m before after
    refine hflushed.isSound_of_concat hcont ?_ rfl ?_
    · simp [Part.isPlain]
    · cases c <;> rfl

/-- **Every item keeps a draft sound.** -/
theorem isSound_of_addItem (hs : o.segmentSource = .ok segment) (hb : Group.IsBody segment)
    {d d' : Draft} (hd : d.IsSound o) {i : Item} (hi : ∀ c ∈ i.capture?, c.IsSound)
    (h : (d.addItem ⟨o, segment, id⟩ i).outcome = .ok d') : d'.IsSound o := by
  cases i with
  | text t =>
    cases h
    exact hd.addText t
  | capture lead c m =>
    rw [addItem] at h
    split at h
    · exact isSound_of_addCapture hs hb hd (hi c rfl) h
    · exact isSound_of_addCapture hs hb (hd.addText lead) (hi c rfl) h
  | braces before c after m =>
    cases c with
    | none =>
      rw [addItem] at h
      split at h
      · cases h
        exact hd.addText before
      · rename_i hne
        rw [outcome_addFixed] at h
        cases h
        obtain ⟨hm, ht⟩ := not_or.mp hne
        refine hd.flushed.isSound_of_concat
          (Part.continues_fixed ht fun hm' => absurd hm' hm) ?_ rfl rfl
        simpa [Part.isPlain, Part.fixed, Part.isFixed] using hm
    | some c => exact isSound_of_addCapture hs hb hd (hi c rfl) h

/-- **What a sound draft becomes is well formed.** -/
theorem wellFormed_of_read (hs : o.segmentSource = .ok segment) (hb : Group.IsBody segment)
    {d : Draft} (hd : d.IsSound o) {ts : List Token} (hts : ∀ t ∈ ts, t.IsSound)
    {ps : List Part} (h : d.read ⟨o, segment, id⟩ ts = .ok ps) : Part.WellFormed o ps := by
  -- on the number of tokens, of which every item takes at least one
  induction hn : ts.length using Nat.strongRecOn generalizing d ts with
  | ind n ih =>
    cases hstep : Item.step ts with
    | item i rest =>
      obtain ⟨hi, hsuffix⟩ := Item.isSound_of_step hts hstep
      rw [read_of_item hstep] at h
      obtain ⟨d', hadd, hread⟩ := exists_of_bind_eq_ok h
      have hlen := Item.step_length hstep
      exact ih rest.length (by omega) (isSound_of_addItem hs hb hd hi hadd)
        (fun t ht => hts t (hsuffix.subset ht)) hread rfl
    | ending e =>
      rw [read_of_ending hstep] at h
      obtain ⟨-, rfl⟩ := outcome_finish_eq_ok_iff.mp h
      exact hd.flushed.parts

end Draft

/-! ## Spelling parts out -/

/-- A text with a backslash in front of every code point. -/
def Text.escapeAll (t : Text) : Text := t.flatMap fun c => ['\\', c]

/-- A text with a backslash in front of everything spells itself. -/
theorem Text.spells_escapeAll (t : Text) : Text.Spells (Text.escapeAll t) t := by
  induction t with
  | nil => exact .nil
  | cons c t ih => exact .escaped ih

/-- The name that a capture spells. -/
def Capture.name? : Capture → Option Text
  | .named _ name _ => some name
  | _ => none

/-- A capture that spells the given part. -/
structure Capture.Stands (x : Draft.Context) (c : Capture) (p : Part) : Prop where
  source : x.classify (x.source c) = (p.kind, p.value)
  name : c.name? = p.custom?

namespace Part

/-- Proper fixed text has nothing but its value and its modifier. -/
theorem IsProper.eq_fixed {o : Options} {p : Part} (h : p.IsProper o) (hp : p.isFixed = true) :
    p = Part.fixed p.value p.modifier := by
  have hkind : p.kind = .fixed := isFixed_iff.mp hp
  obtain ⟨hname, hbefore, hafter, -⟩ := h.text hkind
  cases p
  simp_all [Part.fixed]

/-- The expression of a proper capture is classified as the part it came from. -/
theorem IsProper.classify_source {o : Options} {segment : Text}
    (hs : o.segmentSource = .ok segment) (hne : segment ≠ wildcardSource) {p : Part}
    (h : p.IsProper o) (hp : p.kind ≠ .fixed) :
    Draft.Context.classify ⟨o, segment, id⟩ (p.source segment) = (p.kind, p.value) := by
  unfold Draft.Context.classify source
  cases hk : p.kind with
  | fixed => exact absurd hk hp
  | segment => simp [h.wildcard (.inl hk)]
  | wildcard => simp [h.wildcard (.inr hk), hne.symm]
  | expression =>
    obtain ⟨-, hseg, hwild⟩ := h.expression hk
    have hseg' : p.value ≠ segment := by
      rintro rfl
      exact hseg hs
    simp [hseg', hwild]

/-- The source of a proper capture is the body of a group. -/
theorem IsProper.isBody_source {o : Options} {segment : Text} (hb : Group.IsBody segment)
    {p : Part} (h : p.IsProper o) (hp : p.kind ≠ .fixed) : Group.IsBody (p.source segment) := by
  unfold source
  cases hk : p.kind with
  | fixed => exact absurd hk hp
  | segment => exact hb
  | wildcard => exact Group.isBody_wildcardSource
  | expression => exact (h.expression hk).1

end Part

namespace Draft

/-- The draft stands for the parts: they are what it has when the waiting text is made one. -/
structure Holds (d : Draft) (ps : List Part) : Prop where
  parts : (d.flushed id).parts = ps
  ordinal : d.ordinal = (ps.filterMap Part.ordinal?).length

theorem holds_empty : Holds {} [] := ⟨rfl, rfl⟩

@[simp] theorem flushed_pending (f : Text → Text) (d : Draft) : (d.flushed f).pending = [] := by
  unfold flushed
  split
  · assumption
  · rfl

@[simp] theorem flushed_ordinal (f : Text → Text) (d : Draft) :
    (d.flushed f).ordinal = d.ordinal := by
  unfold flushed
  split <;> rfl

/-- Without waiting text there is nothing to flush. -/
theorem flushed_of_pending {f : Text → Text} {d : Draft} (h : d.pending = []) :
    d.flushed f = d := if_pos h

variable {o : Options} {segment : Text}

/-- Unmodified text waits behind the parts before it. -/
theorem Holds.addText {d : Draft} {ps : List Part} {p : Part} (h : d.Holds ps)
    (hp : Part.Continues o ps p) (hplain : p.isPlain = true) :
    (d.addText p.value).Holds (ps ++ [p]) := by
  have hfixed : p.isFixed = true ∧ p.modifier = .once := by
    simpa [Part.isPlain] using hplain
  have heq := hp.proper.eq_fixed hfixed.1
  have hvalue : p.value ≠ [] := (hp.proper.text (Part.isFixed_iff.mp hfixed.1)).2.2.2
  -- were there waiting text already, it would be a plain neighbour
  have hpending : d.pending = [] := by
    by_contra hne
    have hlast : Part.fixed d.pending .once ∈ ps.getLast? := by
      rw [← h.parts, flushed, if_neg hne]
      exact List.getLast?_concat
    exact hp.separated _ hlast ⟨rfl, hplain⟩
  have hparts : d.parts = ps := by rw [← h.parts, flushed, if_pos hpending]
  constructor
  · have hwaits : (d.addText p.value).pending = p.value := by simp [Draft.addText, hpending]
    rw [flushed, hwaits, if_neg hvalue]
    show d.parts ++ [Part.fixed p.value .once] = ps ++ [p]
    rw [hparts, ← hfixed.2, ← heq]
  · show d.ordinal = _
    rw [h.ordinal, List.filterMap_append, List.length_append, heq]
    rfl

/-- Modified text is a part of its own. -/
theorem Holds.addFixed {d : Draft} {ps : List Part} {p : Part} (h : d.Holds ps)
    (hp : p.IsProper o) (hfixed : p.isFixed = true) :
    ((d.flushed id).addPart (Part.fixed p.value p.modifier)).Holds (ps ++ [p]) := by
  have heq := hp.eq_fixed hfixed
  constructor
  · have hpending : ((d.flushed id).addPart (Part.fixed p.value p.modifier)).pending = [] :=
      flushed_pending id d
    rw [flushed_of_pending hpending]
    show (d.flushed id).parts ++ [Part.fixed p.value p.modifier] = ps ++ [p]
    rw [h.parts, ← heq]
  · show (d.flushed id).ordinal = _
    rw [flushed_ordinal, h.ordinal, List.filterMap_append, List.length_append, heq]
    rfl

theorem nameOf_eq (d : Draft) (c : Capture) :
    d.nameOf c = (c.name?.map Name.custom).getD (.ordinal d.ordinal) := by
  cases c <;> rfl

theorem ordinalAfter_eq (d : Draft) (c : Capture) :
    d.ordinalAfter c = d.ordinal + if c.name?.isSome then 0 else 1 := by
  cases c <;> rfl

/-- A capture that spells a part gets the name of the part. -/
theorem Holds.nameOf {d : Draft} {ps : List Part} {p : Part} {c : Capture} (h : d.Holds ps)
    (hp : Part.Continues o ps p) (hkind : p.kind ≠ .fixed) (hc : c.name? = p.custom?) :
    p.name = some ((d.flushed id).nameOf c) := by
  rw [nameOf_eq, flushed_ordinal, hc, h.ordinal]
  cases hname : p.name with
  | none => exact absurd hname (hp.proper.named hkind)
  | some name =>
    cases name with
    | custom t => simp [Part.custom?, hname]
    | ordinal n =>
      have hn := hp.next n (by simp [Part.ordinal?, hname])
      simp [Part.custom?, hname, hn]

/-- The name of the next part of a well-formed list is free. -/
theorem Holds.not_isTaken {d : Draft} {ps : List Part} {p : Part} {c : Capture} (h : d.Holds ps)
    (hps : Part.WellFormed o ps) (hp : Part.Continues o ps p) (hkind : p.kind ≠ .fixed)
    (hc : c.name? = p.custom?) : (d.flushed id).isTaken c = false := by
  rw [isTaken, List.any_eq_false, h.parts]
  intro q hq hname
  have hname' : q.name = p.name := by
    rw [h.nameOf hp hkind hc]
    simpa using hname
  cases hpn : p.name with
  | none => exact hp.proper.named hkind hpn
  | some name =>
    rw [hpn] at hname'
    cases name with
    | custom t =>
      have hin : t ∈ ps.filterMap Part.custom? :=
        List.mem_filterMap.mpr ⟨q, hq, by simp [Part.custom?, hname']⟩
      exact hp.fresh t (by simp [Part.custom?, hpn]) hin
    | ordinal n =>
      -- the ordinals so far are all smaller
      have hin : n ∈ ps.filterMap Part.ordinal? :=
        List.mem_filterMap.mpr ⟨q, hq, by simp [Part.ordinal?, hname']⟩
      rw [hps.numbered, List.mem_range] at hin
      have hn := hp.next n (by simp [Part.ordinal?, hpn])
      omega

/-- A capture that spells a part is placed as that part. -/
theorem Holds.placed {d : Draft} {ps : List Part} {p : Part} {c : Capture} (h : d.Holds ps)
    (hp : Part.Continues o ps p) (hkind : p.kind ≠ .fixed)
    (hc : c.Stands ⟨o, segment, id⟩ p) :
    ((d.flushed id).placed ⟨o, segment, id⟩ p.before c p.after p.modifier).Holds (ps ++ [p]) := by
  have hname := h.nameOf hp hkind hc.name
  have hpart : Context.part ⟨o, segment, id⟩ c p.modifier ((d.flushed id).nameOf c)
      p.before p.after = p := by
    simp only [Context.part, hc.source, Part.capture, ← hname]
  constructor
  · have hpending : ((d.flushed id).placed ⟨o, segment, id⟩ p.before c p.after p.modifier).pending
        = [] := flushed_pending id d
    rw [flushed_of_pending hpending]
    show (d.flushed id).parts ++ [_] = _
    rw [h.parts]
    exact congrArg (ps ++ [·]) hpart
  · show (d.flushed id).ordinalAfter c = _
    rw [ordinalAfter_eq, flushed_ordinal, hc.name, List.filterMap_append, List.length_append,
      ← h.ordinal]
    -- the part has an ordinal exactly if it has no name of its own
    cases hn : (d.flushed id).nameOf c <;>
      simp [List.filterMap, Part.custom?, Part.ordinal?, hname, hn]

end Draft

namespace Part

/-- The capture of a part, with its expression in full. -/
def inFull (segment : Text) (p : Part) : Capture :=
  match p.custom? with
  | some name => .named 0 name (some (p.source segment))
  | none => .group 0 (p.source segment)

/-- A part, spelt so that its neighbours do not matter. -/
def spellOut (segment : Text) (p : Part) : Text :=
  if p.isPlain then Text.escapeAll p.value
  else if p.isFixed then '{' :: (Text.escapeAll p.value ++ '}' :: p.modifier.text)
  else
    '{' :: (Text.escapeAll p.before
      ++ ((p.inFull segment).text ++ (Text.escapeAll p.after ++ '}' :: p.modifier.text)))

variable {o : Options} {segment : Text}

/-- A proper capture, written in full, stands for its part. -/
theorem IsProper.stands_inFull (hs : o.segmentSource = .ok segment)
    (hne : segment ≠ wildcardSource) {p : Part} (h : p.IsProper o) (hp : p.kind ≠ .fixed) :
    (p.inFull segment).Stands ⟨o, segment, id⟩ p := by
  have hclass := h.classify_source hs hne hp
  unfold inFull
  cases hc : p.custom? with
  | none => exact ⟨hclass, hc.symm⟩
  | some name => exact ⟨hclass, hc.symm⟩

/-- Written in full, a capture fits in front of anything. -/
theorem IsProper.fits_inFull (hb : Group.IsBody segment) {p : Part} (h : p.IsProper o)
    (hp : p.kind ≠ .fixed) (s : Text) : (p.inFull segment).Fits s := by
  have hbody := h.isBody_source hb hp
  unfold inFull
  cases hc : p.custom? with
  | none => exact hbody
  | some name => exact ⟨h.identifier name hc, hbody⟩

/-- What is spelt out starts with a backslash or a brace. -/
theorem not_startsIn_spellOut (segment : Text) (symbols : List Char)
    (hsym : '\\' ∉ symbols ∧ '{' ∉ symbols) (ps : List Part) :
    ¬ Text.StartsIn symbols (ps.flatMap (spellOut segment)) := by
  induction ps with
  | nil => exact Text.not_startsIn_nil
  | cons p ps ih =>
    rw [List.flatMap_cons, spellOut]
    split
    · cases p.value with
      | nil => exact ih
      | cons c t => exact fun h => hsym.1 (Text.startsIn_cons.mp h)
    · split
      · exact fun h => hsym.2 (Text.startsIn_cons.mp h)
      · exact fun h => hsym.2 (Text.startsIn_cons.mp h)

/-- **Parts that are spelt out are read back**, behind those that the draft already stands for. -/
theorem yields_spellOut (hs : o.segmentSource = .ok segment) (hb : Group.IsBody segment)
    (hne : segment ≠ wildcardSource) {d : Draft} {done rest : List Part} (hd : d.Holds done)
    (hw : WellFormed o (done ++ rest)) :
    Draft.Yields ⟨o, segment, id⟩ d (rest.flatMap (spellOut segment)) (done ++ rest) := by
  -- on the parts still to come; the draft holds those before them
  induction rest generalizing d done with
  | nil =>
    rw [List.append_nil, ← hd.parts]
    exact Draft.Yields.nil _ d
  | cons p rest ih =>
    have happ : done ++ p :: rest = done ++ [p] ++ rest := by simp
    rw [happ] at hw ⊢
    obtain ⟨hdone, hp⟩ := wellFormed_concat_iff.mp hw.left_of_append
    have hfollow := not_startsIn_spellOut segment Modifier.symbols (by decide) rest
    rw [List.flatMap_cons, spellOut]
    by_cases hplain : p.isPlain = true
    · rw [if_pos hplain]
      have hcapture := not_startsIn_spellOut segment Capture.symbols (by decide) rest
      exact .text (Text.spells_escapeAll p.value) (fun h => absurd h hcapture)
        (ih (hd.addText hp hplain) hw)
    · rw [if_neg hplain]
      by_cases hfixed : p.isFixed = true
      · rw [if_pos hfixed]
        have hm : p.modifier ≠ .once := by simpa [isPlain, hfixed] using hplain
        have hkind : p.kind = .fixed := isFixed_iff.mp hfixed
        have hvalue := (hp.proper.text hkind).2.2.2
        have hrest := ih (hd.addFixed hp.proper hfixed) hw
        simpa using Draft.Yields.bracedText (Text.spells_escapeAll p.value) hvalue hm hrest
      · rw [if_neg hfixed]
        have hkind : p.kind ≠ .fixed := mt isFixed_iff.mpr hfixed
        have hstands := hp.proper.stands_inFull hs hne hkind
        have hfree := hd.not_isTaken hdone hp hkind hstands.name
        have hrest := ih (hd.placed hp hkind hstands) hw
        have hyields := Draft.Yields.braces (Text.spells_escapeAll p.before)
          (Text.spells_escapeAll p.after) (hp.proper.fits_inFull hb hkind _)
          (fun _ => hfollow) hfree hrest
        simpa using hyields

/-! ## The image -/

/-- The parts of a pattern are well formed. -/
theorem wellFormed_of_parse {o : Options} (hd : ∀ c ∈ o.delimiter, isAscii c = true)
    {s : Text} {ps : List Part} (h : (Part.parse o id s).outcome = .ok ps) : WellFormed o ps := by
  obtain ⟨segment, hs, hb, -⟩ := Options.exists_segmentSource hd
  obtain ⟨ts, hcov, hread⟩ := (parse_eq_ok_iff hs).mp h
  exact Draft.wellFormed_of_read hs hb (Draft.isSound_empty o) hcov.isSound hread

/-- Well-formed parts come from the pattern that spells them out. -/
theorem exists_parse_of_wellFormed {o : Options} (hd : ∀ c ∈ o.delimiter, isAscii c = true)
    {ps : List Part} (hw : WellFormed o ps) : ∃ s, (Part.parse o id s).outcome = .ok ps := by
  obtain ⟨segment, hs, hb, hne⟩ := Options.exists_segmentSource hd
  obtain ⟨ts, hcov, hread⟩ := yields_spellOut hs hb hne Draft.holds_empty hw 0
  exact ⟨_, (parse_eq_ok_iff hs).mpr ⟨ts, hcov, hread⟩⟩

/-- **The exact image of parsing.** Where the delimiter is absent or ASCII, a list of parts comes
from a pattern if and only if it is well formed. -/
theorem exists_parse_iff_wellFormed {o : Options} (hd : ∀ c ∈ o.delimiter, isAscii c = true)
    {ps : List Part} : (∃ s, (Part.parse o id s).outcome = .ok ps) ↔ WellFormed o ps :=
  ⟨fun ⟨_, h⟩ => wellFormed_of_parse hd h, exists_parse_of_wellFormed hd⟩

/-- For paths: the parts of `/u/:i(\d)?*` are well formed, and no pattern has two unmodified texts
in a row. -/
theorem exists_parse_iff_wellFormed_pathname :
    (∀ c ∈ Options.pathname.delimiter, isAscii c = true)
      ∧ WellFormed Options.pathname
        [Part.fixed ['/', 'u'] .once,
          Part.capture .expression ['\\', 'd'] .optional (.custom ['i']) ['/'] [],
          Part.capture .wildcard [] .once (.ordinal 0) [] []]
      ∧ ¬ ∃ s, (Part.parse Options.pathname id s).outcome
        = .ok [Part.fixed ['a'] .once, Part.fixed ['b'] .once] := by
  have hd := Options.isAscii_delimiter_pathname
  refine ⟨hd, (exists_parse_iff_wellFormed hd).mp ?_, fun h => ?_⟩
  · exact ⟨['/', 'u', '/', ':', 'i', '(', '\\', 'd', ')', '?', '*'], by decide +kernel⟩
  · have hsep := ((exists_parse_iff_wellFormed hd).mp h).separated
    simp [isPlain, isFixed, Part.fixed] at hsep

end Part

end ComponentPattern
