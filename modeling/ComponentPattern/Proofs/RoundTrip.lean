/-
# Canonical patterns are read back

Where the leading code point has no meaning of its own in a pattern and cannot go on with a name,
the canonical pattern of a well-formed list is read back to the very same list; for any other
leading code point there is a list for which it is not (`Part.leadIsPlain_iff_roundTrip`).

What a part is written as depends on its neighbours, and so does what may follow it. Both come
down to the first code point of what is written behind a part, which `Part.Follows` describes.
-/
import ComponentPattern.Proofs.Image

namespace ComponentPattern

/-! ## Options and encoders -/

/-- The leading code point has no meaning of its own in a pattern, and cannot go on with a name. -/
def Options.LeadIsPlain (o : Options) : Prop :=
  ∀ p ∈ o.lead, p ∉ Text.patternSymbols ∧ isNameContinue p = false

/-- An encoder that changes no text twice, and makes a text empty exactly if it was. -/
structure Encoder.IsStable (f : Text → Text) : Prop where
  idem : ∀ t, f (f t) = f t
  nil : f [] = []
  ne_nil : ∀ t, t ≠ [] → f t ≠ []

/-! ## What is written -/

namespace Part

/-- The capture by which a part is written between its neighbours. -/
def shorthand (segment : Text) (previous : Option Part) (p : Part) (braced : Bool) : Capture :=
  match p.custom?, p.kind with
  | some name, .segment => .named 0 name none
  | some name, _ => .named 0 name (some (p.source segment))
  | none, .wildcard =>
    if bareAsterisk previous p braced then .wildcard 0 else .group 0 wildcardSource
  | none, _ => .group 0 (p.source segment)

/-- What a part is written as between its neighbours. -/
def written (o : Options) (segment : Text) (previous : Option Part) (p : Part)
    (next : Option Part) : Text :=
  if p.isFixed then
    if p.modifier = .once then Text.escapePattern p.value
    else inBraces (Text.escapePattern p.value) ++ p.modifier.text
  else
    let braced := p.needsBraces o previous next
    let inner := Text.escapePattern p.before ++ (p.shorthand segment previous braced).text
      ++ p.writeAfter
    (if braced then inBraces inner else inner) ++ p.modifier.text

/-- What parts are written as, behind `previous`. -/
def writtenAll (o : Options) (segment : Text) (previous : Option Part) : List Part → Text
  | [] => []
  | p :: ps => p.written o segment previous ps.head? ++ writtenAll o segment (some p) ps

variable {o : Options} {segment : Text}

/-- The name of its own that a part has is what `custom?` finds. -/
theorem hasCustomName_eq (p : Part) : p.hasCustomName = p.custom?.isSome := by
  unfold hasCustomName custom?
  cases p.name with
  | none => rfl
  | some name => cases name <;> rfl

/-- The name and the expression of a part are written as its capture is spelt. -/
theorem IsProper.label_append_source (hs : o.segmentSource = .ok segment) {p : Part}
    (hkind : p.kind ≠ .fixed) {name : Name} (hname : p.name = some name)
    (previous : Option Part) (braced : Bool) :
    ∃ t, p.writeSource o previous braced = .ok t
      ∧ (if name.isCustom then ':' :: name.text else []) ++ t
        = (p.shorthand segment previous braced).text := by
  cases name with
  | custom n =>
    have hc : p.custom? = some n := by simp [custom?, hname]
    have hcustom : p.hasCustomName = true := by simp [hasCustomName, hname, Name.isCustom]
    unfold writeSource shorthand source
    cases hk : p.kind with
    | fixed => exact absurd hk hkind
    | segment => exact ⟨[], by simp [hcustom], by simp [hc, Capture.text, Name.isCustom, Name.text]⟩
    | wildcard =>
      refine ⟨'(' :: (wildcardSource ++ [')']), by simp [bareAsterisk, hcustom], ?_⟩
      simp [hc, Capture.text, Name.isCustom, Name.text]
    | expression =>
      refine ⟨'(' :: (p.value ++ [')']), rfl, ?_⟩
      simp [hc, Capture.text, Name.isCustom, Name.text]
  | ordinal n =>
    have hc : p.custom? = none := by simp [custom?, hname]
    have hcustom : p.hasCustomName = false := by simp [hasCustomName, hname, Name.isCustom]
    unfold writeSource shorthand source
    cases hk : p.kind with
    | fixed => exact absurd hk hkind
    | segment =>
      refine ⟨'(' :: (segment ++ [')']), by simp [hcustom, hs, Except.map], ?_⟩
      simp [hc, Capture.text, Name.isCustom]
    | wildcard =>
      cases hbare : bareAsterisk previous p braced with
      | true => exact ⟨['*'], rfl, by simp [hc, Capture.text, Name.isCustom]⟩
      | false =>
        exact ⟨'(' :: (wildcardSource ++ [')']), rfl, by simp [hc, Capture.text, Name.isCustom]⟩
    | expression =>
      exact ⟨'(' :: (p.value ++ [')']), rfl, by simp [hc, Capture.text, Name.isCustom]⟩

/-- A part is written, whatever its neighbours are, if it has a name in case it captures. -/
theorem write_eq (hs : o.segmentSource = .ok segment) {p : Part}
    (h : p.kind ≠ .fixed → p.name ≠ none) (position : Nat) (previous next : Option Part) :
    p.write o position previous next = .ok (p.written o segment previous next) := by
  unfold write written
  by_cases hfixed : p.isFixed = true
  · rw [if_pos hfixed, if_pos hfixed]
    split <;> rfl
  · rw [if_neg hfixed, if_neg hfixed]
    have hkind : p.kind ≠ .fixed := mt isFixed_iff.mpr hfixed
    cases hname : p.name with
    | none => exact absurd hname (h hkind)
    | some name =>
      obtain ⟨t, hsource, htext⟩ := IsProper.label_append_source hs hkind hname previous
        (p.needsBraces o previous next)
      simp only [hsource]
      show Except.ok _ = _
      rw [← htext]
      simp only [List.append_assoc]

/-- Parts of which the captures have names are written in order. -/
theorem writeAll_eq (hs : o.segmentSource = .ok segment) {ps : List Part}
    (h : ∀ p ∈ ps, p.kind ≠ .fixed → p.name ≠ none) (position : Nat) (previous : Option Part) :
    writeAll o position previous ps = .ok (writtenAll o segment previous ps) := by
  induction ps generalizing position previous with
  | nil => rfl
  | cons p ps ih =>
    have hp := write_eq hs (h p List.mem_cons_self) position previous ps.head?
    have hps := ih (fun q hq => h q (List.mem_cons_of_mem p hq)) (position + 1) (some p)
    rw [writeAll, hp, hps]
    rfl

/-! ## What follows a part -/

/-- What the first code point of a text written behind `previous` for a list that starts with `next`
tells about the two. -/
structure Follows (o : Options) (previous next : Option Part) (s : Text) : Prop where
  /-- Nothing that modifies is written behind an unmodified capture. -/
  modifier : s.StartsIn Modifier.symbols →
    previous.all (fun q => q.isFixed || q.modifier != .once) = true
  /-- What would go on with a name is known to. -/
  name : s.GoesOnWithName → next.any extendsName = true
  /-- A group without a name of its own is known to extend a name. -/
  group : s.StartsIn ['('] → next.any extendsName = true
  /-- No capture is written right behind the leading code point at the end of a text. -/
  lead : s.StartsIn Capture.symbols →
    previous.all (fun q => !(q.isFixed && o.endsWithLead q.value)) = true

/-- Nothing is known to follow where the first code point is none of those. -/
theorem follows_of_head {o : Options} {previous next : Option Part} {c : Char} {s : Text}
    (hc : c ∉ Modifier.symbols ∧ c ∉ Capture.symbols)
    (hname : isNameContinue c = true → next.any extendsName = true) :
    Follows o previous next (c :: s) where
  modifier h := absurd (Text.startsIn_cons.mp h) hc.1
  name h := hname h
  group h := by
    refine absurd ?_ hc.2
    obtain rfl := List.mem_singleton.mp (Text.startsIn_cons.mp h)
    decide
  lead h := absurd (Text.startsIn_cons.mp h) hc.2

/-- What is no symbol of patterns starts neither a token, a modifier nor a capture. -/
theorem not_mem_symbols_of_not_mem {c : Char} (h : c ∉ Text.patternSymbols) :
    c ∉ Token.symbols ∧ c ∉ Modifier.symbols ∧ c ∉ Capture.symbols := by
  simp only [Text.patternSymbols, Token.symbols, Modifier.symbols, Capture.symbols, List.mem_cons,
    List.not_mem_nil, or_false, not_or] at h ⊢
  grind

/-- What holds of a capture that is written without braces. -/
structure IsBare (o : Options) (previous : Option Part) (p : Part) (next : Option Part) : Prop where
  after : p.after = []
  before : p.before = [] ∨ o.isLead p.before = true
  name : p.hasCustomName = true → p.kind = .segment → p.modifier = .once →
    next.any extendsName = false
  lead : p.before = [] →
    previous.all (fun q => !(q.isFixed && o.endsWithLead q.value)) = true

/-- What needs no braces can stand bare. -/
theorem isBare_of_needsBraces {previous next : Option Part} {p : Part}
    (h : p.needsBraces o previous next = false) : p.IsBare o previous next := by
  unfold needsBraces at h
  simp only [Bool.or_eq_false_iff, Bool.and_eq_false_iff, Bool.not_eq_false'] at h
  obtain ⟨⟨⟨hafter, hbefore⟩, hname⟩, hlead⟩ := h
  refine ⟨by simpa using hafter, ?_, ?_, ?_⟩
  · rcases hbefore with hb | hb
    · exact .inl (by simpa using hb)
    · exact .inr hb
  · intro hc hk hm
    simpa [hc, hk, hm] using hname
  · intro hb
    have hany : previous.any (fun q => q.isFixed && o.endsWithLead q.value) = false := by
      simpa [hb] using hlead
    cases previous with
    | none => rfl
    | some q =>
      have hq : (q.isFixed && o.endsWithLead q.value) = false := hany
      rw [Option.all_some, hq]
      rfl

/-- Proper fixed text has no text around it and is not empty. -/
theorem IsProper.ne_nil_of_fixed {p : Part} (h : p.IsProper o) (hp : p.isFixed = true) :
    p.before = [] ∧ p.after = [] ∧ p.value ≠ [] := by
  exact (h.text (isFixed_iff.mp hp)).2

/-- A text is written with its own first code point, or with a backslash. -/
theorem follows_text {previous : Option Part} {p : Part} (h : p.IsProper o)
    (hp : p.isFixed = true) (s : Text) :
    Follows o previous (some p) (Text.escapePattern p.value ++ s) := by
  obtain ⟨hbefore, hafter, hvalue⟩ := h.ne_nil_of_fixed hp
  cases hv : p.value with
  | nil => exact absurd hv hvalue
  | cons c t =>
    rw [Text.escapePattern, Text.escapeSymbols_cons]
    split
    · exact follows_of_head (by decide) (fun hn => absurd hn (by decide))
    · rename_i hc
      refine follows_of_head (not_mem_symbols_of_not_mem hc).2 (fun hn => ?_)
      simp [extendsName, hbefore, hafter, hp, Text.startsInName, hv, hn]

/-- A capture without braces and without text before it starts with its name, its group or an
asterisk. -/
theorem follows_shorthand {previous next : Option Part} {p : Part} (h : p.IsProper o)
    (hp : p.isFixed = false) (hbare : p.IsBare o previous next) (hbefore : p.before = [])
    (s : Text) :
    Follows o previous (some p) ((p.shorthand segment previous false).text ++ s) := by
  have hlead := hbare.lead hbefore
  have hkind : p.kind ≠ .fixed := by simpa [isFixed] using hp
  cases hc : p.custom? with
  | some name =>
    have htext : ∃ t, (p.shorthand segment previous false).text ++ s = ':' :: t := by
      unfold shorthand
      rw [hc]
      cases p.kind <;> exact ⟨_, rfl⟩
    obtain ⟨t, ht⟩ := htext
    rw [ht]
    exact ⟨fun hm => absurd (Text.startsIn_cons.mp hm) (by decide),
      fun hn => absurd hn (by decide : ¬ isNameContinue ':' = true),
      fun hg => absurd (Text.startsIn_cons.mp hg) (by decide), fun _ => hlead⟩
  | none =>
    have hextends : (some p).any extendsName = true := by
      cases hname : p.name with
      | none => exact absurd hname (h.named hkind)
      | some name =>
        cases name with
        | custom t => simp [custom?, hname] at hc
        | ordinal n => simp [extendsName, hbefore, hbare.after, hp, hname, Name.isCustom]
    have htext : (∃ t, (p.shorthand segment previous false).text ++ s = '(' :: t)
        ∨ (∃ t, (p.shorthand segment previous false).text ++ s = '*' :: t)
          ∧ bareAsterisk previous p false = true := by
      unfold shorthand
      rw [hc]
      cases p.kind with
      | wildcard =>
        cases hb : bareAsterisk previous p false with
        | true => exact .inr ⟨⟨_, rfl⟩, rfl⟩
        | false => exact .inl ⟨_, rfl⟩
      | _ => exact .inl ⟨_, rfl⟩
    -- the asterisk is written only where it cannot be taken for a modifier
    rcases htext with ⟨t, ht⟩ | ⟨⟨t, ht⟩, hasterisk⟩
    · rw [ht]
      exact ⟨fun hm => absurd (Text.startsIn_cons.mp hm) (by decide), fun _ => hextends,
        fun _ => hextends, fun _ => hlead⟩
    · rw [ht]
      refine ⟨fun _ => ?_, fun _ => hextends, fun _ => hextends, fun _ => hlead⟩
      simp only [bareAsterisk, hbefore, List.isEmpty_nil, Bool.not_true, Bool.or_false,
        Bool.and_eq_true] at hasterisk
      exact hasterisk.2

/-- **What follows a part** is described by the first code point that is written for it. -/
theorem follows_writtenAll (hl : o.LeadIsPlain) {ps : List Part} (h : ∀ p ∈ ps, p.IsProper o)
    (previous : Option Part) :
    Follows o previous ps.head? (writtenAll o segment previous ps) := by
  cases ps with
  | nil =>
    exact ⟨fun h => absurd h Text.not_startsIn_nil, nofun,
      fun h => absurd h Text.not_startsIn_nil, fun h => absurd h Text.not_startsIn_nil⟩
  | cons p ps =>
    have hp := h p List.mem_cons_self
    rw [writtenAll, written]
    by_cases hfixed : p.isFixed = true
    · rw [if_pos hfixed]
      split
      · exact follows_text hp hfixed _
      · exact follows_of_head (by decide) (fun hn => absurd hn (by decide))
    · rw [if_neg hfixed]
      simp only
      cases hbraces : p.needsBraces o previous ps.head? with
      | true => exact follows_of_head (by decide) (fun hn => absurd hn (by decide))
      | false =>
        have hbare := isBare_of_needsBraces hbraces
        rw [if_neg (by decide)]
        simp only [List.append_assoc]
        rcases hbare.before with hb | hb
        · rw [hb]
          exact follows_shorthand hp (by simpa using hfixed) hbare hb _
        · -- the leading code point stands for itself
          obtain ⟨c, hc, hb⟩ := Options.isLead_iff.mp hb
          obtain ⟨hsym, hname⟩ := hl c hc
          rw [hb, Text.escapePattern, Text.escapeSymbols_cons, if_neg hsym]
          refine follows_of_head (not_mem_symbols_of_not_mem hsym).2 (fun hn => ?_)
          rw [hname] at hn
          cases hn

/-! ## Reading canonical patterns back -/

/-- A proper capture, written short, stands for its part. -/
theorem IsProper.stands_shorthand (hs : o.segmentSource = .ok segment)
    (hne : segment ≠ wildcardSource) {p : Part} (h : p.IsProper o) (hp : p.kind ≠ .fixed)
    (previous : Option Part) (braced : Bool) :
    (p.shorthand segment previous braced).Stands ⟨o, segment, id⟩ p := by
  have hclass := h.classify_source hs hne hp
  unfold shorthand
  cases hc : p.custom? with
  | some name =>
    cases hk : p.kind with
    | fixed => exact absurd hk hp
    | segment =>
      have hsource : p.source segment = segment := by rw [source, hk]
      rw [hsource] at hclass
      exact ⟨hclass, hc.symm⟩
    | wildcard => exact ⟨hclass, hc.symm⟩
    | expression => exact ⟨hclass, hc.symm⟩
  | none =>
    cases hk : p.kind with
    | fixed => exact absurd hk hp
    | segment => exact ⟨hclass, hc.symm⟩
    | wildcard =>
      have hsource : p.source segment = wildcardSource := by rw [source, hk]
      rw [hsource] at hclass
      simp only
      split
      · exact ⟨hclass, hc.symm⟩
      · exact ⟨hclass, hc.symm⟩
    | expression => exact ⟨hclass, hc.symm⟩

/-- A capture fits where it is written, if what follows cannot go on with a bare name. -/
theorem IsProper.fits_shorthand (hb : Group.IsBody segment) {p : Part} (h : p.IsProper o)
    (hp : p.kind ≠ .fixed) (previous : Option Part) (braced : Bool) {s : Text}
    (hname : p.hasCustomName = true → p.kind = .segment →
      ¬ s.GoesOnWithName ∧ ¬ s.StartsIn ['(']) :
    (p.shorthand segment previous braced).Fits s := by
  have hbody := h.isBody_source hb hp
  unfold shorthand
  cases hc : p.custom? with
  | some name =>
    have hcustom : p.hasCustomName = true := by rw [hasCustomName_eq, hc]; rfl
    have hid := h.identifier name hc
    cases hk : p.kind with
    | fixed => exact absurd hk hp
    | segment => exact ⟨hid, hname hcustom hk⟩
    | wildcard => exact ⟨hid, hbody⟩
    | expression => exact ⟨hid, hbody⟩
  | none =>
    cases hk : p.kind with
    | fixed => exact absurd hk hp
    | segment => exact hbody
    | wildcard =>
      simp only
      split
      · trivial
      · exact Group.isBody_wildcardSource
    | expression => exact hbody

/-- No code point with a meaning of its own can go on with a name. -/
theorem not_mem_of_isNameContinue {c : Char} (h : isNameContinue c = true) :
    c ∉ Text.patternSymbols := by
  intro hc
  simp only [Text.patternSymbols, List.mem_cons, List.not_mem_nil, or_false] at hc
  rcases hc with rfl | rfl | rfl | rfl | rfl | rfl | rfl | rfl | rfl <;> revert h <;> decide

/-- The text after a capture is spelt as it is written. -/
theorem spells_writeAfter (p : Part) : Text.Spells p.writeAfter p.after := by
  unfold writeAfter
  split
  · rename_i hcond
    cases ha : p.after with
    | nil => simp [Text.startsInName, ha] at hcond
    | cons c t =>
      have hc : isNameContinue c = true := by
        simp only [Text.startsInName, ha, Bool.and_eq_true] at hcond
        exact hcond.2
      rw [Text.escapePattern, Text.escapeSymbols_cons, if_neg (not_mem_of_isNameContinue hc)]
      exact .escaped (Text.spells_escapePattern t)
  · exact Text.spells_escapePattern p.after

/-- The text after a bare name is kept apart from it. -/
theorem not_goesOn_writeAfter {p : Part} (hc : p.hasCustomName = true) (hk : p.kind = .segment)
    (s : Text) :
    ¬ Text.GoesOnWithName (p.writeAfter ++ '}' :: s)
      ∧ ¬ Text.StartsIn ['('] (p.writeAfter ++ '}' :: s) := by
  cases ha : p.writeAfter with
  | nil =>
    exact ⟨(by decide : ¬ isNameContinue '}' = true),
      fun h => absurd (Text.startsIn_cons.mp h) (by decide)⟩
  | cons c t =>
    have hspells := spells_writeAfter p
    rw [ha] at hspells
    refine ⟨fun hn => ?_, hspells.not_startsIn (by simp) (by decide) (by decide)⟩
    -- a code point that goes on with a name is written behind a backslash of its own
    have hn : isNameContinue c = true := hn
    unfold writeAfter at ha
    rw [hc, hk] at ha
    simp only [beq_self_eq_true, Bool.true_and] at ha
    split at ha
    · obtain rfl : '\\' = c := (List.cons.inj ha).1
      exact absurd hn (by decide)
    · rename_i hstart
      cases hv : p.after with
      | nil => rw [hv] at ha; cases ha
      | cons d u =>
        rw [hv, Text.escapePattern, Text.escapeSymbols_cons] at ha
        split at ha
        · obtain rfl : '\\' = c := (List.cons.inj ha).1
          exact absurd hn (by decide)
        · obtain rfl : d = c := (List.cons.inj ha).1
          exact hstart (by simpa [Text.startsInName, hv] using hn)

/-- What follows a bare name, its modifier included, cannot go on with it. -/
theorem IsBare.not_goesOn {previous next : Option Part} {p : Part} {s : Text}
    (h : p.IsBare o previous next) (hs : Follows o (some p) next s)
    (hc : p.hasCustomName = true) (hk : p.kind = .segment) :
    ¬ Text.GoesOnWithName (p.modifier.text ++ s)
      ∧ ¬ Text.StartsIn ['('] (p.modifier.text ++ s) := by
  have hname := h.name hc hk
  cases hm : p.modifier with
  | once =>
    have hnext := hname hm
    constructor
    · intro hgo
      simp [hs.name hgo] at hnext
    · intro hgroup
      simp [hs.group hgroup] at hnext
  | optional =>
    exact ⟨(by decide : ¬ isNameContinue '?' = true),
      fun hg => absurd (Text.startsIn_cons.mp hg) (by decide)⟩
  | zeroOrMore =>
    exact ⟨(by decide : ¬ isNameContinue '*' = true),
      fun hg => absurd (Text.startsIn_cons.mp hg) (by decide)⟩
  | oneOrMore =>
    exact ⟨(by decide : ¬ isNameContinue '+' = true),
      fun hg => absurd (Text.startsIn_cons.mp hg) (by decide)⟩

/-- **A canonical pattern is read back**, behind the parts that the draft already stands for. -/
theorem yields_writtenAll (hl : o.LeadIsPlain) (hs : o.segmentSource = .ok segment)
    (hb : Group.IsBody segment) (hne : segment ≠ wildcardSource) {d : Draft}
    {done rest : List Part} (hd : d.Holds done) (hw : WellFormed o (done ++ rest)) :
    Draft.Yields ⟨o, segment, id⟩ d (writtenAll o segment done.getLast? rest) (done ++ rest) := by
  induction rest generalizing d done with
  | nil =>
    rw [List.append_nil, ← hd.parts]
    exact Draft.Yields.nil _ d
  | cons p rest ih =>
    have happ : done ++ p :: rest = done ++ [p] ++ rest := by simp
    rw [happ] at hw ⊢
    obtain ⟨hdone, hp⟩ := wellFormed_concat_iff.mp hw.left_of_append
    -- all that the pieces ask of what follows them comes from its first code point
    have hfollow : Follows o (some p) rest.head? (writtenAll o segment (some p) rest) :=
      follows_writtenAll hl (fun q hq => hw.proper q (List.mem_append_right _ hq)) (some p)
    have hnext := fun {d' : Draft} (hd' : d'.Holds (done ++ [p])) => ih hd' hw
    rw [List.getLast?_concat] at hnext
    rw [writtenAll, written]
    by_cases hfixed : p.isFixed = true
    · rw [if_pos hfixed]
      obtain ⟨-, -, hvalue⟩ := hp.proper.ne_nil_of_fixed hfixed
      by_cases hm : p.modifier = .once
      · rw [if_pos hm]
        have hplain : p.isPlain = true := by simp [isPlain, hfixed, hm]
        refine .text (Text.spells_escapePattern p.value) (fun hstart => ?_)
          (hnext (hd.addText hp hplain))
        simpa [hfixed] using hfollow.lead hstart
      · rw [if_neg hm]
        have hyields := Draft.Yields.bracedText (Text.spells_escapePattern p.value) hvalue hm
          (hnext (hd.addFixed hp.proper hfixed))
        simpa [inBraces] using hyields
    · rw [if_neg hfixed]
      have hkind : p.kind ≠ .fixed := mt isFixed_iff.mpr hfixed
      have honce : p.modifier = .once →
          ¬ Text.StartsIn Modifier.symbols (writtenAll o segment (some p) rest) := by
        intro hm hstart
        simpa [hfixed, hm] using hfollow.modifier hstart
      simp only
      cases hbraces : p.needsBraces o done.getLast? rest.head? with
      | true =>
        have hstands := hp.proper.stands_shorthand hs hne hkind done.getLast? true
        have hfree := hd.not_isTaken hdone hp hkind hstands.name
        have hyields := Draft.Yields.braces (Text.spells_escapePattern p.before)
          (spells_writeAfter p)
          (hp.proper.fits_shorthand hb hkind done.getLast? true
            fun hc hk => not_goesOn_writeAfter hc hk _)
          honce hfree (hnext (hd.placed hp hkind hstands))
        simpa [inBraces] using hyields
      | false =>
        have hbare := isBare_of_needsBraces hbraces
        have hstands := hp.proper.stands_shorthand hs hne hkind done.getLast? false
        have hfree := hd.not_isTaken hdone hp hkind hstands.name
        have hfits := hp.proper.fits_shorthand hb hkind done.getLast? false
          (hbare.not_goesOn hfollow)
        have hplaced := hnext (hd.placed hp hkind hstands)
        have hafter : p.writeAfter = [] := by
          simp [writeAfter, hbare.after, Text.startsInName, Text.escapePattern]
        rw [if_neg (by decide), hafter]
        rw [hbare.after] at hplaced
        rcases hbare.before with hbefore | hbefore
        · rw [hbefore] at hplaced ⊢
          have hyields := Draft.Yields.capture hfits honce hfree hplaced
          simpa [Text.escapePattern] using hyields
        · obtain ⟨c, hc, hbefore⟩ := Options.isLead_iff.mp hbefore
          obtain ⟨hsym, -⟩ := hl c hc
          rw [hbefore] at hplaced ⊢
          have hyields := Draft.Yields.leadCapture hc (not_mem_symbols_of_not_mem hsym).1 hfits
            honce hfree hplaced
          simpa [Text.escapePattern, Text.escapeSymbols_cons, hsym] using hyields

/-! ## Encoders -/

@[simp] theorem encode_isPlain (f : Text → Text) (p : Part) :
    (p.encode f).isPlain = p.isPlain := by
  simp [isPlain, isFixed]

@[simp] theorem encode_custom? (f : Text → Text) (p : Part) :
    (p.encode f).custom? = p.custom? := by
  simp [custom?]

@[simp] theorem encode_ordinal? (f : Text → Text) (p : Part) :
    (p.encode f).ordinal? = p.ordinal? := by
  simp [ordinal?]

/-- Encoding twice is encoding once. -/
theorem encode_encode {f : Text → Text} (hf : Encoder.IsStable f) (p : Part) :
    (p.encode f).encode f = p.encode f := by
  unfold encode
  cases hp : p.isFixed <;> simp [isFixed] at hp <;> simp [isFixed, hp, hf.idem]

/-- A stable encoder keeps parts proper. -/
theorem IsProper.encode {f : Text → Text} (hf : Encoder.IsStable f) {p : Part} (h : p.IsProper o) :
    (p.encode f).IsProper o := by
  by_cases hfixed : p.isFixed = true
  · have hkind : p.kind = .fixed := isFixed_iff.mp hfixed
    obtain ⟨hname, hbefore, hafter, hvalue⟩ := h.text hkind
    rw [Part.encode, if_pos hfixed]
    refine ⟨fun _ => ⟨hname, hbefore, hafter, hf.ne_nil _ hvalue⟩, fun hk => absurd hkind hk,
      ?_, ?_, ?_⟩
    · rintro (hk | hk) <;> rw [hkind] at hk <;> cases hk
    · intro hk
      rw [hkind] at hk
      cases hk
    · intro t ht
      simp [custom?, hname] at ht
  · rw [Part.encode, if_neg hfixed]
    have hkind : p.kind ≠ .fixed := mt isFixed_iff.mpr hfixed
    exact ⟨fun hk => absurd hk hkind, h.named, h.wildcard, h.expression, h.identifier⟩

/-- Encoded parts are well formed if the parts are. -/
theorem WellFormed.encode {f : Text → Text} (hf : Encoder.IsStable f) {ps : List Part}
    (h : WellFormed o ps) : WellFormed o (ps.map (Part.encode f)) where
  proper := by
    intro q hq
    obtain ⟨p, hp, rfl⟩ := List.mem_map.mp hq
    exact (h.proper p hp).encode hf
  separated := by
    rw [List.isChain_map]
    simpa using h.separated
  distinct := by
    rw [List.filterMap_map]
    simpa [Function.comp_def] using h.distinct
  numbered := by
    rw [List.filterMap_map]
    simpa [Function.comp_def] using h.numbered

/-! ## The round trip -/

theorem outcome_canonical (o : Options) (ps : List Part) :
    (canonical o ps).outcome = writeAll o 0 none ps := rfl

/-- What a draft without parts yields is parsed. -/
theorem parse_of_yields (hs : o.segmentSource = .ok segment) {s : Text} {ps : List Part}
    (h : Draft.Yields ⟨o, segment, id⟩ {} s ps) : (Part.parse o id s).outcome = .ok ps := by
  obtain ⟨ts, hcov, hread⟩ := h 0
  exact (parse_eq_ok_iff hs).mpr ⟨ts, hcov, hread⟩

/-- The canonical pattern of what was parsed is parsed to the same. -/
theorem exists_canonical_parse (hl : o.LeadIsPlain)
    (hd : ∀ c ∈ o.delimiter, isAscii c = true) {f : Text → Text} (hf : Encoder.IsStable f)
    {s : Text} {ps : List Part} (h : (Part.parse o f s).outcome = .ok ps) :
    ∃ c, (canonical o ps).outcome = .ok c ∧ (Part.parse o f c).outcome = .ok ps := by
  obtain ⟨segment, hs, hb, hne⟩ := Options.exists_segmentSource hd
  rw [outcome_parse_encode] at h
  obtain ⟨qs, hid, rfl⟩ := map_eq_ok_iff.mp h
  have hw := (wellFormed_of_parse hd hid).encode hf
  have hback : (Part.parse o id (writtenAll o segment none (qs.map (Part.encode f)))).outcome
      = .ok (qs.map (Part.encode f)) :=
    parse_of_yields hs (yields_writtenAll hl hs hb hne Draft.holds_empty hw)
  -- the parts are encoded once more on the way back, which changes nothing
  refine ⟨_, writeAll_eq hs (fun p hp => (hw.proper p hp).named) 0 none, ?_⟩
  rw [outcome_parse_encode]
  refine map_eq_ok_iff.mpr ⟨_, hback, ?_⟩
  simp [encode_encode hf]

/-! ## Other leading code points -/

/-- A segment with a name and a text before it. -/
def segmentBehind (before name : Text) : Part := capture .segment [] .once (.custom name) before []

/-- A segment with an identifier as its name is proper. -/
theorem isProper_segmentBehind {before name : Text} (h : name.IsIdentifier) :
    (segmentBehind before name).IsProper o where
  text := nofun
  named := by simp [segmentBehind, capture]
  wildcard _ := rfl
  expression := nofun
  identifier t ht := by
    obtain rfl : name = t := Option.some.inj ht
    exact h

/-- A named segment is placed behind any flushed draft that has no part of its name. -/
theorem placed_named (d : Draft) (before name : Text) (hd : d.pending = []) :
    Draft.placed ⟨o, segment, id⟩ d before (.named 0 name none) [] .once
      = ⟨d.parts ++ [segmentBehind before name], [], d.ordinal⟩ := by
  unfold Draft.placed Draft.Context.part Draft.Context.classify
  simp [Draft.Context.source, Draft.nameOf, Draft.ordinalAfter, segmentBehind, hd]

/-- A leading code point with a meaning of its own is written behind a backslash, and so becomes
text. -/
theorem written_symbol {c : Char} (hlead : o.lead = some c) (hc : c ∈ Text.patternSymbols) :
    writtenAll o segment none [segmentBehind [c] ['a']] = ['\\', c, ':', 'a'] := by
  have hbare : (segmentBehind [c] ['a']).needsBraces o none none = false := by
    simp [needsBraces, segmentBehind, capture, Options.isLead_iff.mpr ⟨c, hlead, rfl⟩]
  simp only [writtenAll, written, List.head?_nil, hbare]
  simp [segmentBehind, capture, isFixed, Text.escapePattern, Text.escapeSymbols_cons, hc, shorthand,
    custom?, Capture.text, writeAfter, Text.startsInName, Modifier.text]

/-- An escaped code point does not belong to the capture behind it. -/
theorem parse_symbol (hs : o.segmentSource = .ok segment) (c : Char) :
    (Part.parse o id ['\\', c, ':', 'a']).outcome
      = .ok [Part.fixed [c] .once, segmentBehind [] ['a']] := by
  refine parse_of_yields hs (Draft.Yields.escaped ?_)
  refine Draft.Yields.capture (c := .named 0 ['a'] none) (m := .once) (s := [])
    ⟨⟨by decide, nofun⟩, nofun, Text.not_startsIn_nil⟩ (fun _ => Text.not_startsIn_nil) rfl ?_
  rw [placed_named _ _ _ rfl]
  exact Draft.Yields.nil _ _

/-- A leading code point that goes on with names is read into the name before it. -/
theorem written_name {c : Char} (hlead : o.lead = some c) (hc : c ∉ Text.patternSymbols) :
    writtenAll o segment none [segmentBehind [] ['a'], segmentBehind [c] ['b']]
      = [':', 'a', c, ':', 'b'] := by
  have hfirst : (segmentBehind [] ['a']).needsBraces o none (some (segmentBehind [c] ['b']))
      = false := by
    simp [needsBraces, segmentBehind, capture, extendsName]
  have hsecond : (segmentBehind [c] ['b']).needsBraces o (some (segmentBehind [] ['a'])) none
      = false := by
    simp [needsBraces, segmentBehind, capture, Options.isLead_iff.mpr ⟨c, hlead, rfl⟩]
  simp only [writtenAll, written, List.head?_nil, List.head?_cons, hfirst, hsecond]
  simp [segmentBehind, capture, isFixed, Text.escapePattern, Text.escapeSymbols_cons, hc, shorthand,
    custom?, Capture.text, writeAfter, Text.startsInName, Modifier.text]

/-- A code point that goes on with the name does not belong to the capture behind it. -/
theorem parse_name (hs : o.segmentSource = .ok segment) {c : Char}
    (hc : isNameContinue c = true) :
    (Part.parse o id [':', 'a', c, ':', 'b']).outcome
      = .ok [segmentBehind [] ['a', c], segmentBehind [] ['b']] := by
  refine parse_of_yields hs ?_
  refine Draft.Yields.capture (c := .named 0 ['a', c] none) (m := .once) (s := [':', 'b'])
    ⟨⟨by decide, by simpa using hc⟩, (by decide : ¬ isNameContinue ':' = true),
      fun h => absurd (Text.startsIn_cons.mp h) (by decide)⟩
    (fun _ h => absurd (Text.startsIn_cons.mp h) (by decide)) rfl ?_
  rw [placed_named _ _ _ rfl]
  refine Draft.Yields.capture (c := .named 0 ['b'] none) (m := .once) (s := [])
    ⟨⟨by decide, nofun⟩, nofun, Text.not_startsIn_nil⟩ (fun _ => Text.not_startsIn_nil) ?_ ?_
  · simp [Draft.isTaken, Draft.flushed, Draft.nameOf, segmentBehind, capture]
  · rw [placed_named _ _ _ rfl]
    exact Draft.Yields.nil _ _

/-! ## The exact domain -/

theorem wellFormed_segmentBehind (before name : Text) (h : name.IsIdentifier) :
    WellFormed o [segmentBehind before name] := by
  refine wellFormed_concat_iff.mpr ⟨wellFormed_nil o, isProper_segmentBehind h, nofun, ?_, nofun⟩
  intro t _ hin
  cases hin

/-- If canonical patterns are always read back, the leading code point is plain. -/
theorem leadIsPlain_of_roundTrip (hd : ∀ c ∈ o.delimiter, isAscii c = true)
    (h : ∀ s ps, (Part.parse o id s).outcome = .ok ps →
      ∃ c, (canonical o ps).outcome = .ok c ∧ (Part.parse o id c).outcome = .ok ps) :
    o.LeadIsPlain := by
  obtain ⟨segment, hs, -, -⟩ := Options.exists_segmentSource hd
  intro p hlead
  have hback : ∀ ps, WellFormed o ps →
      (Part.parse o id (writtenAll o segment none ps)).outcome = .ok ps := by
    intro ps hw
    obtain ⟨s, hparse⟩ := exists_parse_of_wellFormed hd hw
    obtain ⟨c, hcanonical, hc⟩ := h s ps hparse
    rw [outcome_canonical, writeAll_eq hs fun p hp => (hw.proper p hp).named] at hcanonical
    obtain rfl := Except.ok.inj hcanonical
    exact hc
  -- a symbol is written behind a backslash, and comes back as text
  have hsym : p ∉ Text.patternSymbols := by
    intro hp
    have hwrong := hback _ (wellFormed_segmentBehind [p] ['a'] ⟨by decide, nofun⟩)
    rw [written_symbol hlead hp, parse_symbol hs] at hwrong
    simp at hwrong
  refine ⟨hsym, ?_⟩
  -- a code point of names is read into the name in front of it
  by_contra hname
  have hw : WellFormed o [segmentBehind [] ['a'], segmentBehind [p] ['b']] := by
    have hfirst : WellFormed o [segmentBehind [] ['a']] :=
      wellFormed_segmentBehind [] ['a'] ⟨by decide, nofun⟩
    have hproper : IsProper o (segmentBehind [p] ['b']) := isProper_segmentBehind ⟨by decide, nofun⟩
    refine wellFormed_concat_iff.mpr ⟨hfirst, hproper, ?_, ?_, nofun⟩
    · simp [isPlain, isFixed, segmentBehind, capture]
    · simp [custom?, segmentBehind, capture]
  have hwrong := hback _ hw
  rw [written_name hlead hsym, parse_name hs (by simpa using hname)] at hwrong
  simp [segmentBehind, capture] at hwrong

/-- **The exact domain of the canonical round trip.** Where the delimiter is absent or ASCII,
canonical patterns are read back to the very same parts, under every stable encoder, if and only if
the leading code point is plain. -/
theorem leadIsPlain_iff_roundTrip {o : Options} (hd : ∀ c ∈ o.delimiter, isAscii c = true) :
    o.LeadIsPlain ↔ ∀ f, Encoder.IsStable f → ∀ s ps, (Part.parse o f s).outcome = .ok ps →
      ∃ c, (canonical o ps).outcome = .ok c ∧ (Part.parse o f c).outcome = .ok ps := by
  constructor
  · intro hl f hf s ps h
    exact exists_canonical_parse hl hd hf h
  · intro h
    exact leadIsPlain_of_roundTrip hd (h id ⟨fun _ => rfl, rfl, fun _ ht => ht⟩)

/-- A slash is plain, so patterns of paths are read back. Behind a letter some pattern is not. -/
theorem leadIsPlain_iff_roundTrip_pathname :
    (∀ c ∈ Options.pathname.delimiter, isAscii c = true)
      ∧ (∀ f, Encoder.IsStable f → ∀ s ps, (Part.parse Options.pathname f s).outcome = .ok ps →
        ∃ c, (canonical Options.pathname ps).outcome = .ok c
          ∧ (Part.parse Options.pathname f c).outcome = .ok ps)
      ∧ ¬ ∀ f, Encoder.IsStable f → ∀ s ps,
        (Part.parse { lead := some 'x' } f s).outcome = .ok ps →
          ∃ c, (canonical { lead := some 'x' } ps).outcome = .ok c
            ∧ (Part.parse { lead := some 'x' } f c).outcome = .ok ps := by
  have hd := Options.isAscii_delimiter_pathname
  refine ⟨hd, (leadIsPlain_iff_roundTrip hd).mp ?_, fun h => ?_⟩
  · intro p hp
    obtain rfl := Option.some.inj hp
    decide
  · have hplain := ((leadIsPlain_iff_roundTrip (by simp)).mpr h 'x' rfl).2
    exact absurd hplain (by decide)

end Part

end ComponentPattern
