/-
# When a pattern does not compile

A pattern is compiled in stages, and each has its own errors. Of a pattern that has parts, only two
things can go wrong, and both are seen at a single part: a text that is not ASCII, and a capture
that repeats with nothing to divide its occurrences (`Part.Offends`). The error is that of the first
part with such a fault. Checking the expression can only turn a success into one more error.

* `Part.fragment_eq_error_iff` and `Part.fragments_eq_error_iff` : one part and all parts;
* `Component.outcome_compile_of_parse` : what is left of the stages once there are parts;
* `Component.compile_failures` : the statement for whole patterns.
-/
import ComponentPattern.Component
import ComponentPattern.Proofs.Encoder
import ComponentPattern.Proofs.Location
import ComponentPattern.Proofs.RoundTrip

namespace ComponentPattern

/-! ## Texts that are not ASCII -/

/-- The first code point of a text that is not ASCII stands at `i`. -/
def Text.IsFirstNonAscii (t : Text) (i : Nat) : Prop :=
  (∃ c, t[i]? = some c ∧ isAscii c = false) ∧ ∀ j c, j < i → t[j]? = some c → isAscii c = true

/-- The index that is found is that of the first other code point. -/
theorem Text.firstNonAscii?_eq_some_iff {t : Text} {i : Nat} :
    t.firstNonAscii? = some i ↔ t.IsFirstNonAscii i := by
  rw [firstNonAscii?, List.findIdx?_eq_some_iff_getElem]
  constructor
  · rintro ⟨hi, hc, hbefore⟩
    refine ⟨⟨t[i], List.getElem?_eq_getElem hi, by simpa using hc⟩, fun j c hj hget => ?_⟩
    obtain ⟨hlength, rfl⟩ := List.getElem?_eq_some_iff.mp hget
    simpa using hbefore j hj
  · rintro ⟨⟨c, hget, hc⟩, hbefore⟩
    obtain ⟨hi, rfl⟩ := List.getElem?_eq_some_iff.mp hget
    refine ⟨hi, by simpa using hc, fun j hj => ?_⟩
    simpa using hbefore j _ hj (List.getElem?_eq_getElem (by omega))

/-- Escaping fails at the first code point that is not ASCII. -/
theorem Text.escapeExpression_of_isFirstNonAscii {t : Text} {i : Nat} (h : t.IsFirstNonAscii i) :
    Text.escapeExpression t = .error ⟨t, i⟩ := by
  rw [escapeExpression, firstNonAscii?_eq_some_iff.mpr h]

/-- A text is ASCII, or has a first code point that is not. -/
theorem Text.isAscii_or_exists (t : Text) :
    (∀ c ∈ t, isAscii c = true) ∨ ∃ i, t.IsFirstNonAscii i := by
  cases h : t.firstNonAscii? with
  | none => exact .inl (firstNonAscii?_eq_none_iff.mp h)
  | some i => exact .inr ⟨i, firstNonAscii?_eq_some_iff.mp h⟩

namespace Part

/-! ## One part -/

/-- A part of which nothing keeps it from having a fragment, its name apart. -/
structure IsFaultless (p : Part) : Prop where
  /-- The texts of the part are ASCII. -/
  ascii : ∀ t ∈ p.texts, ∀ c ∈ t, isAscii c = true
  /-- A capture that repeats has something to divide its occurrences. -/
  delimited : p.kind ≠ .fixed → p.modifier.repeats = true → p.before ≠ [] ∨ p.after ≠ []

/-- What is wrong with a part. Of the texts of a capture, the one before it is looked at first, and
both before its occurrences need to be divided. -/
inductive Offends (p : Part) : GenerationError → Prop where
  | text {i : Nat} (hp : p.kind = .fixed) (h : p.value.IsFirstNonAscii i) :
    Offends p (.nonAscii ⟨p.value, i⟩)
  | before {i : Nat} (hp : p.kind ≠ .fixed) (h : p.before.IsFirstNonAscii i) :
    Offends p (.nonAscii ⟨p.before, i⟩)
  | after {i : Nat} (hp : p.kind ≠ .fixed) (hbefore : ∀ c ∈ p.before, isAscii c = true)
    (h : p.after.IsFirstNonAscii i) : Offends p (.nonAscii ⟨p.after, i⟩)
  | undelimited {name : Name} (hp : p.kind ≠ .fixed) (hname : p.name = some name)
    (hrepeats : p.modifier.repeats = true) (hbefore : p.before = []) (hafter : p.after = []) :
    Offends p (.undelimited name)

variable {p : Part} {segment : Text} {position : Nat} {e : GenerationError}

/-- With a name, a part is expressible exactly if it is faultless. -/
theorem isExpressible_iff_isFaultless (hnamed : p.kind ≠ .fixed → p.name ≠ none) :
    p.IsExpressible ↔ p.IsFaultless := by
  have hdivided : (p.before ≠ [] ∨ p.after ≠ []) ↔ (p.before = [] → p.after ≠ []) := by
    rw [← imp_iff_not_or]
  by_cases hfixed : p.isFixed = true
  · have hkind : p.kind = .fixed := isFixed_iff.mp hfixed
    rw [IsExpressible, if_pos hfixed]
    constructor
    · intro h
      refine ⟨?_, fun hne => absurd hkind hne⟩
      simpa [texts, hfixed] using h
    · intro h
      simpa [texts, hfixed] using h.ascii
  · have hkind : p.kind ≠ .fixed := mt isFixed_iff.mpr hfixed
    rw [IsExpressible, if_neg hfixed]
    constructor
    · rintro ⟨-, hbefore, hafter, hrepeats⟩
      refine ⟨?_, fun _ hm => hdivided.mpr (hrepeats hm)⟩
      simpa [texts, hfixed] using ⟨hbefore, hafter⟩
    · intro h
      have htexts : (∀ c ∈ p.before, isAscii c = true) ∧ ∀ c ∈ p.after, isAscii c = true := by
        simpa [texts, hfixed] using h.ascii
      exact ⟨hnamed hkind, htexts.1, htexts.2, fun hm => hdivided.mp (h.delimited hkind hm)⟩

/-- What is wrong with a part is the error of its fragment. -/
theorem Offends.fragment_eq (h : p.Offends e) (hnamed : p.kind ≠ .fixed → p.name ≠ none) :
    p.fragment segment position = .error e := by
  have hcapture : p.kind ≠ .fixed → ∃ name, p.name = some name
      ∧ p.fragment segment position = (p.captureFragment segment name).map (·, some name) := by
    intro hkind
    obtain ⟨name, hname⟩ := Option.ne_none_iff_exists'.mp (hnamed hkind)
    refine ⟨name, hname, ?_⟩
    rw [fragment, if_neg (mt isFixed_iff.mp hkind), hname]
  cases h with
  | text hp h =>
    rw [fragment, if_pos (isFixed_iff.mpr hp), fixedFragment,
      Text.escapeExpression_of_isFirstNonAscii h]
    rfl
  | before hp h =>
    obtain ⟨name, -, heq⟩ := hcapture hp
    rw [heq, captureFragment, Text.escapeExpression_of_isFirstNonAscii h]
    rfl
  | after hp hbefore h =>
    obtain ⟨name, -, heq⟩ := hcapture hp
    rw [heq, captureFragment, Text.escapeExpression_eq_ok_iff.mpr ⟨hbefore, rfl⟩,
      Text.escapeExpression_of_isFirstNonAscii h]
    rfl
  | undelimited hp hname hrepeats hbefore hafter =>
    obtain ⟨name, hname', heq⟩ := hcapture hp
    obtain rfl := Option.some.inj (hname.symm.trans hname')
    rw [heq, captureFragment, hbefore, hafter]
    show Except.map _ (if p.modifier.repeats = true ∧ ([] : Text) = [] ∧ ([] : Text) = [] then _
      else _) = _
    rw [if_pos ⟨hrepeats, rfl, rfl⟩]
    rfl

/-- A part is without faults, or one of them is the first to be seen. -/
theorem isExpressible_or_offends (hnamed : p.kind ≠ .fixed → p.name ≠ none) :
    p.IsExpressible ∨ ∃ e, p.Offends e := by
  by_cases hkind : p.kind = .fixed
  · rcases p.value.isAscii_or_exists with hascii | ⟨i, hi⟩
    · left
      rw [IsExpressible, if_pos (isFixed_iff.mpr hkind)]
      exact hascii
    · exact .inr ⟨_, .text hkind hi⟩
  · rcases p.before.isAscii_or_exists with hbefore | ⟨i, hi⟩
    · rcases p.after.isAscii_or_exists with hafter | ⟨i, hi⟩
      · by_cases hdivided : p.modifier.repeats = true → p.before = [] → p.after ≠ []
        · left
          rw [IsExpressible, if_neg (mt isFixed_iff.mp hkind)]
          exact ⟨hnamed hkind, hbefore, hafter, hdivided⟩
        · simp only [Classical.not_imp, not_not] at hdivided
          obtain ⟨hrepeats, hb, ha⟩ := hdivided
          obtain ⟨name, hname⟩ := Option.ne_none_iff_exists'.mp (hnamed hkind)
          exact .inr ⟨_, .undelimited hkind hname hrepeats hb ha⟩
      · exact .inr ⟨_, .after hkind hbefore hi⟩
    · exact .inr ⟨_, .before hkind hi⟩

/-- **One part** has no fragment exactly for what is wrong with it. -/
theorem fragment_eq_error_iff (hnamed : p.kind ≠ .fixed → p.name ≠ none) :
    p.fragment segment position = .error e ↔ p.Offends e := by
  constructor
  · intro h
    rcases isExpressible_or_offends hnamed with hp | ⟨e', he'⟩
    · cases h.symm.trans (fragment_eq_ok_iff.mpr ⟨hp, rfl⟩)
    · obtain rfl := Except.error.inj (h.symm.trans (he'.fragment_eq hnamed))
      exact he'
  · intro h
    exact h.fragment_eq hnamed

/-! ## All parts -/

/-- **Parts** have no fragments exactly for what is wrong with the first faulty one. -/
theorem fragments_eq_error_iff {ps : List Part}
    (hnamed : ∀ p ∈ ps, p.kind ≠ .fixed → p.name ≠ none) :
    fragments segment position ps = .error e
      ↔ ∃ qs p rs, ps = qs ++ p :: rs ∧ (∀ q ∈ qs, q.IsFaultless) ∧ p.Offends e := by
  induction ps generalizing position with
  | nil => simp [fragments]
  | cons p ps ih =>
    obtain ⟨hp, hps⟩ := List.forall_mem_cons.mp hnamed
    constructor
    · intro h
      rw [fragments] at h
      cases hf : p.fragment segment position with
      | error e' =>
        rw [hf] at h
        obtain rfl := Except.error.inj h
        refine ⟨[], p, ps, rfl, ?_, (fragment_eq_error_iff hp).mp hf⟩
        intro q hq
        cases hq
      | ok f =>
        rw [hf] at h
        cases hfs : fragments segment (position + 1) ps with
        | error e' =>
          rw [hfs] at h
          obtain rfl := Except.error.inj h
          obtain ⟨qs, q, rs, rfl, hqs, hq⟩ := (ih hps).mp hfs
          have hfault := (isExpressible_iff_isFaultless hp).mp (fragment_eq_ok_iff.mp hf).1
          exact ⟨p :: qs, q, rs, rfl, List.forall_mem_cons.mpr ⟨hfault, hqs⟩, hq⟩
        | ok fs =>
          rw [hfs] at h
          cases h
    · rintro ⟨qs, q, rs, hsplit, hqs, hq⟩
      obtain ⟨rfl, heq⟩ | ⟨qs, rfl, heq⟩ := List.cons_eq_append_iff.mp hsplit
      · obtain ⟨rfl, rfl⟩ := List.cons.inj heq
        rw [fragments, hq.fragment_eq hp]
        rfl
      · obtain ⟨hfault, hqs⟩ := List.forall_mem_cons.mp hqs
        have hexp := (isExpressible_iff_isFaultless hp).mpr hfault
        rw [fragments, fragment_eq_ok_iff.mpr ⟨hexp, rfl⟩, (ih hps).mpr ⟨qs, q, rs, heq, hqs, hq⟩]
        rfl

/-- Under any encoder, the captures of a pattern have names. -/
theorem name_ne_none_of_parse {o : Options} {f : Text → Text} {s : Text} {ps : List Part}
    (hd : ∀ c ∈ o.delimiter, isAscii c = true) (h : (parse o f s).outcome = .ok ps) :
    ∀ p ∈ ps, p.kind ≠ .fixed → p.name ≠ none := by
  rw [outcome_parse_encode, map_eq_ok_iff] at h
  obtain ⟨qs, hqs, rfl⟩ := h
  intro p hp hkind
  obtain ⟨q, hq, rfl⟩ := List.mem_map.mp hp
  rw [encode_name]
  rw [encode_kind] at hkind
  exact ((wellFormed_of_parse hd hqs).proper q hq).named hkind

end Part

/-! ## What the check has no part in -/

/-- Adding items does not depend on whether the expression is checked. -/
theorem Draft.addItems_checked (o : Options) (b : Bool) (segment : Text) (f : Text → Text)
    (d : Draft) (items : List Item) :
    d.addItems ⟨{ o with checked := b }, segment, f⟩ items = d.addItems ⟨o, segment, f⟩ items := by
  have hitem : ∀ (d : Draft) (i : Item),
      d.addItem ⟨{ o with checked := b }, segment, f⟩ i = d.addItem ⟨o, segment, f⟩ i := by
    intro d i
    cases i with
    | text t => rfl
    | capture lead c m => rfl
    | braces before c after m => cases c <;> rfl
  induction items generalizing d with
  | nil => rfl
  | cons i items ih =>
    rw [addItems, addItems, hitem]
    congr 1
    funext d'
    exact ih d'

/-- Parsing does not depend on whether the expression is checked. -/
theorem Part.parse_checked (o : Options) (b : Bool) (f : Text → Text) (s : Text) :
    parse { o with checked := b } f s = parse o f s := by
  rw [parse, parse]
  congr 2
  funext ts
  show ((Run.ofExcept o.segmentSource).mapError _ >>= _) = _
  congr 1
  funext segment
  show (Draft.addItems ⟨{ o with checked := b }, segment, f⟩ {} (Item.all ts).1 >>= _) = _
  rw [Draft.addItems_checked]
  rfl

/-- The canonical pattern does not depend on it either. -/
theorem Part.canonical_checked (o : Options) (b : Bool) (ps : List Part) :
    canonical { o with checked := b } ps = canonical o ps := by
  have hall : ∀ position previous, writeAll { o with checked := b } position previous ps
      = writeAll o position previous ps := by
    induction ps with
    | nil =>
      intro position previous
      rfl
    | cons p ps ih =>
      intro position previous
      rw [writeAll, writeAll, ih]
      rfl
  rw [canonical, canonical, hall]

/-! ## Expressions -/

namespace Expression

/-- Whether an expression fails its check: it can be converted, and is not accepted then. -/
def isRefused (source : Text) : Bool :=
  (Regular.ofExpression? source).any fun t => !Regular.accepts t

/-- The check fails exactly on a source that is refused. -/
theorem outcome_check (e : Expression) :
    e.check.outcome = if isRefused e.source then .error (.invalid e.source) else .ok () := by
  rw [check, isRefused]
  cases Regular.ofExpression? e.source with
  | none => rfl
  | some t => cases h : Regular.accepts t <;> simp [h, Run.fail]

/-- An expression is the unchecked one, unless it fails a check that is asked for. -/
theorem outcome_ofParts (o : Options) (ps : List Part) :
    (ofParts o ps).outcome = build o ps >>= fun e =>
      if o.checked && isRefused e.source then .error (.invalid e.source) else .ok e := by
  show (_ >>= _ : Run GenerationError Expression).outcome = _
  rw [Run.outcome_bind]
  cases hbuild : build o ps with
  | error e => rfl
  | ok e =>
    show (if o.checked = true then _ else _ : Run GenerationError Expression).outcome
      = if (o.checked && isRefused e.source) = true then _ else _
    cases o.checked with
    | false => rfl
    | true =>
      show (e.check >>= fun _ => pure e : Run GenerationError Expression).outcome = _
      rw [Run.outcome_bind, outcome_check]
      cases isRefused e.source <;> rfl

/-- Parts have no expression exactly for what is wrong with the first faulty one. -/
theorem build_eq_error_iff {o : Options} {segment : Text} (hs : o.segmentSource = .ok segment)
    {ps : List Part} (hnamed : ∀ p ∈ ps, p.kind ≠ .fixed → p.name ≠ none) {e : GenerationError} :
    build o ps = .error e
      ↔ ∃ qs p rs, ps = qs ++ p :: rs ∧ (∀ q ∈ qs, q.IsFaultless) ∧ p.Offends e := by
  have hfragments : Part.fragments segment 0 ps = .error e ↔ _ := Part.fragments_eq_error_iff hnamed
  rw [← hfragments, build, hs]
  show (Part.fragments segment 0 ps).map ofFragments = _ ↔ _
  rw [map_eq_error_iff]

/-- Parts have an expression exactly if none of them is faulty. -/
theorem exists_build_iff {o : Options} {segment : Text} (hs : o.segmentSource = .ok segment)
    {ps : List Part} (hnamed : ∀ p ∈ ps, p.kind ≠ .fixed → p.name ≠ none) :
    (∃ e, build o ps = .ok e) ↔ ∀ p ∈ ps, p.IsFaultless := by
  constructor
  · rintro ⟨e, he⟩ p hp
    exact (Part.isExpressible_iff_isFaultless (hnamed p hp)).mp ((build_eq_ok_iff.mp he).1 p hp)
  · intro h
    refine ⟨_, build_eq_ok_iff.mpr ⟨fun p hp => ?_, segment, hs, rfl⟩⟩
    exact (Part.isExpressible_iff_isFaultless (hnamed p hp)).mpr (h p hp)

end Expression

/-! ## Components -/

namespace Component

variable {o : Options} {f : Text → Text} {s : Text} {ps : List Part}

/-- The outcome of compiling, stage by stage. -/
theorem outcome_compile (o : Options) (f : Text → Text) (s : Text) :
    (compile o f s).outcome
      = o.validate.mapError Error.options >>= fun _ =>
        (Part.parse o f s).outcome.mapError Error.pattern >>= fun ps =>
        (Expression.ofParts o ps).outcome.mapError Error.generation >>= fun e =>
        (Part.canonical o ps).outcome.mapError Error.generation >>= fun canonical =>
        .ok ⟨e.source, e.names, canonical⟩ := by
  show (_ >>= _ : Run Error Component).outcome = _
  simp only [Run.outcome_bind]
  rfl

/-- Options that are refused are reported first. -/
theorem outcome_compile_of_invalid {e : OptionsError} (hv : o.validate = .error e) :
    (compile o f s).outcome = .error (.options e) := by
  rw [outcome_compile, hv]
  rfl

/-- Behind valid options, a pattern that has no parts is reported. -/
theorem outcome_compile_of_parse_error {e : PatternError} (hv : o.validate = .ok ())
    (h : (Part.parse o f s).outcome = .error e) :
    (compile o f s).outcome = .error (.pattern e) := by
  rw [outcome_compile, hv, h]
  rfl

/-- The parts of a pattern can always be written back. -/
theorem exists_canonical_of_parse (hv : o.validate = .ok ())
    (hps : (Part.parse o f s).outcome = .ok ps) :
    ∃ canonical, (Part.canonical o ps).outcome = .ok canonical := by
  have hd := Options.isAscii_of_validate hv
  obtain ⟨segment, hs, -, -⟩ := Options.exists_segmentSource hd
  exact ⟨_, Part.writeAll_eq hs (Part.name_ne_none_of_parse hd hps) 0 none⟩

/-- Once there are parts, what is left is their expression. -/
theorem outcome_compile_of_parse (hv : o.validate = .ok ())
    (hps : (Part.parse o f s).outcome = .ok ps) {canonical : Text}
    (hc : (Part.canonical o ps).outcome = .ok canonical) :
    (compile o f s).outcome = ((Expression.ofParts o ps).outcome.mapError Error.generation).map
      fun e => ⟨e.source, e.names, canonical⟩ := by
  rw [outcome_compile, hv, hps]
  show ((Expression.ofParts o ps).outcome.mapError Error.generation >>= fun e =>
    (Part.canonical o ps).outcome.mapError Error.generation >>= fun canonical =>
    .ok ⟨e.source, e.names, canonical⟩ : Except Error Component) = _
  rw [hc]
  cases (Expression.ofParts o ps).outcome <;> rfl

/-- **Where the check is off**, a pattern with parts compiles unless one of them is faulty. -/
theorem compile_unchecked (hv : o.validate = .ok ()) (hps : (Part.parse o f s).outcome = .ok ps)
    (hoff : o.checked = false) :
    ((∃ c, (compile o f s).outcome = .ok c) ↔ ∀ p ∈ ps, p.IsFaultless)
      ∧ ∀ e, (compile o f s).outcome = .error e ↔ ∃ qs p rs e', ps = qs ++ p :: rs
        ∧ (∀ q ∈ qs, q.IsFaultless) ∧ p.Offends e' ∧ e = .generation e' := by
  have hd := Options.isAscii_of_validate hv
  obtain ⟨segment, hs, -, -⟩ := Options.exists_segmentSource hd
  obtain ⟨canonical, hc⟩ := exists_canonical_of_parse hv hps
  have hnamed := Part.name_ne_none_of_parse hd hps
  have hbuild : (Expression.ofParts o ps).outcome = Expression.build o ps := by
    rw [Expression.outcome_ofParts, hoff]
    cases Expression.build o ps <;> rfl
  rw [outcome_compile_of_parse hv hps hc, hbuild, ← Expression.exists_build_iff hs hnamed]
  constructor
  · constructor
    · rintro ⟨c, h⟩
      obtain ⟨e, he, -⟩ := map_eq_ok_iff.mp h
      exact ⟨e, mapError_eq_ok_iff.mp he⟩
    · rintro ⟨e, he⟩
      rw [he]
      exact ⟨_, rfl⟩
  · intro e
    rw [map_eq_error_iff, mapError_eq_error_iff]
    constructor
    · rintro ⟨e', he, rfl⟩
      obtain ⟨qs, p, rs, hsplit, hqs, hp⟩ := (Expression.build_eq_error_iff hs hnamed).mp he
      exact ⟨qs, p, rs, e', hsplit, hqs, hp, rfl⟩
    · rintro ⟨qs, p, rs, e', hsplit, hqs, hp, rfl⟩
      exact ⟨e', (Expression.build_eq_error_iff hs hnamed).mpr ⟨qs, p, rs, hsplit, hqs, hp⟩, rfl⟩

/-- **Where the check is on**, a pattern that compiles without it may be refused, and nothing else
changes. -/
theorem compile_checked (o : Options) (f : Text → Text) (s : Text) :
    (compile { o with checked := true } f s).outcome
      = (compile { o with checked := false } f s).outcome >>= fun c =>
        if Expression.isRefused c.source then .error (.generation (.invalid c.source))
        else .ok c := by
  cases hv : o.validate with
  | error e =>
    have herror : ∀ b, (compile { o with checked := b } f s).outcome = .error (.options e) := by
      intro b
      have hv' : Options.validate { o with checked := b } = .error e := hv
      exact outcome_compile_of_invalid hv'
    rw [herror, herror]
    rfl
  | ok _ =>
    cases hps : (Part.parse o f s).outcome with
    | error e =>
      have herror : ∀ b, (compile { o with checked := b } f s).outcome = .error (.pattern e) := by
        intro b
        have hv' : Options.validate { o with checked := b } = .ok () := hv
        apply outcome_compile_of_parse_error hv'
        rw [Part.parse_checked, hps]
      rw [herror, herror]
      rfl
    | ok ps =>
      obtain ⟨canonical, hc⟩ := exists_canonical_of_parse hv hps
      have hparts : ∀ b, (compile { o with checked := b } f s).outcome
          = ((Expression.ofParts { o with checked := b } ps).outcome.mapError
            Error.generation).map fun e => ⟨e.source, e.names, canonical⟩ := by
        intro b
        have hv' : Options.validate { o with checked := b } = .ok () := hv
        apply outcome_compile_of_parse hv'
        · rw [Part.parse_checked, hps]
        · rw [Part.canonical_checked, hc]
      have hexpression : ∀ b, (Expression.ofParts { o with checked := b } ps).outcome
          = Expression.build o ps >>= fun e =>
            if b && Expression.isRefused e.source then .error (.invalid e.source) else .ok e :=
        fun b => Expression.outcome_ofParts { o with checked := b } ps
      rw [hparts, hparts, hexpression, hexpression]
      cases Expression.build o ps with
      | error e => rfl
      | ok e =>
        have hbind : ∀ b, (Except.ok e >>= fun e =>
            if b && Expression.isRefused e.source then .error (.invalid e.source) else .ok e)
            = if b && Expression.isRefused e.source then .error (.invalid e.source)
              else (.ok e : Except GenerationError Expression) := fun _ => rfl
        rw [hbind, hbind, Bool.true_and, Bool.false_and, if_neg Bool.false_ne_true]
        show _ = if Expression.isRefused e.source = true then _ else _
        cases Expression.isRefused e.source <;> rfl

/-- Valid options leave no error of the delimiter for a pattern. -/
theorem ne_nonAscii_of_parse_error (hv : o.validate = .ok ()) {e : PatternError}
    (h : (Part.parse o f s).outcome = .error e) (n : NonAscii) : e ≠ .nonAscii n := by
  rintro rfl
  rcases Part.cases_of_parse_error h with ⟨fault, -, ⟨⟩⟩ | ⟨ts, -, ⟨n', hs, -⟩ | ⟨i, -, hmarks⟩⟩
  · obtain ⟨c, hc, hascii⟩ := Options.exists_delimiter_of_error hs
    rw [Options.isAscii_of_validate hv c hc] at hascii
    cases hascii
  · exact hmarks

/-- A missing name is never what is wrong. -/
theorem outcome_compile_ne_unnamed (o : Options) (f : Text → Text) (s : Text) (position : Nat) :
    (compile o f s).outcome ≠ .error (.generation (.unnamed position)) := by
  have hunchecked : (compile { o with checked := false } f s).outcome
      ≠ .error (.generation (.unnamed position)) := by
    intro h
    cases hv : Options.validate { o with checked := false } with
    | error e => cases h.symm.trans (outcome_compile_of_invalid hv)
    | ok _ =>
      cases hps : (Part.parse { o with checked := false } f s).outcome with
      | error e => cases h.symm.trans (outcome_compile_of_parse_error hv hps)
      | ok ps =>
        obtain ⟨qs, p, rs, e, -, -, hp, he⟩ := ((compile_unchecked hv hps rfl).2 _).mp h
        obtain rfl := Error.generation.inj he
        cases hp
  cases hb : o.checked with
  | false =>
    have ho : o = { o with checked := false } := by rw [← hb]
    rw [ho]
    exact hunchecked
  | true =>
    have ho : o = { o with checked := true } := by rw [← hb]
    rw [ho, compile_checked]
    cases hc : (compile { o with checked := false } f s).outcome with
    | error e =>
      intro h
      exact hunchecked (hc.trans h)
    | ok c =>
      show (if Expression.isRefused c.source = true then _ else _) ≠ _
      split <;> nofun

/-- **When a pattern does not compile.** Options that are not valid come first, then what is wrong
with the pattern itself. A pattern that has parts can be written back, and without the check it
compiles unless one of its parts is faulty; the error is that of the first one. The check refuses
some patterns that compile without it, and does nothing else. -/
theorem compile_failures (o : Options) (f : Text → Text) (s : Text) :
    (∀ e, o.validate = .error e → (compile o f s).outcome = .error (.options e))
      ∧ (o.validate = .ok () →
        (∀ e, (Part.parse o f s).outcome = .error e →
          (compile o f s).outcome = .error (.pattern e) ∧ ∀ n, e ≠ .nonAscii n)
        ∧ ∀ ps, (Part.parse o f s).outcome = .ok ps →
          (∃ canonical, (Part.canonical o ps).outcome = .ok canonical)
          ∧ (o.checked = false →
            ((∃ c, (compile o f s).outcome = .ok c) ↔ ∀ p ∈ ps, p.IsFaultless)
            ∧ ∀ e, (compile o f s).outcome = .error e ↔ ∃ qs p rs e', ps = qs ++ p :: rs
              ∧ (∀ q ∈ qs, q.IsFaultless) ∧ p.Offends e' ∧ e = .generation e'))
      ∧ (compile { o with checked := true } f s).outcome
        = ((compile { o with checked := false } f s).outcome >>= fun c =>
          if Expression.isRefused c.source then .error (.generation (.invalid c.source))
          else .ok c)
      ∧ ∀ position, (compile o f s).outcome ≠ .error (.generation (.unnamed position)) := by
  refine ⟨?_, ?_, compile_checked o f s, outcome_compile_ne_unnamed o f s⟩
  · intro e hv
    exact outcome_compile_of_invalid hv
  · intro hv
    constructor
    · intro e h
      exact ⟨outcome_compile_of_parse_error hv h, ne_nonAscii_of_parse_error hv h⟩
    · intro ps hps
      refine ⟨exists_canonical_of_parse hv hps, ?_⟩
      intro hoff
      exact compile_unchecked hv hps hoff

/-- Two patterns for paths. Of `{:a}+é` both parts are faulty, and the first is reported; `([z-a])`
compiles until its expression is checked. -/
theorem compile_failures_pathname :
    (compile { Options.pathname with checked := false } id "\x7b:a\x7d+é".toList).outcome
        = .error (.generation (.undelimited (.custom ['a'])))
      ∧ (compile { Options.pathname with checked := true } id "([z-a])".toList).outcome
        = .error (.generation (.invalid "^([z-a])$".toList)) := by
  obtain ⟨-, hparts, -⟩ :=
    compile_failures { Options.pathname with checked := false } id "\x7b:a\x7d+é".toList
  obtain ⟨-, -, hchecked, -⟩ := compile_failures Options.pathname id "([z-a])".toList
  constructor
  · have hps : (Part.parse { Options.pathname with checked := false } id
        "\x7b:a\x7d+é".toList).outcome
        = .ok [.capture .segment [] .oneOrMore (.custom ['a']) [] [], .fixed ['é'] .once] := by
      decide +kernel
    rw [(((hparts (by decide)).2 _ hps).2 rfl).2]
    exact ⟨[], _, _, _, rfl, nofun, .undelimited nofun rfl rfl rfl rfl, rfl⟩
  · rw [hchecked]
    decide +kernel

end Component

end ComponentPattern
