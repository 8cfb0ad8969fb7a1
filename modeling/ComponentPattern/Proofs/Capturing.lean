/-
# Capturing groups

How many capturing groups an expression has (`Text.capturing`), and when these are as many as the
names it comes with. Every capture of a pattern brings one group of its own. There are two ways for
the numbers to differ: a body opens a group with a name (`Part.surplus`), or a class that a body
leaves open swallows the parenthesis of a later capture (`Part.swallowed`).

`Component.capturing_eq_length_names_iff` says that there is no third one.
-/
import ComponentPattern.Component
import ComponentPattern.Proofs.Fragment
import ComponentPattern.Proofs.Image

namespace ComponentPattern

namespace Text

/-! ## Reading an expression -/

/-- Whether a `(` in front of the text opens a capturing group: one without a name, where no `?`
follows, or one with a name, where `?<` and then neither `=` nor `!` follow. -/
def opensCapture (t : Text) : Bool :=
  t[0]? != some '?' || t[1]? == some '<' && t[2]? != some '=' && t[2]? != some '!'

/-- Whether a class is open behind a code point. -/
def staysInClass (inClass : Bool) (c : Char) : Bool :=
  if c = '[' then true else if c = ']' then false else inClass

/-- Whether a class is open behind a text, where one is open in front of it or not. -/
def endsInClass (inClass : Bool) : Text → Bool
  | [] => inClass
  | ['\\'] => inClass
  | '\\' :: _ :: t => endsInClass inClass t
  | c :: t => endsInClass (staysInClass inClass c) t

/-- The number of capturing groups that a text opens, where a class is open in front of it or
not. -/
def capturing (inClass : Bool) : Text → Nat
  | [] => 0
  | ['\\'] => 0
  | '\\' :: _ :: t => capturing inClass t
  | c :: t =>
    (if c = '(' && !inClass && opensCapture t then 1 else 0) + capturing (staysInClass inClass c) t

theorem endsInClass_cons {c : Char} (h : c ≠ '\\') (q : Bool) (t : Text) :
    endsInClass q (c :: t) = endsInClass (staysInClass q c) t := by
  rw [endsInClass] <;> simp [h]

theorem capturing_cons {c : Char} (h : c ≠ '\\') (q : Bool) (t : Text) :
    capturing q (c :: t) = (if c = '(' && !q && opensCapture t then 1 else 0)
      + capturing (staysInClass q c) t := by
  rw [capturing] <;> simp [h]

/-- Either a text has no brackets, or the last one decides whether it leaves a class open. -/
theorem endsInClass_id_or_const :
    (t : Text) → (∀ q, endsInClass q t = q) ∨ ∀ q r, endsInClass q t = endsInClass r t
  | [] => .inl fun _ => rfl
  | c :: t => by
    by_cases h : c = '\\'
    · subst h
      match t with
      | [] => exact .inl fun _ => rfl
      | _ :: t => exact endsInClass_id_or_const t
    · simp only [endsInClass_cons h]
      have hc : (∀ q, staysInClass q c = q) ∨ ∀ q r, staysInClass q c = staysInClass r c := by
        unfold staysInClass
        split
        · exact .inr fun _ _ => rfl
        · split
          · exact .inr fun _ _ => rfl
          · exact .inl fun _ => rfl
      rcases hc with hc | hc
      · simpa only [hc] using endsInClass_id_or_const t
      · exact .inr fun q r => by rw [hc q r]

/-- A second copy of a text leaves the same class open as the first. -/
theorem endsInClass_endsInClass (q : Bool) (t : Text) :
    endsInClass (endsInClass q t) t = endsInClass q t := by
  rcases endsInClass_id_or_const t with h | h
  · rw [h]
  · exact h _ _

/-! ## Texts that are read on their own -/

/-- Whatever follows, `a` opens `n q` groups, and leaves a class open if `g q` holds, where `q` says
whether one is open in front of it. -/
structure Adds (a : Text) (n : Bool → Nat) (g : Bool → Bool) : Prop where
  capturing_append : ∀ q b, capturing q (a ++ b) = n q + capturing (g q) b
  endsInClass_append : ∀ q b, endsInClass q (a ++ b) = endsInClass (g q) b

theorem adds_nil : Adds [] (fun _ => 0) id := ⟨fun _ _ => (Nat.zero_add _).symm, fun _ _ => rfl⟩

/-- A code point behind a backslash adds nothing. -/
theorem adds_escape (c : Char) : Adds ['\\', c] (fun _ => 0) id :=
  ⟨fun _ _ => (Nat.zero_add _).symm, fun _ _ => rfl⟩

/-- Any other code point but a `(` opens no group, though a bracket may open or close a class. -/
theorem adds_plain {c : Char} (h : c ≠ '\\') (h' : c ≠ '(') :
    Adds [c] (fun _ => 0) (staysInClass · c) where
  capturing_append q b := by
    rw [List.singleton_append, capturing_cons h]
    simp [h']
  endsInClass_append q b := endsInClass_cons h q b

namespace Adds

variable {a b : Text} {n m : Bool → Nat} {f g : Bool → Bool}

/-- What texts in a row add, the second one behind the first. -/
theorem append (ha : Adds a n f) (hb : Adds b m g) :
    Adds (a ++ b) (fun q => n q + m (f q)) (fun q => g (f q)) where
  capturing_append q t := by
    rw [List.append_assoc, ha.capturing_append, hb.capturing_append, Nat.add_assoc]
  endsInClass_append q t := by
    rw [List.append_assoc, ha.endsInClass_append, hb.endsInClass_append]

theorem congr (h : Adds a n f) (hn : ∀ q, n q = m q) (hf : ∀ q, f q = g q) : Adds a m g := by
  rwa [← funext hn, ← funext hf]

/-- What a text adds to others it opens alone. -/
theorem capturing_eq (h : Adds a n f) (q : Bool) : capturing q a = n q := by
  have hnil := h.capturing_append q []
  rwa [List.append_nil] at hnil

theorem endsInClass_eq (h : Adds a n f) (q : Bool) : endsInClass q a = f q := by
  have hnil := h.endsInClass_append q []
  rwa [List.append_nil] at hnil

/-- What a text adds is what it opens by itself. -/
theorem self (h : Adds a n f) : Adds a (capturing · a) (endsInClass · a) where
  capturing_append q t := by rw [h.capturing_append, h.capturing_eq, h.endsInClass_eq]
  endsInClass_append q t := by rw [h.endsInClass_append, h.endsInClass_eq]

end Adds

/-- What makes a parenthesis capture is decided before its group ends. -/
theorem opensCapture_close (x b : Text) :
    opensCapture (x ++ ')' :: b) = opensCapture (x ++ [')']) := by
  rcases x with - | ⟨c, - | ⟨d, - | ⟨e, x⟩⟩⟩ <;> simp [opensCapture]

/-- Parentheses around a text capture unless it starts with `?`. -/
theorem opensCapture_of_head_ne {t : Text} (h : t.head? ≠ some '?') :
    opensCapture (t ++ [')']) = true := by
  cases t <;> simp_all [opensCapture]

/-- Parentheses add one group if they capture and stand outside classes. -/
theorem Adds.parens {x : Text} {n : Bool → Nat} {g : Bool → Bool} (h : Adds x n g) :
    Adds ('(' :: (x ++ [')']))
      (fun q => (if !q && opensCapture (x ++ [')']) then 1 else 0) + n q) g where
  capturing_append q b := by
    -- what makes a group capture is decided before its `)`, so `b` does not matter
    simp only [List.cons_append, List.append_assoc, List.nil_append]
    rw [capturing_cons (by decide), h.capturing_append, capturing_cons (by decide),
      opensCapture_close]
    simp [staysInClass, Nat.add_assoc]
  endsInClass_append q b := by
    simp only [List.cons_append, List.append_assoc, List.nil_append]
    rw [endsInClass_cons (by decide), h.endsInClass_append, endsInClass_cons (by decide)]
    rfl

/-- A balanced text is read on its own. -/
theorem adds_of_balanced {u : Text} (h : Group.Balanced u) :
    Adds u (capturing · u) (endsInClass · u) := by
  induction h with
  | nil => exact adds_nil.self
  | escape _ _ ih => exact ((adds_escape _).append ih).self
  | plain _ hs _ ih => exact ((adds_plain hs.1 hs.2.1).append ih).self
  | nested _ _ ihu iht =>
    have h := (ihu.parens.append iht).self
    simpa using h

/-- Escaped text opens nothing, inside classes and outside. -/
theorem adds_escaped (t : Text) : Adds t.escaped (fun _ => 0) id := by
  induction t with
  | nil => exact adds_nil
  | cons c t ih =>
    rw [escaped_cons]
    split
    · exact (adds_escape c).append ih
    · next h =>
      have hc : c ≠ '\\' ∧ c ≠ '(' ∧ c ≠ '[' ∧ c ≠ ']' := by
        refine ⟨?_, ?_, ?_, ?_⟩ <;> rintro rfl <;> exact h (by decide)
      have hstays : (staysInClass · c) = id := by
        funext q
        simp [staysInClass, hc]
      have hplain := adds_plain hc.1 hc.2.1
      rw [hstays] at hplain
      exact hplain.append ih

end Text

/-! ## Fragments -/

namespace Fragment

open Text

variable {t : Text} {n : Bool → Nat} {g : Bool → Bool}

/-- A group that does not capture adds what stands in it. -/
theorem adds_group (h : Adds t n g) : Adds (group t) n g := by
  have hasked : Adds ['?', ':'] (fun _ => 0) id :=
    (adds_plain (c := '?') (by decide) (by decide)).append (adds_plain (by decide) (by decide))
  have hparens := (hasked.append h).parens
  simpa [group, opensCapture] using hparens

/-- A group of a capture counts unless a class is open in front of it. -/
theorem adds_capture (h : Adds t n g) (hq : t.head? ≠ some '?') :
    Adds (capture t) (fun q => (if q then 0 else 1) + n q) g := by
  have hparens := h.parens
  rw [opensCapture_of_head_ne hq] at hparens
  exact hparens.congr (fun q => by cases q <;> rfl) fun _ => rfl

/-- A modifier adds nothing. -/
theorem adds_modifier (m : Modifier) : Adds m.text (fun _ => 0) id := by
  cases m with
  | once => exact adds_nil
  | optional => exact adds_plain (by decide) (by decide)
  | zeroOrMore => exact adds_plain (by decide) (by decide)
  | oneOrMore => exact adds_plain (by decide) (by decide)

/-- The fragment of a capture opens a group of its own, unless a class is open in front of it, and
those of its body, as often as the body is written. -/
theorem adds_ofCapture {inner : Text} (h : Group.IsBody inner) (m : Modifier) (b a : Text) :
    Adds (ofCapture m b.escaped inner a.escaped)
      (fun q => (if q then 0 else 1) + (capturing q inner
        + if m.repeats then capturing (endsInClass q inner) inner else 0))
      (endsInClass · inner) := by
  have hinner := adds_of_balanced h.balanced
  have hB := adds_escaped b
  have hA := adds_escaped a
  by_cases hrepeats : m.repeats = true
  · have hmore := adds_group ((hA.append hB).append (adds_group hinner))
    have hall := adds_capture (((adds_group hinner).append hmore).append
      (adds_modifier .zeroOrMore)) (by simp [group])
    have hrepetition := adds_group ((hB.append hall).append hA)
    have hmark : Adds (if m = .zeroOrMore then ['?'] else []) (fun _ => 0) id := by
      split
      · exact adds_modifier .optional
      · exact adds_nil
    rw [ofCapture, if_pos hrepeats]
    -- the second copy of the body begins in the state in which the first one ends
    refine (hrepetition.append hmark).congr (fun q => ?_) fun q => ?_
    · simp [hrepeats]
    · simp [endsInClass_endsInClass]
  · have hcapture := adds_capture hinner h.head_ne
    rw [ofCapture, if_neg hrepeats]
    split
    · exact (hcapture.append (adds_modifier m)).congr (fun q => by simp) fun _ => rfl
    · exact ((adds_group ((hB.append hcapture).append hA)).append (adds_modifier m)).congr
        (fun q => by simp) fun _ => rfl

end Fragment

/-! ## Parts -/

namespace Part

/-- Whether a class is open behind the fragment of a part. -/
def endsInClass (segment : Text) (q : Bool) (p : Part) : Bool :=
  if p.isFixed then q else Text.endsInClass q (p.source segment)

/-- The groups that the body of a capture opens. A body that repeats is written twice. -/
def bodyGroups (segment : Text) (q : Bool) (p : Part) : Nat :=
  if p.isFixed then 0
  else Text.capturing q (p.source segment)
    + if p.modifier.repeats then Text.capturing (p.endsInClass segment q) (p.source segment) else 0

/-- The groups that the bodies of parts open. -/
def surplus (segment : Text) (q : Bool) : List Part → Nat
  | [] => 0
  | p :: ps => p.bodyGroups segment q + surplus segment (p.endsInClass segment q) ps

/-- The captures in front of which a class is open. -/
def swallowed (segment : Text) (q : Bool) : List Part → Nat
  | [] => 0
  | p :: ps => (if !p.isFixed && q then 1 else 0) + swallowed segment (p.endsInClass segment q) ps

/-- The fragment of a part opens the group of its capture, unless a class is open in front of it,
and those of its body. -/
theorem adds_expressed {segment : Text} {p : Part}
    (h : p.isFixed = false → Group.IsBody (p.source segment)) :
    Text.Adds (p.expressed segment)
      (fun q => (if !p.isFixed && !q then 1 else 0) + p.bodyGroups segment q)
      (p.endsInClass segment ·) := by
  cases hfixed : p.isFixed with
  | true =>
    have hvalue := Text.adds_escaped p.value
    have hfragment : Text.Adds (p.expressed segment) (fun _ => 0) id := by
      rw [expressed, if_pos hfixed]
      split
      · exact hvalue
      · exact (Fragment.adds_group hvalue).append (Fragment.adds_modifier p.modifier)
    exact hfragment.congr (fun q => by simp [bodyGroups, hfixed])
      fun q => by simp [endsInClass, hfixed]
  | false =>
    have hfragment := Fragment.adds_ofCapture (h hfixed) p.modifier p.before p.after
    rw [expressed, if_neg (by simp [hfixed])]
    exact hfragment.congr (fun q => by cases q <;> simp [bodyGroups, endsInClass, hfixed])
      fun q => by simp [endsInClass, hfixed]

/-- **Every group is accounted for.** What the fragments of parts open are the groups of their
captures, less those that are swallowed, and the groups that their bodies open. -/
theorem capturing_flatMap_expressed {segment : Text} {ps : List Part}
    (hexp : ∀ p ∈ ps, p.IsExpressible)
    (hbody : ∀ p ∈ ps, p.isFixed = false → Group.IsBody (p.source segment)) (q : Bool) :
    Text.capturing q (ps.flatMap (expressed segment) ++ ['$']) + swallowed segment q ps
      = (ps.filterMap captured?).length + surplus segment q ps := by
  induction ps generalizing q with
  | nil => rfl
  | cons p ps ih =>
    obtain ⟨hp, hps⟩ := List.forall_mem_cons.mp hexp
    obtain ⟨hb, hbs⟩ := List.forall_mem_cons.mp hbody
    have hrest := ih hps hbs (p.endsInClass segment q)
    have hnames : ((p :: ps).filterMap captured?).length
        = (if !p.isFixed then 1 else 0) + (ps.filterMap captured?).length := by
      rw [List.filterMap_cons, ← hp.isSome_captured?]
      cases p.captured? <;> simp [Nat.add_comm]
    rw [List.flatMap_cons, List.append_assoc, (adds_expressed hb).capturing_append, hnames,
      swallowed, surplus]
    -- the group of a capture is either there or swallowed
    cases p.isFixed <;> cases q <;> simp <;> omega

/-- The captures of a pattern have bodies. -/
theorem isBody_source {o : Options} {f : Text → Text} {s segment : Text} {ps : List Part}
    (hs : o.segmentSource = .ok segment) (h : (Part.parse o f s).outcome = .ok ps) :
    ∀ p ∈ ps, p.isFixed = false → Group.IsBody (p.source segment) := by
  have hd := (Options.segmentSource_eq_ok_iff.mp hs).1
  obtain ⟨segment', hs', hsegment, -⟩ := Options.exists_segmentSource hd
  obtain rfl : segment' = segment := Except.ok.inj (hs'.symm.trans hs)
  rw [outcome_parse_encode] at h
  obtain ⟨ps', hps', rfl⟩ := map_eq_ok_iff.mp h
  have hw := wellFormed_of_parse hd hps'
  intro p hp hfixed
  obtain ⟨p', hp', rfl⟩ := List.mem_map.mp hp
  have hfixed' : ¬ p'.isFixed = true := by simpa [isFixed] using hfixed
  have hsource : (p'.encode f).source segment' = p'.source segment' := by
    rw [encode, if_neg hfixed']
    rfl
  rw [hsource]
  exact (hw.proper p' hp').isBody_source hsegment (mt isFixed_iff.mpr hfixed')

end Part

/-! ## Components -/

namespace Component

/-- A compiled pattern has the expression of its parts. -/
theorem exists_of_compile {o : Options} {f : Text → Text} {s : Text} {c : Component}
    (h : (compile o f s).outcome = .ok c) :
    ∃ ps e, (Part.parse o f s).outcome = .ok ps ∧ (Expression.ofParts o ps).outcome = .ok e
      ∧ c.source = e.source ∧ c.names = e.names := by
  simp only [compile, Run.within, Run.outcome_bind] at h
  obtain ⟨-, -, h⟩ := exists_of_bind_eq_ok h
  obtain ⟨ps, hps, h⟩ := exists_of_bind_eq_ok h
  obtain ⟨e, he, h⟩ := exists_of_bind_eq_ok h
  obtain ⟨canonical, _, h⟩ := exists_of_bind_eq_ok h
  obtain ⟨-, -, h⟩ := exists_of_bind_eq_ok h
  obtain rfl := Except.ok.inj h
  exact ⟨ps, e, mapError_eq_ok_iff.mp hps, mapError_eq_ok_iff.mp he, rfl, rfl⟩

/-- **When groups and names agree.** The expression of a pattern has as many capturing groups as
names exactly if the bodies of its captures open as many groups as they swallow. -/
theorem capturing_eq_length_names_iff {o : Options} {f : Text → Text} {s segment : Text}
    {ps : List Part} {c : Component} (h : (compile o f s).outcome = .ok c)
    (hps : (Part.parse o f s).outcome = .ok ps) (hs : o.segmentSource = .ok segment) :
    Text.capturing false c.source = c.names.length
      ↔ Part.surplus segment false ps = Part.swallowed segment false ps := by
  obtain ⟨ps', e, hps', he, hsource, hnames⟩ := exists_of_compile h
  obtain rfl : ps' = ps := Except.ok.inj (hps'.symm.trans hps)
  obtain ⟨hexp, segment', hs', rfl⟩ :=
    Expression.build_eq_ok_iff.mp (Expression.build_of_ofParts he)
  obtain rfl : segment' = segment := Except.ok.inj (hs'.symm.trans hs)
  have hcount := Part.capturing_flatMap_expressed hexp (Part.isBody_source hs hps) false
  have hstart : Text.capturing false c.source
      = Text.capturing false (ps'.flatMap (Part.expressed segment') ++ ['$']) := by
    rw [hsource, Expression.expressed, List.append_assoc, List.singleton_append,
      Text.capturing_cons (by decide)]
    simp [Text.staysInClass]
  have hlength : c.names.length = (ps'.filterMap Part.captured?).length :=
    congrArg List.length hnames
  omega

/-- In `([)a(](?<n>b))` the class that the first body opens swallows the second capture, whose body
opens a group with a name: two groups and two names, but they do not belong together. -/
theorem capturing_eq_length_names_iff_class :
    (compile { checked := true } id "([)a(](?<n>b))".toList).outcome
        = .ok ⟨"^([)a(](?<n>b))$".toList, [.ordinal 0, .ordinal 1], "([)a(](?<n>b))".toList⟩
      ∧ Text.capturing false "^([)a(](?<n>b))$".toList = 2 := by
  have h : (compile { checked := true } id "([)a(](?<n>b))".toList).outcome
      = .ok ⟨"^([)a(](?<n>b))$".toList, [.ordinal 0, .ordinal 1], "([)a(](?<n>b))".toList⟩ := by
    decide +kernel
  have hps : (Part.parse { checked := true } id "([)a(](?<n>b))".toList).outcome
      = .ok [Part.capture .expression ['['] .once (.ordinal 0) [] [], Part.fixed ['a'] .once,
        Part.capture .expression "](?<n>b)".toList .once (.ordinal 1) [] []] := by
    decide +kernel
  have hs : Options.segmentSource { checked := true } = .ok "[^]+?".toList := by decide +kernel
  exact ⟨h, (capturing_eq_length_names_iff h hps hs).mpr (by decide +kernel)⟩

/-- `(a(?<n>b))` passes the check, contains no look-around, and has two groups but one name. -/
theorem capturing_ne_length_names :
    (compile { checked := true } id "(a(?<n>b))".toList).outcome
        = .ok ⟨"^(a(?<n>b))$".toList, [.ordinal 0], "(a(?<n>b))".toList⟩
      ∧ Regular.ofExpression? "^(a(?<n>b))$".toList ≠ none
      ∧ Text.capturing false "^(a(?<n>b))$".toList = 2 := by
  decide +kernel

end Component

end ComponentPattern
