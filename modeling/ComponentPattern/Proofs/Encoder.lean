/-
# What the encoder is given

Every text that ends up in a part goes through the caller's encoder first. `Part.texts` are these
texts of a part, as they are before that: its own text, or the texts before and after what it
captures. While a draft grows, the texts that are encoded are those of the parts it gains
(`Draft.Encodes`, kept by every step).

`Part.parse_under_encoder` puts this together with `Part.parse_eq_map_encode`: an encoder can change
the texts of the parts, but neither which parts there are nor what it is asked next.
-/
import ComponentPattern.Proofs.Draft

namespace ComponentPattern

namespace Run

variable {ε α β : Type}

@[simp] theorem encoded_pure (a : α) : (pure a : Run ε α).encoded = [] := rfl

/-- What is encoded by a run that succeeds, and then by the next. -/
theorem encoded_bind_of_ok {r : Run ε α} {a : α} (h : r.outcome = .ok a) (k : α → Run ε β) :
    (r >>= k).encoded = r.encoded ++ (k a).encoded := by
  rw [encoded, journal_bind_of_ok h, List.filterMap_append]
  rfl

end Run

/-- The texts of a part that go through the encoder, in order. -/
def Part.texts (p : Part) : List Text := if p.isFixed then [p.value] else [p.before, p.after]

namespace Draft

/-- Of the part of a capture the texts around it are encoded. -/
theorem Context.texts_part (x : Context) (c : Capture) (m : Modifier) (name : Name)
    (before after : Text) : (x.part c m name before after).texts = [before, after] := by
  rw [Part.texts, isFixed_part]
  rfl

/-! ## One step -/

/-- Where the run succeeds, it encodes the texts of the parts that the draft gains. -/
def Encodes (d : Draft) (r : Run PatternError Draft) : Prop :=
  ∀ d', r.outcome = .ok d' → d'.parts.flatMap Part.texts = d.parts.flatMap Part.texts ++ r.encoded

variable {x : Context} {d : Draft}

/-- What leaves the parts as they are encodes nothing. -/
theorem encodes_pure {d' : Draft} (h : d'.parts = d.parts) : d.Encodes (pure d') := by
  intro d'' hd''
  obtain rfl : d' = d'' := Except.ok.inj hd''
  rw [h, Run.encoded_pure, List.append_nil]

/-- Two steps in a row encode what both do. -/
theorem Encodes.bind {r : Run PatternError Draft} {k : Draft → Run PatternError Draft}
    (hr : d.Encodes r) (hk : ∀ d' : Draft, d'.Encodes (k d')) : d.Encodes (r >>= k) := by
  intro d'' hd''
  rw [Run.outcome_bind] at hd''
  obtain ⟨d', hd', hk'⟩ := exists_of_bind_eq_ok hd''
  rw [hk d' d'' hk', hr d' hd', Run.encoded_bind_of_ok hd', List.append_assoc]

/-- Flushing encodes the waiting text, if there is any. -/
theorem encodes_flush (d : Draft) : d.Encodes (d.flush x.plain) := by
  rw [flush]
  split
  · exact encodes_pure rfl
  · intro d' hd'
    obtain rfl := Except.ok.inj hd'
    exact List.flatMap_append

theorem encodes_addFixed (d : Draft) (t : Text) (m : Modifier) :
    d.Encodes (d.addFixed x.plain t m) := by
  refine (encodes_flush d).bind fun d' => ?_
  intro d'' hd''
  obtain rfl := Except.ok.inj hd''
  exact List.flatMap_append

/-- Placing a capture encodes the texts around it. -/
theorem encodes_place (d : Draft) (before : Text) (c : Capture) (after : Text) (m : Modifier) :
    d.Encodes (d.place x.plain before c after m) := by
  rw [place]
  split
  · intro d' hd'
    cases hd'
  · intro d' hd'
    obtain rfl := Except.ok.inj hd'
    have htexts := x.plain.texts_part c m (d.nameOf c) before after
    show (d.parts ++ [x.plain.part c m (d.nameOf c) before after]).flatMap Part.texts = _
    rw [List.flatMap_append, List.flatMap_singleton, htexts]
    rfl

theorem encodes_addCapture (d : Draft) (before : Text) (c : Capture) (after : Text)
    (m : Modifier) : d.Encodes (d.addCapture x.plain before c after m) :=
  (encodes_flush d).bind fun d' => encodes_place d' before c after m

/-- One item encodes the texts of the parts that it becomes. -/
theorem encodes_addItem (d : Draft) (i : Item) : d.Encodes (d.addItem x.plain i) := by
  cases i with
  | text t => exact encodes_pure rfl
  | capture lead c m =>
    rw [addItem]
    split
    · exact encodes_addCapture d lead c [] m
    · exact encodes_addCapture (d.addText lead) [] c [] m
  | braces before c after m =>
    cases c with
    | none =>
      rw [addItem]
      split
      · exact encodes_pure rfl
      · exact encodes_addFixed d before m
    | some c => exact encodes_addCapture d before c after m

/-! ## All steps -/

/-- Adding items encodes the texts of all parts that they become. -/
theorem encodes_addItems (d : Draft) (items : List Item) :
    d.Encodes (d.addItems x.plain items) := by
  induction items generalizing d with
  | nil => exact encodes_pure rfl
  | cons i items ih => exact (encodes_addItem d i).bind fun d' => ih d'

/-- The text that is left at the end is encoded last. -/
theorem encoded_finish {ps : List Part} {e : Item.Ending}
    (h : (d.finish x.plain e).outcome = .ok ps) :
    ps.flatMap Part.texts = d.parts.flatMap Part.texts ++ (d.finish x.plain e).encoded := by
  cases e with
  | complete =>
    rw [finish, Run.outcome_bind] at h
    obtain ⟨d', hd', h⟩ := exists_of_bind_eq_ok h
    obtain rfl := Except.ok.inj h
    rw [encodes_flush d d' hd', finish, Run.encoded_bind_of_ok hd', Run.encoded_pure,
      List.append_nil]
  | openBrace index => cases h
  | unexpected found index =>
    rw [finish, Run.outcome_bind] at h
    obtain ⟨d', -, h⟩ := exists_of_bind_eq_ok h
    cases h

end Draft

namespace Part

/-- What is encoded while a pattern is parsed are the texts of its parts. -/
theorem encoded_parse_id {o : Options} {pattern : Text} {ps : List Part}
    (h : (parse o id pattern).outcome = .ok ps) :
    (parse o id pattern).encoded = ps.flatMap texts := by
  rw [parse] at h
  simp only [Run.within, Run.outcome_bind] at h
  obtain ⟨ts, hts, h⟩ := exists_of_bind_eq_ok h
  obtain ⟨segment, hs, h⟩ := exists_of_bind_eq_ok h
  obtain ⟨d, hd, h⟩ := exists_of_bind_eq_ok h
  have hitems := Draft.encodes_addItems (x := ⟨o, segment, id⟩) {} _ d hd
  have hfinish := Draft.encoded_finish (x := ⟨o, segment, id⟩) h
  rw [parse, Run.encoded_within, Run.encoded_bind_of_ok hts, Run.encoded_bind_of_ok hs,
    Run.encoded_bind_of_ok hd, hfinish, hitems]
  rfl

/-- **The encoder decides nothing.** A pattern has the same error under an encoder as without one,
or the same parts with their texts encoded. Which texts it is given does not depend on it; if there
are parts, they are those of the plain parts in order. -/
theorem parse_under_encoder (o : Options) (f : Text → Text) (pattern : Text) :
    (∀ e, (parse o f pattern).outcome = .error e ↔ (parse o id pattern).outcome = .error e)
      ∧ (∀ ps, (parse o id pattern).outcome = .ok ps →
        (parse o f pattern).outcome = .ok (ps.map (encode f))
          ∧ (parse o f pattern).encoded = ps.flatMap texts)
      ∧ ∀ g, (parse o f pattern).encoded = (parse o g pattern).encoded := by
  have hplain : ∀ g, (parse o g pattern).encoded = (parse o id pattern).encoded := by
    intro g
    rw [parse_eq_map_encode]
    rfl
  refine ⟨fun e => ?_, fun ps hps => ⟨?_, ?_⟩, fun g => ?_⟩
  · rw [outcome_parse_encode]
    cases (parse o id pattern).outcome with
    | error e' => exact Iff.rfl
    | ok ps => exact ⟨nofun, nofun⟩
  · rw [outcome_parse_encode, hps]
    rfl
  · rw [hplain f, encoded_parse_id hps]
  · rw [hplain f, hplain g]

end Part

end ComponentPattern
