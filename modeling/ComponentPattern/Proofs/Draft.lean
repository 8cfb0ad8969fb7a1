/-
# What a draft becomes

`Draft.read` is what a draft becomes when it goes on with a list of tokens, apart from the journal
that is kept meanwhile. A pattern has the parts that the empty draft becomes with its tokens
(`Part.parse_eq_ok_iff`).

The encoder takes no part in this: `Part.parse_eq_map_encode` says that parsing under an encoder is
parsing without one, with the texts of the parts encoded at the end.
-/
import ComponentPattern.Part.Draft
import ComponentPattern.Proofs.Token

namespace ComponentPattern

/-- Two steps in a row succeed only if both do. -/
theorem exists_of_bind_eq_ok {ε α β : Type} {r : Except ε α} {g : α → Except ε β} {b : β}
    (h : r >>= g = .ok b) : ∃ a, r = .ok a ∧ g a = .ok b := by
  cases r with
  | error e => cases h
  | ok a => exact ⟨a, rfl, h⟩

/-- Two computations in a row succeed exactly if both do. -/
theorem bind_eq_ok_iff {ε α β : Type} {r : Except ε α} {g : α → Except ε β} {b : β} :
    r >>= g = .ok b ↔ ∃ a, r = .ok a ∧ g a = .ok b := by
  constructor
  · exact exists_of_bind_eq_ok
  · rintro ⟨a, rfl, h⟩
    exact h

/-- What has been mapped succeeded before. -/
theorem map_eq_ok_iff {ε α β : Type} {f : α → β} {x : Except ε α} {b : β} :
    x.map f = .ok b ↔ ∃ a, x = .ok a ∧ b = f a := by
  cases x <;> simp [Except.map, eq_comm]

/-- Mapping the error touches no success. -/
theorem mapError_eq_ok_iff {ε ε' α : Type} {f : ε → ε'} {x : Except ε α} {a : α} :
    x.mapError f = .ok a ↔ x = .ok a := by
  cases x with
  | error e => exact ⟨nofun, nofun⟩
  | ok b =>
    constructor
    · exact fun h => congrArg Except.ok (Except.ok.inj h)
    · exact fun h => congrArg Except.ok (Except.ok.inj h)

/-- Mapping the result touches no error. -/
theorem map_eq_error_iff {ε α β : Type} {f : α → β} {x : Except ε α} {e : ε} :
    x.map f = .error e ↔ x = .error e := by
  cases x <;> simp [Except.map]

/-- A mapped error was one before. -/
theorem mapError_eq_error_iff {ε ε' α : Type} {f : ε → ε'} {x : Except ε α} {e : ε'} :
    x.mapError f = .error e ↔ ∃ e', x = .error e' ∧ e = f e' := by
  constructor
  · intro h
    cases x with
    | error e' => exact ⟨e', rfl, (Except.error.inj h).symm⟩
    | ok a => cases h
  · rintro ⟨e', rfl, rfl⟩
    rfl

namespace Run

variable {ε α β γ : Type}

/-- Changes the value of a run. -/
def map (f : α → β) (r : Run ε α) : Run ε β := ⟨r.journal, r.outcome.map f⟩

@[simp] theorem outcome_map (f : α → β) (r : Run ε α) : (r.map f).outcome = r.outcome.map f := rfl

theorem within_map (span : Span) (f : α → β) (r : Run ε α) :
    (r.within span).map f = (r.map f).within span := rfl

/-- What is mapped first can be mapped where it is used. -/
theorem map_bind (f : α → β) (r : Run ε α) (k : β → Run ε γ) :
    r.map f >>= k = r >>= fun a => k (f a) := by
  obtain ⟨journal, outcome⟩ := r
  cases outcome <;> rfl

/-- What is mapped last can be mapped inside. -/
theorem bind_map (r : Run ε α) (k : α → Run ε β) (f : β → γ) :
    (r >>= k).map f = r >>= fun a => (k a).map f := by
  obtain ⟨journal, outcome⟩ := r
  cases outcome <;> rfl

end Run

namespace Item

/-! ## Reading on -/

/-- Where a step finds an item, it comes before the items behind it. -/
theorem all_of_item {ts rest : List Token} {i : Item} (h : step ts = .item i rest) :
    all ts = (i :: (all rest).1, (all rest).2) := by
  rw [all]
  split
  · next j us hs =>
    cases h.symm.trans hs
    rfl
  · next e hs => cases h.symm.trans hs

/-- Where a step finds an ending, there are no items. -/
theorem all_of_ending {ts : List Token} {e : Ending} (h : step ts = .ending e) :
    all ts = ([], e) := by
  rw [all]
  split
  · next j us hs => cases h.symm.trans hs
  · next e' hs =>
    cases h.symm.trans hs
    rfl

end Item

namespace Draft

/-- The parts that a draft becomes with a list of tokens. -/
def read (x : Context) (d : Draft) (ts : List Token) : Except PatternError (List Part) :=
  (d.addItems x (Item.all ts).1).outcome >>= fun d => (d.finish x (Item.all ts).2).outcome

/-- An item is added, and the rest is read on. -/
theorem read_of_item {ts rest : List Token} {i : Item} (h : Item.step ts = .item i rest)
    (x : Context) (d : Draft) :
    d.read x ts = (d.addItem x i).outcome >>= fun d => d.read x rest := by
  rw [read, Item.all_of_item h, addItems, Run.outcome_bind]
  cases (d.addItem x i).outcome <;> rfl

/-- At the end of the items the draft is finished. -/
theorem read_of_ending {ts : List Token} {e : Item.Ending} (h : Item.step ts = .ending e)
    (x : Context) (d : Draft) : d.read x ts = (d.finish x e).outcome := by
  rw [read, Item.all_of_ending h]
  rfl

end Draft

/-- The outcome of parsing, stage by stage. -/
theorem Part.outcome_parse (o : Options) (f : Text → Text) (pattern : Text) :
    (Part.parse o f pattern).outcome
      = (Token.scan .strict pattern).outcome.mapError PatternError.fault >>= fun ts =>
        o.segmentSource.mapError PatternError.nonAscii >>= fun segment =>
        Draft.read ⟨o, segment, f⟩ {} ts := by
  show (_ >>= _ : Run PatternError (List Part)).outcome = _
  simp only [Run.outcome_bind]
  rfl

/-- **A pattern has parts** if it has tokens with which the empty draft becomes those parts. -/
theorem Part.parse_eq_ok_iff {o : Options} {segment : Text} (hs : o.segmentSource = .ok segment)
    {f : Text → Text} {pattern : Text} {ps : List Part} :
    (Part.parse o f pattern).outcome = .ok ps
      ↔ ∃ ts, Token.Covers 0 ts pattern ∧ Draft.read ⟨o, segment, f⟩ {} ts = .ok ps := by
  rw [Part.outcome_parse, hs]
  constructor
  · intro h
    cases hts : (Token.scan .strict pattern).outcome with
    | error e =>
      rw [hts] at h
      cases h
    | ok ts =>
      rw [hts] at h
      exact ⟨ts, Token.scan_strict_eq_ok_iff.mp hts, h⟩
  · rintro ⟨ts, hcov, hread⟩
    rw [Token.scan_strict_eq_ok_iff.mpr hcov]
    exact hread

/-! ## What each step does -/

namespace Draft

/-- The draft with its waiting text made a part. -/
def flushed (f : Text → Text) (d : Draft) : Draft :=
  if d.pending = [] then d
  else { d with parts := d.parts ++ [Part.fixed (f d.pending) .once], pending := [] }

/-- The draft with a capture added. -/
def placed (x : Context) (d : Draft) (before : Text) (c : Capture) (after : Text)
    (modifier : Modifier) : Draft :=
  { d with
    parts := d.parts ++ [x.part c modifier (d.nameOf c) (x.encode before) (x.encode after)]
    ordinal := d.ordinalAfter c }

/-- Whether a part has the name that a capture would get. -/
def isTaken (d : Draft) (c : Capture) : Bool := d.parts.any (·.name = some (d.nameOf c))

/-- Flushing never fails. -/
theorem outcome_flush (x : Context) (d : Draft) :
    (d.flush x).outcome = .ok (d.flushed x.encode) := by
  unfold flush flushed
  by_cases hp : d.pending = []
  · rw [if_pos hp, if_pos hp]
    rfl
  · rw [if_neg hp, if_neg hp]
    rfl

/-- Adding fixed text never fails, and puts it behind the waiting text. -/
theorem outcome_addFixed (x : Context) (d : Draft) (t : Text) (m : Modifier) :
    (d.addFixed x t m).outcome
      = .ok ((d.flushed x.encode).addPart (Part.fixed (x.encode t) m)) := by
  rw [addFixed, Run.outcome_bind, outcome_flush]
  rfl

/-- Placing a capture fails only if its name is taken. -/
theorem outcome_place (x : Context) (d : Draft) (before : Text) (c : Capture) (after : Text)
    (m : Modifier) :
    (d.place x before c after m).outcome
      = if d.isTaken c then .error (.duplicateName (d.nameOf c) c.index)
        else .ok (d.placed x before c after m) := by
  unfold place isTaken
  split
  · rfl
  · rfl

/-- Adding a capture places it behind the waiting text. -/
theorem outcome_addCapture (x : Context) (d : Draft) (before : Text) (c : Capture) (after : Text)
    (m : Modifier) :
    (d.addCapture x before c after m).outcome
      = ((d.flushed x.encode).place x before c after m).outcome := by
  rw [addCapture, Run.outcome_bind, outcome_flush]
  rfl

/-- At a complete ending the parts are those of the draft and its waiting text. -/
theorem outcome_finish_complete (x : Context) (d : Draft) :
    (d.finish x .complete).outcome = .ok (d.flushed x.encode).parts := by
  rw [finish, Run.outcome_bind, outcome_flush]
  rfl

/-- A draft is finished only where its items end as they should. -/
theorem outcome_finish_eq_ok_iff {x : Context} {d : Draft} {e : Item.Ending} {ps : List Part} :
    (d.finish x e).outcome = .ok ps ↔ e = .complete ∧ (d.flushed x.encode).parts = ps := by
  cases e with
  | complete => simp [outcome_finish_complete]
  | openBrace index =>
    constructor
    · intro h
      cases h
    · intro h
      cases h.1
  | unexpected found index =>
    rw [finish, Run.outcome_bind, outcome_flush]
    constructor
    · intro h
      cases h
    · intro h
      cases h.1

end Draft

/-! ## The encoder -/

/-- A part with its texts encoded: the text it stands for, or those before and after what it
captures. -/
def Part.encode (f : Text → Text) (p : Part) : Part :=
  if p.isFixed then { p with value := f p.value }
  else { p with before := f p.before, after := f p.after }

@[simp] theorem Part.encode_name (f : Text → Text) (p : Part) : (p.encode f).name = p.name := by
  unfold Part.encode
  split <;> rfl

@[simp] theorem Part.encode_kind (f : Text → Text) (p : Part) : (p.encode f).kind = p.kind := by
  unfold Part.encode
  split <;> rfl

@[simp] theorem Part.encode_modifier (f : Text → Text) (p : Part) :
    (p.encode f).modifier = p.modifier := by
  unfold Part.encode
  split <;> rfl

@[simp] theorem Part.encode_fixed (f : Text → Text) (t : Text) (m : Modifier) :
    (Part.fixed t m).encode f = Part.fixed (f t) m := rfl

namespace Draft

/-- A draft with the texts of its parts encoded; the waiting text is not encoded yet. -/
def encode (f : Text → Text) (d : Draft) : Draft := { d with parts := d.parts.map (Part.encode f) }

/-- The context without an encoder. -/
def Context.plain (x : Context) : Context := { x with encode := id }

/-- No source is taken for fixed text. -/
theorem Context.classify_ne_fixed (x : Context) (source : Text) :
    (x.classify source).1 ≠ .fixed := by
  unfold classify
  split
  · simp
  · split <;> simp

/-- The part of a capture is no fixed text. -/
@[simp] theorem Context.isFixed_part (x : Context) (c : Capture) (m : Modifier) (name : Name)
    (before after : Text) : (x.part c m name before after).isFixed = false := by
  simpa [Part.isFixed, part, Part.capture] using x.classify_ne_fixed (x.source c)

/-- Encoding the part of a capture encodes the texts around it. -/
theorem Context.encode_part (x : Context) (c : Capture) (m : Modifier) (name : Name)
    (before after : Text) (f : Text → Text) :
    (x.plain.part c m name before after).encode f = x.part c m name (f before) (f after) := by
  show (x.part c m name before after).encode f = _
  rw [Part.encode, isFixed_part]
  rfl

/-- Flushing an encoded draft encodes the flushed one. -/
theorem flushed_encode (f : Text → Text) (d : Draft) :
    (d.encode f).flushed f = (d.flushed id).encode f := by
  unfold flushed encode
  by_cases hp : d.pending = []
  · rw [if_pos hp, if_pos hp]
  · rw [if_neg hp, if_neg hp]
    simp

/-- Encoding does not change the name that a capture gets. -/
theorem nameOf_encode (f : Text → Text) (d : Draft) (c : Capture) :
    (d.encode f).nameOf c = d.nameOf c := by
  cases c <;> rfl

theorem ordinalAfter_encode (f : Text → Text) (d : Draft) (c : Capture) :
    (d.encode f).ordinalAfter c = d.ordinalAfter c := by
  cases c <;> rfl

/-- Encoding does not change which names are taken. -/
theorem isTaken_encode (f : Text → Text) (d : Draft) (c : Capture) :
    (d.encode f).isTaken c = d.isTaken c := by
  rw [isTaken, isTaken, nameOf_encode]
  simp only [encode, List.any_map, Function.comp_def, Part.encode_name]

/-- A capture placed in an encoded draft is the encoded one, placed without an encoder. -/
theorem placed_encode (x : Context) (d : Draft) (before : Text) (c : Capture) (after : Text)
    (m : Modifier) :
    (d.encode x.encode).placed x before c after m
      = (d.placed x.plain before c after m).encode x.encode := by
  unfold placed
  rw [nameOf_encode, ordinalAfter_encode, ← Context.encode_part]
  simp only [encode, List.map_append, List.map_cons, List.map_nil]
  rfl

theorem flush_encode (x : Context) (d : Draft) :
    (d.encode x.encode).flush x = (d.flush x.plain).map (encode x.encode) := by
  have houtcome : ((d.encode x.encode).flush x).outcome
      = ((d.flush x.plain).map (encode x.encode)).outcome := by
    rw [outcome_flush, Run.outcome_map, outcome_flush, flushed_encode]
    rfl
  have hjournal : ((d.encode x.encode).flush x).journal = (d.flush x.plain).journal := by
    show (if d.pending = [] then _ else _ : Run _ _).journal
      = (if d.pending = [] then _ else _ : Run _ _).journal
    split
    · rfl
    · rfl
  exact Run.ext hjournal houtcome

/-- Adding fixed text commutes with encoding. -/
theorem addFixed_encode (x : Context) (d : Draft) (t : Text) (m : Modifier) :
    (d.encode x.encode).addFixed x t m = (d.addFixed x.plain t m).map (encode x.encode) := by
  rw [addFixed, addFixed, flush_encode, Run.map_bind, Run.bind_map]
  congr 1
  funext d'
  refine Run.ext rfl (congrArg Except.ok ?_)
  simp [encode, addPart, Context.plain]

/-- Placing a capture commutes with encoding, the error for a name included. -/
theorem place_encode (x : Context) (d : Draft) (before : Text) (c : Capture) (after : Text)
    (m : Modifier) :
    (d.encode x.encode).place x before c after m
      = (d.place x.plain before c after m).map (encode x.encode) := by
  have htaken := isTaken_encode x.encode d c
  rw [isTaken, isTaken, nameOf_encode] at htaken
  rw [place, place, nameOf_encode, htaken]
  split
  · rfl
  · exact Run.ext rfl (congrArg Except.ok (placed_encode x d before c after m))

/-- Adding a capture commutes with encoding. -/
theorem addCapture_encode (x : Context) (d : Draft) (before : Text) (c : Capture) (after : Text)
    (m : Modifier) :
    (d.encode x.encode).addCapture x before c after m
      = (d.addCapture x.plain before c after m).map (encode x.encode) := by
  rw [addCapture, addCapture, flush_encode, Run.map_bind, Run.bind_map]
  congr 1
  funext d'
  exact place_encode x d' before c after m

/-- One item: the encoder decides nothing. -/
theorem addItem_encode (x : Context) (d : Draft) (i : Item) :
    (d.encode x.encode).addItem x i = (d.addItem x.plain i).map (encode x.encode) := by
  cases i with
  | text t => rfl
  | capture lead c m =>
    show (if x.options.isLead lead = true then _ else _ : Run _ _)
      = (if x.options.isLead lead = true then _ else _ : Run _ _).map _
    split
    · exact addCapture_encode x d lead c [] m
    · exact addCapture_encode x (d.addText lead) [] c [] m
  | braces before c after m =>
    cases c with
    | none =>
      show (if m = .once ∨ before = [] then _ else _ : Run _ _)
        = (if m = .once ∨ before = [] then _ else _ : Run _ _).map _
      split
      · rfl
      · exact addFixed_encode x d before m
    | some c => exact addCapture_encode x d before c after m

/-- Adding items commutes with encoding. -/
theorem addItems_encode (x : Context) (d : Draft) (items : List Item) :
    (d.encode x.encode).addItems x items = (d.addItems x.plain items).map (encode x.encode) := by
  induction items generalizing d with
  | nil => rfl
  | cons i items ih =>
    rw [addItems, addItems, addItem_encode, Run.map_bind, Run.bind_map]
    congr 1
    funext d'
    exact ih d'

/-- The parts of an encoded draft are the encoded parts. -/
theorem finish_encode (x : Context) (d : Draft) (e : Item.Ending) :
    (d.encode x.encode).finish x e
      = (d.finish x.plain e).map (List.map (Part.encode x.encode)) := by
  cases e with
  | complete =>
    rw [finish, finish, flush_encode, Run.map_bind, Run.bind_map]
    rfl
  | openBrace index => rfl
  | unexpected found index =>
    rw [finish, finish, flush_encode, Run.map_bind, Run.bind_map]
    rfl

/-- A whole run under an encoder is the run without one, its parts encoded. -/
theorem addItems_finish_encode (x : Context) (d : Draft) (items : List Item) (e : Item.Ending) :
    ((d.encode x.encode).addItems x items >>= fun d => d.finish x e)
      = (d.addItems x.plain items >>= fun d => d.finish x.plain e).map
        (List.map (Part.encode x.encode)) := by
  rw [addItems_encode, Run.map_bind, Run.bind_map]
  congr 1
  funext d'
  exact finish_encode x d' e

end Draft

/-- **Parsing under an encoder** is parsing without one, and encoding the texts of the parts. This
includes what is written into the journal, and so the texts that are encoded. -/
theorem Part.parse_eq_map_encode (o : Options) (f : Text → Text) (pattern : Text) :
    Part.parse o f pattern = (Part.parse o id pattern).map (List.map (Part.encode f)) := by
  rw [Part.parse, Part.parse, Run.within_map, Run.bind_map]
  congr 2
  funext ts
  rw [Run.bind_map]
  congr 1
  funext segment
  exact Draft.addItems_finish_encode ⟨o, segment, f⟩ {} (Item.all ts).1 (Item.all ts).2

/-- The parts of a pattern under an encoder are its plain parts, encoded. -/
theorem Part.outcome_parse_encode (o : Options) (f : Text → Text) (pattern : Text) :
    (Part.parse o f pattern).outcome
      = (Part.parse o id pattern).outcome.map (List.map (Part.encode f)) :=
  congrArg Run.outcome (Part.parse_eq_map_encode o f pattern)

end ComponentPattern
