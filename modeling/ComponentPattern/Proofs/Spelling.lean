/-
# How pieces of a pattern are read

Every lemma here takes a piece of a pattern off the front of a text: if what follows the piece is
read to some end, so is the whole. `Token.Reads s P` is the form they share on the level of
tokens (wherever `s` stands, it is read into tokens with the property `P`), and `Draft.Yields` the
form on the level of parts: going on with `s`, the draft becomes these parts.

What may follow a piece is said by the first code point only: a name must not go on, an
unmodified capture must not meet a modifier, and plain text must not be taken along by the
capture behind it.
-/
import ComponentPattern.Proofs.Draft

namespace ComponentPattern

/-! ## First code points -/

/-- Whether a text starts with one of the given code points. -/
def Text.StartsIn (symbols : List Char) (s : Text) : Prop := ∃ c ∈ symbols, s.head? = some c

/-- The code points that modify what stands before them. -/
def Modifier.symbols : List Char := ['*', '+', '?']

/-- The code points that a capture starts with. -/
def Capture.symbols : List Char := [':', '(', '*']

theorem Text.startsIn_cons {symbols : List Char} {c : Char} {s : Text} :
    Text.StartsIn symbols (c :: s) ↔ c ∈ symbols := by
  constructor
  · rintro ⟨d, hd, he⟩
    obtain rfl : c = d := Option.some.inj he
    exact hd
  · intro hc
    exact ⟨c, hc, rfl⟩

theorem Text.not_startsIn_nil {symbols : List Char} : ¬ Text.StartsIn symbols [] := by
  rintro ⟨c, -, hc⟩
  cases hc

namespace Token

/-- A first token that modifies is spelt by a first code point that does. -/
theorem Covers.startsIn_of_isModifier {i : Nat} {t : Token} {ts : List Token} {s : Text}
    (h : Covers i (t :: ts) s) (ht : t.isModifier = true) : s.StartsIn Modifier.symbols := by
  cases h with
  | final => simp [isModifier] at ht
  | @cons _ kind value rest _ ha _ =>
    cases kind <;> simp [isModifier] at ht
    · obtain rfl : value = ['*'] := ha
      exact Text.startsIn_cons.mpr (by decide)
    · rcases ha with rfl | rfl
      · exact Text.startsIn_cons.mpr (by decide)
      · exact Text.startsIn_cons.mpr (by decide)

/-- A first token that opens a group is spelt by a parenthesis. -/
theorem Covers.startsIn_of_group {i : Nat} {t : Token} {ts : List Token} {s : Text}
    (h : Covers i (t :: ts) s) (ht : t.kind = .group) : s.StartsIn ['('] := by
  cases h with
  | final => cases ht
  | @cons _ kind value rest _ ha _ =>
    obtain rfl : kind = .group := ht
    exact Text.startsIn_cons.mpr (by decide)

/-- Tokens that start with a capture are spelt by a text that does. -/
theorem Covers.startsIn_of_take? {i : Nat} {ts : List Token} {s : Text} (h : Covers i ts s)
    (ht : Capture.take? ts ≠ none) : s.StartsIn Capture.symbols := by
  cases h with
  | final => exact absurd rfl ht
  | @cons _ kind value rest _ ha _ =>
    cases kind with
    | asterisk =>
      obtain rfl : value = ['*'] := ha
      exact Text.startsIn_cons.mpr (by decide)
    | name => exact Text.startsIn_cons.mpr (by decide)
    | group => exact Text.startsIn_cons.mpr (by decide)
    | _ => exact absurd rfl ht

/-! ## Reading on, token by token -/

/-- Wherever the text stands, it is read into tokens with the given property. -/
def Reads (s : Text) (P : List Token → Prop) : Prop := ∀ i, ∃ ts, Covers i ts s ∧ P ts

/-- A token in front of what is read. -/
theorem Reads.lexeme {s : Text} {P : List Token → Prop} (h : Reads s P) (kind : Kind)
    (value : Text) (ha : kind.Admits value s) :
    Reads (kind.source value ++ s) fun ts => ∃ i ts',
      ts = ⟨kind, i, value⟩ :: ts' ∧ (∃ j, Covers j ts' s) ∧ P ts' := by
  intro i
  obtain ⟨ts, hcov, hP⟩ := h (i + (kind.source value).length)
  exact ⟨_, .cons ha hcov, i, ts, rfl, ⟨_, hcov⟩, hP⟩

/-- What is read may be said less precisely. -/
theorem Reads.mono {s : Text} {P Q : List Token → Prop} (h : Reads s P)
    (himp : ∀ ts, P ts → Q ts) : Reads s Q := by
  intro i
  obtain ⟨ts, hcov, hP⟩ := h i
  exact ⟨ts, hcov, himp ts hP⟩

/-- A property of the tokens may use what they cover. -/
theorem Reads.covered {s : Text} {P : List Token → Prop} (h : Reads s P) :
    Reads s fun ts => (∃ i, Covers i ts s) ∧ P ts := by
  intro i
  obtain ⟨ts, hcov, hP⟩ := h i
  exact ⟨ts, hcov, ⟨i, hcov⟩, hP⟩

end Token

open Token

/-! ## Modifiers -/

/-- Where no modifier follows, none is taken. -/
theorem Item.takeModifier_of_not_startsIn {i : Nat} {ts : List Token} {s : Text}
    (h : Covers i ts s) (hs : ¬ s.StartsIn Modifier.symbols) :
    Item.takeModifier ts = (.once, ts) := by
  cases ts with
  | nil => rfl
  | cons t ts =>
    rw [takeModifier, if_neg]
    intro ht
    exact hs (h.startsIn_of_isModifier ht)

/-- A modifier is taken off; where there is none, none may follow. -/
theorem Token.Reads.modifier {m : Modifier} {s : Text} {P : List Token → Prop}
    (hs : m = .once → ¬ s.StartsIn Modifier.symbols) (h : Reads s P) :
    Reads (m.text ++ s) fun ts => ∃ ts', Item.takeModifier ts = (m, ts') ∧ P ts' := by
  cases m with
  | once =>
    refine h.covered.mono ?_
    rintro ts ⟨⟨i, hcov⟩, hP⟩
    exact ⟨ts, Item.takeModifier_of_not_startsIn hcov (hs rfl), hP⟩
  | optional =>
    refine (h.lexeme .modifier ['?'] (.inr rfl)).mono ?_
    rintro ts ⟨i, ts', rfl, -, hP⟩
    exact ⟨ts', rfl, hP⟩
  | zeroOrMore =>
    refine (h.lexeme .asterisk ['*'] rfl).mono ?_
    rintro ts ⟨i, ts', rfl, -, hP⟩
    exact ⟨ts', rfl, hP⟩
  | oneOrMore =>
    refine (h.lexeme .modifier ['+'] (.inl rfl)).mono ?_
    rintro ts ⟨i, ts', rfl, -, hP⟩
    exact ⟨ts', rfl, hP⟩

/-! ## Captures -/

namespace Capture

/-- How a capture is spelt. -/
def text : Capture → Text
  | named _ name none => ':' :: name
  | named _ name (some body) => ':' :: (name ++ '(' :: (body ++ [')']))
  | group _ body => '(' :: (body ++ [')'])
  | wildcard _ => ['*']

/-- Whether a capture can be spelt in front of the given text. -/
def Fits (c : Capture) (s : Text) : Prop :=
  match c with
  | named _ name none => name.IsIdentifier ∧ ¬ s.GoesOnWithName ∧ ¬ s.StartsIn ['(']
  | named _ name (some body) => name.IsIdentifier ∧ Group.IsBody body
  | group _ body => Group.IsBody body
  | wildcard _ => True

/-- The capture as it is spelt at another place. -/
def moved (c : Capture) (i : Nat) : Capture :=
  match c with
  | named _ name body => named i name body
  | group _ body => group i body
  | wildcard _ => wildcard i

/-- A name that no group follows is a capture of its own. -/
theorem take?_name {i : Nat} {name : Text} {ts : List Token}
    (h : ∀ t ∈ ts.head?, t.kind ≠ .group) :
    take? (⟨.name, i, name⟩ :: ts) = some (named i name none, ts) := by
  unfold take?
  split
  · rename_i heq
    cases heq
    exact absurd rfl (h _ rfl)
  · rename_i heq
    cases heq
    rfl
  · rename_i heq
    cases heq
  · rename_i heq
    cases heq
  · rename_i hname _ _
    exact absurd rfl (hname i name ts)

end Capture

/-- A capture is taken off. -/
theorem Token.Reads.capture {c : Capture} {s : Text} {P : List Token → Prop} (hc : c.Fits s)
    (h : Reads s P) :
    Reads (c.text ++ s) fun ts => ∃ i ts', Capture.take? ts = some (c.moved i, ts') ∧ P ts' := by
  cases c with
  | named j name body =>
    cases body with
    | none =>
      obtain ⟨hname, hgo, hgroup⟩ := hc
      refine (h.lexeme .name name ⟨hname, hgo⟩).mono ?_
      rintro ts ⟨i, ts', rfl, ⟨k, hcov⟩, hP⟩
      refine ⟨i, ts', Capture.take?_name ?_, hP⟩
      -- a group behind the name would be taken for its expression
      intro t ht hk
      cases ts' with
      | nil => cases ht
      | cons t' ts' =>
        obtain rfl : t' = t := Option.some.inj ht
        exact hgroup (hcov.startsIn_of_group hk)
    | some body =>
      obtain ⟨hname, hbody⟩ := hc
      have hgroup := h.lexeme .group body hbody
      have hgo : ¬ Text.GoesOnWithName (Token.Kind.group.source body ++ s) := by
        show ¬ isNameContinue '(' = true
        decide
      have hboth := hgroup.lexeme .name name ⟨hname, hgo⟩
      have happ : (Capture.named j name (some body)).text ++ s
          = Token.Kind.name.source name ++ (Token.Kind.group.source body ++ s) := by
        simp [Capture.text, Kind.source]
      rw [happ]
      refine hboth.mono ?_
      rintro ts ⟨i, _, rfl, -, k, ts', rfl, -, hP⟩
      exact ⟨i, ts', rfl, hP⟩
  | group j body =>
    refine (h.lexeme .group body hc).mono ?_
    rintro ts ⟨i, ts', rfl, -, hP⟩
    exact ⟨i, ts', rfl, hP⟩
  | wildcard j =>
    refine (h.lexeme .asterisk ['*'] rfl).mono ?_
    rintro ts ⟨i, ts', rfl, -, hP⟩
    exact ⟨i, ts', rfl, hP⟩

/-! ## Plain text -/

/-- How a plain text can be spelt: each code point behind a backslash, or bare if it is no
symbol. -/
inductive Text.Spells : Text → Text → Prop where
  | nil : Spells [] []
  | plain {c : Char} {u t : Text} (hc : c ∉ Token.symbols) (h : Spells u t) :
      Spells (c :: u) (c :: t)
  | escaped {c : Char} {u t : Text} (h : Spells u t) : Spells ('\\' :: c :: u) (c :: t)

/-- Pattern escaping spells a text. -/
theorem Text.spells_escapePattern (t : Text) : Text.Spells (Text.escapePattern t) t := by
  induction t with
  | nil => exact .nil
  | cons c t ih =>
    rw [escapePattern, escapeSymbols_cons]
    split
    · exact .escaped ih
    · rename_i hc
      refine .plain (fun hs => hc ?_) ih
      simp only [Token.symbols, patternSymbols, List.mem_cons, List.not_mem_nil, or_false] at hs ⊢
      grind

/-- What spells plain text starts with a backslash or with no symbol. -/
theorem Text.Spells.not_startsIn {u t s : Text} (h : Text.Spells u t) (hu : u ≠ [])
    {symbols : List Char} (hsym : symbols ⊆ Token.symbols) (hb : '\\' ∉ symbols) :
    ¬ Text.StartsIn symbols (u ++ s) := by
  cases h with
  | nil => exact absurd rfl hu
  | plain hc _ =>
    rw [List.cons_append, startsIn_cons]
    exact fun hin => hc (hsym hin)
  | escaped _ =>
    rw [List.cons_append, startsIn_cons]
    exact hb

/-- Plain text is taken off up to a capture or a brace. -/
theorem Token.Reads.text {u t s : Text} {P : List Token → Prop} (hu : Text.Spells u t)
    (hs : s.StartsIn ('}' :: Capture.symbols)) (h : Reads s P) :
    Reads (u ++ s) fun ts =>
      ∃ ts', Item.takeText ts = (t, ts') ∧ (∃ i, Covers i ts' s) ∧ P ts' := by
  induction hu with
  | nil =>
    refine h.covered.mono ?_
    rintro ts ⟨⟨i, hcov⟩, hP⟩
    refine ⟨ts, ?_, ⟨i, hcov⟩, hP⟩
    cases hcov with
    | final => exact absurd hs Text.not_startsIn_nil
    | @cons _ kind value rest ts ha _ =>
      -- neither kind of token that is text starts with such a code point
      rw [Item.takeText, if_neg]
      rintro (hk | hk)
      · obtain rfl : kind = .char := hk
        obtain ⟨c, rfl, hc⟩ := ha
        have hin := Text.startsIn_cons.mp hs
        simp only [Capture.symbols, List.mem_cons, List.not_mem_nil, or_false] at hin
        simp only [Token.symbols, List.mem_cons, List.not_mem_nil, or_false] at hc
        grind
      · obtain rfl : kind = .escaped := hk
        exact absurd (Text.startsIn_cons.mp hs) (by decide)
  | @plain c u t hc _ ih =>
    refine (ih.lexeme .char [c] ⟨c, rfl, hc⟩).mono ?_
    rintro ts ⟨i, ts', rfl, -, ts'', htake, hcov, hP⟩
    refine ⟨ts'', ?_, hcov, hP⟩
    rw [Item.takeText, if_pos (.inl rfl), htake]
    rfl
  | @escaped c u t _ ih =>
    refine (ih.lexeme .escaped [c] ⟨c, rfl⟩).mono ?_
    rintro ts ⟨i, ts', rfl, -, ts'', htake, hcov, hP⟩
    refine ⟨ts'', ?_, hcov, hP⟩
    rw [Item.takeText, if_pos (.inr rfl), htake]
    rfl

/-! ## Braces -/

/-- A capture starts with one of its symbols. -/
theorem Capture.startsIn_text (c : Capture) (s : Text) :
    Text.StartsIn Capture.symbols (c.text ++ s) := by
  cases c with
  | named i name body => cases body <;> exact Text.startsIn_cons.mpr (by simp [symbols])
  | group i body => exact Text.startsIn_cons.mpr (by simp [symbols])
  | wildcard i => exact Text.startsIn_cons.mpr (by simp [symbols])

/-- A right brace with its modifier is taken off. -/
theorem Token.Reads.rbrace {m : Modifier} {s : Text} {P : List Token → Prop}
    (hs : m = .once → ¬ s.StartsIn Modifier.symbols) (h : Reads s P) :
    Reads ('}' :: (m.text ++ s)) fun ts => ∃ i us ts', ts = ⟨.rbrace, i, ['}']⟩ :: us ∧
      Item.takeModifier us = (m, ts') ∧ P ts' := by
  refine ((h.modifier hs).lexeme .rbrace ['}'] rfl).mono ?_
  rintro ts ⟨i, us, rfl, -, ts', hmod, hP⟩
  exact ⟨i, us, ts', rfl, hmod, hP⟩

theorem Text.startsIn_rbrace (s : Text) : Text.StartsIn ('}' :: Capture.symbols) ('}' :: s) :=
  Text.startsIn_cons.mpr (by simp)

/-- More symbols start more texts. -/
theorem Text.StartsIn.mono {symbols symbols' : List Char} {s : Text} (h : s.StartsIn symbols)
    (hsub : symbols ⊆ symbols') : s.StartsIn symbols' := by
  obtain ⟨c, hc, hs⟩ := h
  exact ⟨c, hsub hc, hs⟩

/-- Braces around a capture are taken off. -/
theorem Token.Reads.braces {u before v after s : Text} {c : Capture} {m : Modifier}
    {P : List Token → Prop} (hu : Text.Spells u before) (hv : Text.Spells v after)
    (hc : c.Fits (v ++ '}' :: (m.text ++ s))) (hs : m = .once → ¬ s.StartsIn Modifier.symbols)
    (h : Reads s P) :
    Reads (u ++ (c.text ++ (v ++ '}' :: (m.text ++ s)))) fun ts => ∃ i ts',
      Item.takeBraces? ts = some (.braces before (some (c.moved i)) after m, ts') ∧ P ts' := by
  have hclose := h.rbrace hs
  have hafter := hclose.text hv (Text.startsIn_rbrace _)
  have hcapture := hafter.capture hc
  have hbefore := hcapture.text hu ((c.startsIn_text _).mono (List.subset_cons_self _ _))
  refine hbefore.mono ?_
  rintro ts ⟨ts₁, hb, -, i, ts₂, ht, ts₃, ha, -, j, us, ts', rfl, hm, hP⟩
  refine ⟨i, ts', ?_, hP⟩
  simp only [Item.takeBraces?, hb, Item.takeCapture, ht, ha, hm]

/-- Braces around plain text are taken off. -/
theorem Token.Reads.bracedText {u before s : Text} {m : Modifier} {P : List Token → Prop}
    (hu : Text.Spells u before) (hs : m = .once → ¬ s.StartsIn Modifier.symbols)
    (h : Reads s P) :
    Reads (u ++ '}' :: (m.text ++ s)) fun ts => ∃ ts',
      Item.takeBraces? ts = some (.braces before none [] m, ts') ∧ P ts' := by
  have hclose := h.rbrace hs
  refine (hclose.text hu (Text.startsIn_rbrace _)).mono ?_
  rintro ts ⟨ts₁, hb, -, j, us, ts', rfl, hm, hP⟩
  refine ⟨ts', ?_, hP⟩
  simp [Item.takeBraces?, hb, Item.takeCapture, Capture.take?, Item.takeText, hm]

/-! ## Items -/

namespace Item

/-- A capture at the front is an item with its modifier. -/
theorem step_capture {ts rest rest' : List Token} {c : Capture} {m : Modifier}
    (hc : Capture.take? ts = some (c, rest)) (hm : takeModifier rest = (m, rest')) :
    step ts = .item (.capture [] c m) rest' := by
  cases ts with
  | nil => cases hc
  | cons t ts => simp only [step, takeModified?, hc, hm]

/-- A plain code point in front of a capture goes with it. -/
theorem step_char_capture {i : Nat} {t : Text} {ts rest rest' : List Token} {c : Capture}
    {m : Modifier} (hc : Capture.take? ts = some (c, rest))
    (hm : takeModifier rest = (m, rest')) :
    step (⟨.char, i, t⟩ :: ts) = .item (.capture t c m) rest' := by
  have htake : takeModified? t ts = some (.capture t c m, rest') := by
    simp only [takeModified?, hc, hm]
  have hnone : takeModified? [] (⟨.char, i, t⟩ :: ts) = none := rfl
  simp only [step, hnone, htake]

/-- A plain code point elsewhere is an item of its own. -/
theorem step_char_text {i : Nat} {t : Text} {ts : List Token} (hc : Capture.take? ts = none) :
    step (⟨.char, i, t⟩ :: ts) = .item (.text t) ts := by
  have htake : takeModified? t ts = none := by simp only [takeModified?, hc]
  have hnone : takeModified? [] (⟨.char, i, t⟩ :: ts) = none := rfl
  simp only [step, hnone, htake]

/-- A left brace opens an item of its own. -/
theorem step_lbrace {i : Nat} {t : Text} {ts rest : List Token} {item : Item}
    (hb : takeBraces? ts = some (item, rest)) :
    step (⟨.lbrace, i, t⟩ :: ts) = .item item rest := by
  have hnone : takeModified? [] (⟨.lbrace, i, t⟩ :: ts) = none := rfl
  simp only [step, hnone, hb]

end Item

/-! ## Drafts -/

theorem Options.isLead_nil (o : Options) : o.isLead [] = false := by
  unfold isLead
  split <;> simp

/-- A text is the leading code point if there is one and the text is just that. -/
theorem Options.isLead_iff {o : Options} {t : Text} :
    o.isLead t = true ↔ ∃ c, o.lead = some c ∧ t = [c] := by
  unfold isLead
  cases o.lead <;> simp

theorem Options.endsWithLead_singleton (o : Options) (c : Char) :
    o.endsWithLead [c] = o.isLead [c] := by
  unfold endsWithLead isLead
  split <;> simp

/-- Where a text does not end with the leading code point, its tail does not. -/
theorem Options.endsWithLead_tail {o : Options} {c : Char} {t : Text}
    (h : o.endsWithLead (c :: t) = false) : o.endsWithLead t = false := by
  cases t with
  | nil => unfold endsWithLead; split <;> rfl
  | cons d t => exact h

namespace Draft

@[simp] theorem addText_nil (d : Draft) : d.addText [] = d := by simp [addText]

/-- Texts added one after the other are added together. -/
theorem addText_addText (d : Draft) (s t : Text) :
    (d.addText s).addText t = d.addText (s ++ t) := by
  simp [addText]

/-- A token behind a backslash goes to the waiting text. -/
theorem read_escaped (x : Context) (d : Draft) (i : Nat) (t : Text) (ts : List Token) :
    d.read x (⟨.escaped, i, t⟩ :: ts) = (d.addText t).read x ts := by
  have hstep : Item.step (⟨.escaped, i, t⟩ :: ts) = .item (.text t) ts := rfl
  rw [read_of_item hstep]
  rfl

/-- A plain code point becomes text, unless it is the leading one and a capture follows. -/
theorem read_char (x : Context) (d : Draft) (i : Nat) (t : Text) (ts : List Token)
    (h : x.options.isLead t = false ∨ Capture.take? ts = none) :
    d.read x (⟨.char, i, t⟩ :: ts) = (d.addText t).read x ts := by
  cases htake : Capture.take? ts with
  | none =>
    rw [read_of_item (Item.step_char_text htake)]
    rfl
  | some p =>
    obtain ⟨c, rest⟩ := p
    have hlead : x.options.isLead t = false := by simpa [htake] using h
    rw [read_of_item (Item.step_char_capture htake rfl), read_of_item (Item.step_capture htake rfl)]
    simp only [addItem, hlead, Options.isLead_nil, Bool.false_eq_true, if_false, addText_nil]

/-- Going on with the text, the draft becomes the given parts. -/
def Yields (x : Context) (d : Draft) (s : Text) (ps : List Part) : Prop :=
  Reads s fun ts => d.read x ts = .ok ps

/-- At the end of a text nothing more happens than that the waiting text becomes a part. -/
theorem Yields.nil (x : Context) (d : Draft) : Yields x d [] (d.flushed x.encode).parts := by
  intro i
  refine ⟨_, .final, ?_⟩
  show d.read x _ = _
  rw [read_of_ending rfl, outcome_finish_complete]

/-- A code point behind a backslash goes to the waiting text, whatever follows. -/
theorem Yields.escaped {x : Context} {d : Draft} {c : Char} {s : Text} {ps : List Part}
    (h : Yields x (d.addText [c]) s ps) : Yields x d ('\\' :: c :: s) ps := by
  refine (h.lexeme .escaped [c] ⟨c, rfl⟩).mono ?_
  rintro ts ⟨i, ts', rfl, -, hread⟩
  rw [read_escaped]
  exact hread

/-- Plain text goes to the waiting text. -/
theorem Yields.text {x : Context} {d : Draft} {u t s : Text} {ps : List Part}
    (hu : Text.Spells u t)
    (hlead : s.StartsIn Capture.symbols → x.options.endsWithLead t = false)
    (h : Yields x (d.addText t) s ps) : Yields x d (u ++ s) ps := by
  induction hu generalizing d with
  | nil => simpa using h
  | @escaped c u t hu ih =>
    have hrest : Yields x (d.addText [c]) (u ++ s) ps :=
      ih (fun hs => Options.endsWithLead_tail (hlead hs)) (by rw [addText_addText]; exact h)
    exact hrest.escaped
  | @plain c u t hc hu ih =>
    have hrest : Yields x (d.addText [c]) (u ++ s) ps :=
      ih (fun hs => Options.endsWithLead_tail (hlead hs)) (by rw [addText_addText]; exact h)
    refine (hrest.lexeme .char [c] ⟨c, rfl, hc⟩).mono ?_
    rintro ts ⟨i, ts', rfl, ⟨j, hcov⟩, hread⟩
    rw [read_char]
    · exact hread
    · -- a capture can only follow the last code point of the text
      by_cases htake : Capture.take? ts' = none
      · exact .inr htake
      · left
        have hstart := hcov.startsIn_of_take? htake
        by_cases hnil : u = []
        · subst hnil
          cases hu
          rw [← Options.endsWithLead_singleton]
          exact hlead hstart
        · exact absurd hstart (hu.not_startsIn hnil (by decide) (by decide))

/-- Names and expressions do not depend on the place of a capture. -/
theorem isTaken_moved (d : Draft) (c : Capture) (i : Nat) :
    d.isTaken (c.moved i) = d.isTaken c := by
  cases c <;> rfl

/-- Where a capture stands does not matter to the part it becomes. -/
theorem placed_moved (x : Context) (d : Draft) (before : Text) (c : Capture) (after : Text)
    (m : Modifier) (i : Nat) :
    d.placed x before (c.moved i) after m = d.placed x before c after m := by
  cases c with
  | named j name body => cases body <;> rfl
  | group j body => rfl
  | wildcard j => rfl

/-- A capture of a new name can be added wherever it stands. -/
theorem outcome_addCapture_moved {x : Context} {d : Draft} {c : Capture}
    (hfree : (d.flushed x.encode).isTaken c = false) (before after : Text) (m : Modifier)
    (i : Nat) :
    (d.addCapture x before (c.moved i) after m).outcome
      = .ok ((d.flushed x.encode).placed x before c after m) := by
  rw [outcome_addCapture, outcome_place, isTaken_moved, hfree, placed_moved]
  rfl

/-- A capture of a new name is added behind the waiting text. -/
theorem Yields.capture {x : Context} {d : Draft} {c : Capture} {m : Modifier} {s : Text}
    {ps : List Part} (hc : c.Fits (m.text ++ s))
    (hs : m = .once → ¬ s.StartsIn Modifier.symbols)
    (hfree : (d.flushed x.encode).isTaken c = false)
    (h : Yields x ((d.flushed x.encode).placed x [] c [] m) s ps) :
    Yields x d (c.text ++ (m.text ++ s)) ps := by
  refine ((h.modifier hs).capture hc).mono ?_
  rintro ts ⟨i, rest, htake, rest', hmod, hread⟩
  rw [read_of_item (Item.step_capture htake hmod), addItem, Options.isLead_nil]
  simp only [Bool.false_eq_true, if_false, addText_nil]
  rw [outcome_addCapture_moved hfree]
  exact hread

/-- The leading code point goes with the capture behind it. -/
theorem Yields.leadCapture {x : Context} {d : Draft} {p : Char} {c : Capture} {m : Modifier}
    {s : Text} {ps : List Part} (hlead : x.options.lead = some p) (hp : p ∉ Token.symbols)
    (hc : c.Fits (m.text ++ s)) (hs : m = .once → ¬ s.StartsIn Modifier.symbols)
    (hfree : (d.flushed x.encode).isTaken c = false)
    (h : Yields x ((d.flushed x.encode).placed x [p] c [] m) s ps) :
    Yields x d (p :: (c.text ++ (m.text ++ s))) ps := by
  refine (((h.modifier hs).capture hc).lexeme .char [p] ⟨p, rfl, hp⟩).mono ?_
  rintro ts ⟨j, ts', rfl, -, i, rest, htake, rest', hmod, hread⟩
  have hisLead : x.options.isLead [p] = true := Options.isLead_iff.mpr ⟨p, hlead, rfl⟩
  rw [read_of_item (Item.step_char_capture htake hmod), addItem, hisLead]
  simp only [if_true]
  rw [outcome_addCapture_moved hfree]
  exact hread

/-- A capture in braces is added with the text around it. -/
theorem Yields.braces {x : Context} {d : Draft} {u before v after s : Text} {c : Capture}
    {m : Modifier} {ps : List Part} (hu : Text.Spells u before) (hv : Text.Spells v after)
    (hc : c.Fits (v ++ '}' :: (m.text ++ s))) (hs : m = .once → ¬ s.StartsIn Modifier.symbols)
    (hfree : (d.flushed x.encode).isTaken c = false)
    (h : Yields x ((d.flushed x.encode).placed x before c after m) s ps) :
    Yields x d ('{' :: (u ++ (c.text ++ (v ++ '}' :: (m.text ++ s))))) ps := by
  have hbraces := Token.Reads.braces hu hv hc hs h
  refine (hbraces.lexeme .lbrace ['{'] rfl).mono ?_
  rintro ts ⟨j, ts', rfl, -, i, rest, htake, hread⟩
  rw [read_of_item (Item.step_lbrace htake), addItem, outcome_addCapture_moved hfree]
  exact hread

/-- Plain text in braces is a part of its own if it is modified. -/
theorem Yields.bracedText {x : Context} {d : Draft} {u t s : Text} {m : Modifier}
    {ps : List Part} (hu : Text.Spells u t) (ht : t ≠ []) (hm : m ≠ .once)
    (h : Yields x ((d.flushed x.encode).addPart (Part.fixed (x.encode t) m)) s ps) :
    Yields x d ('{' :: (u ++ '}' :: (m.text ++ s))) ps := by
  have hbraces := Token.Reads.bracedText hu (fun hm' => absurd hm' hm) h
  refine (hbraces.lexeme .lbrace ['{'] rfl).mono ?_
  rintro ts ⟨j, ts', rfl, -, rest, htake, hread⟩
  rw [read_of_item (Item.step_lbrace htake), addItem, if_neg (by simp [ht, hm]), outcome_addFixed]
  exact hread

end Draft

end ComponentPattern
