/-
# Nothing is lost on the way to parts

What a pattern is made of is followed from its tokens over the items to the parts: its plain text,
the names and the bodies of the groups in it (`Content`). Each time a step takes something off the
front of what is left, that is all it takes (`Token.Spends`), and a draft carries what it was given
(`Draft.Carries`).

* `Item.spends_of_step` and `Item.exists_of_all_append` : what one item and what a row of items
  take;
* `Draft.Carries.addItem` and `Draft.Carries.addItems` : what a draft carries behind them;
* `Part.parse_conserves` : hence the parts hold what the tokens do, in the same order.
-/
import ComponentPattern.Proofs.Encoder
import ComponentPattern.Proofs.Image

open scoped List

namespace ComponentPattern

/-! ## Contents -/

/-- What a stretch of a pattern is made of, each in order: the code points that stand for
themselves, the names and the bodies of groups. -/
@[ext] structure Content where
  text : Text := []
  names : List Text := []
  bodies : List Text := []
deriving DecidableEq, Repr

namespace Content

/-- Two stretches in a row. -/
instance : Append Content where
  append k l := ⟨k.text ++ l.text, k.names ++ l.names, k.bodies ++ l.bodies⟩

theorem append_def (k l : Content) :
    k ++ l = ⟨k.text ++ l.text, k.names ++ l.names, k.bodies ++ l.bodies⟩ := rfl

@[simp] theorem append_empty (k : Content) : k ++ ({} : Content) = k := by
  simp [append_def]

@[simp] theorem empty_append (k : Content) : ({} : Content) ++ k = k := rfl

theorem append_assoc (k l m : Content) : k ++ l ++ m = k ++ (l ++ m) := by
  simp [append_def]

end Content

namespace Token

/-- What tokens hold. -/
def contents (ts : List Token) : Content where
  text := (ts.filter fun t => t.kind == .char || t.kind == .escaped).flatMap value
  names := (ts.filter (·.kind == .name)).map value
  bodies := (ts.filter (·.kind == .group)).map value

/-- Tokens in a row hold what the first ones do and then what the others do. -/
theorem contents_append (ts us : List Token) :
    contents (ts ++ us) = contents ts ++ contents us := by
  simp [contents, Content.append_def]

/-- The tokens in front of `rest` hold `k`. -/
def Spends (ts rest : List Token) (k : Content) : Prop :=
  ∃ used, ts = used ++ rest ∧ contents used = k

theorem spends_refl (ts : List Token) : Spends ts ts {} := ⟨[], rfl, rfl⟩

/-- Taking a token spends what it holds. -/
theorem spends_cons (t : Token) (ts : List Token) : Spends (t :: ts) ts (contents [t]) :=
  ⟨[t], rfl, rfl⟩

/-- Taking twice in a row takes both. -/
theorem Spends.trans {ts us vs : List Token} {k l : Content} (h : Spends ts us k)
    (h' : Spends us vs l) : Spends ts vs (k ++ l) := by
  obtain ⟨a, rfl, rfl⟩ := h
  obtain ⟨b, rfl, rfl⟩ := h'
  exact ⟨a ++ b, (List.append_assoc a b vs).symm, contents_append a b⟩

/-- What is left of the tokens holds the rest. -/
theorem Spends.contents_eq {ts rest : List Token} {k : Content} (h : Spends ts rest k) :
    contents ts = k ++ contents rest := by
  obtain ⟨used, rfl, rfl⟩ := h
  exact contents_append used rest

/-- What is left stands at the end. -/
theorem Spends.suffix {ts rest : List Token} {k : Content} (h : Spends ts rest k) :
    rest <:+ ts := by
  obtain ⟨used, rfl, -⟩ := h
  exact List.suffix_append used rest

end Token

/-! ## What an item takes -/

/-- The body of the group of a capture, if it has one. -/
def Capture.body? : Capture → Option Text
  | .named _ _ body => body
  | .group _ body => some body
  | .wildcard _ => none

/-- What a capture holds. -/
def Capture.content (c : Capture) : Content := ⟨[], c.name?.toList, c.body?.toList⟩

/-- Taking a capture spends its name and its body. -/
theorem Capture.spends_of_take? {ts rest : List Token} {c : Capture}
    (h : take? ts = some (c, rest)) : Token.Spends ts rest c.content := by
  unfold take? at h
  split at h
  · obtain ⟨rfl, rfl⟩ := Prod.mk.inj (Option.some.inj h)
    exact (Token.spends_cons _ _).trans (Token.spends_cons _ _)
  · obtain ⟨rfl, rfl⟩ := Prod.mk.inj (Option.some.inj h)
    exact Token.spends_cons _ _
  · obtain ⟨rfl, rfl⟩ := Prod.mk.inj (Option.some.inj h)
    exact Token.spends_cons _ _
  · obtain ⟨rfl, rfl⟩ := Prod.mk.inj (Option.some.inj h)
    exact Token.spends_cons _ _
  · cases h

namespace Item

/-- What an item holds. -/
def content : Item → Content
  | .text t => { text := t }
  | .capture lead c _ => { text := lead } ++ c.content
  | .braces before none after _ => { text := before } ++ { text := after }
  | .braces before (some c) after _ => { text := before } ++ c.content ++ { text := after }

/-- What items hold. -/
def contents : List Item → Content
  | [] => {}
  | i :: items => i.content ++ contents items

/-- Taking a modifier spends nothing. -/
theorem spends_takeModifier (ts : List Token) : Token.Spends ts (takeModifier ts).2 {} := by
  rcases ts with - | ⟨t, ts⟩
  · exact Token.spends_refl []
  · rw [takeModifier]
    split
    · next hm =>
      have hempty : Token.contents [t] = {} := by
        have hkind : t.kind = .modifier ∨ t.kind = .asterisk := by simpa [Token.isModifier] using hm
        rcases hkind with hkind | hkind <;> simp [Token.contents, hkind]
      have h := Token.spends_cons t ts
      rwa [hempty] at h
    · exact Token.spends_refl _

theorem contents_singleton_of_text {t : Token} (h : t.kind = .char ∨ t.kind = .escaped) :
    Token.contents [t] = { text := t.value } := by
  rcases h with h | h <;> simp [Token.contents, h]

/-- Taking text spends just that text. -/
theorem spends_takeText (ts : List Token) :
    Token.Spends ts (takeText ts).2 { text := (takeText ts).1 } := by
  induction ts with
  | nil => exact Token.spends_refl []
  | cons t ts ih =>
    rw [takeText]
    split
    · next hkind =>
      have h := (Token.spends_cons t ts).trans ih
      rwa [contents_singleton_of_text hkind] at h
    · exact Token.spends_refl _

/-- Behind a longest run of text there is no more of it. -/
theorem takeText_takeText (ts : List Token) : (takeText (takeText ts).2).1 = [] := by
  induction ts with
  | nil => rfl
  | cons t ts ih =>
    by_cases hkind : t.kind = .char ∨ t.kind = .escaped
    · rw [takeText, if_pos hkind]
      exact ih
    · rw [takeText, if_neg hkind]
      simp only
      rw [takeText, if_neg hkind]

/-- A capture with its modifier is a capture and what stands behind it. -/
theorem takeModified?_eq_some {lead : Text} {ts rest : List Token} {i : Item}
    (h : takeModified? lead ts = some (i, rest)) :
    ∃ c us, Capture.take? ts = some (c, us) ∧ i = .capture lead c (takeModifier us).1
      ∧ rest = (takeModifier us).2 := by
  unfold takeModified? at h
  split at h
  · next c us hc =>
    obtain ⟨rfl, rfl⟩ := Prod.mk.inj (Option.some.inj h)
    exact ⟨c, us, hc, rfl, rfl⟩
  · cases h

/-- Braces hold text, a capture if there is one, text, and then a closing brace. -/
theorem takeBraces?_eq_some {ts rest : List Token} {i : Item}
    (h : takeBraces? ts = some (i, rest)) :
    ∃ index value us, (takeText (takeCapture (takeText ts).2).2).2 = ⟨.rbrace, index, value⟩ :: us
      ∧ i = .braces (takeText ts).1 (takeCapture (takeText ts).2).1
        (takeText (takeCapture (takeText ts).2).2).1 (takeModifier us).1
      ∧ rest = (takeModifier us).2 := by
  unfold takeBraces? at h
  simp only at h
  split at h
  · next index value us hclose =>
    obtain ⟨rfl, rfl⟩ := Prod.mk.inj (Option.some.inj h)
    exact ⟨index, value, us, hclose, rfl, rfl⟩
  · cases h

theorem takeCapture_of_none {ts : List Token} (h : Capture.take? ts = none) :
    takeCapture ts = (none, ts) := by
  rw [takeCapture, h]

theorem takeCapture_of_some {ts rest : List Token} {c : Capture}
    (h : Capture.take? ts = some (c, rest)) : takeCapture ts = (some c, rest) := by
  rw [takeCapture, h]

/-- Taking a capture with its modifier spends what the capture holds. -/
theorem spends_of_takeModified? {lead : Text} {ts rest : List Token} {i : Item}
    (h : takeModified? lead ts = some (i, rest)) :
    ∃ c m, i = .capture lead c m ∧ Token.Spends ts rest c.content := by
  obtain ⟨c, us, hc, rfl, rfl⟩ := takeModified?_eq_some h
  have hspends := (Capture.spends_of_take? hc).trans (spends_takeModifier us)
  rw [Content.append_empty] at hspends
  exact ⟨c, _, rfl, hspends⟩

/-- Braces without a capture have no second text. -/
theorem spends_of_takeBraces? {ts rest : List Token} {i : Item}
    (h : takeBraces? ts = some (i, rest)) :
    Token.Spends ts rest i.content
      ∧ ∀ before after m, i = .braces before none after m → after = [] := by
  obtain ⟨index, value, us, hclose, rfl, rfl⟩ := takeBraces?_eq_some h
  have hbefore := spends_takeText ts
  have hafter := spends_takeText (takeCapture (takeText ts).2).2
  have hrest : Token.Spends (takeText (takeCapture (takeText ts).2).2).2
      (takeModifier us).2 {} := by
    rw [hclose]
    exact (Token.spends_cons _ us).trans (spends_takeModifier us)
  cases hc : Capture.take? (takeText ts).2 with
  | none =>
    rw [takeCapture_of_none hc] at hafter hrest ⊢
    refine ⟨?_, fun before after m heq => ?_⟩
    · have hall := hbefore.trans (hafter.trans hrest)
      rwa [Content.append_empty] at hall
    · cases heq
      exact takeText_takeText ts
  | some p =>
    obtain ⟨c, vs⟩ := p
    rw [takeCapture_of_some hc] at hafter hrest ⊢
    refine ⟨?_, nofun⟩
    have hall := ((hbefore.trans (Capture.spends_of_take? hc)).trans hafter).trans hrest
    rwa [Content.append_empty] at hall

/-- What can be found at the front of a token list, if it is an item. -/
theorem step_eq_item {ts rest : List Token} {i : Item} (h : step ts = .item i rest) :
    takeModified? [] ts = some (i, rest)
      ∨ (∃ t us, ts = t :: us ∧ t.kind = .char ∧ takeModified? t.value us = some (i, rest))
      ∨ (∃ t, ts = t :: rest ∧ (t.kind = .char ∨ t.kind = .escaped) ∧ i = .text t.value)
      ∨ ∃ t us, ts = t :: us ∧ t.kind = .lbrace ∧ takeBraces? us = some (i, rest) := by
  unfold step at h
  split at h
  · cases h
  · next t us =>
    split at h
    · next hm =>
      cases h
      exact .inl hm
    · split at h
      · next hkind =>
        split at h
        · next hm =>
          cases h
          exact .inr (.inl ⟨t, us, rfl, hkind, hm⟩)
        · cases h
          exact .inr (.inr (.inl ⟨t, rfl, .inl hkind, rfl⟩))
      · next hkind =>
        cases h
        exact .inr (.inr (.inl ⟨t, rfl, .inr hkind, rfl⟩))
      · next hkind =>
        split at h
        · next hb =>
          cases h
          exact .inr (.inr (.inr ⟨t, us, rfl, hkind, hb⟩))
        · cases h
      · cases h
      · cases h

/-- **One item takes what it holds**, and nothing is left out where there is no capture. -/
theorem spends_of_step {ts rest : List Token} {i : Item} (h : step ts = .item i rest) :
    Token.Spends ts rest i.content
      ∧ ∀ before after m, i = .braces before none after m → after = [] := by
  rcases step_eq_item h with hm | ⟨t, us, rfl, hkind, hm⟩ | ⟨t, rfl, hkind, rfl⟩
      | ⟨t, us, rfl, hkind, hb⟩
  · obtain ⟨c, m, rfl, hspends⟩ := spends_of_takeModified? hm
    exact ⟨hspends, nofun⟩
  · obtain ⟨c, m, rfl, hspends⟩ := spends_of_takeModified? hm
    have hall := (Token.spends_cons t us).trans hspends
    rw [contents_singleton_of_text (.inl hkind)] at hall
    exact ⟨hall, nofun⟩
  · have hall := Token.spends_cons t rest
    rw [contents_singleton_of_text hkind] at hall
    exact ⟨hall, nofun⟩
  · obtain ⟨hspends, hafter⟩ := spends_of_takeBraces? hb
    have hempty : Token.contents [t] = {} := by simp [Token.contents, hkind]
    have hall := (Token.spends_cons t us).trans hspends
    rw [hempty] at hall
    exact ⟨hall, hafter⟩

/-- The first item of a list is the one that the first step finds. -/
theorem step_of_all_cons {ts : List Token} {i : Item} {items : List Item} {e : Ending}
    (h : all ts = (i :: items, e)) :
    ∃ rest, step ts = .item i rest ∧ all rest = (items, e) := by
  cases hstep : step ts with
  | item j rest =>
    rw [all_of_item hstep] at h
    obtain ⟨hitems, he⟩ := Prod.mk.inj h
    obtain ⟨rfl, hrest⟩ := List.cons.inj hitems
    exact ⟨rest, rfl, Prod.ext hrest he⟩
  | ending e' =>
    rw [all_of_ending hstep] at h
    cases h

/-- Without items the first step is the ending. -/
theorem step_of_all_nil {ts : List Token} {e : Ending} (h : all ts = ([], e)) :
    step ts = .ending e := by
  cases hstep : step ts with
  | item j rest =>
    rw [all_of_item hstep] at h
    cases h
  | ending e' =>
    rw [all_of_ending hstep] at h
    obtain ⟨-, rfl⟩ := Prod.mk.inj h
    rfl

/-- **A row of items takes what it holds**, and the others are read from there on. -/
theorem exists_of_all_append {ts : List Token} {items items' : List Item} {e : Ending}
    (h : all ts = (items ++ items', e)) :
    ∃ rest, Token.Spends ts rest (contents items) ∧ all rest = (items', e) := by
  induction items generalizing ts with
  | nil => exact ⟨ts, Token.spends_refl ts, h⟩
  | cons i items ih =>
    obtain ⟨us, hstep, hus⟩ := step_of_all_cons h
    obtain ⟨rest, hrest, hall⟩ := ih hus
    exact ⟨rest, (spends_of_step hstep).1.trans hrest, hall⟩

/-- Braces without a capture never have a second text that could be dropped. -/
theorem after_eq_nil_of_mem_all {ts : List Token} {before after : Text} {m : Modifier}
    (h : .braces before none after m ∈ (all ts).1) : after = [] := by
  obtain ⟨items, items', hsplit⟩ := List.append_of_mem h
  obtain ⟨us, -, hus⟩ := exists_of_all_append (e := (all ts).2) (Prod.ext hsplit rfl)
  obtain ⟨rest, hstep, -⟩ := step_of_all_cons hus
  exact (spends_of_step hstep).2 before after m rfl

end Item

/-! ## What a draft carries -/

/-- The part of a capture matches what the capture spells out, whatever kind it was found to be. -/
theorem Draft.Context.source_part (x : Context) (c : Capture) (m : Modifier) (name : Name)
    (before after : Text) :
    (x.part c m name before after).source x.segment = x.source c := by
  show Part.source x.segment (Part.capture (x.classify (x.source c)).1
    (x.classify (x.source c)).2 m name before after) = x.source c
  unfold classify
  split
  · next h => exact h.symm
  · split
    · next h => exact h.symm
    · rfl

/-- The part of a capture has a name of its own exactly if the capture has. -/
theorem Draft.Context.custom?_part (x : Context) (d : Draft) (c : Capture) (m : Modifier)
    (before after : Text) :
    (x.part c m (d.nameOf c) before after).custom? = c.name? := by
  cases c <;> rfl

/-- The body of a group is what its capture spells out. -/
theorem Draft.Context.source_of_body? (x : Context) {c : Capture} {body : Text}
    (h : c.body? = some body) : x.source c = body := by
  cases c with
  | named i name b =>
    obtain rfl : b = some body := h
    rfl
  | group i b => exact Option.some.inj h
  | wildcard i => cases h

/-- The captures among parts. -/
def Part.captures (ps : List Part) : List Part := ps.filter (!·.isFixed)

/-- The captures of parts in a row are those of the first and then those of the others. -/
theorem Part.captures_append (ps qs : List Part) :
    captures (ps ++ qs) = captures ps ++ captures qs := List.filter_append ..

/-- The plain text of parts: that of fixed texts, and that before and after captures. -/
def Part.plainText (ps : List Part) : Text := (ps.flatMap Part.texts).flatten

/-- The text of parts in a row is that of the first and then that of the others. -/
theorem Part.plainText_append (ps qs : List Part) :
    plainText (ps ++ qs) = plainText ps ++ plainText qs := by
  simp [plainText]

namespace Draft

/-- A draft has parts and waiting text that hold what is given: the text, the names in order, and
the bodies of groups among the expressions of the captures. -/
structure Carries (segment : Text) (d : Draft) (k : Content) : Prop where
  text : Part.plainText d.parts ++ d.pending = k.text
  names : d.parts.filterMap Part.custom? = k.names
  bodies : k.bodies <+ (Part.captures d.parts).map (Part.source segment)

variable {o : Options} {segment : Text} {d d' : Draft} {k : Content}

theorem carries_empty : Carries segment {} {} := ⟨rfl, rfl, .slnil⟩

/-- Text that is added waits behind what the draft has. -/
theorem Carries.addText (h : d.Carries segment k) (t : Text) :
    (d.addText t).Carries segment (k ++ { text := t }) where
  text := by
    show Part.plainText d.parts ++ (d.pending ++ t) = k.text ++ t
    rw [← h.text, List.append_assoc]
  names := by
    show d.parts.filterMap Part.custom? = k.names ++ []
    rw [h.names, List.append_nil]
  bodies := by
    show k.bodies ++ [] <+ _
    rw [List.append_nil]
    exact h.bodies

/-- A part behind those of a draft without waiting text adds what it holds. -/
theorem Carries.concat (h : d.Carries segment k) (hd : d.pending = []) {p : Part} {l : Content}
    (hparts : d'.parts = d.parts ++ [p]) (hd' : d'.pending = [])
    (htext : l.text = p.texts.flatten) (hnames : l.names = p.custom?.toList)
    (hbodies : l.bodies <+ (Part.captures [p]).map (Part.source segment)) :
    d'.Carries segment (k ++ l) where
  text := by
    have hk := h.text
    rw [hd, List.append_nil] at hk
    show _ = k.text ++ l.text
    rw [hparts, hd', List.append_nil, Part.plainText_append, hk, htext]
    simp [Part.plainText]
  names := by
    show _ = k.names ++ l.names
    rw [hparts, List.filterMap_append, h.names, hnames]
    cases hp : p.custom? <;> simp [List.filterMap, hp]
  bodies := by
    show k.bodies ++ l.bodies <+ _
    rw [hparts, Part.captures_append, List.map_append]
    exact h.bodies.append hbodies

/-- Making a part of the waiting text loses nothing. -/
theorem Carries.flushed (h : d.Carries segment k) : (d.flushed id).Carries segment k := by
  unfold Draft.flushed
  split
  · exact h
  · -- the waiting text is the text of the new part
    refine ⟨?_, ?_, ?_⟩
    · show Part.plainText (d.parts ++ [Part.fixed d.pending .once]) ++ [] = k.text
      rw [Part.plainText_append, List.append_nil, ← h.text]
      simp [Part.plainText, Part.texts, Part.fixed, Part.isFixed]
    · show (d.parts ++ [Part.fixed d.pending .once]).filterMap Part.custom? = k.names
      rw [List.filterMap_append, h.names]
      exact List.append_nil k.names
    · show k.bodies <+ (Part.captures (d.parts ++ [Part.fixed d.pending .once])).map _
      rw [Part.captures_append, List.map_append]
      exact h.bodies.trans (List.sublist_append_left _ _)

/-- A capture adds the texts around it, its name and its body. -/
theorem Carries.addCapture (h : d.Carries segment k) {before after : Text} {c : Capture}
    {m : Modifier} (hadd : (d.addCapture ⟨o, segment, id⟩ before c after m).outcome = .ok d') :
    d'.Carries segment (k ++ ({ text := before } ++ c.content ++ { text := after })) := by
  rw [outcome_addCapture, outcome_place] at hadd
  split at hadd
  · cases hadd
  · obtain rfl := Except.ok.inj hadd
    refine h.flushed.concat (flushed_pending id d) rfl (flushed_pending id d) ?_ ?_ ?_
    · rw [Context.texts_part]
      show before ++ [] ++ after = (before ++ (after ++ []))
      rw [List.append_nil, List.append_nil]
    · rw [Context.custom?_part]
      show [] ++ c.name?.toList ++ [] = c.name?.toList
      rw [List.append_nil, List.nil_append]
    · have hcaptures : Part.captures [Context.part ⟨o, segment, id⟩ c m
          ((d.flushed id).nameOf c) before after]
          = [Context.part ⟨o, segment, id⟩ c m ((d.flushed id).nameOf c) before after] := by
        refine List.filter_eq_self.mpr fun p hp => ?_
        obtain rfl := List.mem_singleton.mp hp
        simp
      show [] ++ c.body?.toList ++ [] <+ (Part.captures [Context.part ⟨o, segment, id⟩ c m
          ((d.flushed id).nameOf c) before after]).map (Part.source segment)
      rw [List.append_nil, List.nil_append, hcaptures, List.map_singleton]
      have hsource := Context.source_part ⟨o, segment, id⟩ c m ((d.flushed id).nameOf c)
        before after
      rw [hsource]
      cases hbody : c.body? with
      | none => exact List.nil_sublist _
      | some body =>
        rw [Context.source_of_body? _ hbody]
        exact List.Sublist.refl _

/-- **One item** is carried along with what was carried before. -/
theorem Carries.addItem (h : d.Carries segment k) {i : Item}
    (hi : ∀ before after m, i = .braces before none after m → after = [])
    (hadd : (d.addItem ⟨o, segment, id⟩ i).outcome = .ok d') :
    d'.Carries segment (k ++ i.content) := by
  cases i with
  | text t =>
    obtain rfl := Except.ok.inj hadd
    exact h.addText t
  | capture lead c m =>
    rw [Draft.addItem] at hadd
    split at hadd
    · have hall := h.addCapture hadd
      rwa [Content.append_empty] at hall
    · -- the code point that does not lead the capture is text before it
      have hall := (h.addText lead).addCapture hadd
      rwa [Content.append_empty, Content.append_assoc] at hall
  | braces before c after m =>
    cases c with
    | none =>
      obtain rfl := hi before after m rfl
      show d'.Carries segment (k ++ ({ text := before } ++ {}))
      rw [Content.append_empty]
      rw [Draft.addItem] at hadd
      split at hadd
      · obtain rfl := Except.ok.inj hadd
        exact h.addText before
      · rw [outcome_addFixed] at hadd
        obtain rfl := Except.ok.inj hadd
        refine h.flushed.concat (flushed_pending id d) rfl (flushed_pending id d) ?_ rfl
          (List.nil_sublist _)
        exact (List.append_nil before).symm
    | some c => exact h.addCapture hadd

/-- **A row of items** is carried along. -/
theorem Carries.addItems (h : d.Carries segment k) {items : List Item}
    (hitems : ∀ i ∈ items, ∀ before after m, i = .braces before none after m → after = [])
    (hadd : (d.addItems ⟨o, segment, id⟩ items).outcome = .ok d') :
    d'.Carries segment (k ++ Item.contents items) := by
  induction items generalizing d k with
  | nil =>
    obtain rfl := Except.ok.inj hadd
    rw [Item.contents, Content.append_empty]
    exact h
  | cons i items ih =>
    obtain ⟨hi, hrest⟩ := List.forall_mem_cons.mp hitems
    rw [Draft.addItems, Run.outcome_bind] at hadd
    obtain ⟨d₁, hd₁, hadd⟩ := exists_of_bind_eq_ok hadd
    rw [Item.contents, ← Content.append_assoc]
    exact ih (h.addItem hi hd₁) hrest hadd

end Draft

/-! ## From tokens to parts -/

/-- What is found at the front of a token list where no item starts. -/
theorem Item.step_eq_ending {ts : List Token} {e : Item.Ending} (h : Item.step ts = .ending e) :
    (ts = [] ∧ e = .complete)
      ∨ ∃ t us, ts = t :: us ∧ ((t.kind = .final ∧ e = .complete)
        ∨ (t.kind = .lbrace ∧ e = .openBrace t.index)
        ∨ ((t.kind = .modifier ∨ t.kind = .rbrace ∨ t.kind = .invalid)
          ∧ e = .unexpected t.kind t.index)) := by
  unfold step at h
  split at h
  · cases h
    exact .inl ⟨rfl, rfl⟩
  · next t us =>
    refine .inr ⟨t, us, rfl, ?_⟩
    split at h
    · cases h
    · next hnone =>
      split at h
      · split at h <;> cases h
      · cases h
      · next hkind =>
        split at h
        · cases h
        · cases h
          exact .inr (.inl ⟨hkind, rfl⟩)
      · next hkind =>
        cases h
        exact .inl ⟨hkind, rfl⟩
      · next hchar hescaped hlbrace hfinal =>
        cases h
        refine .inr (.inr ⟨?_, rfl⟩)
        -- every other kind starts a capture
        obtain ⟨kind, index, value⟩ := t
        cases kind with
        | modifier => exact .inl rfl
        | rbrace => exact .inr (.inl rfl)
        | invalid => exact .inr (.inr rfl)
        | char => exact absurd rfl hchar
        | escaped => exact absurd rfl hescaped
        | lbrace => exact absurd rfl hlbrace
        | final => exact absurd rfl hfinal
        | asterisk => cases hnone
        | group => cases hnone
        | name =>
          unfold takeModified? Capture.take? at hnone
          split at hnone
          · cases hnone
          · next hnot =>
            split at hnot <;> simp_all

/-- Nothing follows the final token. -/
theorem Token.Covers.eq_nil_of_final {i : Nat} {ts us : List Token} {s : Text} {t : Token}
    (h : Token.Covers i ts s) (hsuffix : t :: us <:+ ts) (ht : t.kind = .final) : us = [] := by
  induction h with
  | final =>
    obtain heq | hnil := List.suffix_cons_iff.mp hsuffix
    · exact (List.cons.inj heq).2
    · exact absurd (List.suffix_nil.mp hnil) (List.cons_ne_nil t us)
  | cons ha _ ih =>
    obtain heq | htail := List.suffix_cons_iff.mp hsuffix
    · obtain ⟨rfl, -⟩ := List.cons.inj heq
      obtain rfl : _ = Token.Kind.final := ht
      exact ha.elim
    · exact ih htail

/-- Where the items of a pattern are complete, they hold all that its tokens do. -/
theorem Item.contents_eq_of_complete {ts : List Token} {s : Text} (hcov : Token.Covers 0 ts s)
    {items : List Item} (h : Item.all ts = (items, .complete)) :
    Item.contents items = Token.contents ts := by
  have happend : Item.all ts = (items ++ [], .complete) := by rw [h, List.append_nil]
  obtain ⟨rest, hspends, hall⟩ := Item.exists_of_all_append happend
  have hrest : Token.contents rest = {} := by
    rcases Item.step_eq_ending (Item.step_of_all_nil hall) with
      ⟨rfl, -⟩ | ⟨t, us, rfl, ⟨hfinal, -⟩ | ⟨-, he⟩ | ⟨-, he⟩⟩
    · rfl
    · rw [hcov.eq_nil_of_final hspends.suffix hfinal]
      simp [Token.contents, hfinal]
    · cases he
    · cases he
  rw [hspends.contents_eq, hrest, Content.append_empty]

namespace Part

/-- Without an encoder, parts hold what the tokens of their pattern hold. -/
theorem carries_of_read {o : Options} {segment s : Text} {ts : List Token} {ps : List Part}
    (hcov : Token.Covers 0 ts s) (h : Draft.read ⟨o, segment, id⟩ {} ts = .ok ps) :
    Draft.Carries segment ⟨ps, [], 0⟩ (Token.contents ts) := by
  obtain ⟨d, hd, hfinish⟩ := exists_of_bind_eq_ok h
  have hbraces : ∀ i ∈ (Item.all ts).1, ∀ before after m, i = .braces before none after m →
      after = [] := by
    rintro i hi before after m rfl
    exact Item.after_eq_nil_of_mem_all hi
  have hcarries := Draft.carries_empty.addItems hbraces hd
  rw [Content.empty_append] at hcarries
  obtain ⟨he, rfl⟩ := Draft.outcome_finish_eq_ok_iff.mp hfinish
  rw [Item.contents_eq_of_complete hcov (Prod.ext rfl he)] at hcarries
  have hflushed := hcarries.flushed
  refine ⟨?_, hflushed.names, hflushed.bodies⟩
  rw [← hflushed.text, Draft.flushed_pending]

/-- **Parsing loses, duplicates and reorders nothing.** The plain text of the parts is that of the
plain and escaped tokens, and their own names are the names among the tokens. The bodies of groups
are the expressions of captures, one for each in the same order. No text behind the capture that is
missing from a pair of braces is ever dropped. -/
theorem parse_conserves (o : Options) (s : Text) :
    (∀ ps, (parse o id s).outcome = .ok ps →
      ∃ ts segment, (Token.scan .strict s).outcome = .ok ts ∧ o.segmentSource = .ok segment
        ∧ plainText ps = (Token.contents ts).text
        ∧ ps.filterMap custom? = (Token.contents ts).names
        ∧ ∃ qs, qs <+ captures ps ∧ qs.map (source segment) = (Token.contents ts).bodies)
      ∧ ∀ ts before after m, (Token.scan .strict s).outcome = .ok ts →
        .braces before none after m ∈ (Item.all ts).1 → after = [] := by
  constructor
  · intro ps h
    rw [outcome_parse] at h
    obtain ⟨ts, hts, h⟩ := exists_of_bind_eq_ok h
    obtain ⟨segment, hs, h⟩ := exists_of_bind_eq_ok h
    have hscan := mapError_eq_ok_iff.mp hts
    have hcarries := carries_of_read (Token.scan_strict_eq_ok_iff.mp hscan) h
    obtain ⟨qs, hqs, hbodies⟩ := List.sublist_map_iff.mp hcarries.bodies
    refine ⟨ts, segment, hscan, mapError_eq_ok_iff.mp hs, ?_, hcarries.names, qs, hqs, hbodies.symm⟩
    rw [← hcarries.text, List.append_nil]
  · intro ts before after m _ hmem
    exact Item.after_eq_nil_of_mem_all hmem

/-- For paths: text before, in and behind braces, behind a backslash, and two groups, of which one
is the expression of a wildcard. -/
theorem parse_conserves_pathname :
    (parse Options.pathname id "/u\x7bv:n(\\d)w\x7d?\\*(.*)".toList).outcome
      = .ok [Part.fixed "/u".toList .once,
        Part.capture .expression "\\d".toList .optional (.custom ['n']) ['v'] ['w'],
        Part.fixed ['*'] .once, Part.capture .wildcard [] .once (.ordinal 0) [] []]
      ∧ ∃ ts, (Token.scan .strict "/u\x7bv:n(\\d)w\x7d?\\*(.*)".toList).outcome = .ok ts
        ∧ (Token.contents ts).text = "/uvw*".toList ∧ (Token.contents ts).names = [['n']]
        ∧ (Token.contents ts).bodies <+ ["\\d".toList, ".*".toList] := by
  have h : (parse Options.pathname id "/u\x7bv:n(\\d)w\x7d?\\*(.*)".toList).outcome
      = .ok [Part.fixed "/u".toList .once,
        Part.capture .expression "\\d".toList .optional (.custom ['n']) ['v'] ['w'],
        Part.fixed ['*'] .once, Part.capture .wildcard [] .once (.ordinal 0) [] []] := by
    decide +kernel
  obtain ⟨ts, segment, hts, -, htext, hnames, qs, hqs, hbodies⟩ :=
    (parse_conserves Options.pathname _).1 _ h
  refine ⟨h, ts, hts, htext.symm, hnames.symm, ?_⟩
  rw [← hbodies]
  exact hqs.map (source segment)

end Part

end ComponentPattern
