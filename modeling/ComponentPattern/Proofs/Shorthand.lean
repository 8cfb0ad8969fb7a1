/-
# Shorthand

A name alone stands for the name with the expression of a segment, and an asterisk for the group
`(.*)`, wherever it is not the modifier of what stands before it. `Token.Unfolds` relates a list of
tokens to one in which some such tokens are spelt in full. The two lists are read alongside each
other.

* `Token.covers_append_iff` : behind a text that has tokens stand the tokens of what follows it;
* `Token.Unfolds.step` : the first items of related lists agree, and what is left is related again;
* `Draft.read_iff_of_unfolds` : so both lists become the same parts;
* `Part.parse_shorthand_iff` : the same for patterns, in any context.
-/
import ComponentPattern.Proofs.Image

namespace ComponentPattern

/-! ## Tokens of texts in a row -/

/-- A name ends in front of a code point that cannot go on with it. -/
theorem Text.not_goesOn_cons {c : Char} (h : isNameContinue c = false) (t : Text) :
    ¬ Text.GoesOnWithName (c :: t) := by
  simp [GoesOnWithName, startsInName, h]

namespace Token

/-- The empty text has no tokens but the final one. -/
theorem Covers.nil_inv {i : Nat} {ts : List Token} (h : Covers i ts []) :
    ts = [⟨.final, i, []⟩] := by
  generalize hs : ([] : Text) = s at h
  cases h with
  | final => rfl
  | cons ha _ =>
    obtain ⟨c, t, hsource, -⟩ := Lexeme.read_of_admits ha
    rw [hsource] at hs
    cases hs

/-- The last token is final. -/
theorem Covers.exists_final {i : Nat} {ts : List Token} {s : Text} (h : Covers i ts s) :
    ∃ us n, ts = us ++ [⟨.final, n, []⟩] := by
  induction h with
  | final => exact ⟨[], _, rfl⟩
  | cons _ _ ih =>
    obtain ⟨us, n, rfl⟩ := ih
    exact ⟨_ :: us, n, rfl⟩

/-- Where a token is admitted, it is the first one. -/
theorem covers_cons_iff {i : Nat} {ts : List Token} {kind : Kind} {value r : Text}
    (ha : kind.Admits value r) :
    Covers i ts (kind.source value ++ r)
      ↔ ∃ us, ts = ⟨kind, i, value⟩ :: us ∧ Covers (i + (kind.source value).length) us r := by
  constructor
  · intro h
    obtain ⟨c, t, hsource, hread⟩ := Lexeme.read_of_admits ha
    rw [hsource] at h
    generalize hs : c :: t = s at h
    cases h with
    | final => cases hs
    | @cons _ kind' value' r' us ha' hus =>
      have hread' : Lexeme.read c t = .ok ⟨kind', value', r'⟩ := Lexeme.read_eq_ok_iff.mpr ⟨hs, ha'⟩
      cases hread.symm.trans hread'
      exact ⟨us, rfl, hus⟩
  · rintro ⟨us, rfl, hus⟩
    exact .cons ha hus

/-- A token that is admitted at the end of a text is admitted in front of anything that does not go
on with a name. -/
theorem Kind.Admits.append {kind : Kind} {value r : Text} (h : kind.Admits value r) {b : Text}
    (hb : ¬ b.GoesOnWithName) : kind.Admits value (r ++ b) := by
  cases kind with
  | name =>
    refine ⟨h.1, ?_⟩
    cases r with
    | nil => exact hb
    | cons c r => exact h.2
  | _ => exact h

/-- **Texts in a row.** Behind the tokens of the first text stand those of the second. -/
theorem covers_append_iff {i n : Nat} {us ts : List Token} {a b : Text}
    (ha : Covers i (us ++ [⟨.final, n, []⟩]) a) (hb : ¬ b.GoesOnWithName) :
    Covers i ts (a ++ b) ↔ ∃ vs, ts = us ++ vs ∧ Covers (i + a.length) vs b := by
  generalize hend : us ++ [⟨.final, n, []⟩] = ts₀ at ha
  induction ha generalizing us ts with
  | final =>
    obtain rfl : us = [] := by
      cases us with
      | nil => rfl
      | cons u us => simp at hend
    simp
  | @cons index kind value rest ts₀ hadm _ ih =>
    cases us with
    | nil =>
      cases hend
      exact hadm.elim
    | cons u us =>
      obtain ⟨rfl, hrest⟩ := List.cons.inj hend
      rw [List.append_assoc, covers_cons_iff (hadm.append hb)]
      simp only [ih hrest, List.length_append, Nat.add_assoc]
      constructor
      · rintro ⟨_, rfl, vs, rfl, hvs⟩
        exact ⟨vs, rfl, hvs⟩
      · rintro ⟨vs, rfl, hvs⟩
        exact ⟨us ++ vs, rfl, vs, rfl, hvs⟩

/-- Tokens do not depend on where the text starts. -/
theorem Covers.exists_covers {i : Nat} {ts : List Token} {s : Text} (h : Covers i ts s) (j : Nat) :
    ∃ us, Covers j us s := by
  induction h generalizing j with
  | final => exact ⟨_, .final⟩
  | cons ha _ ih =>
    obtain ⟨us, hus⟩ := ih _
    exact ⟨_, .cons ha hus⟩

/-! ## Shorthand and what it stands for -/

/-- Whether a group or an asterisk right behind a token of this kind may belong to it: a name or a
closed unit can be modified, and a name can have an expression. -/
def Kind.attracts : Kind → Bool
  | .char => false
  | .escaped => false
  | .lbrace => false
  | .modifier => false
  | _ => true

/-- The second list is the first one, at other places and with some shorthand spelt in full: names
as names with the expression of a segment, and asterisks, where nothing before them attracts them,
as groups. The flag says whether something stands in front that attracts. -/
inductive Unfolds (segment : Text) : Bool → List Token → List Token → Prop where
  | nil {q : Bool} : Unfolds segment q [] []
  | cons {q : Bool} {kind : Kind} {i j : Nat} {value : Text} {ts us : List Token}
      (h : Unfolds segment kind.attracts ts us) :
      Unfolds segment q (⟨kind, i, value⟩ :: ts) (⟨kind, j, value⟩ :: us)
  | name {q : Bool} {i j k : Nat} {name : Text} {ts us : List Token}
      (hts : ∀ t ∈ ts.head?, t.kind ≠ .group) (h : Unfolds segment true ts us) :
      Unfolds segment q (⟨.name, i, name⟩ :: ts) (⟨.name, j, name⟩ :: ⟨.group, k, segment⟩ :: us)
  | asterisk {i j : Nat} {value : Text} {ts us : List Token} (h : Unfolds segment true ts us) :
      Unfolds segment false (⟨.asterisk, i, value⟩ :: ts) (⟨.group, j, Part.wildcardSource⟩ :: us)

/-- With nothing in front that attracts, only more can be shorthand. -/
theorem Unfolds.mono {segment : Text} {q : Bool} {ts us : List Token}
    (h : Unfolds segment q ts us) : Unfolds segment false ts us := by
  cases h with
  | nil => exact .nil
  | cons h => exact .cons h
  | name hts h => exact .name hts h
  | asterisk h => exact .asterisk h

/-- The same text at another place. -/
theorem Covers.unfolds {i j : Nat} {ts us : List Token} {s : Text} (h : Covers i ts s)
    (h' : Covers j us s) (segment : Text) (q : Bool) : Unfolds segment q ts us := by
  induction h generalizing j us q with
  | final =>
    obtain rfl := h'.nil_inv
    exact .cons .nil
  | cons ha _ ih =>
    obtain ⟨us, rfl, hus⟩ := (covers_cons_iff ha).mp h'
    exact .cons (ih hus _)

/-- Whether something attracts behind a row of tokens. -/
def attractsBehind (q : Bool) (ts : List Token) : Bool := ts.foldl (fun _ t => t.kind.attracts) q

/-- Behind tokens the last one decides. -/
theorem attractsBehind_concat (q : Bool) (ts : List Token) (t : Token) :
    attractsBehind q (ts ++ [t]) = t.kind.attracts := by
  simp [attractsBehind]

/-- The same tokens may stand in front of both lists. -/
theorem Unfolds.append_left {segment : Text} {q : Bool} {ts us : List Token} (vs : List Token)
    (h : Unfolds segment (attractsBehind q vs) ts us) :
    Unfolds segment q (vs ++ ts) (vs ++ us) := by
  induction vs generalizing q with
  | nil => exact h
  | cons v vs ih => exact .cons (ih h)

end Token

/-! ## Agreement -/

/-- Two captures with the same name, or none, and the same expression. -/
structure Capture.Agrees (x : Draft.Context) (c c' : Capture) : Prop where
  name_eq : c.name? = c'.name?
  source_eq : x.source c = x.source c'

namespace Item

/-- Two items that differ at most in how a capture is spelt. -/
inductive Agrees (x : Draft.Context) : Item → Item → Prop where
  | text {t : Text} : Agrees x (.text t) (.text t)
  | capture {lead : Text} {c c' : Capture} {m : Modifier} (h : c.Agrees x c') :
      Agrees x (.capture lead c m) (.capture lead c' m)
  | braces {before after : Text} {c c' : Option Capture} {m : Modifier}
      (h : Option.Rel (Capture.Agrees x) c c') :
      Agrees x (.braces before c after m) (.braces before c' after m)

/-- Two first steps that agree: either both find an item, or both end, and then neither or both as
they should. -/
inductive Step.Agrees (x : Draft.Context) : Step → Step → Prop where
  | item {i i' : Item} {ts us : List Token} (hi : i.Agrees x i')
      (h : Token.Unfolds x.segment false ts us) : Step.Agrees x (.item i ts) (.item i' us)
  | ending {e e' : Ending} (h : e = .complete ↔ e' = .complete) :
      Step.Agrees x (.ending e) (.ending e')

/-- Where a capture with its modifier can be taken, it is the first item. -/
theorem step_of_takeModified? {ts rest : List Token} {i : Item}
    (h : takeModified? [] ts = some (i, rest)) : step ts = .item i rest := by
  cases ts with
  | nil => cases h
  | cons t ts => simp only [step, h]

end Item

namespace Token.Unfolds

open Item

variable {x : Draft.Context} {q : Bool} {ts us : List Token}

/-- What both sides take off agrees, and they stay related. -/
def Alongside {α : Type} (x : Draft.Context) (q : Bool) (R : α → α → Prop)
    (p p' : α × List Token) : Prop :=
  R p.1 p'.1 ∧ Unfolds x.segment q p.2 p'.2

/-- A name with what belongs to it: nothing behind it has become a group that was none before. -/
theorem take?_name (h : Unfolds x.segment true ts us) (i j : Nat) (name : Text) :
    Option.Rel (Alongside x true (Capture.Agrees x)) (Capture.take? (⟨.name, i, name⟩ :: ts))
      (Capture.take? (⟨.name, j, name⟩ :: us)) := by
  cases h with
  | nil => exact .some ⟨⟨rfl, rfl⟩, .nil⟩
  | name hts h => exact .some ⟨⟨rfl, rfl⟩, .name hts h⟩
  | @cons _ kind k l value ts us h =>
    by_cases hgroup : kind = .group
    · subst hgroup
      exact .some ⟨⟨rfl, rfl⟩, h⟩
    · rw [Capture.take?_name (by simpa using hgroup), Capture.take?_name (by simpa using hgroup)]
      exact .some ⟨⟨rfl, rfl⟩, .cons h⟩

/-- Both lists start with captures that agree, or neither starts with one. -/
theorem take? (h : Unfolds x.segment q ts us) :
    Option.Rel (Alongside x true (Capture.Agrees x)) (Capture.take? ts) (Capture.take? us) := by
  cases h with
  | nil => exact .none
  | name hts h =>
    rw [Capture.take?_name hts]
    exact .some ⟨⟨rfl, rfl⟩, h⟩
  | asterisk h => exact .some ⟨⟨rfl, rfl⟩, h⟩
  | @cons _ kind i j value ts us h =>
    cases kind with
    | name => exact h.take?_name i j value
    | group => exact .some ⟨⟨rfl, rfl⟩, h⟩
    | asterisk => exact .some ⟨⟨rfl, rfl⟩, h⟩
    | _ => exact .none

/-- Behind what attracts, an asterisk is the modifier of both lists or of none. -/
theorem takeModifier (h : Unfolds x.segment true ts us) :
    Alongside x false Eq (Item.takeModifier ts) (Item.takeModifier us) := by
  cases h with
  | nil => exact ⟨rfl, .nil⟩
  | name hts h => exact ⟨rfl, .name hts h⟩
  | @cons _ kind i j value ts us h =>
    have hkind : Token.isModifier ⟨kind, i, value⟩ = Token.isModifier ⟨kind, j, value⟩ := rfl
    simp only [Item.takeModifier, hkind]
    split
    · exact ⟨rfl, h.mono⟩
    · exact ⟨rfl, .cons h⟩

/-- Both lists start with the same text. -/
theorem takeText (h : Unfolds x.segment q ts us) :
    Alongside x false Eq (Item.takeText ts) (Item.takeText us) := by
  induction h with
  | nil => exact ⟨rfl, .nil⟩
  | name hts h _ => exact ⟨rfl, .name hts h⟩
  | asterisk h _ => exact ⟨rfl, .asterisk h⟩
  | @cons _ kind i j value ts us h ih =>
    simp only [Item.takeText]
    split
    · exact ⟨congrArg (value ++ ·) ih.1, ih.2⟩
    · exact ⟨rfl, .cons h⟩

/-- In braces, captures agree or are missing on both sides. -/
theorem takeCapture (h : Unfolds x.segment q ts us) :
    Alongside x false (Option.Rel (Capture.Agrees x)) (Item.takeCapture ts)
      (Item.takeCapture us) := by
  have htake := h.take?
  unfold Item.takeCapture
  generalize Capture.take? ts = p, Capture.take? us = p' at htake
  cases htake with
  | none => exact ⟨.none, h.mono⟩
  | some hp => exact ⟨.some hp.1, hp.2.mono⟩

/-- Captures with their modifiers agree. -/
theorem takeModified? (h : Unfolds x.segment q ts us) (lead : Text) :
    Option.Rel (Alongside x false (Item.Agrees x)) (Item.takeModified? lead ts)
      (Item.takeModified? lead us) := by
  have htake := h.take?
  unfold Item.takeModified?
  generalize Capture.take? ts = p, Capture.take? us = p' at htake
  cases htake with
  | none => exact .none
  | some hp =>
    obtain ⟨hm, hrest⟩ := hp.2.takeModifier
    simp only [hm]
    exact .some ⟨.capture hp.1, hrest⟩

/-- A right brace is one on both sides. -/
theorem rbrace (h : Unfolds x.segment q ts us) :
    (∃ i j value ts' us', ts = ⟨.rbrace, i, value⟩ :: ts' ∧ us = ⟨.rbrace, j, value⟩ :: us'
        ∧ Unfolds x.segment true ts' us')
      ∨ ((∀ t ∈ ts.head?, t.kind ≠ .rbrace) ∧ ∀ u ∈ us.head?, u.kind ≠ .rbrace) := by
  cases h with
  | nil => exact .inr ⟨by simp, by simp⟩
  | name hts h => exact .inr ⟨by simp, by simp⟩
  | asterisk h => exact .inr ⟨by simp, by simp⟩
  | @cons _ kind i j value ts us h =>
    by_cases hkind : kind = .rbrace
    · subst hkind
      exact .inl ⟨i, j, value, ts, us, rfl, rfl, h⟩
    · exact .inr ⟨by simpa using hkind, by simpa using hkind⟩

/-- Braces agree, with all that stands in them. -/
theorem takeBraces? (h : Unfolds x.segment q ts us) :
    Option.Rel (Alongside x false (Item.Agrees x)) (Item.takeBraces? ts) (Item.takeBraces? us) := by
  obtain ⟨hbefore, h₁⟩ := h.takeText
  obtain ⟨hcapture, h₂⟩ := h₁.takeCapture
  obtain ⟨hafter, h₃⟩ := h₂.takeText
  unfold Item.takeBraces?
  simp only [hbefore, hafter]
  rcases h₃.rbrace with ⟨i, j, value, ts', us', hts, hus, hrest⟩ | ⟨hts, hus⟩
  · obtain ⟨hm, hrest⟩ := hrest.takeModifier
    simp only [hts, hus, hm]
    exact .some ⟨.braces hcapture, hrest⟩
  · -- no brace on either side, so neither is an item
    split
    · next hclose => exact absurd rfl (hts _ (by rw [hclose]; rfl))
    · split
      · next hclose => exact absurd rfl (hus _ (by rw [hclose]; rfl))
      · exact .none

/-- **One step.** Both lists start with items that agree, or both end, in the same way or not as
they should. -/
theorem step (h : Unfolds x.segment q ts us) : Step.Agrees x (Item.step ts) (Item.step us) := by
  have hmodified := h.takeModified? []
  generalize hts : Item.takeModified? [] ts = p, hus : Item.takeModified? [] us = p' at hmodified
  cases hmodified with
  | some hp =>
    rw [Item.step_of_takeModified? hts, Item.step_of_takeModified? hus]
    exact .item hp.1 hp.2
  | none =>
    cases h with
    | nil => exact .ending Iff.rfl
    | name _ _ => cases hus
    | asterisk _ => cases hus
    | @cons _ kind i j value ts us h =>
      cases kind with
      | char =>
        have hlead := h.takeModified? value
        simp only [Item.step, hts, hus]
        generalize Item.takeModified? value ts = p, Item.takeModified? value us = p' at hlead
        cases hlead with
        | none => exact .item .text h.mono
        | some hp => exact .item hp.1 hp.2
      | escaped =>
        simp only [Item.step, hts, hus]
        exact .item .text h.mono
      | lbrace =>
        have hbraces := h.takeBraces?
        simp only [Item.step, hts, hus]
        generalize Item.takeBraces? ts = p, Item.takeBraces? us = p' at hbraces
        cases hbraces with
        | none => exact .ending (by simp)
        | some hp => exact .item hp.1 hp.2
      | final => exact .ending Iff.rfl
      | asterisk => cases hus
      | group => cases hus
      | name =>
        -- whether or not a group follows, a name is a capture
        cases ts with
        | nil => cases hts
        | cons t ts =>
          obtain ⟨kind, k, body⟩ := t
          cases kind <;> cases hts
      | rbrace => exact .ending (by simp)
      | modifier => exact .ending (by simp)
      | invalid => exact .ending (by simp)

end Token.Unfolds

/-! ## Drafts -/

namespace Draft

variable {x : Context}

/-- A capture is added like any other that agrees with it. -/
theorem outcome_addCapture_of_agrees {c c' : Capture} (h : c.Agrees x c') (d d' : Draft)
    (before after : Text) (m : Modifier) :
    (d.addCapture x before c after m).outcome = .ok d'
      ↔ (d.addCapture x before c' after m).outcome = .ok d' := by
  have hname : ∀ d : Draft, d.nameOf c = d.nameOf c' := by
    intro d
    rw [nameOf_eq, nameOf_eq, h.name_eq]
  have htaken : (d.flushed x.encode).isTaken c = (d.flushed x.encode).isTaken c' := by
    rw [isTaken, isTaken, hname]
  have hplaced : (d.flushed x.encode).placed x before c after m
      = (d.flushed x.encode).placed x before c' after m := by
    simp only [placed, Context.part, hname, h.source_eq, ordinalAfter_eq, h.name_eq]
  simp only [outcome_addCapture, outcome_place, htaken, hplaced]
  split
  · constructor
    · intro herror
      cases herror
    · intro herror
      cases herror
  · rfl

/-- **One item** changes a draft like any other that agrees with it. -/
theorem outcome_addItem_of_agrees {i i' : Item} (h : i.Agrees x i') (d d' : Draft) :
    (d.addItem x i).outcome = .ok d' ↔ (d.addItem x i').outcome = .ok d' := by
  cases h with
  | text => rfl
  | @capture lead c c' m h =>
    by_cases hlead : x.options.isLead lead = true
    · simp only [addItem, if_pos hlead]
      exact outcome_addCapture_of_agrees h d d' lead [] m
    · simp only [addItem, if_neg hlead]
      exact outcome_addCapture_of_agrees h (d.addText lead) d' [] [] m
  | @braces before after c c' m h =>
    cases h with
    | none => rfl
    | some h => exact outcome_addCapture_of_agrees h d d' before after m

/-- **Two related lists** of tokens make the same parts of a draft. -/
theorem read_iff_of_unfolds {ts us : List Token} (h : Token.Unfolds x.segment false ts us)
    (d : Draft) (ps : List Part) : d.read x ts = .ok ps ↔ d.read x us = .ok ps := by
  -- on the number of tokens in the shorter list, of which every item takes at least one
  induction hn : ts.length using Nat.strongRecOn generalizing ts us d with
  | ind n ih =>
    have hstep := h.step
    generalize hts : Item.step ts = s, hus : Item.step us = s' at hstep
    cases hstep with
    | @item i i' ts' us' hi hrest =>
      have hlength : ts'.length < n := hn ▸ Item.step_length hts
      rw [read_of_item hts, read_of_item hus, bind_eq_ok_iff, bind_eq_ok_iff]
      simp only [outcome_addItem_of_agrees hi, ih _ hlength hrest _ rfl]
    | @ending e e' he =>
      rw [read_of_ending hts, read_of_ending hus, outcome_finish_eq_ok_iff,
        outcome_finish_eq_ok_iff, he]

end Draft

/-! ## Patterns -/

/-- The second text is the first one with some shorthand spelt in full: wherever one has tokens, so
has the other, and they are related. -/
structure Text.Unfolds (segment : Text) (q : Bool) (s s' : Text) : Prop where
  forth : ∀ i ts, Token.Covers i ts s → ∃ us, Token.Covers i us s' ∧ Token.Unfolds segment q ts us
  back : ∀ i us, Token.Covers i us s' → ∃ ts, Token.Covers i ts s ∧ Token.Unfolds segment q ts us

namespace Text.Unfolds

open Token

variable {segment : Text}

/-- A name that no group follows, and the name with the expression of a segment. -/
theorem name (hsegment : Group.IsBody segment) {n b : Text} (hn : n.IsIdentifier)
    (hgo : ¬ b.GoesOnWithName) (hgroup : ¬ b.StartsIn ['(']) (q : Bool) :
    Text.Unfolds segment q (':' :: (n ++ b)) (':' :: (n ++ '(' :: (segment ++ ')' :: b))) := by
  have hshort : Kind.name.Admits n b := ⟨hn, hgo⟩
  have hbody : Kind.group.Admits segment b := hsegment
  have hlong : Kind.name.Admits n (Kind.group.source segment ++ b) :=
    ⟨hn, Text.not_goesOn_cons (by decide) _⟩
  have hsource : ':' :: (n ++ '(' :: (segment ++ ')' :: b))
      = Kind.name.source n ++ (Kind.group.source segment ++ b) := by
    simp [Kind.source]
  have hhead : ∀ i ts, Covers i ts b → ∀ t ∈ ts.head?, t.kind ≠ .group := by
    intro i ts hts t ht hkind
    obtain ⟨us, rfl⟩ := List.head?_eq_some_iff.mp ht
    exact hgroup (hts.startsIn_of_group hkind)
  rw [hsource]
  constructor
  · -- the tokens of `b` are the same behind the group, only further on
    intro i ts hts
    obtain ⟨ts, rfl, hb⟩ := (covers_cons_iff hshort).mp hts
    obtain ⟨us, hus⟩ := hb.exists_covers
      (i + (Kind.name.source n).length + (Kind.group.source segment).length)
    exact ⟨_, .cons hlong (.cons hbody hus), .name (hhead _ _ hb) (hb.unfolds hus segment true)⟩
  · intro i us hus
    obtain ⟨us, rfl, hrest⟩ := (covers_cons_iff hlong).mp hus
    obtain ⟨us, rfl, hb⟩ := (covers_cons_iff hbody).mp hrest
    obtain ⟨ts, hts⟩ := hb.exists_covers (i + (Kind.name.source n).length)
    exact ⟨_, .cons hshort hts, .name (hhead _ _ hts) (hts.unfolds hb segment true)⟩

/-- An asterisk that nothing before it attracts, and the group of its expression. -/
theorem asterisk (b : Text) :
    Text.Unfolds segment false ('*' :: b) ('(' :: '.' :: '*' :: ')' :: b) := by
  have hshort : Kind.asterisk.Admits ['*'] b := rfl
  have hlong : Kind.group.Admits Part.wildcardSource b := Group.isBody_wildcardSource
  constructor
  · intro i ts hts
    obtain ⟨ts, rfl, hb⟩ := (covers_cons_iff hshort).mp hts
    obtain ⟨us, hus⟩ := hb.exists_covers (i + (Kind.group.source Part.wildcardSource).length)
    exact ⟨_, .cons hlong hus, .asterisk (hb.unfolds hus segment true)⟩
  · intro i us hus
    obtain ⟨us, rfl, hb⟩ := (covers_cons_iff hlong).mp hus
    obtain ⟨ts, hts⟩ := hb.exists_covers (i + (Kind.asterisk.source ['*']).length)
    exact ⟨_, .cons hshort hts, .asterisk (hts.unfolds hb segment true)⟩

end Text.Unfolds

namespace Part

/-- Spelling shorthand in full behind a text with tokens changes no parts. -/
theorem parse_iff_of_unfolds {o : Options} {segment : Text}
    (hsegment : o.segmentSource = .ok segment) {n : Nat} {us : List Token} {a s s' : Text}
    (ha : Token.Covers 0 (us ++ [⟨.final, n, []⟩]) a) (hs : ¬ s.GoesOnWithName)
    (hs' : ¬ s'.GoesOnWithName)
    (h : Text.Unfolds segment (Token.attractsBehind false us) s s') (f : Text → Text)
    (ps : List Part) :
    (parse o f (a ++ s)).outcome = .ok ps ↔ (parse o f (a ++ s')).outcome = .ok ps := by
  rw [parse_eq_ok_iff hsegment, parse_eq_ok_iff hsegment]
  have hread := fun ts ts' (hts : Token.Unfolds segment _ ts ts') =>
    Draft.read_iff_of_unfolds (x := ⟨o, segment, f⟩) (hts.append_left us) {} ps
  constructor
  · rintro ⟨ts, hcov, hps⟩
    obtain ⟨vs, rfl, hvs⟩ := (Token.covers_append_iff ha hs).mp hcov
    obtain ⟨ws, hws, hunfolds⟩ := h.forth _ vs hvs
    have hcov' := (Token.covers_append_iff ha hs').mpr ⟨ws, rfl, hws⟩
    exact ⟨us ++ ws, hcov', (hread vs ws hunfolds).mp hps⟩
  · rintro ⟨ts, hcov, hps⟩
    obtain ⟨ws, rfl, hws⟩ := (Token.covers_append_iff ha hs').mp hcov
    obtain ⟨vs, hvs, hunfolds⟩ := h.back _ ws hws
    have hcov' := (Token.covers_append_iff ha hs).mpr ⟨vs, rfl, hvs⟩
    exact ⟨us ++ vs, hcov', (hread vs ws hunfolds).mpr hps⟩

/-- **Shorthand and what it stands for** give the same parts, behind any text `a` with tokens and in
front of any text `b`: a name alone and the name with the expression of a segment, where `b` neither
goes on with the name nor brings a group of its own; and an asterisk and the group of its
expression, where the last token of `a` does not attract them. -/
theorem parse_shorthand_iff {o : Options} (hd : ∀ c ∈ o.delimiter, isAscii c = true)
    (f : Text → Text) {a : Text} {ts : List Token} (ha : (Token.scan .strict a).outcome = .ok ts)
    (b : Text) :
    ∃ segment, o.segmentSource = .ok segment
      ∧ (∀ n : Text, n.IsIdentifier → ¬ b.GoesOnWithName → ¬ b.StartsIn ['('] → ∀ ps,
        (parse o f (a ++ [':'] ++ n ++ b)).outcome = .ok ps
          ↔ (parse o f (a ++ [':'] ++ n ++ ['('] ++ segment ++ [')'] ++ b)).outcome = .ok ps)
      ∧ ((a = [] ∨ ∃ us t i, ts = us ++ [t, ⟨.final, i, []⟩]
          ∧ t.kind ∈ [Token.Kind.char, .escaped, .lbrace, .modifier]) → ∀ ps,
        (parse o f (a ++ ['*'] ++ b)).outcome = .ok ps
          ↔ (parse o f (a ++ ['(', '.', '*', ')'] ++ b)).outcome = .ok ps) := by
  obtain ⟨segment, hsegment, hbody, -⟩ := Options.exists_segmentSource hd
  have hcov := Token.scan_strict_eq_ok_iff.mp ha
  refine ⟨segment, hsegment, fun n hn hgo hgroup ps => ?_, fun hlast ps => ?_⟩
  · obtain ⟨us, k, rfl⟩ := hcov.exists_final
    simp only [List.append_assoc, List.singleton_append]
    have hcolon : ∀ t, ¬ Text.GoesOnWithName (':' :: t) := Text.not_goesOn_cons (by decide)
    exact parse_iff_of_unfolds hsegment hcov (hcolon _) (hcolon _)
      (.name hbody hn hgo hgroup _) f ps
  · obtain ⟨us, k, rfl, hfree⟩ : ∃ us k, ts = us ++ [⟨.final, k, []⟩]
        ∧ Token.attractsBehind false us = false := by
      rcases hlast with rfl | ⟨us, t, k, rfl, ht⟩
      · exact ⟨[], 0, hcov.nil_inv, rfl⟩
      · refine ⟨us ++ [t], k, by simp, ?_⟩
        rw [Token.attractsBehind_concat]
        simp only [List.mem_cons, List.not_mem_nil, or_false] at ht
        rcases ht with ht | ht | ht | ht <;> rw [ht] <;> rfl
    rw [List.append_assoc, List.append_assoc]
    refine parse_iff_of_unfolds hsegment hcov (Text.not_goesOn_cons (by decide) _)
      (Text.not_goesOn_cons (by decide) _) ?_ f ps
    rw [hfree]
    exact .asterisk b

/-- Both kinds of shorthand inside braces that are repeated. -/
theorem parse_shorthand_iff_braces :
    (parse Options.pathname id "x\x7b/:id([^\\/]+?)\x7d*".toList).outcome
        = .ok [Part.fixed ['x'] .once,
          Part.capture .segment [] .zeroOrMore (.custom ['i', 'd']) ['/'] []]
      ∧ (parse Options.pathname id "x\x7b/(.*)\x7d*".toList).outcome
        = .ok [Part.fixed ['x'] .once,
          Part.capture .wildcard [] .zeroOrMore (.ordinal 0) ['/'] []] := by
  have ha : (Token.scan .strict "x\x7b/".toList).outcome
      = .ok ([⟨.char, 0, ['x']⟩, ⟨.lbrace, 1, ['\x7b']⟩]
        ++ [⟨.char, 2, ['/']⟩, ⟨.final, 3, []⟩]) := by
    decide +kernel
  have hs : Options.pathname.segmentSource = .ok "[^\\/]+?".toList := by decide +kernel
  obtain ⟨segment, hsegment, hname, hasterisk⟩ :=
    parse_shorthand_iff Options.isAscii_delimiter_pathname id ha "\x7d*".toList
  obtain rfl := Except.ok.inj (hs.symm.trans hsegment)
  have hid : Text.IsIdentifier ['i', 'd'] := ⟨by decide, List.forall_mem_singleton.mpr (by decide)⟩
  have hgo : ¬ Text.GoesOnWithName "\x7d*".toList := Text.not_goesOn_cons (by decide) ['*']
  have hgroup : ¬ Text.StartsIn ['('] "\x7d*".toList := mt Text.startsIn_cons.mp (by decide)
  constructor
  · apply (hname ['i', 'd'] hid hgo hgroup _).mp
    decide +kernel
  · apply (hasterisk (.inr ⟨_, _, 3, rfl, by decide⟩) _).mp
    decide +kernel

end Part

end ComponentPattern
