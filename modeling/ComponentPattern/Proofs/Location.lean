/-
# Where errors point

Every error of a pattern points at the code point that caused it (`PatternError.Marks`). There are
three places an index can come from: a fault, the token behind the last item, and the name of a
capture that is already taken.

* `Token.Covers.exists_drop` : a token stands in the text at its index;
* `Draft.addItem_eq_error` and `Draft.exists_of_addItems_error` : the only error on the way from
  items to parts is a name that was given before;
* `Part.parse_error_marks` : the statement for whole patterns.
-/
import ComponentPattern.Proofs.Conservation
import ComponentPattern.Proofs.Fragment
import ComponentPattern.Proofs.Policy

namespace ComponentPattern

/-- What is left behind `k` code points starts with the code point at `k`. -/
theorem Text.getElem?_of_drop {s r : Text} {k : Nat} {c : Char} (h : s.drop k = c :: r) :
    s[k]? = some c := by
  have hhead : (s.drop k)[0]? = some c := by rw [h]; rfl
  simpa using hhead

/-! ## Tokens in a text -/

/-- A token stands in the text at its index. -/
theorem Token.Covers.exists_drop {i : Nat} {ts : List Token} {s : Text} {t : Token}
    (h : Token.Covers i ts s) (ht : t ∈ ts) (hfinal : t.kind ≠ .final) :
    ∃ k rest, t.index = i + k ∧ s.drop k = t.source ++ rest ∧ t.kind.Admits t.value rest := by
  induction h with
  | final =>
    obtain rfl := List.mem_singleton.mp ht
    exact absurd rfl hfinal
  | @cons i kind value rest us ha hr ih =>
    rcases List.mem_cons.mp ht with rfl | ht
    · exact ⟨0, rest, rfl, rfl, ha⟩
    · obtain ⟨k, rest', hindex, hdrop, hadm⟩ := ih ht
      refine ⟨(kind.source value).length + k, rest', by omega, ?_, hadm⟩
      rw [List.drop_length_add_append]
      exact hdrop

/-- The code point at the index of a token that marks something in a pattern. -/
theorem Token.Covers.getElem?_index {ts : List Token} {s : Text} {t : Token}
    (h : Token.Covers 0 ts s) (ht : t ∈ ts) :
    (t.kind = .name → s[t.index]? = some ':') ∧ (t.kind = .lbrace → s[t.index]? = some '{')
      ∧ (t.kind = .rbrace → s[t.index]? = some '}')
      ∧ (t.kind = .modifier → s[t.index]? = some '+' ∨ s[t.index]? = some '?')
      ∧ t.kind ≠ .invalid := by
  by_cases hfinal : t.kind = .final
  · simp [hfinal]
  · obtain ⟨k, rest, hindex, hdrop, hadm⟩ := h.exists_drop ht hfinal
    obtain ⟨kind, index, value⟩ := t
    obtain rfl : index = k := by simpa using hindex
    refine ⟨?_, ?_, ?_, ?_, ?_⟩
    · rintro rfl
      exact Text.getElem?_of_drop hdrop
    · rintro rfl
      obtain rfl : value = ['{'] := hadm
      exact Text.getElem?_of_drop hdrop
    · rintro rfl
      obtain rfl : value = ['}'] := hadm
      exact Text.getElem?_of_drop hdrop
    · rintro rfl
      obtain rfl | rfl : value = ['+'] ∨ value = ['?'] := hadm
      · exact .inl (Text.getElem?_of_drop hdrop)
      · exact .inr (Text.getElem?_of_drop hdrop)
    · rintro rfl
      exact hadm

/-- A backslash at which no token can be read is the last code point. -/
theorem Lexeme.eq_nil_of_danglingEscape {c : Char} {t : Text}
    (h : read c t = .error .danglingEscape) : t = [] := by
  obtain ⟨rfl, hunreadable⟩ := unreadable_of_read h
  rcases hunreadable with ⟨-, hnil⟩ | ⟨hc, -⟩ | ⟨hc, -⟩
  · exact hnil
  · exact absurd hc (by decide)
  · exact absurd hc (by decide)

/-- The first fault of a text stands at the code point that marks its cause. -/
theorem Token.getElem?_of_scan_error {s : Text} {f : Fault}
    (h : (Token.scan .strict s).outcome = .error f) :
    s[f.index]? = some f.cause.mark ∧ (f.cause = .danglingEscape → f.index + 1 = s.length) := by
  have hfirst : ((Reading.all 0 s).filterMap Reading.fault?).head? = some f :=
    Reading.mapM_toExcept_eq_error_iff.mp h
  obtain ⟨k, c, r, hindex, hdrop, hread⟩ :=
    Reading.exists_of_mem_faults (List.mem_of_mem_head? hfirst)
  obtain ⟨hmark, -⟩ := Lexeme.unreadable_of_read hread
  rw [hindex, Nat.zero_add, hmark]
  refine ⟨Text.getElem?_of_drop hdrop, fun hcause => ?_⟩
  rw [hcause] at hread
  have hlength := congrArg List.length hdrop
  rw [Lexeme.eq_nil_of_danglingEscape hread, List.length_drop, List.length_singleton] at hlength
  omega

/-! ## Names in a token list -/

/-- The name of a capture is one of the tokens. -/
theorem Capture.name_mem_of_take? {ts rest : List Token} {c : Capture} {name : Text}
    (h : take? ts = some (c, rest)) (hname : c.name? = some name) :
    ⟨.name, c.index, name⟩ ∈ ts := by
  unfold take? at h
  split at h
  · obtain ⟨rfl, rfl⟩ := Prod.mk.inj (Option.some.inj h)
    obtain rfl := Option.some.inj hname
    exact List.mem_cons_self
  · obtain ⟨rfl, rfl⟩ := Prod.mk.inj (Option.some.inj h)
    obtain rfl := Option.some.inj hname
    exact List.mem_cons_self
  · obtain ⟨rfl, rfl⟩ := Prod.mk.inj (Option.some.inj h)
    cases hname
  · obtain ⟨rfl, rfl⟩ := Prod.mk.inj (Option.some.inj h)
    cases hname
  · cases h

namespace Item

/-- The name of a capture is a token, and its index is that of the capture. -/
theorem name_mem_of_step {ts rest : List Token} {i : Item} {c : Capture} {name : Text}
    (h : step ts = .item i rest) (hc : i.capture? = some c) (hname : c.name? = some name) :
    ⟨.name, c.index, name⟩ ∈ ts := by
  have hmodified : ∀ {lead us}, takeModified? lead us = some (i, rest) →
      ⟨.name, c.index, name⟩ ∈ us := by
    intro lead us hm
    obtain ⟨c', vs, htake, rfl, -⟩ := takeModified?_eq_some hm
    obtain rfl : c' = c := Option.some.inj hc
    exact Capture.name_mem_of_take? htake hname
  rcases step_eq_item h with hm | ⟨t, us, rfl, -, hm⟩ | ⟨t, rfl, -, rfl⟩ | ⟨t, us, rfl, -, hb⟩
  · exact hmodified hm
  · exact List.mem_cons_of_mem t (hmodified hm)
  · cases hc
  · obtain ⟨-, -, vs, -, rfl, -⟩ := takeBraces?_eq_some hb
    refine List.mem_cons_of_mem t ((takeText_suffix us).subset ?_)
    cases htake : Capture.take? (takeText us).2 with
    | none =>
      rw [takeCapture_of_none htake] at hc
      cases hc
    | some p =>
      rw [takeCapture_of_some htake] at hc
      obtain rfl : p.1 = c := Option.some.inj hc
      exact Capture.name_mem_of_take? htake hname

/-- The captures in the items of sound tokens are sound. -/
theorem isSound_of_mem_all {ts : List Token} (hts : ∀ t ∈ ts, t.IsSound) {i : Item}
    (hi : i ∈ (all ts).1) : ∀ c ∈ i.capture?, c.IsSound := by
  obtain ⟨items, items', hsplit⟩ := List.append_of_mem hi
  obtain ⟨us, hspends, hus⟩ := exists_of_all_append (e := (all ts).2) (Prod.ext hsplit rfl)
  obtain ⟨rest, hstep, -⟩ := step_of_all_cons hus
  exact (isSound_of_step (fun t ht => hts t (hspends.suffix.subset ht)) hstep).1

end Item

/-! ## Names that are taken -/

namespace Draft

/-- Making a part of the waiting text takes no name. -/
theorem isTaken_flushed (f : Text → Text) (d : Draft) (c : Capture) :
    (d.flushed f).isTaken c = d.isTaken c := by
  have hname : (d.flushed f).nameOf c = d.nameOf c := by
    rw [nameOf_eq, nameOf_eq, flushed_ordinal]
  rw [isTaken, isTaken, hname]
  unfold flushed
  split
  · rfl
  · simp [Part.fixed]

/-- Adding a capture fails only because its name is taken. -/
theorem addCapture_eq_error {x : Context} {d : Draft} {before after : Text} {c : Capture}
    {m : Modifier} {e : PatternError} (h : (d.addCapture x before c after m).outcome = .error e) :
    d.isTaken c = true ∧ e = .duplicateName (d.nameOf c) c.index := by
  rw [outcome_addCapture, outcome_place, isTaken_flushed] at h
  split at h
  · next htaken =>
    obtain rfl := Except.error.inj h
    rw [nameOf_eq, nameOf_eq, flushed_ordinal]
    exact ⟨htaken, rfl⟩
  · cases h

/-- **One item** can only fail by a name that is taken. -/
theorem addItem_eq_error {x : Context} {d : Draft} {i : Item} {e : PatternError}
    (h : (d.addItem x i).outcome = .error e) :
    ∃ c, i.capture? = some c ∧ d.isTaken c = true ∧ e = .duplicateName (d.nameOf c) c.index := by
  cases i with
  | text t => cases h
  | capture lead c m =>
    rw [addItem] at h
    split at h
    · exact ⟨c, rfl, addCapture_eq_error h⟩
    · -- the text in front of the capture changes neither names nor ordinals
      obtain ⟨htaken, rfl⟩ := addCapture_eq_error h
      refine ⟨c, rfl, htaken, ?_⟩
      rw [nameOf_eq, nameOf_eq]
      rfl
  | braces before c after m =>
    cases c with
    | none =>
      rw [addItem] at h
      split at h
      · cases h
      · rw [outcome_addFixed] at h
        cases h
    | some c => exact ⟨c, rfl, addCapture_eq_error h⟩

/-- **A row of items** fails at the first item that does. -/
theorem exists_of_addItems_error {x : Context} {d : Draft} {items : List Item} {e : PatternError}
    (h : (d.addItems x items).outcome = .error e) :
    ∃ done i rest d', items = done ++ i :: rest ∧ (d.addItems x done).outcome = .ok d'
      ∧ (d'.addItem x i).outcome = .error e := by
  induction items generalizing d with
  | nil => cases h
  | cons i items ih =>
    rw [addItems, Run.outcome_bind] at h
    cases hi : (d.addItem x i).outcome with
    | error e' =>
      rw [hi] at h
      exact ⟨[], i, items, d, rfl, rfl, hi.trans h⟩
    | ok d₁ =>
      rw [hi] at h
      obtain ⟨done, j, rest, d', rfl, hdone, hj⟩ := ih h
      refine ⟨i :: done, j, rest, d', rfl, ?_, hj⟩
      rw [addItems, Run.outcome_bind, hi]
      exact hdone

variable {o : Options} {segment : Text}

/-- A row of items keeps a draft sound. -/
theorem IsSound.addItems (hs : o.segmentSource = .ok segment) (hb : Group.IsBody segment)
    {d d' : Draft} (hd : d.IsSound o) {items : List Item}
    (hitems : ∀ i ∈ items, ∀ c ∈ i.capture?, c.IsSound)
    (h : (d.addItems ⟨o, segment, id⟩ items).outcome = .ok d') : d'.IsSound o := by
  induction items generalizing d with
  | nil =>
    obtain rfl := Except.ok.inj h
    exact hd
  | cons i items ih =>
    obtain ⟨hi, hrest⟩ := List.forall_mem_cons.mp hitems
    rw [Draft.addItems, Run.outcome_bind] at h
    obtain ⟨d₁, hd₁, h⟩ := exists_of_bind_eq_ok h
    exact ih (isSound_of_addItem hs hb hd hi hd₁) hrest h

/-- The next ordinal is never taken: those handed out so far are smaller. -/
theorem IsSound.exists_name_of_isTaken {d : Draft} (hd : d.IsSound o) {c : Capture}
    (h : d.isTaken c = true) :
    ∃ name, c.name? = some name ∧ d.nameOf c = .custom name
      ∧ name ∈ d.parts.filterMap Part.custom? := by
  rw [isTaken, List.any_eq_true] at h
  obtain ⟨p, hp, hname⟩ := h
  rw [decide_eq_true_eq, nameOf_eq] at hname
  rw [nameOf_eq]
  cases hc : c.name? with
  | some name =>
    rw [hc] at hname
    refine ⟨name, rfl, rfl, List.mem_filterMap.mpr ⟨p, hp, ?_⟩⟩
    rw [Part.custom?, hname]
    rfl
  | none =>
    rw [hc] at hname
    have hmem : d.ordinal ∈ d.parts.filterMap Part.ordinal? := by
      refine List.mem_filterMap.mpr ⟨p, hp, ?_⟩
      rw [Part.ordinal?, hname]
      rfl
    rw [hd.parts.numbered, List.mem_range, ← hd.ordinal] at hmem
    exact absurd hmem (Nat.lt_irrefl _)

/-- The name that an error reports is that of the token it points at, and of one before it. -/
theorem exists_names_of_addItems_error {s : Text} (hs : o.segmentSource = .ok segment)
    (hb : Group.IsBody segment) {ts : List Token} (hcov : Token.Covers 0 ts s) {e : PatternError}
    (h : (addItems ⟨o, segment, id⟩ {} (Item.all ts).1).outcome = .error e) :
    ∃ us j vs i ws name, e = .duplicateName (.custom name) i
      ∧ ts = us ++ ⟨.name, j, name⟩ :: (vs ++ ⟨.name, i, name⟩ :: ws) := by
  obtain ⟨done, i, rest, d, hitems, hdone, hi⟩ := exists_of_addItems_error h
  have hmem : ∀ j ∈ done, j ∈ (Item.all ts).1 := by
    intro j hj
    rw [hitems]
    exact List.mem_append_left _ hj
  have hsound := (isSound_empty o).addItems hs hb
    (fun j hj => Item.isSound_of_mem_all hcov.isSound (hmem j hj)) hdone
  have hcarries := carries_empty.addItems (fun j hj before after m heq =>
    Item.after_eq_nil_of_mem_all (heq ▸ hmem j hj)) hdone
  rw [Content.empty_append] at hcarries
  obtain ⟨c, hc, htaken, rfl⟩ := addItem_eq_error hi
  obtain ⟨name, hname, hcustom, hearlier⟩ := hsound.exists_name_of_isTaken htaken
  -- the first of the two tokens is spent by the items before, the second is found behind them
  obtain ⟨left, ⟨used, rfl, hused⟩, hleft⟩ :=
    Item.exists_of_all_append (e := (Item.all ts).2) (Prod.ext hitems rfl)
  obtain ⟨behind, hstep, -⟩ := Item.step_of_all_cons hleft
  have hlater := Item.name_mem_of_step hstep hc hname
  rw [hcarries.names, ← hused] at hearlier
  obtain ⟨t, ht, rfl⟩ := List.mem_map.mp hearlier
  obtain ⟨htused, hkind⟩ := List.mem_filter.mp ht
  have hfirst : (⟨.name, t.index, t.value⟩ : Token) ∈ used := by
    obtain ⟨kind, index, value⟩ := t
    obtain rfl : kind = .name := by simpa using hkind
    exact htused
  obtain ⟨us, vs, rfl⟩ := List.append_of_mem hfirst
  obtain ⟨vs', ws, rfl⟩ := List.append_of_mem hlater
  exact ⟨us, t.index, vs ++ vs', c.index, ws, t.value, by rw [hcustom], by simp⟩

end Draft

/-! ## Errors of a pattern -/

/-- The code point of `s` at `i` is what an error complains about. -/
def PatternError.Marks (s : Text) (i : Nat) : PatternError → Prop
  | .fault ⟨_, .danglingEscape⟩ => s[i]? = some '\\' ∧ i + 1 = s.length
  | .fault ⟨_, .missingName⟩ => s[i]? = some ':'
  | .fault ⟨_, .badGroup _⟩ => s[i]? = some '('
  | .fault ⟨_, .emptyGroup⟩ => s[i]? = some '('
  | .openBrace _ => s[i]? = some '{'
  | .unexpected found index =>
    (s[i]? = some '}' ∧ found = .rbrace
        ∧ (unexpected found index).message = s!"expected End token but found Close at index {i}")
      ∨ ((s[i]? = some '+' ∨ s[i]? = some '?') ∧ found = .modifier
        ∧ (unexpected found index).message
          = s!"expected End token but found OtherModifier at index {i}")
  | .duplicateName name _ =>
    s[i]? = some ':' ∧ ∃ us j vs ws value, name = .custom value
      ∧ (Token.scan .strict s).outcome
        = .ok (us ++ ⟨.name, j, value⟩ :: (vs ++ ⟨.name, i, value⟩ :: ws))
  | .nonAscii _ => False

namespace PatternError

/-- What is marked is a code point of the text. -/
theorem Marks.lt_length {s : Text} {i : Nat} {e : PatternError} (h : e.Marks s i) :
    i < s.length := by
  suffices hsome : ∃ c, s[i]? = some c by
    obtain ⟨c, hc⟩ := hsome
    exact (List.getElem?_eq_some_iff.mp hc).1
  cases e with
  | fault f =>
    obtain ⟨index, cause⟩ := f
    cases cause with
    | danglingEscape => exact ⟨_, h.1⟩
    | missingName => exact ⟨_, h⟩
    | badGroup defect => exact ⟨_, h⟩
    | emptyGroup => exact ⟨_, h⟩
  | nonAscii n => exact h.elim
  | duplicateName name index => exact ⟨_, h.1⟩
  | openBrace index => exact ⟨_, h⟩
  | unexpected found index =>
    rcases h with ⟨hc, -⟩ | ⟨hc | hc, -⟩
    · exact ⟨_, hc⟩
    · exact ⟨_, hc⟩
    · exact ⟨_, hc⟩

/-- A fault of the tokens marks the code point that it is about. -/
theorem marks_fault {s : Text} {f : Fault} (h : (Token.scan .strict s).outcome = .error f) :
    (fault f).Marks s f.index := by
  obtain ⟨hmark, hlast⟩ := Token.getElem?_of_scan_error h
  obtain ⟨index, cause⟩ := f
  cases cause with
  | danglingEscape => exact ⟨hmark, hlast rfl⟩
  | missingName => exact hmark
  | badGroup defect => exact hmark
  | emptyGroup => exact hmark

/-- A name that occurs twice is marked where it occurs again. -/
theorem marks_duplicateName {s : Text} {us vs ws : List Token} {i j : Nat} {name : Text}
    (h : Token.Covers 0 (us ++ ⟨.name, j, name⟩ :: (vs ++ ⟨.name, i, name⟩ :: ws)) s) :
    (duplicateName (.custom name) i).Marks s i := by
  have hlast := h.getElem?_index (t := ⟨.name, i, name⟩) (by simp)
  exact ⟨hlast.1 rfl, us, j, vs, ws, name, rfl, Token.scan_strict_eq_ok_iff.mpr h⟩

/-- An ending that is not complete becomes an error at the token found there. -/
theorem marks_of_ending {s : Text} {ts rest : List Token} {e : Item.Ending}
    (hcov : Token.Covers 0 ts s) (hsuffix : rest <:+ ts) (h : Item.step rest = .ending e) :
    (∀ index, e = .openBrace index → (openBrace index).Marks s index)
      ∧ ∀ found index, e = .unexpected found index → (unexpected found index).Marks s index := by
  rcases Item.step_eq_ending h with ⟨-, rfl⟩ | ⟨t, us, rfl, hcases⟩
  · exact ⟨nofun, nofun⟩
  · obtain ⟨-, hlbrace, hrbrace, hmodifier, hinvalid⟩ :=
      hcov.getElem?_index (hsuffix.subset List.mem_cons_self)
    rcases hcases with ⟨-, rfl⟩ | ⟨hkind, rfl⟩ | ⟨hkind, rfl⟩
    · exact ⟨nofun, nofun⟩
    · refine ⟨?_, nofun⟩
      rintro index ⟨⟩
      exact hlbrace hkind
    · refine ⟨nofun, ?_⟩
      rintro found index ⟨⟩
      rcases hkind with hkind | hkind | hkind
      · exact .inr ⟨hmodifier hkind, hkind, by rw [hkind]; rfl⟩
      · exact .inl ⟨hrbrace hkind, hkind, by rw [hkind]; rfl⟩
      · exact absurd hkind hinvalid

end PatternError

/-- Only a delimiter that is not ASCII keeps segments from having an expression. -/
theorem Options.exists_delimiter_of_error {o : Options} {n : NonAscii}
    (h : o.segmentSource = .error n) : ∃ c ∈ o.delimiter, isAscii c = false := by
  have hnot : ¬ ∀ c ∈ o.delimiter, isAscii c = true := by
    intro hascii
    obtain ⟨segment, hs, -⟩ := exists_segmentSource hascii
    cases h.symm.trans hs
  simpa using hnot

namespace Part

/-- Without an encoder, what keeps tokens from becoming parts is marked in the pattern. -/
theorem marks_of_read_error {o : Options} {segment s : Text} (hs : o.segmentSource = .ok segment)
    {ts : List Token} (hcov : Token.Covers 0 ts s) {e : PatternError}
    (h : Draft.read ⟨o, segment, id⟩ {} ts = .error e) :
    ∃ i, e.index? = some i ∧ e.Marks s i := by
  have hb : Group.IsBody segment := by
    obtain ⟨hascii, -⟩ := Options.segmentSource_eq_ok_iff.mp hs
    obtain ⟨segment', hs', hb, -⟩ := Options.exists_segmentSource hascii
    obtain rfl := Except.ok.inj (hs.symm.trans hs')
    exact hb
  rw [Draft.read] at h
  cases hitems : (Draft.addItems ⟨o, segment, id⟩ {} (Item.all ts).1).outcome with
  | error e' =>
    rw [hitems] at h
    obtain rfl := Except.error.inj h
    obtain ⟨us, j, vs, i, ws, name, rfl, rfl⟩ :=
      Draft.exists_names_of_addItems_error hs hb hcov hitems
    exact ⟨i, rfl, PatternError.marks_duplicateName hcov⟩
  | ok d =>
    rw [hitems] at h
    have happend : Item.all ts = ((Item.all ts).1 ++ [], (Item.all ts).2) := by
      rw [List.append_nil]
    obtain ⟨rest, hspends, hall⟩ := Item.exists_of_all_append happend
    have hmarks := PatternError.marks_of_ending hcov hspends.suffix (Item.step_of_all_nil hall)
    cases he : (Item.all ts).2 with
    | complete =>
      rw [he] at h
      cases h.symm.trans (Draft.outcome_finish_complete _ d)
    | openBrace index =>
      rw [he] at h
      obtain rfl := Except.error.inj h
      exact ⟨index, rfl, hmarks.1 index he⟩
    | unexpected found index =>
      rw [he] at h
      have hfinish : (d.finish ⟨o, segment, id⟩ (.unexpected found index)).outcome
          = .error (.unexpected found index) := by
        rw [Draft.finish, Run.outcome_bind, Draft.outcome_flush]
        rfl
      obtain rfl := Except.error.inj (hfinish.symm.trans h)
      exact ⟨index, rfl, hmarks.2 found index he⟩

/-- **The errors of a pattern**, of which an encoder has no part, by the stage that fails. -/
theorem cases_of_parse_error {o : Options} {f : Text → Text} {s : Text} {e : PatternError}
    (h : (parse o f s).outcome = .error e) :
    (∃ fault, (Token.scan .strict s).outcome = .error fault ∧ e = .fault fault)
      ∨ ∃ ts, (Token.scan .strict s).outcome = .ok ts
        ∧ ((∃ n, o.segmentSource = .error n ∧ e = .nonAscii n)
          ∨ ∃ i, e.index? = some i ∧ e.Marks s i) := by
  have hplain : (parse o id s).outcome = .error e := by
    rw [outcome_parse_encode, map_eq_error_iff] at h
    exact h
  rw [outcome_parse] at hplain
  cases hscan : (Token.scan .strict s).outcome with
  | error fault =>
    rw [hscan] at hplain
    exact .inl ⟨fault, rfl, (Except.error.inj hplain).symm⟩
  | ok ts =>
    rw [hscan] at hplain
    refine .inr ⟨ts, rfl, ?_⟩
    cases hs : o.segmentSource with
    | error n =>
      rw [hs] at hplain
      exact .inl ⟨n, rfl, (Except.error.inj hplain).symm⟩
    | ok segment =>
      rw [hs] at hplain
      exact .inr (marks_of_read_error hs (Token.scan_strict_eq_ok_iff.mp hscan) hplain)

/-- **Every error points at the code point that caused it.** Only a delimiter that is not ASCII is
an error of no place in the pattern; it is reported for patterns that have tokens. -/
theorem parse_error_marks {o : Options} {f : Text → Text} {s : Text} {e : PatternError}
    (h : (parse o f s).outcome = .error e) :
    ((∃ n, e = .nonAscii n) ∧ (∃ c ∈ o.delimiter, isAscii c = false)
        ∧ ∃ ts, (Token.scan .strict s).outcome = .ok ts)
      ∨ ∃ i, e.index? = some i ∧ i < s.length ∧ e.Marks s i := by
  rcases cases_of_parse_error h with
    ⟨fault, hscan, rfl⟩ | ⟨ts, hscan, ⟨n, hs, rfl⟩ | ⟨i, hi, hmarks⟩⟩
  · have hmarks := PatternError.marks_fault hscan
    exact .inr ⟨fault.index, rfl, hmarks.lt_length, hmarks⟩
  · exact .inl ⟨⟨n, rfl⟩, Options.exists_delimiter_of_error hs, ts, hscan⟩
  · exact .inr ⟨i, hi, hmarks.lt_length, hmarks⟩

/-- For paths: the second `:a` of `/:a{x:a}`, inside braces, is what is wrong. -/
theorem parse_error_marks_pathname :
    (parse Options.pathname id "/:a\x7bx:a\x7d".toList).outcome
        = .error (.duplicateName (.custom ['a']) 5)
      ∧ (PatternError.duplicateName (.custom ['a']) 5).Marks "/:a\x7bx:a\x7d".toList 5 := by
  have h : (parse Options.pathname id "/:a\x7bx:a\x7d".toList).outcome
      = .error (.duplicateName (.custom ['a']) 5) := by
    decide +kernel
  refine ⟨h, ?_⟩
  rcases parse_error_marks h with ⟨⟨n, hn⟩, -⟩ | ⟨i, hi, -, hmarks⟩
  · cases hn
  · obtain rfl := Option.some.inj hi
    exact hmarks

end Part

end ComponentPattern
