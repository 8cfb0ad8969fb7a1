/-
# Tokens under both policies

Where no token can be read, the lenient policy leaves an invalid token for the one code point at
fault and goes on behind it. `Token.WellFormed` is the grammar of the token lists of a policy, said
without the reader: what follows a token in the text are the sources of the tokens behind it.

* `Reading.map_toToken_all_eq_iff` : what is found in a text is the one well-formed list for it;
* `Token.scan_eq_ok_iff_wellFormed` : so a pattern has exactly the well-formed tokens it is made of;
* `Token.scan_strict_of_lenient` : the strict policy gives the lenient tokens or the first fault,
  and each fault is what the strict policy reports for the text from there on.
-/
import ComponentPattern.Proofs.Token

namespace ComponentPattern

/-- What holds at every place of a list holds at its first place and at those behind it. -/
theorem forall_places_cons_iff {α : Type} {P : List α → α → List α → Prop} {a : α} {l : List α} :
    (∀ us b vs, a :: l = us ++ b :: vs → P us b vs)
      ↔ P [] a l ∧ ∀ us b vs, l = us ++ b :: vs → P (a :: us) b vs := by
  constructor
  · intro h
    exact ⟨h [] a l rfl, fun us b vs hsplit => h (a :: us) b vs (congrArg (a :: ·) hsplit)⟩
  · rintro ⟨hfirst, hrest⟩ us b vs hsplit
    obtain ⟨rfl, heq⟩ | ⟨us', rfl, hsplit'⟩ := List.cons_eq_append_iff.mp hsplit
    · obtain ⟨rfl, rfl⟩ := List.cons.inj heq
      exact hfirst
    · exact hrest us' b vs hsplit'

/-! ## The grammar -/

namespace Token

/-- The text that tokens are read from. -/
def sources (ts : List Token) : Text := ts.flatMap source

@[simp] theorem sources_nil : sources [] = [] := rfl

@[simp] theorem sources_cons (t : Token) (ts : List Token) :
    sources (t :: ts) = t.source ++ sources ts := rfl

/-- Whether a code point starts no token in front of the given rest of the text: a backslash with
nothing to escape, a colon without a name, or a parenthesis without a group. -/
def Unreadable (c : Char) (rest : Text) : Prop :=
  (c = '\\' ∧ rest = []) ∨ (c = ':' ∧ rest.head?.any isNameStart = false)
    ∨ (c = '(' ∧ ∀ u r, rest = u ++ ')' :: r → ¬ Group.IsBody u)

/-- Whether a token can stand in front of the given rest of the text. The final token cannot, and an
invalid one only under the lenient policy. -/
def Fits (policy : Policy) (t : Token) (rest : Text) : Prop :=
  t.kind.Admits t.value rest
    ∨ (t.kind = .invalid ∧ policy = .lenient ∧ ∃ c, t.value = [c] ∧ Unreadable c rest)

/-- **The token lists of a policy**, for texts that start at `index`. -/
structure WellFormed (policy : Policy) (index : Nat) (ts : List Token) : Prop where
  /-- The last token is final, without a value, and no other one is final. -/
  closed : ∃ us n, ts = us ++ [⟨.final, n, []⟩] ∧ ∀ t ∈ us, t.kind ≠ .final
  /-- A token stands behind the text of those before it. -/
  placed : ∀ us t vs, ts = us ++ t :: vs → t.index = index + (sources us).length
  /-- A token fits in front of the text of those behind it. -/
  fits : ∀ us t vs, ts = us ++ t :: vs → t.kind ≠ .final → t.Fits policy (sources vs)

variable {policy : Policy} {index : Nat} {t : Token} {ts : List Token}

/-- Nothing stands behind the final token. -/
theorem wellFormed_cons_iff_of_final (h : t.kind = .final) :
    WellFormed policy index (t :: ts) ↔ t = ⟨.final, index, []⟩ ∧ ts = [] := by
  constructor
  · intro hw
    obtain ⟨us, n, hts, hus⟩ := hw.closed
    have hplaced := hw.placed [] t ts rfl
    cases us with
    | nil =>
      obtain ⟨rfl, rfl⟩ := List.cons.inj hts
      exact ⟨congrArg (Token.mk .final · []) hplaced, rfl⟩
    | cons u us =>
      obtain ⟨rfl, -⟩ := List.cons.inj hts
      exact absurd h (hus t (by simp))
  · rintro ⟨rfl, rfl⟩
    refine ⟨⟨[], index, rfl, by simp⟩, forall_places_cons_iff.mpr ⟨rfl, by simp⟩,
      forall_places_cons_iff.mpr ⟨fun hfinal => absurd rfl hfinal, by simp⟩⟩

/-- A token fits, and what stands behind it is well formed from there on. -/
theorem wellFormed_cons_iff (h : t.kind ≠ .final) :
    WellFormed policy index (t :: ts) ↔ t.index = index ∧ t.Fits policy (sources ts)
      ∧ WellFormed policy (index + t.source.length) ts := by
  constructor
  · intro hw
    obtain ⟨us, n, hts, hus⟩ := hw.closed
    obtain ⟨hindex, hplaced⟩ := forall_places_cons_iff.mp hw.placed
    obtain ⟨hfits, hrest⟩ := forall_places_cons_iff.mp hw.fits
    refine ⟨hindex, hfits h, ?_, fun vs u ws hsplit => ?_, hrest⟩
    · cases us with
      | nil =>
        obtain ⟨rfl, -⟩ := List.cons.inj hts
        exact absurd rfl h
      | cons u us =>
        obtain ⟨rfl, rfl⟩ := List.cons.inj hts
        exact ⟨us, n, rfl, fun v hv => hus v (List.mem_cons_of_mem t hv)⟩
    · rw [hplaced vs u ws hsplit, sources_cons, List.length_append, Nat.add_assoc]
  · rintro ⟨hindex, hfits, hw⟩
    obtain ⟨us, n, hts, hus⟩ := hw.closed
    refine ⟨⟨t :: us, n, congrArg (t :: ·) hts, List.forall_mem_cons.mpr ⟨h, hus⟩⟩,
      forall_places_cons_iff.mpr ⟨hindex, fun vs u ws hsplit => ?_⟩,
      forall_places_cons_iff.mpr ⟨fun _ => hfits, hw.fits⟩⟩
    rw [hw.placed vs u ws hsplit, sources_cons, List.length_append, Nat.add_assoc]

/-- Strict token lists are the lenient ones without invalid tokens. -/
theorem wellFormed_strict_iff :
    WellFormed .strict index ts ↔ WellFormed .lenient index ts ∧ ∀ t ∈ ts, t.kind ≠ .invalid := by
  constructor
  · intro hw
    refine ⟨⟨hw.closed, hw.placed, fun us t vs hsplit ht => ?_⟩, fun t ht hinvalid => ?_⟩
    · exact (hw.fits us t vs hsplit ht).imp_right fun h => by simp at h
    · obtain ⟨us, vs, hsplit⟩ := List.append_of_mem ht
      rcases hw.fits us t vs hsplit (by simp [hinvalid]) with h | h
      · rw [hinvalid] at h
        exact h
      · simp at h
  · rintro ⟨hw, hts⟩
    refine ⟨hw.closed, hw.placed, fun us t vs hsplit ht => ?_⟩
    have hmem : t ∈ ts := by simp [hsplit]
    exact (hw.fits us t vs hsplit ht).imp_right fun h => absurd h.1 (hts t hmem)

end Token

/-! ## One reading -/

namespace Lexeme

/-- Where no token can be read, the code point at fault is the one that is marked. -/
theorem unreadable_of_read {c : Char} {t : Text} {cause : Fault.Cause}
    (h : read c t = .error cause) : cause.mark = c ∧ Token.Unreadable c t := by
  unfold read at h
  split at h
  case h_6 =>
    split at h
    · cases h
      exact ⟨rfl, .inl ⟨rfl, rfl⟩⟩
    · cases h
  case h_7 =>
    split at h
    · rename_i hs
      cases h
      refine ⟨rfl, .inr (.inl ⟨rfl, ?_⟩)⟩
      cases t with
      | nil => rfl
      | cons d t =>
        rw [Text.splitName] at hs
        split at hs
        · cases hs
        · rename_i hd
          simpa using hd
    · cases h
  case h_8 =>
    split at h
    · rename_i hs
      cases h
      refine ⟨rfl, .inr (.inr ⟨rfl, fun u r ht hu => ?_⟩)⟩
      cases hs.symm.trans (Group.scan_eq_ok_iff.mpr ⟨ht, hu.balanced, hu.head_ne⟩)
    · rename_i hs
      cases h
      refine ⟨rfl, .inr (.inr ⟨rfl, fun u r ht hu => ?_⟩)⟩
      cases hs.symm.trans (Group.scan_eq_ok_iff.mpr ⟨ht, hu.balanced, hu.head_ne⟩)
      exact hu.ne_nil rfl
    · cases h
  all_goals cases h

/-- No token can be read where a code point is unreadable. -/
theorem exists_read_eq_error {c : Char} {t : Text} (h : Token.Unreadable c t) :
    ∃ cause, read c t = .error cause := by
  rcases h with ⟨rfl, rfl⟩ | ⟨rfl, hname⟩ | ⟨rfl, hgroup⟩
  · exact ⟨.danglingEscape, rfl⟩
  · refine ⟨.missingName, ?_⟩
    have hs : t.splitName = ([], t) := by
      cases t with
      | nil => rfl
      | cons d t => simpa [Text.splitName] using hname
    simp only [read, hs]
  · cases hs : Group.scan t with
    | error defect => exact ⟨.badGroup defect, by simp only [read, hs]⟩
    | ok p =>
      obtain ⟨u, r⟩ := p
      obtain ⟨ht, hbalanced, hhead⟩ := Group.scan_eq_ok_iff.mp hs
      -- a balanced text that is no body can only be empty
      cases u with
      | nil => exact ⟨.emptyGroup, by simp only [read, hs]⟩
      | cons d u => exact absurd ⟨by simp, hhead, hbalanced⟩ (hgroup (d :: u) r ht)

/-- The kinds that stand for no text of their own are never read. -/
theorem kind_of_read {c : Char} {t : Text} {l : Lexeme} (h : read c t = .ok l) :
    l.kind ≠ .invalid ∧ l.kind ≠ .final := by
  have hadm := admits_of_read h
  constructor
  · intro hkind
    rw [hkind] at hadm
    exact hadm
  · intro hkind
    rw [hkind] at hadm
    exact hadm

end Lexeme

/-! ## All readings -/

namespace Reading

/-- What is found in a text loses nothing of it and is well formed. -/
theorem wellFormed_all (index : Nat) (t : Text) :
    Token.sources ((all index t).map toToken) = t
      ∧ Token.WellFormed .lenient index ((all index t).map toToken) := by
  fun_induction all index t with
  | case1 index =>
    exact ⟨rfl, (Token.wellFormed_cons_iff_of_final rfl).mpr ⟨rfl, rfl⟩⟩
  | case2 index c t l h ih =>
    obtain ⟨hsources, hw⟩ := ih
    obtain ⟨happ, hadm⟩ := Lexeme.read_eq_ok_iff.mp h
    rw [List.map_cons]
    refine ⟨?_, (Token.wellFormed_cons_iff (Lexeme.kind_of_read h).2).mpr ⟨rfl, ?_, hw⟩⟩
    · rw [Token.sources_cons, hsources, happ]
      rfl
    · rw [hsources]
      exact .inl hadm
  | case3 index c t cause h ih =>
    obtain ⟨hsources, hw⟩ := ih
    obtain ⟨hmark, hunreadable⟩ := Lexeme.unreadable_of_read h
    have hsource : (Fault.token ⟨index, cause⟩).source = [c] := congrArg (fun d => [d]) hmark
    rw [List.map_cons]
    refine ⟨?_, (Token.wellFormed_cons_iff (by simp [toToken, Fault.token])).mpr ⟨rfl, ?_, ?_⟩⟩
    · rw [Token.sources_cons, hsources, toToken, hsource]
      rfl
    · rw [hsources]
      exact .inr ⟨rfl, rfl, c, hsource, hunreadable⟩
    · rw [toToken, hsource]
      exact hw

/-- Well-formed tokens are found in the text they are made of. -/
theorem map_toToken_all_sources {index : Nat} {ts : List Token}
    (h : Token.WellFormed .lenient index ts) :
    (all index (Token.sources ts)).map toToken = ts := by
  induction ts generalizing index with
  | nil =>
    obtain ⟨us, n, hts, -⟩ := h.closed
    simp at hts
  | cons s ts ih =>
    by_cases hfinal : s.kind = .final
    · obtain ⟨rfl, rfl⟩ := (Token.wellFormed_cons_iff_of_final hfinal).mp h
      show (all index []).map toToken = _
      rw [all_nil]
      rfl
    · obtain ⟨rfl, hfits, hw⟩ := (Token.wellFormed_cons_iff hfinal).mp h
      obtain ⟨kind, index, value⟩ := s
      rcases hfits with hadm | ⟨hkind, -, c, hvalue, hunreadable⟩
      · obtain ⟨c, t, happ, hread⟩ := Lexeme.read_of_admits hadm
        have hsources : Token.sources (⟨kind, index, value⟩ :: ts) = c :: t := happ
        rw [hsources, all_cons_of_ok hread, List.map_cons]
        exact congrArg (_ :: ·) (ih hw)
      · obtain ⟨cause, hread⟩ := Lexeme.exists_read_eq_error hunreadable
        have hmark := (Lexeme.unreadable_of_read hread).1
        obtain rfl : kind = .invalid := hkind
        obtain rfl : value = [c] := hvalue
        have hsources : Token.sources (⟨.invalid, index, [c]⟩ :: ts) = c :: Token.sources ts := rfl
        have htoken : Fault.token ⟨index, cause⟩ = ⟨.invalid, index, [c]⟩ :=
          congrArg (fun d => Token.mk .invalid index [d]) hmark
        rw [hsources, all_cons_of_error hread, List.map_cons, toToken, htoken]
        exact congrArg (_ :: ·) (ih hw)

/-- **What is found in a text** is the well-formed list that is made of it. -/
theorem map_toToken_all_eq_iff {index : Nat} {t : Text} {ts : List Token} :
    (all index t).map toToken = ts
      ↔ Token.sources ts = t ∧ Token.WellFormed .lenient index ts := by
  constructor
  · rintro rfl
    exact wellFormed_all index t
  · rintro ⟨rfl, hw⟩
    exact map_toToken_all_sources hw

theorem filterMap_fault?_token (t : Token) (rs : List Reading) :
    (token t :: rs).filterMap fault? = rs.filterMap fault? := rfl

theorem filterMap_fault?_fault (f : Fault) (rs : List Reading) :
    (fault f :: rs).filterMap fault? = f :: rs.filterMap fault? := rfl

/-- A token that is found is not invalid; only faults stand for such tokens. -/
theorem kind_ne_invalid {index : Nat} {t : Text} {s : Token} (h : token s ∈ all index t) :
    s.kind ≠ .invalid := by
  fun_induction all index t with
  | case1 index =>
    obtain rfl : s = ⟨.final, index, []⟩ := by simpa using h
    simp
  | case2 index c t l hread ih =>
    rcases List.mem_cons.mp h with heq | hmem
    · obtain rfl := token.inj heq
      exact (Lexeme.kind_of_read hread).1
    · exact ih hmem
  | case3 index c t cause _ ih =>
    rcases List.mem_cons.mp h with heq | hmem
    · cases heq
    · exact ih hmem

/-- Where no token is invalid, the invalid tokens of readings are those of their faults. -/
theorem map_token_faults {rs : List Reading} (h : ∀ s, token s ∈ rs → s.kind ≠ .invalid) :
    (rs.filterMap fault?).map Fault.token
      = (rs.map toToken).filter (·.kind == .invalid) := by
  induction rs with
  | nil => rfl
  | cons r rs ih =>
    have hrest := ih fun s hs => h s (List.mem_cons_of_mem r hs)
    cases r with
    | token s =>
      have hs : s.kind ≠ .invalid := h s (by simp)
      rw [filterMap_fault?_token, hrest, List.map_cons, toToken, List.filter_cons_of_neg]
      simpa using hs
    | fault f =>
      rw [filterMap_fault?_fault, List.map_cons, hrest, List.map_cons, toToken,
        List.filter_cons_of_pos rfl]

/-- At a fault no token can be read from the text that is left there. -/
theorem exists_of_mem_faults {index : Nat} {t : Text} {f : Fault}
    (h : f ∈ (all index t).filterMap fault?) :
    ∃ k c r, f.index = index + k ∧ t.drop k = c :: r ∧ Lexeme.read c r = .error f.cause := by
  fun_induction all index t with
  | case1 => simp [fault?] at h
  | case2 index c t l hread ih =>
    rw [filterMap_fault?_token] at h
    obtain ⟨k, d, r, hindex, hdrop, hd⟩ := ih h
    refine ⟨(l.kind.source l.value).length + k, d, r, by omega, ?_, hd⟩
    rw [← Lexeme.source_append hread, List.drop_length_add_append]
    exact hdrop
  | case3 index c t cause hread ih =>
    rw [filterMap_fault?_fault] at h
    rcases List.mem_cons.mp h with rfl | hmem
    · exact ⟨0, c, t, rfl, rfl, hread⟩
    · obtain ⟨k, d, r, hindex, hdrop, hd⟩ := ih hmem
      exact ⟨k + 1, d, r, by omega, hdrop, hd⟩

/-! ## The strict policy -/

/-- The strict tokens are the lenient ones, if none of these is invalid. -/
theorem mapM_toExcept_all_eq_ok_iff {index : Nat} {t : Text} {ts : List Token} :
    (all index t).mapM toExcept = .ok ts
      ↔ (all index t).map toToken = ts ∧ ∀ s ∈ ts, s.kind ≠ .invalid := by
  rw [mapM_toExcept_eq_ok_iff]
  constructor
  · intro h
    refine ⟨by simp [h, toToken, Function.comp_def], fun s hs => ?_⟩
    have hmem : token s ∈ all index t := by
      rw [h]
      exact List.mem_map_of_mem hs
    exact kind_ne_invalid hmem
  · rintro ⟨rfl, hts⟩
    calc all index t = (all index t).map id := (List.map_id _).symm
      _ = (all index t).map (token ∘ toToken) := List.map_congr_left fun r hr => ?_
      _ = ((all index t).map toToken).map token := List.map_map.symm
    cases r with
    | token s => rfl
    | fault f => exact absurd rfl (hts f.token (List.mem_map_of_mem hr))

/-- The strict policy stops at the first fault. -/
theorem mapM_toExcept_eq_error_iff {rs : List Reading} {e : Fault} :
    rs.mapM toExcept = .error e ↔ (rs.filterMap fault?).head? = some e := by
  induction rs with
  | nil => simp [pure, Except.pure]
  | cons r rs ih =>
    rw [List.mapM_cons]
    cases r with
    | fault f =>
      rw [filterMap_fault?_fault, List.head?_cons, Option.some.injEq]
      exact ⟨Except.error.inj, congrArg Except.error⟩
    | token t =>
      rw [filterMap_fault?_token, ← ih]
      show (rs.mapM toExcept >>= fun ts => pure (t :: ts)) = .error e ↔ _
      cases rs.mapM toExcept <;> simp [bind, Except.bind, pure, Except.pure]

end Reading

/-! ## Tokens of a pattern -/

namespace Token

/-- **A pattern has a list of tokens** under a policy exactly if the list is well formed and made of
the pattern. -/
theorem scan_eq_ok_iff_wellFormed {policy : Policy} {pattern : Text} {ts : List Token} :
    (scan policy pattern).outcome = .ok ts
      ↔ sources ts = pattern ∧ WellFormed policy 0 ts := by
  cases policy with
  | strict =>
    show (Reading.all 0 pattern).mapM Reading.toExcept = .ok ts ↔ _
    rw [Reading.mapM_toExcept_all_eq_ok_iff, Reading.map_toToken_all_eq_iff, wellFormed_strict_iff,
      and_assoc]
  | lenient =>
    show Except.ok ((Reading.all 0 pattern).map Reading.toToken) = .ok ts ↔ _
    rw [Except.ok.injEq, Reading.map_toToken_all_eq_iff]

/-- A text at whose start no token can be read has no strict tokens. -/
theorem scan_strict_of_read_eq_error {c : Char} {t : Text} {cause : Fault.Cause}
    (h : Lexeme.read c t = .error cause) :
    (scan .strict (c :: t)).outcome = .error ⟨0, cause⟩ := by
  show (Reading.all 0 (c :: t)).mapM Reading.toExcept = .error ⟨0, cause⟩
  rw [Reading.mapM_toExcept_eq_error_iff, Reading.all_cons_of_error h]
  rfl

/-- **The lenient policy always succeeds**, with tokens `ts`, and reports faults `fs`. These are the
faults of the invalid tokens, each the one that the strict policy stops at in the text from there
on. The strict tokens are `ts` if none of them is invalid; otherwise there is a first fault. -/
theorem scan_strict_of_lenient (pattern : Text) :
    ∃ (ts : List Token) (fs : List Fault), (scan .lenient pattern).outcome = .ok ts
      ∧ (scan .lenient pattern).events = fs.map Event.recovered
      ∧ ts.filter (·.kind == .invalid) = fs.map Fault.token
      ∧ (∀ f ∈ fs, (scan .strict (pattern.drop f.index)).outcome = .error ⟨0, f.cause⟩)
      ∧ (∀ us, (scan .strict pattern).outcome = .ok us ↔ (∀ t ∈ ts, t.kind ≠ .invalid) ∧ us = ts)
      ∧ ∀ e, (scan .strict pattern).outcome = .error e →
        (ts.find? (·.kind == .invalid)).map Token.index = some e.index ∧ fs.head? = some e := by
  refine ⟨(Reading.all 0 pattern).map Reading.toToken,
    (Reading.all 0 pattern).filterMap Reading.fault?, rfl, ?_, ?_, ?_, ?_, ?_⟩
  · rw [scan, Run.events_within, Run.events, Reading.tokens, List.filterMap_map]
    exact congrFun List.filterMap_eq_map _
  · exact (Reading.map_token_faults fun s hs => Reading.kind_ne_invalid hs).symm
  · intro f hf
    obtain ⟨k, c, r, hindex, hdrop, hread⟩ := Reading.exists_of_mem_faults hf
    rw [hindex, Nat.zero_add, hdrop]
    exact scan_strict_of_read_eq_error hread
  · intro us
    show (Reading.all 0 pattern).mapM Reading.toExcept = .ok us ↔ _
    rw [Reading.mapM_toExcept_all_eq_ok_iff]
    constructor
    · rintro ⟨rfl, hvalid⟩
      exact ⟨hvalid, rfl⟩
    · rintro ⟨hvalid, rfl⟩
      exact ⟨rfl, hvalid⟩
  · intro e he
    have hfirst := Reading.mapM_toExcept_eq_error_iff.mp he
    refine ⟨?_, hfirst⟩
    rw [← List.head?_filter, ← Reading.map_token_faults fun s hs => Reading.kind_ne_invalid hs,
      List.head?_map, hfirst]
    rfl

end Token

end ComponentPattern
