/-
# The grammar of tokens

A token list covers a text if the sources of its tokens, put together, are the text, and each
token is admitted where it stands: `Token.Kind.Admits` says which values a kind of token has,
and which texts may follow it. `Token.Covers` says it for lists, with the indexes, and ends in
the one final token.

* `Lexeme.read_eq_ok_iff` : one token is read exactly where one is admitted;
* `Token.scan_strict_eq_ok_iff` : a pattern has strict tokens exactly if they cover it.
-/
import ComponentPattern.Proofs.Group
import ComponentPattern.Token.Scan

namespace ComponentPattern

/-! ## Identifiers -/

/-- A name that can be given to a capture. -/
def Text.IsIdentifier : Text → Prop
  | [] => False
  | c :: t => isNameStart c = true ∧ ∀ d ∈ t, isNameContinue d = true

/-- A name in front of the text would go on with it. -/
def Text.GoesOnWithName (t : Text) : Prop := t.startsInName = true

/-- A name is cut off whole from what does not go on with it. -/
theorem Text.takeWhile_append_of_not_goesOn {u r : Text} (hu : ∀ d ∈ u, isNameContinue d = true)
    (hr : ¬ r.GoesOnWithName) :
    (u ++ r).takeWhile isNameContinue = u ∧ (u ++ r).dropWhile isNameContinue = r := by
  have hhead : r.takeWhile isNameContinue = [] ∧ r.dropWhile isNameContinue = r := by
    cases r with
    | nil => exact ⟨rfl, rfl⟩
    | cons c r =>
      have hc : isNameContinue c = false := by simpa [GoesOnWithName, startsInName] using hr
      simp [hc]
  rw [List.takeWhile_append_of_pos hu, List.dropWhile_append_of_pos hu, hhead.1, hhead.2]
  exact ⟨List.append_nil u, rfl⟩

/-- What follows the longest run of a name cannot go on with it. -/
theorem Text.not_goesOn_dropWhile (t : Text) :
    ¬ Text.GoesOnWithName (t.dropWhile isNameContinue) := by
  have h := List.head?_dropWhile_not isNameContinue t
  unfold GoesOnWithName startsInName
  cases hd : (t.dropWhile isNameContinue).head? with
  | none => simp
  | some c =>
    rw [hd] at h
    simpa using h

/-- **The longest name at the start of a text**, if there is one. -/
theorem Text.splitName_eq_iff {t name r : Text} (hne : name ≠ []) :
    t.splitName = (name, r) ↔ t = name ++ r ∧ name.IsIdentifier ∧ ¬ r.GoesOnWithName := by
  constructor
  · intro h
    have happ := Text.splitName_append t
    rw [h] at happ
    refine ⟨happ.symm, ?_⟩
    cases t with
    | nil => cases h; exact absurd rfl hne
    | cons c t =>
      rw [splitName] at h
      split at h
      · rename_i hc
        cases h
        refine ⟨⟨hc, fun d hd => ?_⟩, Text.not_goesOn_dropWhile t⟩
        exact List.all_eq_true.mp List.all_takeWhile d hd
      · cases h
        exact absurd rfl hne
  · rintro ⟨rfl, hname, hr⟩
    cases name with
    | nil => exact absurd rfl hne
    | cons c u =>
      obtain ⟨htake, hdrop⟩ := Text.takeWhile_append_of_not_goesOn hname.2 hr
      rw [List.cons_append, splitName, if_pos hname.1, htake, hdrop]

/-! ## One token -/

/-- The code points that stand for themselves nowhere in a pattern outside groups. -/
def Token.symbols : List Char := ['*', '+', '?', '{', '}', '\\', ':', '(']

/-- The values that a kind of token has, in front of the given rest of the text. -/
def Token.Kind.Admits (kind : Token.Kind) (value rest : Text) : Prop :=
  match kind with
  | .asterisk => value = ['*']
  | .modifier => value = ['+'] ∨ value = ['?']
  | .escaped => ∃ c, value = [c]
  | .lbrace => value = ['{']
  | .rbrace => value = ['}']
  | .name => value.IsIdentifier ∧ ¬ rest.GoesOnWithName
  | .group => Group.IsBody value
  | .char => ∃ c, value = [c] ∧ c ∉ Token.symbols
  | .invalid => False
  | .final => False

namespace Lexeme

/-- A token that is read is admitted where it stands. -/
theorem admits_of_read {c : Char} {t : Text} {l : Lexeme} (h : read c t = .ok l) :
    l.kind.Admits l.value l.rest := by
  unfold read at h
  split at h
  case h_1 => cases h; rfl
  case h_2 => cases h; exact .inl rfl
  case h_3 => cases h; exact .inr rfl
  case h_4 => cases h; rfl
  case h_5 => cases h; rfl
  case h_6 =>
    split at h
    · cases h
    · cases h
      exact ⟨_, rfl⟩
  case h_7 =>
    split at h
    · cases h
    · rename_i name rest hne hs
      cases h
      have hname : name ≠ [] := fun he => hne he
      exact ((Text.splitName_eq_iff hname).mp hs).2
  case h_8 =>
    split at h
    · cases h
    · cases h
    · rename_i body rest hne hs
      cases h
      obtain ⟨-, hb, hq⟩ := Group.scan_eq_ok_iff.mp hs
      exact ⟨fun he => hne he, hq, hb⟩
  case h_9 =>
    cases h
    refine ⟨c, rfl, ?_⟩
    simp only [Token.symbols, List.mem_cons, List.not_mem_nil, or_false, not_or]
    refine ⟨?_, ?_, ?_, ?_, ?_, ?_, ?_, ?_⟩ <;> (intro hc; simp_all)

/-- A token is read wherever one is admitted. -/
theorem read_of_admits {kind : Token.Kind} {value rest : Text} (h : kind.Admits value rest) :
    ∃ c t, kind.source value ++ rest = c :: t ∧ read c t = .ok ⟨kind, value, rest⟩ := by
  cases kind with
  | asterisk => cases h; exact ⟨_, _, rfl, rfl⟩
  | modifier =>
    rcases h with h | h
    · cases h; exact ⟨_, _, rfl, rfl⟩
    · cases h; exact ⟨_, _, rfl, rfl⟩
  | escaped =>
    obtain ⟨c, rfl⟩ := h
    exact ⟨_, _, rfl, rfl⟩
  | lbrace => cases h; exact ⟨_, _, rfl, rfl⟩
  | rbrace => cases h; exact ⟨_, _, rfl, rfl⟩
  | name =>
    refine ⟨':', value ++ rest, rfl, ?_⟩
    cases value with
    | nil => exact h.1.elim
    | cons c u =>
      have hs := (Text.splitName_eq_iff (List.cons_ne_nil c u)).mpr ⟨rfl, h.1, h.2⟩
      simp only [read, hs]
  | group =>
    refine ⟨'(', value ++ ')' :: rest, by simp [Token.Kind.source], ?_⟩
    have hs : Group.scan (value ++ ')' :: rest) = .ok (value, rest) :=
      Group.scan_eq_ok_iff.mpr ⟨rfl, h.balanced, h.head_ne⟩
    cases value with
    | nil => exact absurd rfl h.ne_nil
    | cons c u => simp only [read, hs]
  | char =>
    obtain ⟨c, rfl, hc⟩ := h
    refine ⟨c, rest, rfl, ?_⟩
    simp only [Token.symbols, List.mem_cons, List.not_mem_nil, or_false, not_or] at hc
    unfold read
    split <;> simp_all
  | invalid => exact h.elim
  | final => exact h.elim

/-- **A token is read exactly where one is admitted.** -/
theorem read_eq_ok_iff {c : Char} {t : Text} {l : Lexeme} :
    read c t = .ok l ↔ c :: t = l.kind.source l.value ++ l.rest ∧ l.kind.Admits l.value l.rest := by
  constructor
  · intro h
    exact ⟨(source_append h).symm, admits_of_read h⟩
  · rintro ⟨happ, hadm⟩
    obtain ⟨c', t', happ', hread⟩ := read_of_admits hadm
    rw [happ'] at happ
    cases happ
    exact hread

end Lexeme

/-! ## Token lists -/

/-- The tokens that cover a text which starts at `index`, the final token included. -/
inductive Token.Covers : Nat → List Token → Text → Prop where
  | final {index : Nat} : Covers index [⟨.final, index, []⟩] []
  | cons {index : Nat} {kind : Token.Kind} {value rest : Text} {ts : List Token}
      (ha : kind.Admits value rest)
      (hr : Covers (index + (kind.source value).length) ts rest) :
      Covers index (⟨kind, index, value⟩ :: ts) (kind.source value ++ rest)

namespace Reading

theorem all_nil (index : Nat) : all index [] = [token ⟨.final, index, []⟩] := by
  rw [all]

/-- Behind a token that is read, reading goes on behind its source. -/
theorem all_cons_of_ok {c : Char} {t : Text} {l : Lexeme} (h : Lexeme.read c t = .ok l)
    (index : Nat) :
    all index (c :: t)
      = token ⟨l.kind, index, l.value⟩
        :: all (index + (l.kind.source l.value).length) l.rest := by
  rw [all]
  split
  · rename_i l' hl
    obtain rfl : l = l' := Except.ok.inj (h.symm.trans hl)
    rfl
  · rename_i e he
    cases h.symm.trans he

/-- Behind a fault, reading goes on with the next code point. -/
theorem all_cons_of_error {c : Char} {t : Text} {cause : Fault.Cause}
    (h : Lexeme.read c t = .error cause) (index : Nat) :
    all index (c :: t) = fault ⟨index, cause⟩ :: all (index + 1) t := by
  rw [all]
  split
  · rename_i l' hl
    cases h.symm.trans hl
  · rename_i e he
    obtain rfl : cause = e := Except.error.inj (h.symm.trans he)
    rfl

/-- Tokens that cover a text are what is found in it. -/
theorem all_of_covers {index : Nat} {ts : List Token} {t : Text} (h : Token.Covers index ts t) :
    all index t = ts.map token := by
  induction h with
  | final => rw [all_nil]; rfl
  | cons ha _ ih =>
    obtain ⟨c, t, happ, hread⟩ := Lexeme.read_of_admits ha
    rw [happ, all_cons_of_ok hread, ih]
    rfl

/-- If only tokens are found in a text, they cover it. -/
theorem covers_of_all {index : Nat} {ts : List Token} {t : Text}
    (h : all index t = ts.map token) : Token.Covers index ts t := by
  -- on the length of the text, since what follows a token is only known to be shorter
  induction hn : t.length using Nat.strongRecOn generalizing index ts t with
  | ind n ih =>
    cases t with
    | nil =>
      rw [all_nil] at h
      cases ts with
      | nil => cases h
      | cons s ts =>
        simp only [List.map_cons, List.cons.injEq, token.injEq] at h
        obtain ⟨rfl, hts⟩ := h
        obtain rfl := List.map_eq_nil_iff.mp hts.symm
        exact .final
    | cons c t =>
      cases hread : Lexeme.read c t with
      | error cause =>
        rw [all_cons_of_error hread] at h
        cases ts with
        | nil => cases h
        | cons s ts => simp at h
      | ok l =>
        rw [all_cons_of_ok hread] at h
        cases ts with
        | nil => cases h
        | cons s ts =>
          simp only [List.map_cons, List.cons.injEq, token.injEq] at h
          obtain ⟨rfl, hts⟩ := h
          obtain ⟨happ, hadm⟩ := Lexeme.read_eq_ok_iff.mp hread
          have hlen : l.rest.length < n := by
            have := Lexeme.length_rest hread
            simp only [List.length_cons] at hn
            omega
          rw [happ]
          exact .cons hadm (ih _ hlen hts rfl)

/-- Readings without faults are the tokens they become. -/
theorem mapM_toExcept_eq_ok_iff {rs : List Reading} {ts : List Token} :
    rs.mapM toExcept = .ok ts ↔ rs = ts.map token := by
  induction rs generalizing ts with
  | nil =>
    constructor
    · intro h
      cases h
      rfl
    · intro h
      rw [List.map_eq_nil_iff.mp h.symm]
      rfl
  | cons r rs ih =>
    rw [List.mapM_cons]
    cases r with
    | fault f =>
      constructor
      · intro h
        cases h
      · intro h
        cases ts <;> simp at h
    | token t =>
      show (rs.mapM toExcept >>= fun ts => pure (t :: ts)) = .ok ts ↔ _
      cases ts with
      | nil => cases rs.mapM toExcept <;> simp [bind, Except.bind, pure, Except.pure]
      | cons s ts =>
        rw [List.map_cons, List.cons.injEq, ← ih]
        cases rs.mapM toExcept <;> simp [bind, Except.bind, pure, Except.pure]

end Reading

/-- **The strict tokens of a pattern** are those that cover it. -/
theorem Token.scan_strict_eq_ok_iff {pattern : Text} {ts : List Token} :
    (Token.scan .strict pattern).outcome = .ok ts ↔ Token.Covers 0 ts pattern := by
  show (Reading.all 0 pattern).mapM Reading.toExcept = .ok ts ↔ _
  rw [Reading.mapM_toExcept_eq_ok_iff]
  exact ⟨Reading.covers_of_all, Reading.all_of_covers⟩

end ComponentPattern
