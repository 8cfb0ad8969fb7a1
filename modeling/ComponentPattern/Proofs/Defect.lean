/-
# What the scan of a group comes to

Behind a `(` the reader goes on, atom by atom, as long as it stays inside the group:
`Group.IsInside` says which rows of atoms that are, without reference to the reader. The longest
such row decides what is found: `Group.Verdict` reads it off the row and the text that is left
behind it.

* `Group.body_texts` : the reader goes through every row that stays inside;
* `Group.exists_verdict`, `Group.read_of_verdict` : behind the longest row one of the verdicts
  applies, and it is what the reader comes to;
* `Token.scan_of_verdict` : so for every place of a pattern at which the strict reader meets a `(`.
-/
import Mathlib.Data.List.Induction
import ComponentPattern.Proofs.Policy

namespace ComponentPattern

namespace Group

/-! ## Atoms -/

/-- An atom of a group: an escape pair, or a single code point other than a backslash; all ASCII. -/
inductive Atom where
  | pair (c : Char) (hc : isAscii c = true)
  | single (c : Char) (hc : isAscii c = true) (hs : c ≠ '\\')

namespace Atom

/-- The text of an atom. -/
def text : Atom → Text
  | pair c _ => ['\\', c]
  | single c _ _ => [c]

/-- What an atom adds to the number of open groups. -/
def change : Atom → Int
  | pair _ _ => 0
  | single c _ _ => if c = '(' then 1 else if c = ')' then -1 else 0

theorem text_ne_nil (a : Atom) : a.text ≠ [] := by
  cases a <;> simp [text]

/-- Of all atoms only `?` starts with a question mark. -/
theorem head?_text_eq_iff {a : Atom} : a.text.head? = some '?' ↔ a.text = ['?'] := by
  cases a <;> simp [text]

end Atom

/-- The text of a row of atoms. -/
def texts (as : List Atom) : Text := as.flatMap Atom.text

/-- The number of open groups behind a row of atoms, the one that it is in among them. -/
def depth (as : List Atom) : Int := as.foldl (fun n a => n + a.change) 1

@[simp] theorem texts_nil : texts [] = [] := rfl

@[simp] theorem texts_concat (as : List Atom) (a : Atom) :
    texts (as ++ [a]) = texts as ++ a.text := by
  simp [texts]

/-- Only the empty row has no text. -/
theorem texts_eq_nil_iff {as : List Atom} : texts as = [] ↔ as = [] := by
  cases as with
  | nil => simp
  | cons a as => simp [texts, a.text_ne_nil]

@[simp] theorem depth_nil : depth [] = 1 := rfl

@[simp] theorem depth_concat (as : List Atom) (a : Atom) :
    depth (as ++ [a]) = depth as + a.change := by
  simp [depth]

/-- A row of atoms at the start of `t`, the text behind a `(`, that stays inside the group. -/
structure IsInside (t : Text) (as : List Atom) : Prop where
  starts : texts as <+: t
  /-- The row does not start with `?`. -/
  head_ne : (texts as).head? ≠ some '?'
  /-- The group is never closed. -/
  depth_pos : ∀ bs, bs <+: as → 1 ≤ depth bs
  /-- A `?` follows every `(`. -/
  asked : ∀ bs a cs, as = bs ++ a :: cs → a.text = ['('] → texts bs ++ ['(', '?'] <+: t

/-- In front of anything the empty row stays inside. -/
theorem isInside_nil (t : Text) : IsInside t [] where
  starts := List.nil_prefix
  head_ne := by simp
  depth_pos := by
    intro bs hbs
    obtain rfl := List.prefix_nil.mp hbs
    simp
  asked := by simp

/-- One atom more: what it takes to stay inside. -/
theorem isInside_concat_iff {t : Text} {as : List Atom} {a : Atom} :
    IsInside t (as ++ [a]) ↔ IsInside t as ∧ texts as ++ a.text <+: t
      ∧ (as = [] → a.text ≠ ['?']) ∧ 1 ≤ depth as + a.change
      ∧ (a.text = ['('] → texts as ++ ['(', '?'] <+: t) := by
  constructor
  · intro h
    have hstarts := h.starts
    rw [texts_concat] at hstarts
    refine ⟨⟨(List.prefix_append _ _).trans hstarts, ?_, ?_, ?_⟩, hstarts, ?_, ?_, ?_⟩
    · intro hhead
      apply h.head_ne
      rw [texts_concat, List.head?_append, hhead]
      rfl
    · intro bs hbs
      exact h.depth_pos bs (hbs.trans (List.prefix_append _ _))
    · intro bs b cs has hb
      exact h.asked bs b (cs ++ [a]) (by simp [has]) hb
    · rintro rfl ha
      apply h.head_ne
      rw [texts_concat, ha]
      rfl
    · have hdepth := h.depth_pos (as ++ [a]) List.prefix_rfl
      rwa [depth_concat] at hdepth
    · exact h.asked as a [] rfl
  · rintro ⟨h, hstarts, hhead, hdepth, hasked⟩
    refine ⟨by rwa [texts_concat], ?_, ?_, ?_⟩
    · rw [texts_concat]
      by_cases hnil : as = []
      · subst hnil
        exact fun hq => hhead rfl (Atom.head?_text_eq_iff.mp hq)
      · obtain ⟨c, u, hcons⟩ := List.exists_cons_of_ne_nil (mt texts_eq_nil_iff.mp hnil)
        have hfirst := h.head_ne
        rw [hcons] at hfirst ⊢
        exact hfirst
    · intro bs hbs
      rcases List.prefix_concat_iff.mp hbs with rfl | hbs
      · rwa [depth_concat]
      · exact h.depth_pos bs hbs
    · intro bs b cs hsplit hb
      -- the atom is the last one or one of those before
      rcases cs.eq_nil_or_concat with rfl | ⟨cs', c, rfl⟩
      · obtain ⟨rfl, heq⟩ := List.append_inj' hsplit rfl
        obtain rfl := (List.cons.inj heq).1
        exact hasked hb
      · have hsplit' : as ++ [a] = (bs ++ b :: cs') ++ [c] := by simpa using hsplit
        exact h.asked bs b cs' (List.append_inj' hsplit' rfl).1 hb

/-! ## The longest row -/

/-- A row that stays inside, and no longer one does. -/
structure IsLongestRow (t : Text) (as : List Atom) : Prop extends IsInside t as where
  longest : ∀ bs, IsInside t bs → (texts bs).length ≤ (texts as).length

/-- The text of the longest row that stays inside. -/
def IsLongest (t u : Text) : Prop := ∃ as, texts as = u ∧ IsLongestRow t as

/-- Where some row stays inside, there is a longest one. -/
theorem IsInside.exists_isLongest {t : Text} {as : List Atom} (h : IsInside t as) :
    ∃ u, IsLongest t u := by
  -- on how much of the text is left: the row is the longest one, or there is a longer one
  induction hn : t.length - (texts as).length using Nat.strongRecOn generalizing as with
  | ind n ih =>
    by_cases hmax : ∀ bs, IsInside t bs → (texts bs).length ≤ (texts as).length
    · exact ⟨texts as, as, rfl, h, hmax⟩
    · simp only [Classical.not_forall, Nat.not_le] at hmax
      obtain ⟨bs, hbs, hlonger⟩ := hmax
      have hbound := hbs.starts.length_le
      exact ih _ (by omega) hbs rfl

/-- There is at most one longest row. -/
theorem IsLongest.unique {t u v : Text} (hu : IsLongest t u) (hv : IsLongest t v) : u = v := by
  obtain ⟨as, rfl, has⟩ := hu
  obtain ⟨bs, rfl, hbs⟩ := hv
  have hlength : (texts as).length = (texts bs).length := by
    have := has.longest bs hbs.toIsInside
    have := hbs.longest as has.toIsInside
    omega
  have hprefix := List.prefix_of_prefix_length_le has.starts hbs.starts (Nat.le_of_eq hlength)
  exact hprefix.eq_of_length hlength

/-- Behind the longest row there is no atom with which it would stay inside. -/
theorem IsLongestRow.not_concat {t r : Text} {as : List Atom} (h : IsLongestRow t as)
    (ht : t = texts as ++ r) (a : Atom) (r' : Text) (hr : r = a.text ++ r')
    (hhead : as = [] → a.text ≠ ['?']) (hdepth : 1 ≤ depth as + a.change)
    (hasked : a.text = ['('] → r'.head? = some '?') : False := by
  have hconcat : IsInside t (as ++ [a]) := by
    have hstarts : texts as ++ a.text <+: t := ⟨r', by simp [ht, hr]⟩
    refine isInside_concat_iff.mpr ⟨h.toIsInside, hstarts, hhead, hdepth, fun ha => ?_⟩
    obtain ⟨v, rfl⟩ := List.head?_eq_some_iff.mp (hasked ha)
    exact ⟨v, by simp [ht, hr, ha]⟩
  have hlength := h.longest _ hconcat
  have hpos := List.length_pos_iff.mpr a.text_ne_nil
  rw [texts_concat, List.length_append] at hlength
  omega

/-! ## Reading through a row -/

/-- **One atom** is read through, at the depth that it leads to. -/
theorem body_atom {a : Atom} {k k' : Nat} {r : Text} (hk : (k' : Int) = k + a.change)
    (hasked : a.text = ['('] → r.head? = some '?') :
    body k (a.text ++ r) = (body k' r).map (prepend a.text) := by
  cases a with
  | pair c hc =>
    obtain rfl : k' = k := by
      simp only [Atom.change] at hk
      omega
    exact body_escape hc k' r
  | single c hc hs =>
    by_cases hopen : c = '('
    · subst hopen
      obtain ⟨v, rfl⟩ := List.head?_eq_some_iff.mp (hasked rfl)
      obtain rfl : k' = k + 1 := by
        simp only [Atom.change, if_true] at hk
        omega
      exact body_open k v
    · by_cases hclose : c = ')'
      · subst hclose
        obtain rfl : k = k' + 1 := by
          simp only [Atom.change, if_neg hopen, if_true] at hk
          omega
        exact body_close_succ k' r
      · obtain rfl : k' = k := by
          simp only [Atom.change, if_neg hopen, if_neg hclose] at hk
          omega
        exact body_plain hc ⟨hs, hopen, hclose⟩ k' r

/-- **A row that stays inside** is read through, and the group is still open behind it. -/
theorem body_texts {t r : Text} {as : List Atom} (h : IsInside t as) (ht : t = texts as ++ r) :
    ∃ k : Nat, depth as = k + 1 ∧ body 0 t = (body k r).map (prepend (texts as)) := by
  -- from the front of the row to its end, as the depth counts
  induction as using List.reverseRecOn generalizing r with
  | nil => exact ⟨0, rfl, by rw [ht, texts_nil, List.nil_append, map_prepend_nil]⟩
  | append_singleton as a ih =>
    obtain ⟨has, -, -, hdepth, hasked⟩ := isInside_concat_iff.mp h
    have ht' : t = texts as ++ (a.text ++ r) := by rw [ht, texts_concat, List.append_assoc]
    obtain ⟨k, hk, hbody⟩ := ih has ht'
    obtain ⟨k', hk'⟩ : ∃ k' : Nat, (k' : Int) = k + a.change :=
      ⟨(k + a.change).toNat, Int.toNat_of_nonneg (by omega)⟩
    have hnext : a.text = ['('] → r.head? = some '?' := by
      intro ha
      have hstarts := hasked ha
      rw [ht', ha, List.prefix_append_right_inj] at hstarts
      obtain ⟨v, hv⟩ := hstarts
      have hr : '?' :: v = r := (List.cons.inj hv).2
      rw [← hr]
      rfl
    refine ⟨k', by rw [depth_concat]; omega, ?_⟩
    rw [hbody, body_atom hk' hnext, map_prepend_prepend, texts_concat]

/-! ## Verdicts -/

/-- What the text `r` behind the longest row says about the group: why there is none, or what
follows its `)`. The text of the row is `u`. -/
inductive Verdict (u : Text) : Text → Except Fault.Cause Text → Prop where
  | ended : Verdict u [] (.error (.badGroup .unterminated))
  | openAtEnd : Verdict u ['('] (.error (.badGroup .unterminated))
  | escapeAtEnd : Verdict u ['\\'] (.error (.badGroup .unterminatedEscape))
  | nonAscii {c : Char} {r : Text} (hc : isAscii c = false) :
      Verdict u (c :: r) (.error (.badGroup .nonAscii))
  | escapedNonAscii {c : Char} {r : Text} (hc : isAscii c = false) :
      Verdict u ('\\' :: c :: r) (.error (.badGroup .nonAscii))
  | leadingQuestion {r : Text} (hu : u = []) :
      Verdict u ('?' :: r) (.error (.badGroup .leadingQuestion))
  | capturing {c : Char} {r : Text} (hc : c ≠ '?') :
      Verdict u ('(' :: c :: r) (.error (.badGroup .capturing))
  | empty {r : Text} (hu : u = []) : Verdict u (')' :: r) (.error .emptyGroup)
  | closed {r : Text} (hu : u ≠ []) : Verdict u (')' :: r) (.ok r)

section

variable {t r : Text} {as : List Atom}

/-- Behind the longest row there is always a verdict. -/
theorem exists_verdict (h : IsLongestRow t as) (ht : t = texts as ++ r) :
    ∃ v, Verdict (texts as) r v := by
  have hdepth := h.depth_pos as List.prefix_rfl
  cases r with
  | nil => exact ⟨_, .ended⟩
  | cons c r =>
    by_cases hc : isAscii c = true
    case neg => exact ⟨_, .nonAscii (by simpa using hc)⟩
    by_cases hescape : c = '\\'
    · subst hescape
      cases r with
      | nil => exact ⟨_, .escapeAtEnd⟩
      | cons d r =>
        by_cases hd : isAscii d = true
        · exact (h.not_concat ht (.pair d hd) r rfl (by simp [Atom.text])
            (by simpa [Atom.change] using hdepth) (by simp [Atom.text])).elim
        · exact ⟨_, .escapedNonAscii (by simpa using hd)⟩
    by_cases hopen : c = '('
    · subst hopen
      cases r with
      | nil => exact ⟨_, .openAtEnd⟩
      | cons d r =>
        by_cases hd : d = '?'
        · subst hd
          exact (h.not_concat ht (.single '(' hc hescape) ('?' :: r) rfl (by simp [Atom.text])
            (by simp only [Atom.change, if_true]; omega) (fun _ => rfl)).elim
        · exact ⟨_, .capturing hd⟩
    by_cases hclose : c = ')'
    · subst hclose
      by_cases hu : texts as = []
      · exact ⟨_, .empty hu⟩
      · exact ⟨_, .closed hu⟩
    -- any other code point would go on with the row, unless the row would start with `?`
    by_cases hquestion : as = [] ∧ c = '?'
    · obtain ⟨rfl, rfl⟩ := hquestion
      exact ⟨_, .leadingQuestion rfl⟩
    · refine (h.not_concat ht (.single c hc hescape) r rfl ?_ ?_ ?_).elim
      · intro hnil hq
        exact hquestion ⟨hnil, by simpa [Atom.text] using hq⟩
      · simpa [Atom.change, hopen, hclose] using hdepth
      · simp [Atom.text, hopen]

/-- Without a `?` at its start, a group is scanned as its body. -/
theorem scan_of_head_ne (h : t.head? ≠ some '?') : scan t = body 0 t := by
  unfold scan
  split
  · exact absurd rfl h
  · rfl

/-- Unless a `?` follows, the scan goes through the row and on behind it. -/
theorem IsInside.scan_eq (h : IsInside t as) (ht : t = texts as ++ r) (hr : r.head? ≠ some '?') :
    ∃ k : Nat, depth as = k + 1 ∧ scan t = (body k r).map (prepend (texts as)) := by
  obtain ⟨k, hk, hbody⟩ := body_texts h ht
  refine ⟨k, hk, ?_⟩
  rw [← hbody]
  apply scan_of_head_ne
  rw [ht, List.head?_append]
  cases hhead : (texts as).head? with
  | none => exact hr
  | some c =>
    have hne := h.head_ne
    rw [hhead] at hne
    exact hne

/-- A group with a defect is read as that fault. -/
theorem read_of_scan_error {d : GroupDefect} (h : scan t = .error d) :
    Lexeme.read '(' t = .error (.badGroup d) := by
  simp only [Lexeme.read, h]

/-- Where the body stops at once behind a row, whatever is open there, that is what is wrong. -/
theorem IsInside.read_of_body_error (h : IsInside t as) (ht : t = texts as ++ r)
    (hr : r.head? ≠ some '?') {d : GroupDefect} (hbody : ∀ k, body k r = .error d) :
    Lexeme.read '(' t = .error (.badGroup d) := by
  obtain ⟨k, -, hscan⟩ := h.scan_eq ht hr
  apply read_of_scan_error
  rw [hscan, hbody]
  rfl

/-- A `)` behind the longest row closes the group itself. -/
theorem scan_of_close (h : IsLongestRow t as) (ht : t = texts as ++ ')' :: r) :
    scan t = .ok (texts as, r) := by
  obtain ⟨k, hk, hscan⟩ := h.scan_eq ht (by simp)
  -- with another group open the `)` would still belong to the row
  have hlast : ¬ 1 ≤ depth as + -1 := by
    intro hdepth
    exact h.not_concat ht (.single ')' (by decide) (by decide)) r rfl (by simp [Atom.text])
      hdepth (by simp [Atom.text])
  obtain rfl : k = 0 := by omega
  rw [hscan, body_close_zero]
  simp [Except.map, prepend]

/-- **The verdict behind the longest row is what the reader comes to.** -/
theorem read_of_verdict (h : IsLongestRow t as) (ht : t = texts as ++ r)
    {v : Except Fault.Cause Text} (hv : Verdict (texts as) r v) :
    Lexeme.read '(' t = v.map fun rest => ⟨.group, texts as, rest⟩ := by
  cases hv with
  | ended =>
    exact h.read_of_body_error ht (by simp) fun k => by rw [body.eq_def]
  | openAtEnd =>
    exact h.read_of_body_error ht (by simp) fun k => by rw [body.eq_def]; rfl
  | escapeAtEnd =>
    exact h.read_of_body_error ht (by simp) fun k => by rw [body.eq_def]; rfl
  | @nonAscii c r hc =>
    refine h.read_of_body_error ht ?_ fun k => by rw [body.eq_def]; simp [hc]
    intro hq
    obtain rfl : c = '?' := Option.some.inj hq
    exact absurd hc (by decide)
  | @escapedNonAscii c r hc =>
    refine h.read_of_body_error ht (by simp) fun k => ?_
    rw [body.eq_def]
    simp only
    rw [if_neg (by decide), if_pos trivial, if_neg (by simp [hc])]
  | leadingQuestion hu =>
    have hscan : scan t = .error .leadingQuestion := by
      rw [ht, hu]
      rfl
    exact read_of_scan_error hscan
  | capturing hc =>
    exact h.read_of_body_error ht (by simp) fun k => by rw [body.eq_def]; simp [hc, isAscii]
  | empty hu =>
    have hscan := scan_of_close h ht
    rw [hu] at hscan
    simp only [Lexeme.read, hscan]
    rfl
  | closed hu =>
    have hscan := scan_of_close h ht
    obtain ⟨c, u, hcons⟩ := List.exists_cons_of_ne_nil hu
    rw [hcons] at hscan ⊢
    simp only [Lexeme.read, hscan]
    rfl

end

end Group

/-! ## Places of a pattern -/

namespace Token

/-- The strict reader gets through the tokens `us` of a pattern, and stands at `index` with `rest`
left to read. -/
inductive Reaches (pattern : Text) : List Token → Nat → Text → Prop where
  | start : Reaches pattern [] 0 pattern
  | read {us : List Token} {index : Nat} {c : Char} {t : Text} {l : Lexeme}
      (h : Reaches pattern us index (c :: t)) (hl : Lexeme.read c t = .ok l) :
      Reaches pattern (us ++ [⟨l.kind, index, l.value⟩])
        (index + (l.kind.source l.value).length) l.rest

/-- What is found in a pattern are the tokens up to a place and what is found from there on. -/
theorem Reaches.all_eq {pattern rest : Text} {us : List Token} {index : Nat}
    (h : Reaches pattern us index rest) :
    Reading.all 0 pattern = us.map .token ++ Reading.all index rest := by
  induction h with
  | start => rfl
  | read _ hl ih => rw [ih, Reading.all_cons_of_ok hl]; simp

/-- The tokens up to a place stand first in the tokens of the pattern. -/
theorem Reaches.isPrefix_of_scan {pattern rest : Text} {us ts : List Token} {index : Nat}
    (h : Reaches pattern us index rest) (hts : (scan .strict pattern).outcome = .ok ts) :
    us <+: ts := by
  have hall := Reading.all_of_covers (scan_strict_eq_ok_iff.mp hts)
  rw [h.all_eq] at hall
  obtain ⟨us', vs, rfl, hus, -⟩ := List.map_eq_append_iff.mp hall.symm
  obtain rfl : us' = us := (List.map_inj_right fun _ _ heq => Reading.token.inj heq).mp hus
  exact List.prefix_append us' vs

/-- Where the strict reader cannot go on, it stops with what is wrong there. -/
theorem Reaches.scan_eq_error {pattern t : Text} {us : List Token} {index : Nat} {c : Char}
    {cause : Fault.Cause} (h : Reaches pattern us index (c :: t))
    (hc : Lexeme.read c t = .error cause) :
    (scan .strict pattern).outcome = .error ⟨index, cause⟩ := by
  show (Reading.all 0 pattern).mapM Reading.toExcept = .error ⟨index, cause⟩
  have hbefore : (us.map Reading.token).filterMap Reading.fault? = [] := by
    simp [List.filterMap_map, Function.comp_def, Reading.fault?]
  rw [Reading.mapM_toExcept_eq_error_iff, h.all_eq, Reading.all_cons_of_error hc,
    List.filterMap_append, hbefore]
  rfl

/-- **What the scan of a group comes to.** Wherever the strict reader meets a `(`, there is a
longest row of atoms behind it that stays inside the group, and exactly one verdict behind that row.
A fault in it is the outcome; otherwise the row is the body of a group, and the reader goes on
behind the `)` with that group among the tokens of the pattern. -/
theorem scan_of_verdict {pattern t : Text} {us : List Token} {index : Nat}
    (h : Reaches pattern us index ('(' :: t)) :
    ∃ u r, t = u ++ r ∧ Group.IsLongest t u ∧ (∀ u', Group.IsLongest t u' → u' = u)
      ∧ (∃! v, Group.Verdict u r v)
      ∧ (∀ cause, Group.Verdict u r (.error cause) →
        (scan .strict pattern).outcome = .error ⟨index, cause⟩)
      ∧ ∀ rest, Group.Verdict u r (.ok rest) →
        r = ')' :: rest
          ∧ Reaches pattern (us ++ [⟨.group, index, u⟩]) (index + u.length + 2) rest
          ∧ ∀ ts, (scan .strict pattern).outcome = .ok ts →
            us ++ [⟨.group, index, u⟩] <+: ts := by
  obtain ⟨u, hu⟩ := (Group.isInside_nil t).exists_isLongest
  have hunique : ∀ u', Group.IsLongest t u' → u' = u := fun u' hu' => hu'.unique hu
  obtain ⟨as, rfl, has⟩ := id hu
  obtain ⟨r, rfl⟩ := has.starts
  have hread := fun v hv => Group.read_of_verdict (v := v) has rfl hv
  refine ⟨Group.texts as, r, rfl, hu, hunique, ?_, ?_, ?_⟩
  · obtain ⟨v, hv⟩ := Group.exists_verdict has rfl
    refine ⟨v, hv, fun v' hv' => ?_⟩
    have hrest : ∀ w : Except Fault.Cause Text,
        (w.map fun rest => Lexeme.mk .group (Group.texts as) rest).map Lexeme.rest = w := by
      intro w
      cases w <;> rfl
    rw [← hrest v', ← hrest v, ← hread v' hv', ← hread v hv]
  · intro cause hv
    exact h.scan_eq_error (hread _ hv)
  · intro rest hv
    have hgo := h.read (hread _ hv)
    have hlength : (Kind.group.source (Group.texts as)).length = (Group.texts as).length + 2 := by
      simp [Kind.source]
    refine ⟨by cases hv; rfl, ?_, fun ts hts => hgo.isPrefix_of_scan hts⟩
    rw [Nat.add_assoc, ← hlength]
    exact hgo

/-- In `a(b(?:c)\)d)e` neither the `)` of the nested group nor the one behind the backslash ends the
row. -/
theorem scan_of_verdict_nested :
    Reaches "a(b(?:c)\\)d)e".toList [⟨.char, 0, ['a']⟩] 1 "(b(?:c)\\)d)e".toList
      ∧ Group.IsLongest "b(?:c)\\)d)e".toList "b(?:c)\\)d".toList := by
  have h : Reaches "a(b(?:c)\\)d)e".toList [⟨.char, 0, ['a']⟩] 1 "(b(?:c)\\)d)e".toList :=
    Reaches.start.read (l := ⟨.char, ['a'], "(b(?:c)\\)d)e".toList⟩) rfl
  refine ⟨h, ?_⟩
  have htokens : (scan .strict "a(b(?:c)\\)d)e".toList).outcome
      = .ok [⟨.char, 0, ['a']⟩, ⟨.group, 1, "b(?:c)\\)d".toList⟩, ⟨.char, 12, ['e']⟩,
        ⟨.final, 13, []⟩] := by
    decide +kernel
  obtain ⟨u, r, -, hu, -, ⟨v, hv, -⟩, herror, hok⟩ := scan_of_verdict h
  cases v with
  | error cause => cases htokens.symm.trans (herror cause hv)
  | ok rest =>
    obtain ⟨-, -, hfirst⟩ := hok rest hv
    obtain ⟨ts, hts⟩ := hfirst _ htokens
    obtain ⟨-, hrest⟩ := List.cons.inj hts
    obtain ⟨hgroup, -⟩ := List.cons.inj hrest
    obtain rfl : u = "b(?:c)\\)d".toList := (Token.mk.inj hgroup).2.2
    exact hu

end Token

end ComponentPattern
