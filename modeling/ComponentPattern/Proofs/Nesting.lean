/-
# The groups of an expression

Which parentheses of an expression belong together. `Text.pairing` reads a text as the notation of
expressions is read, where a backslash takes the next code point with it and parentheses in a class
are plain, and pairs each left parenthesis with the right one that closes it. `Text.captures?` are
the groups among them that capture, in order of their left parentheses.

A text whose groups all pair up is read in the same way wherever it stands outside classes
(`Text.pairing_append`), so the groups of a row of such texts are those of the texts, moved to where
these stand. This gives `Expression.captures_of_selfContained`: unless a body of its captures
interferes, an expression has one capturing group for each capture, inside its fragment.
-/
import ComponentPattern.Proofs.Capturing

namespace ComponentPattern

/-! ## Pairs of parentheses -/

/-- The parentheses of a group: where they stand, and whether the group captures. -/
structure Parens where
  left : Nat
  right : Nat
  captures : Bool
deriving DecidableEq, Repr

/-- The same group, `n` code points further on. -/
def Parens.shift (n : Nat) (g : Parens) : Parens := ⟨n + g.left, n + g.right, g.captures⟩

/-- The groups of a text in order of their left parentheses, and the right parentheses that close
none of them. -/
structure Pairing where
  groups : List Parens
  rights : List Nat
deriving DecidableEq, Repr

namespace Pairing

/-- The pairing of a text with one more code point in front of it, at `index`. A left parenthesis
takes the first right one that closes none of the groups behind it. -/
def step (inClass : Bool) (c : Char) (captures : Bool) (index : Nat) (p : Pairing) :
    Option Pairing :=
  if inClass then some p
  else if c = '(' then
    match p.rights with
    | [] => none
    | right :: rights => some ⟨⟨index, right, captures⟩ :: p.groups, rights⟩
  else if c = ')' then some { p with rights := index :: p.rights }
  else some p

/-- The pairing of two texts in a row. -/
def append (p r : Pairing) : Pairing := ⟨p.groups ++ r.groups, p.rights ++ r.rights⟩

/-- The same pairing, `n` code points further on. -/
def shift (n : Nat) (p : Pairing) : Pairing := ⟨p.groups.map (Parens.shift n), p.rights.map (n + ·)⟩

variable {q captures : Bool} {c : Char} {i j : Nat} {p p' : Pairing}

/-- **What a code point does**: nothing, or it opens a group, or it closes one. -/
theorem step_cases (h : step q c captures i p = some p') :
    ((q = true ∨ (c ≠ '(' ∧ c ≠ ')')) ∧ p' = p)
      ∨ (q = false ∧ c = '(' ∧ ∃ right rights, p.rights = right :: rights
        ∧ p' = ⟨⟨i, right, captures⟩ :: p.groups, rights⟩)
      ∨ (q = false ∧ c = ')' ∧ p' = { p with rights := i :: p.rights }) := by
  unfold step at h
  split at h
  · next hq => exact .inl ⟨.inl hq, (Option.some.inj h).symm⟩
  · next hq =>
    have hq' : q = false := by simpa using hq
    split at h
    · next hc =>
      split at h
      · cases h
      · next right rights hrights =>
        exact .inr (.inl ⟨hq', hc, right, rights, hrights, (Option.some.inj h).symm⟩)
    · next hleft =>
      split at h
      · next hc => exact .inr (.inr ⟨hq', hc, (Option.some.inj h).symm⟩)
      · next hright => exact .inl ⟨.inr ⟨hleft, hright⟩, (Option.some.inj h).symm⟩

/-- What stands further right does not matter to a step. -/
theorem step_append (h : step q c captures i p = some p') (r : Pairing) :
    step q c captures i (p.append r) = some (p'.append r) := by
  rcases step_cases h with ⟨hplain, rfl⟩ | ⟨rfl, rfl, right, rights, hrights, rfl⟩ | ⟨rfl, rfl, rfl⟩
  · rcases hplain with rfl | ⟨hleft, hright⟩
    · rfl
    · simp [step, hleft, hright]
  · simp [step, append, hrights]
  · rfl

/-- A step does not depend on where the text starts. -/
theorem step_shift (q captures : Bool) (c : Char) (n i : Nat) (p : Pairing) :
    step q c captures (n + i) (p.shift n) = (step q c captures i p).map (shift n) := by
  unfold step
  split
  · rfl
  · split
    · obtain ⟨groups, rights⟩ := p
      cases rights <;> rfl
    · split <;> rfl

/-- Whether a group captures only matters where one is opened. -/
theorem step_congr {captures' : Bool} (h : q = false → c = '(' → captures = captures') (i : Nat)
    (p : Pairing) : step q c captures i p = step q c captures' i p := by
  by_cases hopens : q = false ∧ c = '('
  · rw [h hopens.1 hopens.2]
  · cases q with
    | true => rfl
    | false =>
      have hleft : c ≠ '(' := fun hc => hopens ⟨rfl, hc⟩
      simp [step, hleft]

/-- The parentheses of a pairing stand between `i` and `j`, those of each group in order, and so do
the left ones of all groups. -/
structure Within (i j : Nat) (p : Pairing) : Prop where
  rights : ∀ right ∈ p.rights, i ≤ right ∧ right < j
  groups : ∀ g ∈ p.groups, i ≤ g.left ∧ g.left < g.right ∧ g.right < j
  ordered : p.groups.Pairwise fun g g' => g.left < g'.left

/-- A range may start earlier. -/
theorem Within.mono {i' : Nat} (h : p.Within i j) (hi : i' ≤ i) : p.Within i' j where
  rights right hright := by
    have := h.rights right hright
    omega
  groups g hg := by
    have := h.groups g hg
    omega
  ordered := h.ordered

/-- One more code point in front keeps a pairing in its place. -/
theorem Within.step (h : p.Within (i + 1) j) (hij : i < j)
    (hstep : step q c captures i p = some p') : p'.Within i j := by
  have hmono := h.mono (Nat.le_succ i)
  rcases step_cases hstep with ⟨-, rfl⟩ | ⟨-, -, right, rights, hrights, rfl⟩ | ⟨-, -, rfl⟩
  · exact hmono
  · have hright := h.rights right (by simp [hrights])
    refine ⟨fun r hr => hmono.rights r (by simp [hrights, hr]), ?_, ?_⟩
    · refine List.forall_mem_cons.mpr ⟨⟨Nat.le_refl i, ?_, hright.2⟩, hmono.groups⟩
      exact hright.1
    · refine List.pairwise_cons.mpr ⟨fun g hg => ?_, h.ordered⟩
      exact (h.groups g hg).1
  · exact ⟨List.forall_mem_cons.mpr ⟨⟨Nat.le_refl i, hij⟩, hmono.rights⟩, hmono.groups, h.ordered⟩

end Pairing

/-! ## Reading an expression -/

namespace Text

/-- The pairing of a text that starts at `index`, where a class is open in front of it or not. There
is none if a group or a class is left open, or if nothing follows a backslash. -/
def pairing (inClass : Bool) (index : Nat) : Text → Option Pairing
  | [] => if inClass then none else some ⟨[], []⟩
  | ['\\'] => none
  | '\\' :: _ :: t => pairing inClass (index + 2) t
  | c :: t =>
    (pairing (staysInClass inClass c) (index + 1) t).bind
      (Pairing.step inClass c (opensCapture t) index)

/-- The groups of an expression in order of their left parentheses, if all parentheses pair up. -/
def groups? (t : Text) : Option (List Parens) :=
  match pairing false 0 t with
  | some ⟨groups, []⟩ => some groups
  | _ => none

/-- The capturing groups of an expression in order of their left parentheses, if all parentheses
pair up. -/
def captures? (t : Text) : Option (List Parens) := t.groups?.map (List.filter Parens.captures)

/-- Induction along the units of an expression: an escaped code point is one unit with its
backslash, and any other code point is a unit. -/
@[elab_as_elim]
theorem unit_induction {motive : Text → Prop} (nil : motive []) (dangling : motive ['\\'])
    (escape : ∀ d t, motive t → motive ('\\' :: d :: t))
    (plain : ∀ c t, c ≠ '\\' → motive t → motive (c :: t)) : (t : Text) → motive t
  | [] => nil
  | c :: t => by
    by_cases h : c = '\\'
    · subst h
      match t with
      | [] => exact dangling
      | d :: t => exact escape d t (unit_induction nil dangling escape plain t)
    · exact plain c t h (unit_induction nil dangling escape plain t)

variable {a b t : Text} {q : Bool} {i : Nat} {p : Pairing}

theorem pairing_cons {c : Char} (h : c ≠ '\\') (q : Bool) (i : Nat) (t : Text) :
    pairing q i (c :: t)
      = (pairing (staysInClass q c) (i + 1) t).bind (Pairing.step q c (opensCapture t) i) := by
  rw [pairing] <;> simp [h]

/-- Nothing is left open at the end of a text. -/
theorem eq_of_pairing_nil (h : pairing q i [] = some p) : q = false ∧ p = ⟨[], []⟩ := by
  cases q with
  | true => cases h
  | false => exact ⟨rfl, (Option.some.inj h).symm⟩

/-- A text that stands further on has the same pairing there. -/
theorem pairing_shift (q : Bool) (n i : Nat) (t : Text) :
    pairing q (n + i) t = (pairing q i t).map (Pairing.shift n) := by
  induction t using unit_induction generalizing q i with
  | nil => cases q <;> rfl
  | dangling => rfl
  | escape d t ih => exact ih q (i + 2)
  | plain c t hc ih =>
    rw [pairing_cons hc, pairing_cons hc, Nat.add_assoc, ih]
    cases pairing (staysInClass q c) (i + 1) t with
    | none => rfl
    | some p => exact Pairing.step_shift q _ c n i p

/-- A pairing stands where its text stands. -/
theorem within_of_pairing (h : pairing q i t = some p) : p.Within i (i + t.length) := by
  induction t using unit_induction generalizing q i p with
  | nil =>
    obtain ⟨rfl, rfl⟩ := eq_of_pairing_nil h
    exact ⟨nofun, nofun, .nil⟩
  | dangling => cases h
  | escape d t ih =>
    have hlength : i + ('\\' :: d :: t).length = i + 2 + t.length := by
      simp only [List.length_cons]
      omega
    rw [hlength]
    exact (ih h).mono (Nat.le_add_right i 2)
  | plain c t hc ih =>
    rw [pairing_cons hc] at h
    obtain ⟨p₁, hp₁, hstep⟩ := Option.bind_eq_some_iff.mp h
    have hlength : i + (c :: t).length = i + 1 + t.length := by
      simp only [List.length_cons]
      omega
    rw [hlength]
    exact (ih hp₁).step (by omega) hstep

/-- What closes a group in front of a text is a parenthesis of the text. -/
theorem mem_of_pairing (h : pairing q i t = some p) (hrights : p.rights ≠ []) : ')' ∈ t := by
  induction t using unit_induction generalizing q i p with
  | nil =>
    obtain ⟨rfl, rfl⟩ := eq_of_pairing_nil h
    exact absurd rfl hrights
  | dangling => cases h
  | escape d t ih => exact List.mem_cons_of_mem _ (List.mem_cons_of_mem _ (ih h hrights))
  | plain c t hc ih =>
    rw [pairing_cons hc] at h
    obtain ⟨p₁, hp₁, hstep⟩ := Option.bind_eq_some_iff.mp h
    rcases Pairing.step_cases hstep with ⟨-, rfl⟩ | ⟨-, -, right, rights, hr, rfl⟩ | ⟨-, rfl, -⟩
    · exact List.mem_cons_of_mem c (ih hp₁ hrights)
    · exact List.mem_cons_of_mem c (ih hp₁ (by simp [hr]))
    · exact List.mem_cons_self

/-- Whether a group captures is decided before it is closed. -/
theorem opensCapture_append (h : ')' ∈ t) (b : Text) : opensCapture (t ++ b) = opensCapture t := by
  obtain ⟨x, y, rfl⟩ := List.append_of_mem h
  rw [List.append_assoc, List.cons_append, opensCapture_close, opensCapture_close x y]

/-- **A text whose groups and classes are closed** is read on its own, whatever follows it. -/
theorem pairing_append (h : pairing q i a = some p) (b : Text) :
    pairing q i (a ++ b) = (pairing false (i + a.length) b).map p.append := by
  induction a using unit_induction generalizing q i p with
  | nil =>
    obtain ⟨rfl, rfl⟩ := eq_of_pairing_nil h
    have hid : Pairing.append ⟨[], []⟩ = id := rfl
    rw [hid, Option.map_id]
    rfl
  | dangling => cases h
  | escape d t ih =>
    have hlength : i + ('\\' :: d :: t).length = i + 2 + t.length := by
      simp only [List.length_cons]
      omega
    rw [hlength]
    exact ih h
  | plain c t hc ih =>
    rw [pairing_cons hc] at h
    obtain ⟨p₁, hp₁, hstep⟩ := Option.bind_eq_some_iff.mp h
    have hopens : q = false → c = '(' → opensCapture (t ++ b) = opensCapture t := by
      rintro rfl rfl
      refine opensCapture_append (mem_of_pairing hp₁ fun hnil => ?_) b
      simp [Pairing.step, hnil] at hstep
    have hlength : i + (c :: t).length = i + 1 + t.length := by
      simp only [List.length_cons]
      omega
    rw [List.cons_append, pairing_cons hc, ih hp₁, hlength]
    cases pairing false (i + 1 + t.length) b with
    | none => rfl
    | some r =>
      show Pairing.step q c (opensCapture (t ++ b)) i (p₁.append r) = some (p.append r)
      rw [Pairing.step_congr hopens]
      exact Pairing.step_append hstep r

/-- The groups that are opened are as many as are counted. -/
theorem capturing_eq_of_pairing (h : pairing q i t = some p) :
    capturing q t = p.groups.countP Parens.captures := by
  induction t using unit_induction generalizing q i p with
  | nil =>
    obtain ⟨rfl, rfl⟩ := eq_of_pairing_nil h
    rfl
  | dangling => cases h
  | escape d t ih => exact ih h
  | plain c t hc ih =>
    rw [pairing_cons hc] at h
    obtain ⟨p₁, hp₁, hstep⟩ := Option.bind_eq_some_iff.mp h
    rw [capturing_cons hc, ih hp₁]
    rcases Pairing.step_cases hstep with
      ⟨hplain, rfl⟩ | ⟨rfl, rfl, right, rights, hr, rfl⟩ | ⟨rfl, rfl, rfl⟩
    · have hnone : (decide (c = '(') && !q && opensCapture t) = false := by
        rcases hplain with rfl | ⟨hleft, -⟩
        · simp
        · simp [hleft]
      simp [hnone]
    · rw [List.countP_cons, Nat.add_comm]
      rfl
    · simp

/-! ## Closed texts in a row -/

/-- A text has captures if its parentheses pair up, and then those pairs that capture. -/
theorem captures?_eq_some_iff {cs : List Parens} :
    t.captures? = some cs
      ↔ ∃ gs, pairing false 0 t = some ⟨gs, []⟩ ∧ cs = gs.filter Parens.captures := by
  unfold captures? groups?
  split
  · next gs h => simp [h, eq_comm]
  · next h =>
    constructor
    · intro hcs
      cases hcs
    · rintro ⟨gs, hgs, -⟩
      exact absurd hgs (h gs)

/-- The captures of a text stand in it, in order. -/
theorem within_of_captures? {cs : List Parens} (h : t.captures? = some cs) :
    (∀ g ∈ cs, g.left < g.right ∧ g.right < t.length)
      ∧ cs.Pairwise fun g g' => g.left < g'.left := by
  obtain ⟨gs, hgs, rfl⟩ := captures?_eq_some_iff.mp h
  have hwithin := within_of_pairing hgs
  refine ⟨fun g hg => ?_, hwithin.ordered.filter _⟩
  have hg' := hwithin.groups g (List.mem_of_mem_filter hg)
  omega

/-- The captures of a text are as many as the groups that it opens. -/
theorem capturing_eq_of_captures? {cs : List Parens} (h : t.captures? = some cs) :
    capturing false t = cs.length := by
  obtain ⟨gs, hgs, rfl⟩ := captures?_eq_some_iff.mp h
  rw [capturing_eq_of_pairing hgs, List.countP_eq_length_filter]

theorem filter_map_shift (n : Nat) (gs : List Parens) :
    (gs.map (Parens.shift n)).filter Parens.captures
      = (gs.filter Parens.captures).map (Parens.shift n) := by
  rw [List.filter_map]
  rfl

/-- The captures of two texts in a row are those of both. -/
theorem captures?_append {cs ds : List Parens} (ha : a.captures? = some cs)
    (hb : b.captures? = some ds) :
    (a ++ b).captures? = some (cs ++ ds.map (Parens.shift a.length)) := by
  obtain ⟨gs, hgs, rfl⟩ := captures?_eq_some_iff.mp ha
  obtain ⟨hs, hhs, rfl⟩ := captures?_eq_some_iff.mp hb
  refine captures?_eq_some_iff.mpr ⟨gs ++ hs.map (Parens.shift a.length), ?_, ?_⟩
  · rw [pairing_append hgs, Nat.zero_add, ← Nat.add_zero a.length, pairing_shift, hhs]
    rfl
  · rw [List.filter_append, filter_map_shift]

/-- Parentheses around a text are a group in front of those of the text. -/
theorem captures?_parens {cs : List Parens} (h : t.captures? = some cs) :
    captures? ('(' :: (t ++ [')']))
      = some ((if opensCapture (t ++ [')']) then [⟨0, t.length + 1, true⟩] else [])
        ++ cs.map (Parens.shift 1)) := by
  obtain ⟨gs, hgs, rfl⟩ := captures?_eq_some_iff.mp h
  have hinner : pairing false 1 (t ++ [')'])
      = some ⟨gs.map (Parens.shift 1), [t.length + 1]⟩ := by
    have hshift := pairing_shift false 1 0 t
    rw [hgs] at hshift
    rw [pairing_append hshift, Nat.add_comm 1 t.length]
    simp [pairing, Pairing.step, Pairing.append, Pairing.shift, staysInClass]
  refine captures?_eq_some_iff.mpr
    ⟨⟨0, t.length + 1, opensCapture (t ++ [')'])⟩ :: gs.map (Parens.shift 1), ?_, ?_⟩
  · rw [pairing_cons (by decide)]
    show (pairing false 1 (t ++ [')'])).bind _ = _
    rw [hinner]
    rfl
  · rw [List.filter_cons, filter_map_shift]
    split <;> simp_all

/-- All groups of a text are closed, and `n` of them capture. -/
def HasCaptures (t : Text) (n : Nat) : Prop := ∃ cs, t.captures? = some cs ∧ cs.length = n

theorem hasCaptures_nil : HasCaptures [] 0 := ⟨[], rfl, rfl⟩

theorem hasCaptures_escape (c : Char) : HasCaptures ['\\', c] 0 := ⟨[], rfl, rfl⟩

/-- A code point without a meaning for groups and classes has no captures. -/
theorem hasCaptures_plain {c : Char} (h : c ∉ ['\\', '(', ')', '[']) : HasCaptures [c] 0 := by
  simp only [List.mem_cons, List.not_mem_nil, or_false, not_or] at h
  refine ⟨[], captures?_eq_some_iff.mpr ⟨[], ?_, rfl⟩, rfl⟩
  rw [pairing_cons h.1]
  simp [pairing, Pairing.step, staysInClass, h]

namespace HasCaptures

variable {n m : Nat}

/-- Texts in a row have the captures of both. -/
theorem append (ha : HasCaptures a n) (hb : HasCaptures b m) : HasCaptures (a ++ b) (n + m) := by
  obtain ⟨cs, hcs, rfl⟩ := ha
  obtain ⟨ds, hds, rfl⟩ := hb
  exact ⟨_, captures?_append hcs hds, by rw [List.length_append, List.length_map]⟩

/-- Parentheses are one more capture if they capture. -/
theorem parens (h : HasCaptures t n) :
    HasCaptures ('(' :: (t ++ [')'])) ((if opensCapture (t ++ [')']) then 1 else 0) + n) := by
  obtain ⟨cs, hcs, rfl⟩ := h
  refine ⟨_, captures?_parens hcs, ?_⟩
  rw [List.length_append, List.length_map]
  split <;> rfl

/-- A group has the captures of what stands in it. -/
theorem group (h : HasCaptures t n) : HasCaptures (Fragment.group t) n := by
  have hasked : HasCaptures ['?', ':'] 0 := ⟨[], rfl, rfl⟩
  have hparens := (hasked.append h).parens
  simpa [Fragment.group, opensCapture] using hparens

/-- A capture has one more. -/
theorem capture (h : HasCaptures t n) (hq : t.head? ≠ some '?') :
    HasCaptures (Fragment.capture t) (n + 1) := by
  have hparens := h.parens
  rw [opensCapture_of_head_ne hq, if_pos rfl, Nat.add_comm] at hparens
  exact hparens

end HasCaptures

/-- The one capture of a text that stands between two others comes behind those of the first, and
stands inside its text. -/
theorem HasCaptures.exists_between {x f y : Text} {n m : Nat} (hx : HasCaptures x n)
    (hf : HasCaptures f 1) (hy : HasCaptures y m) :
    ∃ cs g, (x ++ (f ++ y)).captures? = some cs ∧ cs[n]? = some g
      ∧ x.length ≤ g.left ∧ g.left < g.right ∧ g.right < x.length + f.length := by
  obtain ⟨cs, hcs, rfl⟩ := hx
  obtain ⟨ds, hds, hlength⟩ := hf
  obtain ⟨es, hes, -⟩ := hy
  obtain ⟨g, rfl⟩ := List.length_eq_one_iff.mp hlength
  have hg := (within_of_captures? hds).1 g List.mem_cons_self
  refine ⟨_, g.shift x.length, captures?_append hcs (captures?_append hds hes), ?_, ?_⟩
  · rw [List.getElem?_append_right (Nat.le_refl _), Nat.sub_self]
    rfl
  · simp only [Parens.shift]
    omega

/-- Escaped text has no groups. -/
theorem hasCaptures_escaped (t : Text) : HasCaptures t.escaped 0 := by
  induction t with
  | nil => exact hasCaptures_nil
  | cons c t ih =>
    rw [escaped_cons]
    split
    · exact (hasCaptures_escape c).append ih
    · next h =>
      have hsymbols : ['\\', '(', ')', '['] ⊆ expressionSymbols := by decide
      exact (hasCaptures_plain fun hc => h (hsymbols hc)).append ih

theorem hasCaptures_modifier (m : Modifier) : HasCaptures m.text 0 := by
  cases m with
  | once => exact hasCaptures_nil
  | optional => exact ⟨[], rfl, rfl⟩
  | zeroOrMore => exact ⟨[], rfl, rfl⟩
  | oneOrMore => exact ⟨[], rfl, rfl⟩

/-- A body that leaves the groups around it alone: it does not start with `?`, all of its groups and
classes are closed in it and by it, and none of its groups captures. -/
structure IsSelfContained (t : Text) : Prop where
  head_ne : t.head? ≠ some '?'
  captures : t.captures? = some []

instance (t : Text) : Decidable t.IsSelfContained :=
  decidable_of_iff (t.head? ≠ some '?' ∧ t.captures? = some [])
    ⟨fun h => ⟨h.1, h.2⟩, fun h => ⟨h.head_ne, h.captures⟩⟩

/-- A self-contained text has no captures of its own. -/
theorem IsSelfContained.hasCaptures (h : t.IsSelfContained) : HasCaptures t 0 :=
  ⟨[], h.captures, rfl⟩

end Text

/-! ## Fragments -/

theorem Part.isSelfContained_wildcardSource : Text.IsSelfContained wildcardSource := by decide

/-- The expression of a segment is a class, which the delimiter does not close. -/
theorem Options.isSelfContained_segmentSource {o : Options} {segment : Text}
    (h : o.segmentSource = .ok segment) : segment.IsSelfContained := by
  obtain ⟨-, rfl⟩ := Options.segmentSource_eq_ok_iff.mp h
  refine ⟨nofun, Text.captures?_eq_some_iff.mpr ⟨[], ?_, rfl⟩⟩
  cases o.delimiter with
  | none => rfl
  | some c =>
    rw [Option.toList_some, Text.escaped_cons, Text.escaped_nil]
    split
    · rfl
    · next hc =>
      have hne : c ≠ '\\' ∧ c ≠ ']' := by
        constructor
        · rintro rfl
          exact hc (by decide)
        · rintro rfl
          exact hc (by decide)
      simp [Text.pairing_cons, Text.pairing, Text.staysInClass, Pairing.step, hne]

namespace Fragment

open Text

/-- The fragment of a capture has one capturing group. -/
theorem hasCaptures_ofCapture {inner : Text} (h : inner.IsSelfContained) (m : Modifier)
    (before after : Text) :
    HasCaptures (ofCapture m before.escaped inner after.escaped) 1 := by
  have hinner := h.hasCaptures
  have hB := hasCaptures_escaped before
  have hA := hasCaptures_escaped after
  unfold ofCapture
  split
  · -- both copies of the body are groups of their own that capture nothing
    have hmore := ((hA.append hB).append hinner.group).group
    have hall := ((hinner.group.append hmore).append (hasCaptures_modifier .zeroOrMore)).capture
      (by simp [group])
    have hmark : HasCaptures (if m = .zeroOrMore then ['?'] else []) 0 := by
      split
      · exact hasCaptures_modifier .optional
      · exact hasCaptures_nil
    exact ((hB.append hall).append hA).group.append hmark
  · have hcapture := hinner.capture h.head_ne
    split
    · exact hcapture.append (hasCaptures_modifier m)
    · exact ((hB.append hcapture).append hA).group.append (hasCaptures_modifier m)

end Fragment

namespace Part

/-- The fragment of a part has a capturing group exactly if the part captures. -/
theorem hasCaptures_expressed {segment : Text} {p : Part}
    (h : p.isFixed = false → (p.source segment).IsSelfContained) :
    Text.HasCaptures (p.expressed segment) (if p.isFixed then 0 else 1) := by
  cases hfixed : p.isFixed with
  | true =>
    have hvalue := Text.hasCaptures_escaped p.value
    rw [expressed, if_pos hfixed]
    split
    · exact hvalue
    · exact hvalue.group.append (Text.hasCaptures_modifier p.modifier)
  | false =>
    rw [expressed, if_neg (by simp [hfixed])]
    exact Fragment.hasCaptures_ofCapture (h hfixed) p.modifier p.before p.after

/-- The fragments of parts have as many capturing groups as there are captures. -/
theorem hasCaptures_flatMap_expressed {segment : Text} {ps : List Part}
    (h : ∀ p ∈ ps, p.isFixed = false → (p.source segment).IsSelfContained) :
    Text.HasCaptures (ps.flatMap (expressed segment)) (ps.countP (!·.isFixed)) := by
  induction ps with
  | nil => exact Text.hasCaptures_nil
  | cons p ps ih =>
    obtain ⟨hp, hps⟩ := List.forall_mem_cons.mp h
    have hrest := (hasCaptures_expressed hp).append (ih hps)
    rw [List.flatMap_cons, List.countP_cons, Nat.add_comm]
    cases hfixed : p.isFixed <;> simpa [hfixed] using hrest

/-- What the captures of parts match is self-contained if the expressions among them are. -/
theorem isSelfContained_source {o : Options} {segment : Text} (hs : o.segmentSource = .ok segment)
    {p : Part} (hfixed : p.isFixed = false) (h : p.kind = .expression → p.value.IsSelfContained) :
    (p.source segment).IsSelfContained := by
  unfold source
  split
  · exact Options.isSelfContained_segmentSource hs
  · exact isSelfContained_wildcardSource
  · next hsegment hwildcard =>
    cases hkind : p.kind with
    | fixed => simp [isFixed, hkind] at hfixed
    | segment => exact absurd hkind hsegment
    | wildcard => exact absurd hkind hwildcard
    | expression => exact h hkind

/-- Parts that have fragments contribute a name for each capture. -/
theorem length_filterMap_captured? {ps : List Part} (h : ∀ p ∈ ps, p.IsExpressible) :
    (ps.filterMap captured?).length = ps.countP (!·.isFixed) := by
  rw [List.length_filterMap_eq_countP]
  refine List.countP_congr fun p hp => ?_
  rw [(h p hp).isSome_captured?]

end Part

/-! ## Expressions -/

/-- Where the fragment at a position starts in the expression of fragments. -/
def Expression.startOf (fragments : List (Text × Option Name)) (position : Nat) : Nat :=
  1 + ((fragments.take position).flatMap (·.1)).length

/-- Both parentheses of a group of the expression stand in the fragment at a position. -/
def Parens.InFragment (g : Parens) (fragments : List (Text × Option Name)) (position : Nat) :
    Prop :=
  ∃ f, fragments[position]? = some f ∧ Expression.startOf fragments position ≤ g.left
    ∧ g.left < g.right ∧ g.right < Expression.startOf fragments position + f.1.length

namespace Expression

variable {segment : Text} {ps qs rs : List Part} {p : Part}

/-- All groups are closed, and there is one for each capture. -/
theorem hasCaptures_source
    (h : ∀ p ∈ ps, p.isFixed = false → (p.source segment).IsSelfContained) :
    Text.HasCaptures (expressed segment ps).source (ps.countP (!·.isFixed)) := by
  have hfirst : Text.HasCaptures ['^'] 0 := ⟨[], rfl, rfl⟩
  have hlast : Text.HasCaptures ['$'] 0 := ⟨[], rfl, rfl⟩
  have hall := (hfirst.append (Part.hasCaptures_flatMap_expressed h)).append hlast
  rwa [Nat.zero_add] at hall

/-- The group of a capture comes behind those of the captures before it, and stands in its
fragment. -/
theorem exists_inFragment
    (h : ∀ r ∈ qs ++ p :: rs, r.isFixed = false → (r.source segment).IsSelfContained)
    (hfixed : p.isFixed = false) :
    ∃ cs g, (expressed segment (qs ++ p :: rs)).source.captures? = some cs
      ∧ cs[qs.countP (!·.isFixed)]? = some g
      ∧ g.InFragment ((qs ++ p :: rs).map fun p => (p.expressed segment, p.captured?))
        qs.length := by
  obtain ⟨hqs, hprs⟩ := List.forall_mem_append.mp h
  obtain ⟨hp, hrs⟩ := List.forall_mem_cons.mp hprs
  -- the expression is cut in front of the fragment and behind it
  have hbefore : Text.HasCaptures ('^' :: qs.flatMap (Part.expressed segment))
      (qs.countP (!·.isFixed)) := by
    have hfirst : Text.HasCaptures ['^'] 0 := ⟨[], rfl, rfl⟩
    have := hfirst.append (Part.hasCaptures_flatMap_expressed hqs)
    rwa [Nat.zero_add] at this
  have hfragment : Text.HasCaptures (p.expressed segment) 1 := by
    have := Part.hasCaptures_expressed hp
    rwa [hfixed] at this
  have hlast : Text.HasCaptures ['$'] 0 := ⟨[], rfl, rfl⟩
  have hafter := (Part.hasCaptures_flatMap_expressed hrs).append hlast
  obtain ⟨cs, g, hcs, hg, hwithin⟩ := hbefore.exists_between hfragment hafter
  have hcut : '^' :: qs.flatMap (Part.expressed segment)
      ++ (p.expressed segment ++ (rs.flatMap (Part.expressed segment) ++ ['$']))
        = (expressed segment (qs ++ p :: rs)).source := by
    simp [expressed]
  have hstart : startOf ((qs ++ p :: rs).map fun p => (p.expressed segment, p.captured?)) qs.length
      = ('^' :: qs.flatMap (Part.expressed segment)).length := by
    rw [startOf, ← List.map_take, List.take_left, List.flatMap_map, List.length_cons, Nat.add_comm]
  rw [hcut] at hcs
  refine ⟨cs, g, hcs, hg, (p.expressed segment, p.captured?), ?_, ?_⟩
  · simp
  · rw [hstart]
    exact hwithin

/-- The name of a capture comes behind those of the captures before it. -/
theorem exists_name (h : ∀ r ∈ qs ++ p :: rs, r.IsExpressible) (hfixed : p.isFixed = false) :
    ∃ name, p.name = some name
      ∧ (expressed segment (qs ++ p :: rs)).names[qs.countP (!·.isFixed)]? = some name := by
  obtain ⟨hqs, -⟩ := List.forall_mem_append.mp h
  obtain ⟨name, hname⟩ : ∃ name, p.captured? = some name := by
    rw [← Option.isSome_iff_exists, (h p (by simp)).isSome_captured?, hfixed]
    rfl
  refine ⟨name, ?_, ?_⟩
  · rw [Part.captured?, hfixed] at hname
    exact hname
  · rw [← Part.length_filterMap_captured? hqs]
    simp [expressed, hname]

/-- **The groups of an expression.** If the bodies among the parts are self-contained, all groups
are closed, and there is one capturing group for each capture. In order of the left parentheses,
each of them opens and closes inside the fragment of its capture, and has its name. -/
theorem captures_of_selfContained {o : Options} {ps : List Part} {e : Expression}
    (h : (ofParts o ps).outcome = .ok e)
    (hself : ∀ p ∈ ps, p.kind = .expression → p.value.IsSelfContained) :
    ∃ segment fs cs, o.segmentSource = .ok segment ∧ Part.fragments segment 0 ps = .ok fs
      ∧ e = ofFragments fs ∧ e.source.captures? = some cs
      ∧ cs.Pairwise (fun g g' => g.left < g'.left)
      ∧ cs.length = ps.countP (!·.isFixed) ∧ Text.capturing false e.source = cs.length
      ∧ ∀ qs p rs, ps = qs ++ p :: rs → p.isFixed = false →
        (∃ g, cs[qs.countP (!·.isFixed)]? = some g ∧ g.InFragment fs qs.length)
          ∧ ∃ name, p.name = some name ∧ e.names[qs.countP (!·.isFixed)]? = some name := by
  obtain ⟨segment, fs, hs, hfs, rfl⟩ := exists_of_build (build_of_ofParts h)
  obtain ⟨hexp, rfl⟩ := Part.fragments_eq_ok_iff.mp hfs
  have hbody : ∀ p ∈ ps, p.isFixed = false → (p.source segment).IsSelfContained :=
    fun p hp hfixed => Part.isSelfContained_source hs hfixed (hself p hp)
  obtain ⟨cs, hcs, hlength⟩ := hasCaptures_source hbody
  rw [ofFragments_map]
  refine ⟨segment, _, cs, hs, hfs, (ofFragments_map segment ps).symm, hcs,
    (Text.within_of_captures? hcs).2, hlength, Text.capturing_eq_of_captures? hcs, ?_⟩
  rintro qs p rs rfl hfixed
  refine ⟨?_, exists_name hexp hfixed⟩
  obtain ⟨cs', g, hcs', hg, hwithin⟩ := exists_inFragment hbody hfixed
  obtain rfl : cs = cs' := Option.some.inj (hcs.symm.trans hcs')
  exact ⟨g, hg, hwithin⟩

/-- Parentheses and brackets on all sides: in the texts around a capture that repeats, in a class in
its body, and as the delimiter of a segment. -/
theorem captures_of_selfContained_brackets :
    (ofParts { delimiter := some ']', checked := true }
        [Part.fixed "([".toList .optional,
          Part.capture .expression "(?:a|[)])".toList .oneOrMore (.custom ['n']) ['('] [']'],
          Part.capture .segment [] .once (.ordinal 0) [] []]).outcome
      = .ok ⟨"^(?:\\(\\[)?(?:\\(((?:(?:a|[)]))(?:\\]\\((?:(?:a|[)])))*)\\])([^\\]]+?)$".toList,
        [.custom ['n'], .ordinal 0]⟩
      ∧ Text.IsSelfContained "(?:a|[)])".toList
      ∧ ∃ cs, Text.captures?
          "^(?:\\(\\[)?(?:\\(((?:(?:a|[)]))(?:\\]\\((?:(?:a|[)])))*)\\])([^\\]]+?)$".toList
          = some cs
        ∧ cs.length = 2 := by
  have h : (ofParts { delimiter := some ']', checked := true }
        [Part.fixed "([".toList .optional,
          Part.capture .expression "(?:a|[)])".toList .oneOrMore (.custom ['n']) ['('] [']'],
          Part.capture .segment [] .once (.ordinal 0) [] []]).outcome
      = .ok ⟨"^(?:\\(\\[)?(?:\\(((?:(?:a|[)]))(?:\\]\\((?:(?:a|[)])))*)\\])([^\\]]+?)$".toList,
        [.custom ['n'], .ordinal 0]⟩ := by
    decide +kernel
  obtain ⟨-, -, cs, -, -, -, hcs, -, hlength, -⟩ := captures_of_selfContained h (by decide +kernel)
  exact ⟨h, by decide +kernel, cs, hcs, hlength⟩

end Expression

end ComponentPattern
