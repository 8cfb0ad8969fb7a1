/-
# The language of parts

What a list of parts is meant to match (`Part.language`): fixed text matches itself, a segment a
non-empty run without the delimiter, a wildcard any run on one line, each as often as its modifier
allows and with the texts that come with every occurrence.

The main statement is `Expression.isMatch_iff`: the expression of parts matches just that. Its core
is `Fragment.spells_ofCapture`, which says that dividing texts that are matched once between
occurrences still stand around each of them.
-/
import ComponentPattern.Proofs.Regexp

open scoped Computability

namespace ComponentPattern

/-! ## How often -/

namespace Modifier

/-- Whether a part with this modifier may occur `n` times in a row. -/
def Allows : Modifier → Nat → Prop
  | once, n => n = 1
  | optional, n => n ≤ 1
  | zeroOrMore, _ => True
  | oneOrMore, n => 1 ≤ n

/-- As many texts of `L` in a row as the modifier allows. -/
def times (m : Modifier) (L : Language Char) : Language Char := {u | ∃ n, m.Allows n ∧ u ∈ L ^ n}

theorem mem_times {m : Modifier} {L : Language Char} {u : Text} :
    u ∈ m.times L ↔ ∃ n, m.Allows n ∧ u ∈ L ^ n := Iff.rfl

@[simp] theorem times_once (L : Language Char) : once.times L = L := by
  ext u
  simp [mem_times, Allows]

/-- Optionally: nothing or once. -/
theorem times_optional (L : Language Char) : optional.times L = 1 + L := by
  ext u
  simp only [mem_times, Allows, Nat.le_one_iff_eq_zero_or_eq_one, or_and_right, exists_or,
    exists_eq_left, pow_zero, pow_one]
  rfl

/-- Any number of times is the star. -/
theorem times_zeroOrMore (L : Language Char) : zeroOrMore.times L = L∗ := by
  ext u
  simp only [mem_times, Allows, true_and, Language.kstar_eq_iSup_pow, Language.mem_iSup]

/-- At least once is once and then any number of times. -/
theorem times_oneOrMore (L : Language Char) : oneOrMore.times L = L * L∗ := by
  ext u
  simp only [mem_times, Allows, Language.kstar_eq_iSup_pow, Language.mul_iSup, Language.mem_iSup,
    ← pow_succ']
  constructor
  · rintro ⟨n, hn, hu⟩
    exact ⟨n - 1, by rwa [Nat.sub_add_cancel hn]⟩
  · rintro ⟨n, hu⟩
    exact ⟨n + 1, Nat.le_add_left 1 n, hu⟩

end Modifier

/-! ## What a part matches -/

namespace Part

/-- What a capture may capture. What expressions of the pattern match is not described. -/
def capturable (o : Options) : Kind → Language Char
  | .segment => {u | u ≠ [] ∧ ∀ c ∈ u, c ∉ o.delimiter}
  | .wildcard => {u | ∀ c ∈ u, c ∉ Regexp.lineTerminators}
  | _ => 0

/-- What one occurrence of a part matches. -/
def occurrence (o : Options) (p : Part) : Language Char :=
  if p.isFixed then {p.value} else {p.before} * capturable o p.kind * {p.after}

/-- What a part matches. -/
def language (o : Options) (p : Part) : Language Char := p.modifier.times (p.occurrence o)

end Part

/-! ## What a fragment matches -/

namespace Regexp

/-- The star of texts of one code point is all texts of such code points. -/
theorem mem_kstar_oneChar {P : Char → Prop} {u : Text} : u ∈ (oneChar P)∗ ↔ ∀ c ∈ u, P c := by
  rw [Language.mem_kstar]
  constructor
  · rintro ⟨us, rfl, hus⟩ c hc
    obtain ⟨v, hv, hcv⟩ := List.mem_flatten.mp hc
    obtain ⟨d, rfl, hd⟩ := hus v hv
    rwa [List.mem_singleton.mp hcv]
  · intro hu
    refine ⟨u.map fun c => [c], by rw [← List.flatMap_def, List.flatMap_singleton'], fun v hv => ?_⟩
    obtain ⟨c, hc, rfl⟩ := List.mem_map.mp hv
    exact ⟨c, rfl, hu c hc⟩

/-- The same without the empty text. -/
theorem mem_oneChar_mul_kstar {P : Char → Prop} {u : Text} :
    u ∈ oneChar P * (oneChar P)∗ ↔ u ≠ [] ∧ ∀ c ∈ u, P c := by
  rw [Language.mem_mul]
  constructor
  · rintro ⟨-, ⟨c, rfl, hc⟩, v, hv, rfl⟩
    exact ⟨nofun, List.forall_mem_cons.mpr ⟨hc, mem_kstar_oneChar.mp hv⟩⟩
  · rintro ⟨hne, hu⟩
    obtain ⟨c, v, rfl⟩ := List.exists_cons_of_ne_nil hne
    obtain ⟨hc, hv⟩ := List.forall_mem_cons.mp hu
    exact ⟨[c], ⟨c, rfl, hc⟩, v, mem_kstar_oneChar.mpr hv, rfl⟩

/-- A piece and its modifier spell as many texts in a row as the modifier allows. -/
theorem SpellsPiece.modified {t : Text} {L : Language Char} (h : SpellsPiece t L) (m : Modifier) :
    Spells (t ++ m.text) (m.times L) := by
  cases m with
  | once => simpa [Modifier.text] using h.spells
  | optional => rw [Modifier.times_optional]; exact h.optional
  | zeroOrMore => rw [Modifier.times_zeroOrMore]; exact h.star
  | oneOrMore => rw [Modifier.times_oneOrMore]; exact h.plus

end Regexp

/-- What stands behind each repetition may stand in front of each instead, once it is moved
across. -/
theorem kstar_mul_slide (K L : Language Char) : (K * L)∗ * K = K * (L * K)∗ := by
  -- each side contains `K` and is closed under what the star of the other side adds
  apply le_antisymm
  · refine kstar_mul_le ?_ ?_
    · calc K = K * 1 := (mul_one K).symm
        _ ≤ K * (L * K)∗ := mul_le_mul' le_rfl one_le_kstar
    · calc K * L * (K * (L * K)∗) = K * (L * K * (L * K)∗) := by simp only [mul_assoc]
        _ ≤ K * (L * K)∗ := mul_le_mul' le_rfl mul_kstar_le_kstar
  · refine mul_kstar_le ?_ ?_
    · calc K = 1 * K := (one_mul K).symm
        _ ≤ (K * L)∗ * K := mul_le_mul' one_le_kstar le_rfl
    · calc (K * L)∗ * K * (L * K) = (K * L)∗ * (K * L) * K := by simp only [mul_assoc]
        _ ≤ (K * L)∗ * K := mul_le_mul' kstar_mul_le_kstar le_rfl

namespace Fragment

open Regexp

variable {before inner after : Text} {B I A : Language Char}

/-- Dividing texts that are matched once between occurrences stand around each of them. -/
theorem spellsPiece_repetition (hB : Spells before B) (hI : Spells inner I) (hA : Spells after A) :
    SpellsPiece (repetition before inner after) (B * I * A * (B * I * A)∗) := by
  have hinner : Spells (group inner) I := hI.group.spells
  have hmore : Spells (group (after ++ before ++ group inner) ++ ['*']) (A * B * I)∗ :=
    ((hA.append hB).append hinner).group.star
  have hall : Spells (capture (group inner ++ group (after ++ before ++ group inner) ++ ['*']))
      (I * (A * B * I)∗) := by
    rw [List.append_assoc]
    exact ((hinner.append hmore).capture (by simp [group])).spells
  have heq : B * I * A * (B * I * A)∗ = B * (I * (A * B * I)∗) * A := by
    calc B * I * A * (B * I * A)∗ = B * I * (A * (B * I * A)∗) := mul_assoc ..
      _ = B * I * ((A * (B * I))∗ * A) := by rw [kstar_mul_slide]
      _ = B * (I * (A * B * I)∗) * A := by simp only [mul_assoc]
  rw [heq]
  exact ((hB.append hall).append hA).group

/-- Between escaped texts, the fragment of a capture matches what it captures with these texts
around it, as often as the modifier allows. -/
theorem spells_ofCapture (hI : Spells inner I) (hq : inner.head? ≠ some '?') (m : Modifier)
    (b a : Text) : Spells (ofCapture m b.escaped inner a.escaped) (m.times ({b} * I * {a})) := by
  have hB := spells_escaped b
  have hA := spells_escaped a
  have hcapture : SpellsPiece (capture inner) I := hI.capture hq
  by_cases hrepeats : m.repeats = true
  · have hrepetition := spellsPiece_repetition hB hI hA
    rw [ofCapture, if_pos hrepeats]
    cases m with
    | zeroOrMore =>
      rw [Modifier.times_zeroOrMore, ← Language.one_add_self_mul_kstar_eq_kstar]
      exact hrepetition.optional
    | oneOrMore =>
      rw [Modifier.times_oneOrMore, if_neg (by decide), List.append_nil]
      exact hrepetition.spells
    | once => cases hrepeats
    | optional => cases hrepeats
  · rw [ofCapture, if_neg hrepeats]
    split
    · -- without texts around it, the capture is its own group
      next hempty =>
      have hone : ({b} * I * {a} : Language Char) = I := by
        rw [Text.escaped_eq_nil_iff.mp hempty.1, Text.escaped_eq_nil_iff.mp hempty.2]
        show 1 * I * 1 = I
        rw [one_mul, mul_one]
      rw [hone]
      exact hcapture.modified m
    · exact ((hB.append hcapture.spells).append hA).group.modified m

end Fragment

namespace Part

open Regexp

/-- The expression of segments matches what a segment can capture. -/
theorem spells_segmentSource {o : Options} {segment : Text} (hs : o.segmentSource = .ok segment) :
    Spells segment (capturable o .segment) := by
  obtain ⟨-, rfl⟩ := Options.segmentSource_eq_ok_iff.mp hs
  have heq : capturable o .segment = oneChar (· ∉ o.delimiter) * (oneChar (· ∉ o.delimiter))∗ := by
    ext u
    exact mem_oneChar_mul_kstar.symm
  rw [heq]
  have h := (spellsPiece_except o.delimiter).lazyPlus
  rwa [List.append_assoc] at h

/-- The expression of wildcards matches what a wildcard can capture. -/
theorem spells_wildcardSource (o : Options) : Spells wildcardSource (capturable o .wildcard) := by
  have heq : capturable o .wildcard = (oneChar (· ∉ lineTerminators))∗ := by
    ext u
    exact mem_kstar_oneChar.symm
  rw [heq]
  exact spellsPiece_any.star

/-- The fragment of a part matches what the part does. -/
theorem spells_expressed {o : Options} {segment : Text} (hs : o.segmentSource = .ok segment)
    {p : Part} (hp : p.kind ≠ .expression) : Spells (p.expressed segment) (p.language o) := by
  rw [expressed, language, occurrence]
  split
  · split
    · next honce =>
      rw [honce, Modifier.times_once]
      exact spells_escaped p.value
    · exact (spells_escaped p.value).group.modified p.modifier
  · next hfixed =>
    have hinner : Spells (p.source segment) (capturable o p.kind) := by
      rw [source]
      cases hk : p.kind with
      | fixed => exact absurd (by rw [isFixed, hk]; rfl) hfixed
      | segment => exact spells_segmentSource hs
      | wildcard => exact spells_wildcardSource o
      | expression => exact absurd hk hp
    have hq := head?_source_ne hs hfixed hp
    exact Fragment.spells_ofCapture hinner hq p.modifier p.before p.after

/-- The fragments of parts match one text of each in order. -/
theorem spells_flatMap_expressed {o : Options} {segment : Text} (hs : o.segmentSource = .ok segment)
    {ps : List Part} (hps : ∀ p ∈ ps, p.kind ≠ .expression) :
    Spells (ps.flatMap (expressed segment)) (ps.map (language o)).prod := by
  induction ps with
  | nil => exact spells_nil
  | cons p ps ih =>
    obtain ⟨hp, hps⟩ := List.forall_mem_cons.mp hps
    rw [List.flatMap_cons, List.map_cons, List.prod_cons]
    exact (spells_expressed hs hp).append (ih hps)

/-- A text of a product of languages is one text of each in order. -/
theorem mem_prod_map_iff {f : Part → Language Char} {ps : List Part} {w : Text} :
    w ∈ (ps.map f).prod ↔ ∃ ws : List Text, w = ws.flatten ∧ List.Forall₂ (· ∈ f ·) ws ps := by
  induction ps generalizing w with
  | nil => simp [Language.mem_one]
  | cons p ps ih =>
    rw [List.map_cons, List.prod_cons, Language.mem_mul]
    constructor
    · rintro ⟨u, hu, v, hv, rfl⟩
      obtain ⟨ws, rfl, hws⟩ := ih.mp hv
      exact ⟨u :: ws, rfl, .cons hu hws⟩
    · rintro ⟨ws, rfl, hws⟩
      cases hws with
      | cons hu hws => exact ⟨_, hu, _, ih.mpr ⟨_, rfl, hws⟩, rfl⟩

end Part

/-- **The expression means what the parts mean.** The expression of parts without expressions of
their own can be read, and matches a text exactly if it consists, in order, of one text for each
part. -/
theorem Expression.isMatch_iff {o : Options} {ps : List Part} {e : Expression}
    (hps : ∀ p ∈ ps, p.kind ≠ .expression) (h : (Expression.ofParts o ps).outcome = .ok e) :
    ∃ r, Regexp.read? e.source = some r ∧ ∀ w, r.IsMatch w ↔
      ∃ ws : List Text, w = ws.flatten ∧ List.Forall₂ (fun u p => u ∈ Part.language o p) ws ps := by
  obtain ⟨-, segment, hs, rfl⟩ := build_eq_ok_iff.mp (build_of_ofParts h)
  obtain ⟨r, hr, hmatch⟩ := (Part.spells_flatMap_expressed hs hps).isMatch_anchored
  refine ⟨r, hr, fun w => ?_⟩
  rw [hmatch, Part.mem_prod_map_iff]

/-- For paths: the expression of `/a` and one or more segments matches `/a/b/c`. -/
theorem Expression.isMatch_iff_pathname :
    (Expression.ofParts Options.pathname
        [Part.fixed ['/', 'a'] .once,
          Part.capture .segment [] .oneOrMore (.custom ['x']) ['/'] []]).outcome
      = .ok ⟨"^\\/a(?:\\/((?:[^\\/]+?)(?:\\/(?:[^\\/]+?))*))$".toList, [.custom ['x']]⟩
    ∧ ∃ r, Regexp.read? "^\\/a(?:\\/((?:[^\\/]+?)(?:\\/(?:[^\\/]+?))*))$".toList = some r
      ∧ r.IsMatch ['/', 'a', '/', 'b', '/', 'c'] := by
  have h : (Expression.ofParts Options.pathname
      [Part.fixed ['/', 'a'] .once,
        Part.capture .segment [] .oneOrMore (.custom ['x']) ['/'] []]).outcome
      = .ok ⟨"^\\/a(?:\\/((?:[^\\/]+?)(?:\\/(?:[^\\/]+?))*))$".toList, [.custom ['x']]⟩ := by
    decide +kernel
  obtain ⟨r, hr, hmatch⟩ := isMatch_iff (by decide) h
  have hsegment : ∀ c, c ≠ '/' → [c] ∈ Part.capturable Options.pathname .segment := by
    intro c hc
    exact ⟨nofun, by simpa [Options.pathname] using hc.symm⟩
  have htwice : ['/', 'b', '/', 'c'] ∈ Part.language Options.pathname
      (Part.capture .segment [] .oneOrMore (.custom ['x']) ['/'] []) := by
    refine ⟨2, Nat.le_succ 1, Language.mem_pow.mpr ⟨[['/', 'b'], ['/', 'c']], rfl, rfl, ?_⟩⟩
    have hone : ∀ c, c ≠ '/' → ['/', c] ∈ Part.occurrence Options.pathname
        (Part.capture .segment [] .oneOrMore (.custom ['x']) ['/'] []) := fun c hc =>
      ⟨['/', c], ⟨['/'], rfl, [c], hsegment c hc, rfl⟩, [], rfl, rfl⟩
    exact List.forall_mem_cons.mpr ⟨hone 'b' (by decide),
      List.forall_mem_cons.mpr ⟨hone 'c' (by decide), nofun⟩⟩
  have honce : ['/', 'a'] ∈ Part.language Options.pathname (Part.fixed ['/', 'a'] .once) :=
    ⟨1, rfl, (pow_one ({['/', 'a']} : Language Char)).symm ▸ rfl⟩
  exact ⟨h, r, hr, (hmatch _).mpr
    ⟨[['/', 'a'], ['/', 'b', '/', 'c']], rfl, .cons honce (.cons htwice .nil)⟩⟩

end ComponentPattern
