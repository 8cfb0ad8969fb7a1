/-
# Items

The units a token list falls into: plain text, a capture with what stands right before it, and a
pair of braces. Items are read as far as the tokens make sense, and `Item.Ending` says how the
list ends.

`Capture.take?_length`, `takeModifier_length` and `takeText_length` say that reading never goes
back, which is what ends it.
-/
import ComponentPattern.Part.Basic
import ComponentPattern.Token.Reading

namespace ComponentPattern

/-! ## Pieces of items -/

/-- A capture as it is spelt, with the index of its first token: a name with or without a group, a
group, or an asterisk. -/
inductive Capture where
  | named (index : Nat) (name : Text) (body : Option Text)
  | group (index : Nat) (body : Text)
  | wildcard (index : Nat)
deriving DecidableEq, Repr

namespace Capture

/-- The index of the first token of a capture. -/
def index : Capture → Nat
  | named i _ _ => i
  | group i _ => i
  | wildcard i => i

/-- Takes a capture off the front of a token list. An asterisk behind a name is left alone: it is
the modifier of the name. -/
def take? : List Token → Option (Capture × List Token)
  | ⟨.name, i, name⟩ :: ⟨.group, _, body⟩ :: ts => some (named i name (some body), ts)
  | ⟨.name, i, name⟩ :: ts => some (named i name none, ts)
  | ⟨.group, i, body⟩ :: ts => some (group i body, ts)
  | ⟨.asterisk, i, _⟩ :: ts => some (wildcard i, ts)
  | _ => none

/-- Taking a capture uses up tokens. -/
theorem take?_length {ts rest : List Token} {c : Capture} (h : take? ts = some (c, rest)) :
    rest.length < ts.length := by
  unfold take? at h
  split at h
  all_goals cases h
  all_goals simp +arith

end Capture

namespace Item

/-- Takes a modifier off the front of a token list, if there is one. -/
def takeModifier : List Token → Modifier × List Token
  | [] => (.once, [])
  | t :: ts => if t.isModifier then (.ofText t.value, ts) else (.once, t :: ts)

theorem takeModifier_length (ts : List Token) : (takeModifier ts).2.length ≤ ts.length := by
  cases ts with
  | nil => simp [takeModifier]
  | cons t ts => simp only [takeModifier]; split <;> simp

/-- Takes the longest run of plain and escaped code points off the front of a token list. -/
def takeText : List Token → Text × List Token
  | [] => ([], [])
  | t :: ts =>
    if t.kind = .char ∨ t.kind = .escaped then
      (t.value ++ (takeText ts).1, (takeText ts).2)
    else ([], t :: ts)

theorem takeText_length (ts : List Token) : (takeText ts).2.length ≤ ts.length := by
  induction ts with
  | nil => simp [takeText]
  | cons t ts ih =>
    simp only [takeText]
    split
    · exact Nat.le_succ_of_le ih
    · exact Nat.le_refl _

/-- Takes a capture off the front of a token list, if there is one. -/
def takeCapture (ts : List Token) : Option Capture × List Token :=
  match Capture.take? ts with
  | some (c, rest) => (some c, rest)
  | none => (none, ts)

theorem takeCapture_length (ts : List Token) : (takeCapture ts).2.length ≤ ts.length := by
  unfold takeCapture
  split
  · rename_i h
    exact Nat.le_of_lt (Capture.take?_length h)
  · exact Nat.le_refl _

end Item

/-! ## Items -/

/-- A unit of a pattern. -/
inductive Item where
  /-- Plain text. -/
  | text (value : Text)
  /-- A capture, with the plain code point right before it, if any. -/
  | capture (lead : Text) (capture : Capture) (modifier : Modifier)
  /-- A pair of braces, with the text before and after the capture in it, if any. -/
  | braces (before : Text) (capture : Option Capture) (after : Text) (modifier : Modifier)
deriving DecidableEq, Repr

namespace Item

/-- How a token list ends: as it should, in an open brace, or at a token that starts no item. -/
inductive Ending where
  | complete
  | openBrace (index : Nat)
  | unexpected (found : Token.Kind) (index : Nat)
deriving DecidableEq, Repr

/-- Takes a pair of braces off the front of a token list that starts behind the left one. -/
def takeBraces? (ts : List Token) : Option (Item × List Token) :=
  let before := takeText ts
  let inner := takeCapture before.2
  let after := takeText inner.2
  match after.2 with
  | ⟨.rbrace, _, _⟩ :: rest =>
    some (.braces before.1 inner.1 after.1 (takeModifier rest).1, (takeModifier rest).2)
  | _ => none

/-- Taking what stands in braces uses up tokens. -/
theorem takeBraces?_length {ts rest : List Token} {i : Item}
    (h : takeBraces? ts = some (i, rest)) : rest.length < ts.length := by
  have h₁ := takeText_length ts
  have h₂ := takeCapture_length (takeText ts).2
  have h₃ := takeText_length (takeCapture (takeText ts).2).2
  unfold takeBraces? at h
  simp only at h
  split at h
  · rename_i us he
    have h₄ := takeModifier_length us
    rw [he, List.length_cons] at h₃
    obtain ⟨rfl, rfl⟩ := Prod.mk.inj (Option.some.inj h)
    omega
  · cases h

/-- Takes a capture and its modifier off the front of a token list. -/
def takeModified? (lead : Text) (ts : List Token) : Option (Item × List Token) :=
  match Capture.take? ts with
  | some (c, rest) => some (.capture lead c (takeModifier rest).1, (takeModifier rest).2)
  | none => none

/-- Taking a capture with its modifier uses up tokens. -/
theorem takeModified?_length {lead : Text} {ts rest : List Token} {i : Item}
    (h : takeModified? lead ts = some (i, rest)) : rest.length < ts.length := by
  unfold takeModified? at h
  split at h
  · rename_i us hc
    have h₁ := Capture.take?_length hc
    have h₂ := takeModifier_length us
    obtain ⟨rfl, rfl⟩ := Prod.mk.inj (Option.some.inj h)
    omega
  · cases h

/-- What is found at the front of a token list. -/
inductive Step where
  | item (i : Item) (rest : List Token)
  | ending (e : Ending)

/-- Reads the front of a token list. -/
def step : List Token → Step
  | [] => .ending .complete
  | t :: ts =>
    match takeModified? [] (t :: ts) with
    | some (i, rest) => .item i rest
    | none =>
      match t.kind with
      | .char =>
        match takeModified? t.value ts with
        | some (i, rest) => .item i rest
        | none => .item (.text t.value) ts
      | .escaped => .item (.text t.value) ts
      | .lbrace =>
        match takeBraces? ts with
        | some (i, rest) => .item i rest
        | none => .ending (.openBrace t.index)
      | .final => .ending .complete
      | found => .ending (.unexpected found t.index)

/-- Every item uses up tokens, so reading comes to an end. -/
theorem step_length {ts rest : List Token} {i : Item} (h : step ts = .item i rest) :
    rest.length < ts.length := by
  unfold step at h
  split at h
  · cases h
  · split at h
    · rename_i hm
      cases h
      exact takeModified?_length hm
    · split at h
      · split at h
        · rename_i hm
          cases h
          exact Nat.lt_succ_of_lt (takeModified?_length hm)
        · cases h
          simp
      · cases h
        simp
      · split at h
        · rename_i hb
          cases h
          exact Nat.lt_succ_of_lt (takeBraces?_length hb)
        · cases h
      · cases h
      · cases h

/-- The items of a token list, and how the list ends. -/
def all (ts : List Token) : List Item × Ending :=
  match _h : step ts with
  | .item i rest => (i :: (all rest).1, (all rest).2)
  | .ending e => ([], e)
termination_by ts.length
decreasing_by all_goals exact step_length _h

end Item

end ComponentPattern
