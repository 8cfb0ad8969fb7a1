/-
# The journal of a run

Every operation that can be observed while it works returns a `Run`: its outcome and the journal
it kept, which is complete also when the outcome is an error. The journal records the operations
entered and left, the events worth reporting, and each text that was handed to the caller's
encoder.
-/
import ComponentPattern.Part.Basic
import ComponentPattern.Token.Reading

namespace ComponentPattern

/-! ## Entries -/

/-- An operation under way. -/
inductive Span where
  | component (pattern : Text)
  | parts (pattern : Text)
  | tokens (length : Nat) (policy : Token.Policy)
  | expression (parts : Nat)
  | canonical (parts : Nat)
deriving DecidableEq, Repr

/-- Something worth reporting. -/
inductive Event where
  | recovered (fault : Fault)
  | duplicateName (name : Name) (index : Nat)
  | unchecked (expression : Text)
  | compiled (parts names : Nat) (expression : Text)
deriving DecidableEq, Repr

/-- One line of a journal. -/
inductive Entry where
  | entered (span : Span)
  | left (span : Span)
  | noted (event : Event)
  | encoded (text : Text)
deriving DecidableEq, Repr

namespace Entry

/-- The text handed to the encoder, if the entry is such a call. -/
def encoded? : Entry → Option Text
  | encoded t => some t
  | _ => none

/-- The event, if the entry is one. -/
def event? : Entry → Option Event
  | noted e => some e
  | _ => none

end Entry

/-! ## How entries are written -/

/-- The value of a field of an entry. -/
inductive Field where
  | count (n : Nat)
  | text (t : Text)
deriving DecidableEq, Repr

/-- A field that holds a fixed word. -/
def Field.word (s : String) : Field := .text s.toList

/-- The name under which an operation is recorded. -/
def Span.label : Span → String
  | .component _ => "compile_component"
  | .parts _ => "parse_pattern"
  | .tokens _ _ => "tokenize"
  | .expression _ => "generate_regex"
  | .canonical _ => "generate_pattern_string"

/-- The fields recorded when an operation is entered. -/
def Span.fields : Span → List (String × Field)
  | .component pattern => [("input", .text pattern), ("pattern", .text pattern)]
  | .parts pattern => [("input", .text pattern), ("pattern", .text pattern)]
  | .tokens length policy => [("input_len", .count length), ("policy", .word policy.title)]
  | .expression n => [("parts", .count n)]
  | .canonical n => [("parts", .count n)]

/-- The level at which an event is reported. -/
def Event.level : Event → String
  | .compiled _ _ _ => "TRACE"
  | _ => "DEBUG"

/-- The fields of an event. -/
def Event.fields : Event → List (String × Field)
  | .recovered fault =>
    [("message", .word "recovered with invalid-char token"), ("operation", .word "tokenize"),
     ("index", .count fault.index), ("error", .word fault.message)]
  | .duplicateName name index =>
    [("message", .word "duplicate part name"), ("operation", .word "parse_pattern"),
     ("name", .text name.text), ("index", .count index)]
  | .unchecked expression =>
    [("message", .word "look-around left unvalidated"), ("operation", .word "generate_regex"),
     ("regex", .text expression)]
  | .compiled parts names expression =>
    [("operation", .word "compile_component"), ("parts", .count parts), ("names", .count names),
     ("regex", .text expression)]

/-! ## Runs -/

/-- The outcome of an operation and the journal it kept. -/
structure Run (ε α : Type) where
  journal : List Entry
  outcome : Except ε α

namespace Run

variable {ε ε' α β : Type}

/-- A run that keeps no journal. -/
def ofExcept (x : Except ε α) : Run ε α := ⟨[], x⟩

/-- Goes on with the value of a run, if it has one. -/
def andThen (r : Run ε α) (f : α → Run ε β) : Run ε β :=
  match r.outcome with
  | .ok a => ⟨r.journal ++ (f a).journal, (f a).outcome⟩
  | .error e => ⟨r.journal, .error e⟩

instance : Monad (Run ε) where
  pure a := ⟨[], .ok a⟩
  bind := andThen

/-- A run that fails. -/
def fail (e : ε) : Run ε α := ⟨[], .error e⟩

/-- A run that reports an event. -/
def note (e : Event) : Run ε Unit := ⟨[.noted e], .ok ()⟩

/-- Hands a text to the encoder. -/
def encode (f : Text → Text) (t : Text) : Run ε Text := ⟨[.encoded t], .ok (f t)⟩

/-- Puts a run inside an operation, which is left also on failure. -/
def within (span : Span) (r : Run ε α) : Run ε α :=
  ⟨.entered span :: (r.journal ++ [.left span]), r.outcome⟩

/-- Changes the kind of error. -/
def mapError (f : ε → ε') (r : Run ε α) : Run ε' α := ⟨r.journal, r.outcome.mapError f⟩

/-- The texts handed to the encoder, in order. -/
def encoded (r : Run ε α) : List Text := r.journal.filterMap Entry.encoded?

/-- The events reported, in order. -/
def events (r : Run ε α) : List Event := r.journal.filterMap Entry.event?

/-! ## Laws of runs -/

@[ext] theorem ext {r s : Run ε α} (hj : r.journal = s.journal) (ho : r.outcome = s.outcome) :
    r = s := by
  cases r; cases s; simp_all

@[simp] theorem outcome_pure (a : α) : (pure a : Run ε α).outcome = .ok a := rfl

@[simp] theorem journal_pure (a : α) : (pure a : Run ε α).journal = [] := rfl

/-- The outcome of two runs in a row is that of their outcomes. -/
@[simp] theorem outcome_bind (r : Run ε α) (f : α → Run ε β) :
    (r >>= f).outcome = r.outcome >>= fun a => (f a).outcome := by
  show (andThen r f).outcome = _
  unfold andThen
  cases r.outcome <;> rfl

/-- A run that succeeds is followed by the journal of the next. -/
theorem journal_bind_of_ok {r : Run ε α} {a : α} (h : r.outcome = .ok a) (f : α → Run ε β) :
    (r >>= f).journal = r.journal ++ (f a).journal := by
  show (andThen r f).journal = _
  simp [andThen, h]

/-- Nothing follows a run that fails. -/
theorem journal_bind_of_error {r : Run ε α} {e : ε} (h : r.outcome = .error e) (f : α → Run ε β) :
    (r >>= f).journal = r.journal := by
  show (andThen r f).journal = _
  simp [andThen, h]

/-- Entering and leaving an operation is no event. -/
@[simp] theorem events_within (span : Span) (r : Run ε α) : (r.within span).events = r.events := by
  show (Entry.entered span :: (r.journal ++ [.left span])).filterMap Entry.event? = _
  rw [List.filterMap_cons_none rfl, List.filterMap_append]
  exact List.append_nil _

/-- Entering and leaving an operation encodes nothing. -/
@[simp] theorem encoded_within (span : Span) (r : Run ε α) :
    (r.within span).encoded = r.encoded := by
  show (Entry.entered span :: (r.journal ++ [.left span])).filterMap Entry.encoded? = _
  rw [List.filterMap_cons_none rfl, List.filterMap_append]
  exact List.append_nil _

end Run

end ComponentPattern
