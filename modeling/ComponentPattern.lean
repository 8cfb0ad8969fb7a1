import ComponentPattern.Text.Basic
import ComponentPattern.Text.Alphabetic
import ComponentPattern.Text.Numeric
import ComponentPattern.Text.Blank
import ComponentPattern.Text.Identifier
import ComponentPattern.Token.Basic
import ComponentPattern.Token.Group
import ComponentPattern.Token.Reading
import ComponentPattern.Part.Basic
import ComponentPattern.Journal
import ComponentPattern.Token.Scan
import ComponentPattern.Options.Basic
import ComponentPattern.Options.Document
import ComponentPattern.Part.Error
import ComponentPattern.Part.Item
import ComponentPattern.Part.Draft
import ComponentPattern.Part.Canonical
import ComponentPattern.Regular.Property
import ComponentPattern.Regular.State
import ComponentPattern.Regular.Reader
import ComponentPattern.Regular.Conversion
import ComponentPattern.Expression.Basic
import ComponentPattern.Error
import ComponentPattern.Component
import ComponentPattern.Proofs.Group
import ComponentPattern.Proofs.Token
import ComponentPattern.Proofs.Draft
import ComponentPattern.Proofs.Spelling
import ComponentPattern.Proofs.WellFormed
import ComponentPattern.Proofs.Image
import ComponentPattern.Proofs.RoundTrip
import ComponentPattern.Proofs.Fragment
import ComponentPattern.Proofs.Regexp
import ComponentPattern.Proofs.Capturing
import ComponentPattern.Proofs.Language
import ComponentPattern.Proofs.Policy
import ComponentPattern.Proofs.Encoder
import ComponentPattern.Proofs.Nesting
import ComponentPattern.Proofs.Conservation
import ComponentPattern.Proofs.Location
import ComponentPattern.Proofs.Failure
import ComponentPattern.Proofs.Conversion
import ComponentPattern.Proofs.Acceptance
import ComponentPattern.Proofs.Defect
import ComponentPattern.Proofs.Shorthand
