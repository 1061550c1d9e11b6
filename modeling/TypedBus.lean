import TypedBus.Text.Basic
import TypedBus.Text.Printable
import TypedBus.Text.Classes
import TypedBus.Text.Quoted
import TypedBus.Text.UpperCase
import TypedBus.Number.Binary
import TypedBus.Number.Double
import TypedBus.Number.Shortest
import TypedBus.Number.Layout
import TypedBus.Wire.Code
import TypedBus.Wire.WireType
import TypedBus.Wire.Grammar
import TypedBus.Wire.ObjectPath
import TypedBus.Wire.Container
import TypedBus.Value.Scalar
import TypedBus.Value.Basic
import TypedBus.Value.Equality
import TypedBus.Fault.Basic
import TypedBus.Value.Elements
import TypedBus.Value.Display
import TypedBus.Fault.Message
import TypedBus.Number.Numeral
import TypedBus.Value.Convert
import TypedBus.Value.Infer
import TypedBus.Value.Construct
import TypedBus.Value.Copy
import TypedBus.Wire.Reference
import TypedBus.Wire.TypeExpr
import TypedBus.Wire.Reduced
import TypedBus.Wire.Operations
import TypedBus.Stream.Envelope
import TypedBus.Stream.Basic
import TypedBus.Message.Failure
import TypedBus.Message.Basic
import TypedBus.Registry
import TypedBus.Message.Containers
import TypedBus.Message.Encode
import TypedBus.Message.Decode
import TypedBus.Message.Calls
import TypedBus.Variant
import TypedBus.Json.Basic
import TypedBus.Json.Writer
import TypedBus.Json.Reader
import TypedBus.Stream.Packed
import TypedBus.Loopback
import TypedBus.Message.Send
import TypedBus.Settings
import TypedBus.Session.Basic
import TypedBus.Session.Messages
import TypedBus.Session.Objects
import TypedBus.Proofs.Outcome
import TypedBus.Proofs.Wire.Complete
import TypedBus.Proofs.Wire.Container
import TypedBus.Proofs.Wire.Plain
import TypedBus.Proofs.Wire.Signature
import TypedBus.Proofs.Wire.Parse
import TypedBus.Proofs.Wire.ObjectPath
import TypedBus.Proofs.Value.Convert
import TypedBus.Proofs.Value.Dict
import TypedBus.Proofs.Value.Infer
import TypedBus.Proofs.Value.Copy
import TypedBus.Proofs.Value.Depth
import TypedBus.Proofs.Value.Canonical
import TypedBus.Proofs.Value.Alike
import TypedBus.Proofs.Value.Spelling
import TypedBus.Proofs.Value.Respelt
import TypedBus.Proofs.Value.Unmarked
import TypedBus.Proofs.Value.Marked
import TypedBus.Proofs.Json.Plain
import TypedBus.Proofs.Json.Values
import TypedBus.Proofs.Json.Documents
import TypedBus.Proofs.Registry
import TypedBus.Proofs.Stream.Grammar
import TypedBus.Proofs.Stream.Packed
import TypedBus.Proofs.Stream.Unpacked
import TypedBus.Proofs.Stream.Relayed
import TypedBus.Proofs.Message.Run
import TypedBus.Proofs.Message.Building
import TypedBus.Proofs.Message.Places
import TypedBus.Proofs.Message.Writing
import TypedBus.Proofs.Message.Nesting
import TypedBus.Proofs.Stream.Matching
import TypedBus.Proofs.Message.WriteCalls
import TypedBus.Proofs.Message.Contents
import TypedBus.Proofs.Message.Stops
import TypedBus.Proofs.Message.Reading
import TypedBus.Proofs.Message.Reads
import TypedBus.Proofs.Message.Decode
import TypedBus.Proofs.Message.ReadExact
import TypedBus.Proofs.Message.Settle
import TypedBus.Proofs.Message.Received
import TypedBus.Proofs.Message.Written
import TypedBus.Proofs.Message.RoundTrip
import TypedBus.Proofs.Message.Fitting
import TypedBus.Proofs.Message.DictSpelling
import TypedBus.Proofs.Message.Unfinished
import TypedBus.Proofs.Message.Course
import TypedBus.Proofs.Message.Mirrors
import TypedBus.Proofs.Message.Sticky
import TypedBus.Proofs.Message.Taking
import TypedBus.Proofs.Message.Uses
import TypedBus.Proofs.Message.Sealed
import TypedBus.Proofs.Message.Descriptors
import TypedBus.Proofs.Message.Copying
import TypedBus.Proofs.Message.Accepted
import TypedBus.Proofs.Message.Clock
import TypedBus.Proofs.Message.Termination
import TypedBus.Proofs.Registrations
import TypedBus.Proofs.Message.Registering
import TypedBus.Proofs.Message.Tables
import TypedBus.Proofs.Message.Rereading
import TypedBus.Proofs.Message.Announced
import TypedBus.Proofs.Message.Rebuilt
import TypedBus.Proofs.Message.Openings
import TypedBus.Proofs.Message.Visits
import TypedBus.Proofs.Message.Whereabouts
import TypedBus.Proofs.Variant
import TypedBus.Proofs.Message.Variants
import TypedBus.Proofs.Message.Recopied
import TypedBus.Proofs.Message.Inferred
import TypedBus.Proofs.Loopback
import TypedBus.Proofs.Session.Run
import TypedBus.Proofs.Session.Asking
import TypedBus.Proofs.Session.Added
import TypedBus.Proofs.Session.Copies
