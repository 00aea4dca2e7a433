import Switchboard.Collection.SortedMap
import Switchboard.Dispatch.Call
import Switchboard.Dispatch.World
import Switchboard.Input.LazyValue
import Switchboard.Input.Polling
import Switchboard.Input.Reader
import Switchboard.Json.Decode
import Switchboard.Json.Encode
import Switchboard.Json.Node
import Switchboard.Json.Number
import Switchboard.Json.Reader
import Switchboard.Json.Text
import Switchboard.Json.Writer
import Switchboard.MsgPack.Decode
import Switchboard.MsgPack.Encode
import Switchboard.MsgPack.Node
import Switchboard.MsgPack.Reader
import Switchboard.MsgPack.Writer
import Switchboard.Number.Binary
import Switchboard.Number.Bounded
import Switchboard.Number.Digits
import Switchboard.Number.Shortest
import Switchboard.Operation.Basic
import Switchboard.Operation.Error
import Switchboard.Operation.Job
import Switchboard.Operation.Readymade
import Switchboard.Operation.RequestId
import Switchboard.Operation.Result
import Switchboard.Operation.Work
import Switchboard.Pattern.Basic
import Switchboard.Pattern.CharSet
import Switchboard.Pattern.Reader
import Switchboard.Payload.Basic
import Switchboard.Payload.ContentType
import Switchboard.Proofs.BuiltIn
import Switchboard.Proofs.Carrying
import Switchboard.Proofs.Compilation
import Switchboard.Proofs.Dispatching
import Switchboard.Proofs.Extension
import Switchboard.Proofs.Faithful
import Switchboard.Proofs.Implementable
import Switchboard.Proofs.Interface
import Switchboard.Proofs.Json.Escapes
import Switchboard.Proofs.Json.Grammar
import Switchboard.Proofs.Json.Integer
import Switchboard.Proofs.Json.Members
import Switchboard.Proofs.Json.Number
import Switchboard.Proofs.Json.Padding
import Switchboard.Proofs.Json.Printing
import Switchboard.Proofs.Json.RoundTrip
import Switchboard.Proofs.Json.Shortest
import Switchboard.Proofs.Json.Skipping
import Switchboard.Proofs.Json.Wire
import Switchboard.Proofs.KeyedEntries
import Switchboard.Proofs.Listing
import Switchboard.Proofs.MsgPack.Delimited
import Switchboard.Proofs.MsgPack.Formats
import Switchboard.Proofs.MsgPack.Integer
import Switchboard.Proofs.MsgPack.RoundTrip
import Switchboard.Proofs.MsgPack.Wire
import Switchboard.Proofs.Naming
import Switchboard.Proofs.Outcomes
import Switchboard.Proofs.Pattern.Exploration
import Switchboard.Proofs.Pattern.Matching
import Switchboard.Proofs.Pattern.Reading
import Switchboard.Proofs.Pipelines
import Switchboard.Proofs.Polling
import Switchboard.Proofs.Reading
import Switchboard.Proofs.Rearrangement
import Switchboard.Proofs.Registration
import Switchboard.Proofs.Resolution
import Switchboard.Proofs.Routing
import Switchboard.Proofs.Shedding
import Switchboard.Proofs.Slots
import Switchboard.Proofs.Spelling
import Switchboard.Proofs.Splitting
import Switchboard.Proofs.Stepping
import Switchboard.Proofs.Streaming
import Switchboard.Proofs.Telemetry.Filtering
import Switchboard.Proofs.Telemetry.Setup
import Switchboard.Proofs.Utf8
import Switchboard.Proofs.Writing
import Switchboard.Registry.Basic
import Switchboard.Registry.Definition
import Switchboard.Registry.Error
import Switchboard.Registry.Handler
import Switchboard.Registry.Name
import Switchboard.Registry.Service
import Switchboard.Registry.Store
import Switchboard.Schema.Basic
import Switchboard.Schema.Catalogue
import Switchboard.Schema.Document
import Switchboard.Schema.Name
import Switchboard.Schema.Script
import Switchboard.Serializer.Basic
import Switchboard.Serializer.Builtin
import Switchboard.Serializer.Custom
import Switchboard.Serializer.Error
import Switchboard.Session.Basic
import Switchboard.Telemetry.Config
import Switchboard.Telemetry.Demonstration
import Switchboard.Telemetry.Directive
import Switchboard.Telemetry.Event
import Switchboard.Telemetry.Filter
import Switchboard.Telemetry.Line
import Switchboard.Text.Alphanumeric
import Switchboard.Text.Printable
import Switchboard.Text.Quoted
import Switchboard.Text.Ranges
import Switchboard.Text.Space
import Switchboard.Text.Utf8
