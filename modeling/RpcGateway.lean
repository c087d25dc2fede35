import RpcGateway.Backend.Basic
import RpcGateway.Backend.Client
import RpcGateway.Backend.Proxy
import RpcGateway.Bytes
import RpcGateway.Cli.Arguments
import RpcGateway.Cli.Command
import RpcGateway.Cli.Fault
import RpcGateway.Cli.Listing
import RpcGateway.Cli.Palette
import RpcGateway.Cli.Run
import RpcGateway.Echo.Schema
import RpcGateway.Echo.Server
import RpcGateway.Envelope.Basic
import RpcGateway.Envelope.Codec
import RpcGateway.Envelope.Printer
import RpcGateway.Envelope.Reader
import RpcGateway.Http.Admission
import RpcGateway.Http.Endpoint
import RpcGateway.Http.Exchange
import RpcGateway.Http.Headers
import RpcGateway.Http.Message
import RpcGateway.Http.Uri
import RpcGateway.Json.Basic
import RpcGateway.Json.Printer
import RpcGateway.Json.Reader
import RpcGateway.Json.Scan
import RpcGateway.Main
import RpcGateway.Mux.Dispatch
import RpcGateway.Mux.Outcome
import RpcGateway.Number.Binary
import RpcGateway.Number.Decimal
import RpcGateway.Number.Shortest
import RpcGateway.Number.Words
import RpcGateway.Proofs.Collections
import RpcGateway.Proofs.Envelope.Members
import RpcGateway.Proofs.Envelope.Places
import RpcGateway.Proofs.Envelope.Printed
import RpcGateway.Proofs.Http.Admission
import RpcGateway.Proofs.Json.Grammar
import RpcGateway.Proofs.Json.Numbers
import RpcGateway.Proofs.Json.Printing
import RpcGateway.Proofs.Json.ReadAlone
import RpcGateway.Proofs.Json.ReadBack
import RpcGateway.Proofs.Json.ReadTexts
import RpcGateway.Proofs.Json.Skipping
import RpcGateway.Proofs.Json.SkippedTokens
import RpcGateway.Proofs.Json.Spelling
import RpcGateway.Proofs.Mux.BodyShapes
import RpcGateway.Proofs.Mux.Exits
import RpcGateway.Proofs.Mux.RequestId
import RpcGateway.Proofs.Number.Shortest
import RpcGateway.Proofs.Schema.Entries
import RpcGateway.Proofs.Schema.FreeAlias
import RpcGateway.Proofs.Schema.Histories
import RpcGateway.Proofs.Schema.Identifiers
import RpcGateway.Proofs.Schema.LoadOrder
import RpcGateway.Proofs.Schema.MethodTypes
import RpcGateway.Proofs.Schema.Targets
import RpcGateway.Proto.Default
import RpcGateway.Proto.DescriptorSet
import RpcGateway.Proto.DescriptorTypes
import RpcGateway.Proto.FieldMask
import RpcGateway.Proto.FromJson
import RpcGateway.Proto.LinkError
import RpcGateway.Proto.Linking
import RpcGateway.Proto.Names
import RpcGateway.Proto.Range
import RpcGateway.Proto.Reader
import RpcGateway.Proto.Settings
import RpcGateway.Proto.Standard
import RpcGateway.Proto.Structured
import RpcGateway.Proto.ToJson
import RpcGateway.Proto.Type
import RpcGateway.Proto.Value
import RpcGateway.Proto.Varint
import RpcGateway.Proto.Writer
import RpcGateway.Rpc.Code
import RpcGateway.Rpc.Details
import RpcGateway.Rpc.Duration
import RpcGateway.Rpc.Encoding
import RpcGateway.Rpc.Metadata
import RpcGateway.Rpc.Status
import RpcGateway.Schema.Binding
import RpcGateway.Schema.Declaration
import RpcGateway.Schema.Entry
import RpcGateway.Schema.Error
import RpcGateway.Schema.FieldPath
import RpcGateway.Schema.Registry
import RpcGateway.Schema.Scope
import RpcGateway.Schema.Services
import RpcGateway.Schema.Setting
import RpcGateway.Schema.WellKnown
import RpcGateway.Table
import RpcGateway.Text.Base64
import RpcGateway.Text.Hidden
import RpcGateway.Text.Percent
import RpcGateway.Text.Pieces
import RpcGateway.Text.Quoted
import RpcGateway.Text.Upper
import RpcGateway.Text.Utf8Fault
import RpcGateway.Time.Calendar
import RpcGateway.Time.Clock
import RpcGateway.Time.Instant
import RpcGateway.Time.Span
import RpcGateway.Proofs.Schema.Resolution
import RpcGateway.Proofs.Schema.Consistency
import RpcGateway.Proofs.Proto.Linked
import RpcGateway.Proofs.Backend.Routes
import RpcGateway.Proofs.Envelope.RoundTrip
import RpcGateway.Proofs.Schema.FieldPaths
import RpcGateway.Proofs.Schema.PathSplitting
import RpcGateway.Proofs.Http.Metadata
import RpcGateway.Proofs.Backend.Replies
import RpcGateway.Proofs.Backend.Calls
import RpcGateway.Proofs.Schema.AliasSearch
import RpcGateway.Proofs.Schema.FailedLoads
import RpcGateway.Proofs.Schema.Reloading
import RpcGateway.Proofs.Schema.WellKnownParameters
import RpcGateway.Proofs.Schema.Scopes
import RpcGateway.Proofs.Schema.Bindings
import RpcGateway.Proofs.Mux.Acceptance
import RpcGateway.Proofs.Mux.Isolation
import RpcGateway.Proofs.Rpc.TimeLimits
import RpcGateway.Proofs.Mux.Deadlines
import RpcGateway.Proofs.Mux.Chunking
import RpcGateway.Proofs.Envelope.MemberOrder
import RpcGateway.Proofs.Http.DeclaredLength
import RpcGateway.Proofs.Http.Grouping
import RpcGateway.Proofs.Rpc.MetadataRoundTrip
import RpcGateway.Proofs.Mux.ResponseHeaders
import RpcGateway.Proofs.Backend.SentMetadata
import RpcGateway.Proofs.Backend.TransportKeys
import RpcGateway.Proofs.Json.Objects
import RpcGateway.Proofs.Proto.WireReading
import RpcGateway.Proofs.Proto.Crossing
import RpcGateway.Proofs.Rpc.StatusDetails
import RpcGateway.Proofs.Proto.FieldOrder
import RpcGateway.Proofs.Echo.Requests
import RpcGateway.Proofs.Echo.Answers
import RpcGateway.Proofs.Echo.UnaryEcho
import RpcGateway.Proofs.Proto.TypedReading
import RpcGateway.Proofs.Proto.DistinctNames
import RpcGateway.Proofs.Proto.SameContents
import RpcGateway.Proofs.Rpc.DetailObjects
import RpcGateway.Proofs.Backend.UnknownMembers
import RpcGateway.Proofs.Schema.DeclaredTypes
import RpcGateway.Proofs.Schema.DeclaredMethods
import RpcGateway.Proofs.Backend.Registration
import RpcGateway.Proofs.Echo.Paths
