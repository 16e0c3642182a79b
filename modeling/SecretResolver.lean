import SecretResolver.Cache.Basic
import SecretResolver.Cache.Calls
import SecretResolver.Cache.Limits
import SecretResolver.Cache.Run
import SecretResolver.Cache.Shared
import SecretResolver.Cbor.Reader
import SecretResolver.Cbor.Value
import SecretResolver.Cbor.Writer
import SecretResolver.Command.Arguments
import SecretResolver.Command.Listing
import SecretResolver.Command.Run
import SecretResolver.Document.Basic
import SecretResolver.Document.Decoding
import SecretResolver.Engine
import SecretResolver.Failure
import SecretResolver.Json.Reader
import SecretResolver.Json.Typed
import SecretResolver.Json.Value
import SecretResolver.Json.Writer
import SecretResolver.Log
import SecretResolver.Log.Filter
import SecretResolver.Machine
import SecretResolver.Main
import SecretResolver.Number.Binary64
import SecretResolver.Number.Layout
import SecretResolver.Number.Numeral
import SecretResolver.Number.Shortest
import SecretResolver.Payload.Basic
import SecretResolver.Payload.Coding
import SecretResolver.Payload.Kind
import SecretResolver.Payload.Secret
import SecretResolver.Proofs.Cache.Flights
import SecretResolver.Proofs.Cache.Freshness
import SecretResolver.Proofs.Cache.Held
import SecretResolver.Proofs.Cache.Lawful
import SecretResolver.Proofs.Cache.Operations
import SecretResolver.Proofs.Cache.Past
import SecretResolver.Reference.Encrypted
import SecretResolver.Reference.Parameters
import SecretResolver.Reference.User
import SecretResolver.Resolver.Basic
import SecretResolver.Resolver.Files
import SecretResolver.Resolver.Resolve
import SecretResolver.Resolver.Secrets
import SecretResolver.Settings.Basic
import SecretResolver.Settings.File
import SecretResolver.Settings.Format.Ini
import SecretResolver.Settings.Format.Json5
import SecretResolver.Settings.Format.Ron
import SecretResolver.Settings.Format.Scan
import SecretResolver.Settings.Format.Toml
import SecretResolver.Settings.Format.Tree
import SecretResolver.Settings.Layer
import SecretResolver.Settings.Layered
import SecretResolver.Settings.Reading
import SecretResolver.Store.Basic
import SecretResolver.Store.FileTree
import SecretResolver.Table
import SecretResolver.Text.Blank
import SecretResolver.Text.Hidden
import SecretResolver.Text.Letters
import SecretResolver.Text.Lower
import SecretResolver.Text.Position
import SecretResolver.Text.Quoted
import SecretResolver.Text.Split
import SecretResolver.Text.Utf8
import SecretResolver.Violations
import SecretResolver.Yaml.Event
import SecretResolver.Yaml.Node
import SecretResolver.Yaml.Plain
import SecretResolver.Yaml.Property
import SecretResolver.Yaml.Scalar
import SecretResolver.Yaml.Source
import SecretResolver.Yaml.Token
import SecretResolver.Yaml.Writer
import SecretResolver.Proofs.Cache.SingleFlight
import SecretResolver.Proofs.Cache.Expiry
import SecretResolver.Proofs.Cache.Schedule
import SecretResolver.Proofs.Reference.Parameters
import SecretResolver.Proofs.Reference.Encrypted
import SecretResolver.Proofs.Reference.User
import SecretResolver.Proofs.Text.Utf8
import SecretResolver.Proofs.Reference.Embedding
import SecretResolver.Proofs.Command.RoundTrip
import SecretResolver.Proofs.Reference.Grammar
import SecretResolver.Proofs.Cache.Orderly
import SecretResolver.Proofs.Cache.Staleness
import SecretResolver.Proofs.Json.Written
import SecretResolver.Proofs.Cbor.Written
import SecretResolver.Proofs.Payload.RoundTrip
import SecretResolver.Resolver.Decryptions
import SecretResolver.Proofs.Cache.Sources
import SecretResolver.Proofs.Resolver.Files
import SecretResolver.Proofs.Resolver.Downloads
import SecretResolver.Proofs.Resolver.AsJobs
import SecretResolver.Proofs.Yaml.Release
import SecretResolver.Proofs.Yaml.Place
import SecretResolver.Proofs.Yaml.Traits
import SecretResolver.Proofs.Yaml.Gap
import SecretResolver.Proofs.Yaml.Escape
import SecretResolver.Proofs.Yaml.Quoted
import SecretResolver.Proofs.Yaml.PlainScalar
import SecretResolver.Proofs.Yaml.Literal
import SecretResolver.Proofs.Yaml.Within
import SecretResolver.Proofs.Yaml.ScalarToken
import SecretResolver.Proofs.Yaml.Entries
import SecretResolver.Proofs.Yaml.Structure
import SecretResolver.Proofs.Yaml.ReadBack
import SecretResolver.Proofs.Interchange.Grammar
import SecretResolver.Proofs.Interchange.AsJson
import SecretResolver.Proofs.Interchange.Scalars
import SecretResolver.Proofs.Interchange.Flow
import SecretResolver.Proofs.Interchange.Tokens
import SecretResolver.Proofs.Interchange.Events
import SecretResolver.Proofs.Interchange.Nodes
import SecretResolver.Proofs.Interchange.Agreement
import SecretResolver.Proofs.Store.Containment
import SecretResolver.Proofs.Resolver.Unlogged
import SecretResolver.Proofs.Command.Checking
import SecretResolver.Proofs.Command.Shown
import SecretResolver.Resolver.Jobs
import SecretResolver.Proofs.Reference.Order
import SecretResolver.Proofs.Resolver.Untouched
import SecretResolver.Proofs.Resolver.Ledger
import SecretResolver.Proofs.Resolver.Alone
import SecretResolver.Proofs.Reference.Reordering
import SecretResolver.Proofs.Resolver.Reordering
import SecretResolver.Proofs.Cache.Room
import SecretResolver.Proofs.Cache.RoomierRuns
import SecretResolver.Proofs.Secrecy.Documents
import SecretResolver.Proofs.Secrecy.Caches
import SecretResolver.Proofs.Secrecy.Resolving
import SecretResolver.Proofs.Secrecy.Jobs
import SecretResolver.Proofs.Cache.Launched
import SecretResolver.Proofs.Resolver.Launches
import SecretResolver.Proofs.Resolver.Provenance
import SecretResolver.Proofs.Resolver.Apart
import SecretResolver.Proofs.Settings.Merging
import SecretResolver.Proofs.Settings.Numerals
import SecretResolver.Proofs.Settings.Layering
import SecretResolver.Proofs.Document.Paths
import SecretResolver.Proofs.Document.Conversions
import SecretResolver.Proofs.Number.Doubles
import SecretResolver.Proofs.Json.Integers
import SecretResolver.Proofs.Cbor.Integers
import SecretResolver.Proofs.Yaml.Integers
import SecretResolver.Proofs.Document.Digits
import SecretResolver.Proofs.Cache.Tended
import SecretResolver.Proofs.Cbor.Stable
import SecretResolver.Proofs.Json.Stable
import SecretResolver.Proofs.Payload.Truncated
import SecretResolver.Proofs.Resolver.Refusals
import SecretResolver.Proofs.Text.Order
import SecretResolver.Proofs.Resolver.Registry
import SecretResolver.Proofs.Resolver.Turns
import SecretResolver.Proofs.Violations.Leaves
import SecretResolver.Proofs.Resolver.Iteration
