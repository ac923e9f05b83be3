import ApiCompiler.Access.Rule
import ApiCompiler.Action
import ApiCompiler.Backend
import ApiCompiler.Chain
import ApiCompiler.Config.Authorization
import ApiCompiler.Config.Basic
import ApiCompiler.Config.Conflict
import ApiCompiler.Config.Datasource
import ApiCompiler.Config.Factory
import ApiCompiler.Config.Parameters
import ApiCompiler.Config.SecretPath
import ApiCompiler.Context
import ApiCompiler.Dict
import ApiCompiler.Fault
import ApiCompiler.Json.Basic
import ApiCompiler.Json.Decoder
import ApiCompiler.Json.Reader
import ApiCompiler.Json.Writer
import ApiCompiler.Log
import ApiCompiler.Number.Binary64
import ApiCompiler.Number.Decimal
import ApiCompiler.Number.Reader
import ApiCompiler.Output.Document
import ApiCompiler.Output.Index
import ApiCompiler.Parser
import ApiCompiler.Pass.Access
import ApiCompiler.Pass.Basic
import ApiCompiler.Pass.Binding
import ApiCompiler.Pass.Default
import ApiCompiler.Pass.Join
import ApiCompiler.Pass.Key
import ApiCompiler.Pass.Memory
import ApiCompiler.Pass.Model
import ApiCompiler.Pass.Relation
import ApiCompiler.Pass.RelationCycle
import ApiCompiler.Pass.Storage
import ApiCompiler.Proofs.Access.Attached
import ApiCompiler.Proofs.Access.Reach
import ApiCompiler.Proofs.Access.Searched
import ApiCompiler.Proofs.Action
import ApiCompiler.Proofs.Chain.Started
import ApiCompiler.Proofs.Dict
import ApiCompiler.Proofs.Parser
import ApiCompiler.Proofs.Pass.Builtin
import ApiCompiler.Proofs.Pass.Edit
import ApiCompiler.Proofs.Pass.Model
import ApiCompiler.Proofs.Pass.Steps
import ApiCompiler.Proofs.Resource.Ids
import ApiCompiler.Proofs.Resource.Links
import ApiCompiler.Proofs.Schema.RoundTrip
import ApiCompiler.Proofs.Schema.Tokens
import ApiCompiler.Proofs.Schema.Values
import ApiCompiler.Proofs.Schema.WellFormed
import ApiCompiler.Proofs.Transform.Diagnostics
import ApiCompiler.Resource.Basic
import ApiCompiler.Resource.Graph
import ApiCompiler.Schema.Arguments
import ApiCompiler.Schema.Basic
import ApiCompiler.Schema.Lexical
import ApiCompiler.Schema.Parser
import ApiCompiler.Schema.Printer
import ApiCompiler.Synthesis
import ApiCompiler.Text.Blank
import ApiCompiler.Text.Case
import ApiCompiler.Text.CaseTable
import ApiCompiler.Text.Part
import ApiCompiler.Text.Plural
import ApiCompiler.Text.Quoted
import ApiCompiler.Text.Ranges
import ApiCompiler.Text.Unprintable
import ApiCompiler.Transform
import ApiCompiler.Proofs.Resource.Graph
import ApiCompiler.Proofs.Synthesis.Complete
import ApiCompiler.Proofs.Transform.Aborted
import ApiCompiler.Proofs.Chain.Growth
import ApiCompiler.Proofs.Resource.Keys
import ApiCompiler.Proofs.Output.Registered
import ApiCompiler.Proofs.Output.Values
import ApiCompiler.Proofs.Chain.Closure
import ApiCompiler.Proofs.Transform.Exported
import ApiCompiler.Proofs.Chain.Order
import ApiCompiler.Proofs.Pass.Footprint
import ApiCompiler.Proofs.Pass.Join
import ApiCompiler.Proofs.Chain.Models
import ApiCompiler.Proofs.Chain.Joins
import ApiCompiler.Proofs.Pass.Redacted
import ApiCompiler.Proofs.Synthesis.Redacted
import ApiCompiler.Proofs.Transform.Redacted
import ApiCompiler.Proofs.Resource.Resolvers
import ApiCompiler.Proofs.Transform.Resolvers
import ApiCompiler.Proofs.Resource.Stores
import ApiCompiler.Proofs.Schema.Ahead
import ApiCompiler.Proofs.Schema.Fragments
import ApiCompiler.Proofs.Json.Ordered
import ApiCompiler.Proofs.Chain.Rules
import ApiCompiler.Proofs.Config.RoundTrip
import ApiCompiler.Proofs.Output.Document
import ApiCompiler.Proofs.Pass.RelationCycle
import ApiCompiler.Proofs.Pass.Properties
import ApiCompiler.Proofs.Resource.Operations
import ApiCompiler.Proofs.Resource.Queries
import ApiCompiler.Proofs.Resource.Materialized
import ApiCompiler.Proofs.Resource.Connections
import ApiCompiler.Proofs.Resource.ForeignKeys
import ApiCompiler.Proofs.Resource.Functions
import ApiCompiler.Proofs.Resource.Defaults
import ApiCompiler.Proofs.Json.Merge
import ApiCompiler.Proofs.Schema.Arguments
import ApiCompiler.Proofs.Schema.Refused
import ApiCompiler.Proofs.Schema.Structured
import ApiCompiler.Proofs.Schema.Written
