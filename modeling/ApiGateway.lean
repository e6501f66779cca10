import ApiGateway.CommandLine.Arguments
import ApiGateway.CommandLine.Outcome
import ApiGateway.Compilation.Compile
import ApiGateway.Compilation.Options
import ApiGateway.Compilation.Scope
import ApiGateway.Configuration.Basic
import ApiGateway.Configuration.Render
import ApiGateway.Directive
import ApiGateway.Document.Basic
import ApiGateway.Document.Cycle
import ApiGateway.Document.Operation
import ApiGateway.Document.Pointer
import ApiGateway.Document.Read
import ApiGateway.Document.Reference
import ApiGateway.Entity.Plugin
import ApiGateway.Entity.Service
import ApiGateway.Entity.Stamp
import ApiGateway.Error
import ApiGateway.Json.Basic
import ApiGateway.Json.Print
import ApiGateway.Json.Read
import ApiGateway.Main
import ApiGateway.Naming.Basic
import ApiGateway.Naming.Romanization
import ApiGateway.Number.Binary64
import ApiGateway.Number.Hexadecimal
import ApiGateway.Number.Numeral
import ApiGateway.Route.Header
import ApiGateway.Route.Path
import ApiGateway.Security.OpenIdConnect
import ApiGateway.Server.Basic
import ApiGateway.Server.Uri
import ApiGateway.Text
import ApiGateway.Uuid.Basic
import ApiGateway.Uuid.Sha1
import ApiGateway.Validation.RequestValidator
import ApiGateway.Validation.Schema
import ApiGateway.Yaml.BlockScalar
import ApiGateway.Yaml.Cursor
import ApiGateway.Yaml.Layout
import ApiGateway.Yaml.LineScalar
import ApiGateway.Yaml.Node
import ApiGateway.Yaml.Print
import ApiGateway.Yaml.Read
import ApiGateway.Yaml.Resolution
import ApiGateway.Yaml.Tag
import ApiGateway.Yaml.Token
import ApiGateway.Proofs.Plugin.Overlay
import ApiGateway.Proofs.Plugin.Declared
import ApiGateway.Proofs.Compilation.Cascade
import ApiGateway.Proofs.Compilation.PluginCascade
import ApiGateway.Proofs.Route.Header
import ApiGateway.Proofs.Compilation.Structure
import ApiGateway.Proofs.Naming.BaseName
import ApiGateway.Proofs.Uuid.Text
import ApiGateway.Proofs.Compilation.Entities
import ApiGateway.Proofs.Compilation.Stamped
import ApiGateway.Proofs.Compilation.Identifiers
import ApiGateway.Proofs.Compilation.Groups
import ApiGateway.Proofs.Compilation.Uniqueness
import ApiGateway.Proofs.Entity.Stamp
import ApiGateway.Proofs.Compilation.Unbound
import ApiGateway.Proofs.Compilation.Creation
import ApiGateway.Proofs.Compilation.References
import ApiGateway.Proofs.Compilation.Consumers
import ApiGateway.Proofs.Compilation.Stamps
import ApiGateway.Proofs.Text.ByteOrder
import ApiGateway.Proofs.Compilation.Order
import ApiGateway.Proofs.Compilation.Placement
import ApiGateway.Proofs.Compilation.Protection
import ApiGateway.Proofs.Document.References
import ApiGateway.Proofs.Validation.Collection
import ApiGateway.Proofs.Validation.SelfContained
import ApiGateway.Proofs.Entity.View
import ApiGateway.Proofs.Compilation.View
import ApiGateway.Proofs.Compilation.Layout
import ApiGateway.Proofs.Compilation.Untagged
import ApiGateway.Proofs.Document.Agreement
import ApiGateway.Proofs.Document.Cycle
import ApiGateway.Proofs.Validation.Agreement
import ApiGateway.Proofs.Compilation.Locality
import ApiGateway.Proofs.Error.Codes
import ApiGateway.Proofs.Compilation.Leniency
import ApiGateway.Proofs.Compilation.Separation
import ApiGateway.Proofs.Plugin.Removal
import ApiGateway.Proofs.Plugin.Insertion
import ApiGateway.Proofs.Compilation.Removal
import ApiGateway.Proofs.Compilation.WithoutOpenId
import ApiGateway.Proofs.Compilation.Validators
import ApiGateway.Proofs.Validation.Template
import ApiGateway.Proofs.Compilation.GivenIdentifiers
import ApiGateway.Proofs.Compilation.RouteNames
import ApiGateway.Proofs.Compilation.Anonymous
import ApiGateway.Proofs.Text.Slice
import ApiGateway.Proofs.Guarded.Access
import ApiGateway.Proofs.Guarded.Plugin
import ApiGateway.Proofs.Guarded.Route
import ApiGateway.Proofs.Guarded.Compilation
import ApiGateway.Proofs.Document.Chain
import ApiGateway.Proofs.Document.Pointer
import ApiGateway.Proofs.Document.ReferenceGraph
import ApiGateway.Proofs.Validation.Reachability
import ApiGateway.Proofs.Validation.Components
import ApiGateway.Proofs.Naming.Capture
import ApiGateway.Proofs.Route.Template
import ApiGateway.Proofs.Route.Groups
import ApiGateway.Proofs.Regex.Basic
import ApiGateway.Proofs.Regex.Read
import ApiGateway.Proofs.Route.Pattern
import ApiGateway.Proofs.Route.Expansion
import ApiGateway.Proofs.Security.OpenIdConnect
import ApiGateway.Proofs.Entity.Service
import ApiGateway.Proofs.Document.Ordered
import ApiGateway.Proofs.Validation.Completion
import ApiGateway.Proofs.Compilation.ParameterNames
import ApiGateway.Proofs.Directive.Reference
import ApiGateway.Proofs.Plugin.Building
import ApiGateway.Proofs.Directive.Sharing
import ApiGateway.Proofs.Document.Parameters
import ApiGateway.Proofs.Naming.Slug
import ApiGateway.Proofs.CommandLine.Usage
import ApiGateway.Proofs.CommandLine.Outcome
import ApiGateway.Proofs.Text.Replace
import ApiGateway.Proofs.Server.Substitution
import ApiGateway.Proofs.Number.Rounding
import ApiGateway.Proofs.Number.Numeral
import ApiGateway.Proofs.Json.Normal
import ApiGateway.Proofs.Json.ReadBack
import ApiGateway.Proofs.Configuration.Render
