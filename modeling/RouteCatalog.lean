import RouteCatalog.Text.CodeRanges
import RouteCatalog.Text.Blank
import RouteCatalog.Text.Letter
import RouteCatalog.Text.Digit
import RouteCatalog.Text.Printable
import RouteCatalog.Text.Uppercase
import RouteCatalog.Text.Quoted
import RouteCatalog.Text.Literal
import RouteCatalog.Text.Pieces
import RouteCatalog.Text.Base64
import RouteCatalog.Decimal.Shortest
import RouteCatalog.Decimal.Layout
import RouteCatalog.Decimal.Reading
import RouteCatalog.Document.Calendar
import RouteCatalog.Document.Basic
import RouteCatalog.Document.Display
import RouteCatalog.Document.Checked
import RouteCatalog.Document.Access
import RouteCatalog.Fault
import RouteCatalog.Failure
import RouteCatalog.Path
import RouteCatalog.Glob
import RouteCatalog.FileTree
import RouteCatalog.Log
import RouteCatalog.Json.Reading
import RouteCatalog.Yaml.Cursor
import RouteCatalog.Yaml.Scalar
import RouteCatalog.Yaml.Token
import RouteCatalog.Yaml.Scanner
import RouteCatalog.Yaml.Tag
import RouteCatalog.Yaml.Tree
import RouteCatalog.Yaml.Scalars
import RouteCatalog.Yaml.Reading
import RouteCatalog.TypeExpr.Quoting
import RouteCatalog.TypeExpr.Scan
import RouteCatalog.TypeExpr.Balance
import RouteCatalog.TypeExpr.Join
import RouteCatalog.TypeExpr.Key
import RouteCatalog.TypeExpr.Noise
import RouteCatalog.TypeExpr.Layout
import RouteCatalog.TypeExpr.Token
import RouteCatalog.TypeExpr.Spacing
import RouteCatalog.Graph.Basic
import RouteCatalog.Graph.Query
import RouteCatalog.Graph.Label
import RouteCatalog.Graph.Rendering
import RouteCatalog.Graph.Objects
import RouteCatalog.Graph.Validation
import RouteCatalog.Graph.Reachability
import RouteCatalog.Graph.Expansion
import RouteCatalog.Graph.Normalization
import RouteCatalog.Graph.Loading
import RouteCatalog.Route.Params
import RouteCatalog.Route.Endpoint
import RouteCatalog.Route.Client
import RouteCatalog.Route.Walk
import RouteCatalog.Route.Descent
import RouteCatalog.Config.Basic
import RouteCatalog.Config.Checking
import RouteCatalog.Config.Loading
import RouteCatalog.Markdown.Snippet
import RouteCatalog.Markdown.Section
import RouteCatalog.Session
import RouteCatalog.Session.History
import RouteCatalog.Session.Objects
import RouteCatalog.Generation
import RouteCatalog.Command.Arguments
import RouteCatalog.Command.Running
import RouteCatalog.Main
import RouteCatalog.Proofs.EndpointRecord
import RouteCatalog.Proofs.RouteEnumeration
import RouteCatalog.Proofs.AliasChain
import RouteCatalog.Proofs.WellShaped
import RouteCatalog.Proofs.Rendering
import RouteCatalog.Proofs.Normalization
import RouteCatalog.Proofs.LoadedFiles
import RouteCatalog.Proofs.ServiceOutcome
import RouteCatalog.Proofs.FileWriting
import RouteCatalog.Proofs.GeneratedDocument
import RouteCatalog.Proofs.NameChain
import RouteCatalog.Proofs.RouteTree
import RouteCatalog.Proofs.MergedRoutes
import RouteCatalog.Proofs.BalancedText
import RouteCatalog.Proofs.Operands
import RouteCatalog.Proofs.Expression
import RouteCatalog.Proofs.IntersectionGrouping
import RouteCatalog.Proofs.ExpandedArray
import RouteCatalog.Proofs.Alternatives
import RouteCatalog.Proofs.UnionGroups
import RouteCatalog.Proofs.UnionOrder
import RouteCatalog.Proofs.UnionReading
import RouteCatalog.Proofs.UnionTree
import RouteCatalog.Proofs.UnionNesting
import RouteCatalog.Proofs.WholeText
import RouteCatalog.Proofs.BracketedRendering
import RouteCatalog.Proofs.BracketedNormalization
import RouteCatalog.Proofs.LayoutReading
import RouteCatalog.Proofs.LayoutTokens
import RouteCatalog.Proofs.ProperSpacing
import RouteCatalog.Proofs.LayoutLaw
import RouteCatalog.Proofs.LocalValidity
import RouteCatalog.Proofs.Validation
import RouteCatalog.Proofs.Acceptance
import RouteCatalog.Proofs.ReadTypes
import RouteCatalog.Proofs.SafeQueries
import RouteCatalog.Proofs.NestedMappings
import RouteCatalog.Proofs.JsonNesting
import RouteCatalog.Proofs.Rejection
import RouteCatalog.Proofs.WalkTotality
import RouteCatalog.Proofs.FileNames
import RouteCatalog.Proofs.ExportedAliases
import RouteCatalog.Proofs.PathText
import RouteCatalog.Proofs.KeptObjects
import RouteCatalog.Proofs.SessionHistory
import RouteCatalog.Proofs.ClosedSession
import RouteCatalog.Proofs.RecordOrigin
import RouteCatalog.Proofs.PathParams
import RouteCatalog.Proofs.DescentNodes
import RouteCatalog.Proofs.SnippetVariables
import RouteCatalog.Proofs.ChainReading
import RouteCatalog.Proofs.MergedDeclarations
import RouteCatalog.Proofs.IntersectionMembers
import RouteCatalog.Proofs.NestingHeight
import RouteCatalog.Proofs.DepthBound
import RouteCatalog.Proofs.QuotedText
import RouteCatalog.Proofs.PropertyKeys
import RouteCatalog.Proofs.Relocation
import RouteCatalog.Proofs.ArrayOperand
import RouteCatalog.Proofs.DuplicateNullable
import RouteCatalog.Proofs.SpelledTypes
import RouteCatalog.Proofs.RepeatedNullable
import RouteCatalog.Proofs.ExpansionNoise
import RouteCatalog.Proofs.TelltaleKeys
import RouteCatalog.Proofs.ExampleValues
import RouteCatalog.Proofs.ExampleParams
import RouteCatalog.Proofs.TopLevel
import RouteCatalog.Proofs.ScannerFaults
import RouteCatalog.Proofs.ReaderFaults
import RouteCatalog.Proofs.ConfigReports
import RouteCatalog.Proofs.HandleObjects
import RouteCatalog.Proofs.HandleRequests
import RouteCatalog.Proofs.HandleQuestions
import RouteCatalog.Proofs.HandleRendering
import RouteCatalog.Graph.ObjectHistory
import RouteCatalog.Proofs.HandleHistory
