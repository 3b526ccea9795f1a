import PluginManifest.Command.Arguments
import PluginManifest.Command.Run
import PluginManifest.Config
import PluginManifest.Doc.Comment
import PluginManifest.Doc.Parser
import PluginManifest.Item.Descriptor
import PluginManifest.Item.Error
import PluginManifest.Item.Kind
import PluginManifest.Item.Properties
import PluginManifest.Item.Scan
import PluginManifest.Json.Reader
import PluginManifest.Json.Writer
import PluginManifest.Keyed
import PluginManifest.Literal.Error
import PluginManifest.Literal.Number
import PluginManifest.Literal.Quoted
import PluginManifest.Main
import PluginManifest.Manifest
import PluginManifest.Number.Binary64
import PluginManifest.Path.Basic
import PluginManifest.Path.FileName
import PluginManifest.Path.Glob
import PluginManifest.Path.Wildcard
import PluginManifest.Project.Discovery
import PluginManifest.Project.Document
import PluginManifest.Project.FileSystem
import PluginManifest.Project.Scan
import PluginManifest.Proofs.Attachment
import PluginManifest.Proofs.Blank
import PluginManifest.Proofs.Brackets
import PluginManifest.Proofs.CatalogFacts
import PluginManifest.Proofs.DeclarationOrder
import PluginManifest.Proofs.Discovery
import PluginManifest.Proofs.DocBlocks
import PluginManifest.Proofs.DocRelayout
import PluginManifest.Proofs.DocWriting
import PluginManifest.Proofs.ExitCode
import PluginManifest.Proofs.Faults
import PluginManifest.Proofs.FileName
import PluginManifest.Proofs.FileSystem
import PluginManifest.Proofs.Gathering
import PluginManifest.Proofs.Independence
import PluginManifest.Proofs.JsonReading
import PluginManifest.Proofs.Keyed
import PluginManifest.Proofs.LastToken
import PluginManifest.Proofs.Ledger
import PluginManifest.Proofs.ManifestReading
import PluginManifest.Proofs.Merging
import PluginManifest.Proofs.NamedShapes
import PluginManifest.Proofs.NumberNames
import PluginManifest.Proofs.Ownership
import PluginManifest.Proofs.Path
import PluginManifest.Proofs.Positions
import PluginManifest.Proofs.PreOrder
import PluginManifest.Proofs.PropertyList
import PluginManifest.Proofs.QuotedNames
import PluginManifest.Proofs.Report
import PluginManifest.Proofs.Saving
import PluginManifest.Proofs.Selection
import PluginManifest.Proofs.Sessions
import PluginManifest.Proofs.SharedIds
import PluginManifest.Proofs.Surrogates
import PluginManifest.Proofs.TagLines
import PluginManifest.Proofs.TokenGaps
import PluginManifest.Proofs.Tree
import PluginManifest.Proofs.Trivia
import PluginManifest.Proofs.TriviaGrammar
import PluginManifest.Proofs.UnionTypes
import PluginManifest.Proofs.Utf8
import PluginManifest.Proofs.Utf8Encoding
import PluginManifest.Proofs.Versions
import PluginManifest.Proofs.WrappedText
import PluginManifest.Report
import PluginManifest.Session
import PluginManifest.Source.File
import PluginManifest.Source.Index
import PluginManifest.Source.Outline
import PluginManifest.SyntaxTree.Kind
import PluginManifest.SyntaxTree.Node
import PluginManifest.Text.Base64
import PluginManifest.Text.Blank
import PluginManifest.Text.CodePoint
import PluginManifest.Text.Digit
import PluginManifest.Text.Utf8
import PluginManifest.Trivia
import PluginManifest.TypeScript.Grammar.Expressions
import PluginManifest.TypeScript.Grammar.Markup
import PluginManifest.TypeScript.Grammar.Statements
import PluginManifest.TypeScript.Grammar.Symbol
import PluginManifest.TypeScript.Grammar.Types
import PluginManifest.TypeScript.Lexeme
import PluginManifest.TypeScript.Parser
import PluginManifest.TypeScript.Rule
import PluginManifest.Value.Basic
import PluginManifest.Value.Merge
import PluginManifest.Value.Shape
import PluginManifest.Value.Table
import PluginManifest.Value.Timestamp
import PluginManifest.Yaml.Cursor
import PluginManifest.Yaml.Document
import PluginManifest.Yaml.Node
import PluginManifest.Yaml.Scalar
import PluginManifest.Yaml.Schema
import PluginManifest.Yaml.Timestamp
import PluginManifest.Yaml.Token
