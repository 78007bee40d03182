import OperationHooks.Choice
import OperationHooks.Coercion
import OperationHooks.Command.Arguments
import OperationHooks.Command.Call
import OperationHooks.Command.Declaration
import OperationHooks.Command.Help
import OperationHooks.Command.Value
import OperationHooks.Config
import OperationHooks.Datum
import OperationHooks.Definition
import OperationHooks.Descriptor
import OperationHooks.Disk.Access
import OperationHooks.Disk.Difference
import OperationHooks.Disk.Fault
import OperationHooks.Disk.Tree
import OperationHooks.Disk.Walk
import OperationHooks.Fault
import OperationHooks.Format.Basic
import OperationHooks.Format.Formatter
import OperationHooks.Format.Options
import OperationHooks.Format.Program
import OperationHooks.Glob
import OperationHooks.GraphQL.Document
import OperationHooks.GraphQL.Grammar
import OperationHooks.GraphQL.Lexer
import OperationHooks.GraphQL.Name
import OperationHooks.GraphQL.Source
import OperationHooks.GraphQL.SyntaxError
import OperationHooks.GraphQL.Token
import OperationHooks.Hook
import OperationHooks.Index.Entry
import OperationHooks.Index.Registration
import OperationHooks.Index.Table
import OperationHooks.Json
import OperationHooks.Log
import OperationHooks.Main
import OperationHooks.Number.Binary64
import OperationHooks.Number.Decimal
import OperationHooks.Number.Literal
import OperationHooks.Number.Shortest
import OperationHooks.Output
import OperationHooks.Path
import OperationHooks.Report
import OperationHooks.Run.Hooks
import OperationHooks.Run.Options
import OperationHooks.Run.Schema
import OperationHooks.Run.Task
import OperationHooks.Run.World
import OperationHooks.Shell.Arithmetic
import OperationHooks.Shell.BuiltIn
import OperationHooks.Shell.Condition
import OperationHooks.Shell.Edit
import OperationHooks.Shell.Grammar
import OperationHooks.Shell.Lexer
import OperationHooks.Shell.Pattern
import OperationHooks.Shell.Printing
import OperationHooks.Shell.Regex
import OperationHooks.Shell.Run
import OperationHooks.Shell.State
import OperationHooks.Shell.Syntax
import OperationHooks.Shell.System
import OperationHooks.Shell.Utility
import OperationHooks.Template.BuiltIn
import OperationHooks.Template.Fault
import OperationHooks.Template.Filter
import OperationHooks.Template.Grammar
import OperationHooks.Template.Lexer
import OperationHooks.Template.Library
import OperationHooks.Template.Operation
import OperationHooks.Template.Render
import OperationHooks.Template.Syntax
import OperationHooks.Template.Value
import OperationHooks.Template.Wellformed
import OperationHooks.Text.Base64
import OperationHooks.Text.Blank
import OperationHooks.Text.Case
import OperationHooks.Text.CaseTable
import OperationHooks.Text.CharName
import OperationHooks.Text.Digit
import OperationHooks.Text.IdentifierTable
import OperationHooks.Text.PrintableTable
import OperationHooks.Text.Quoted
import OperationHooks.Text.Similarity
import OperationHooks.Text.Split
import OperationHooks.Text.Utf8
import OperationHooks.Text.Wrap
import OperationHooks.Yaml.Cursor
import OperationHooks.Yaml.Lexer
import OperationHooks.Yaml.Node
import OperationHooks.Yaml.Resolution
import OperationHooks.Yaml.Scalar
import OperationHooks.Yaml.Token
import OperationHooks.Yaml.Value
import OperationHooks.Proofs.Disk.Access
import OperationHooks.Proofs.Disk.FileTree
import OperationHooks.Proofs.Disk.Settle
import OperationHooks.Proofs.Format
import OperationHooks.Proofs.Glob
import OperationHooks.Proofs.Hook
import OperationHooks.Proofs.Index.Entry
import OperationHooks.Proofs.Index.File
import OperationHooks.Proofs.Index.Flush
import OperationHooks.Proofs.Index.Text
import OperationHooks.Proofs.Report
import OperationHooks.Proofs.Run.Cleaning
import OperationHooks.Proofs.Run.Course
import OperationHooks.Proofs.Run.OrderIndependence
import OperationHooks.Proofs.Run.Refusal
import OperationHooks.Proofs.Run.Survival
import OperationHooks.Proofs.Disk.Saving
import OperationHooks.Proofs.Run.Reading
import OperationHooks.Proofs.Run.Verdict
import OperationHooks.Proofs.Run.Accounting
import OperationHooks.Proofs.Run.Overwriting
import OperationHooks.Proofs.Index.Parallel
import OperationHooks.Proofs.Index.Modes
import OperationHooks.Proofs.Run.Confinement
import OperationHooks.Proofs.Disk.Null
import OperationHooks.Proofs.Run.Backing
import OperationHooks.Proofs.Run.Ending
import OperationHooks.Proofs.Run.Layout
import OperationHooks.Proofs.Disk.Way
import OperationHooks.Proofs.Run.Remaking
import OperationHooks.Proofs.Hook.Exports
import OperationHooks.Proofs.Run.Importing
import OperationHooks.Proofs.Run.Idempotence
import OperationHooks.Proofs.Run.SchemaIndex
import OperationHooks.Proofs.Run.Editing
import OperationHooks.Proofs.Descriptor
import OperationHooks.Proofs.Index.Insertion
import OperationHooks.Proofs.Index.Dirty
import OperationHooks.Proofs.Run.Emptying
import OperationHooks.Proofs.Config
import OperationHooks.Proofs.Format.Tidy
import OperationHooks.Proofs.Format.Visible
import OperationHooks.Proofs.Index.Distinct
import OperationHooks.Proofs.Hook.Naming
import OperationHooks.Proofs.Effect.Keeping
import OperationHooks.Proofs.Yaml.Faults
import OperationHooks.Proofs.Config.Loading
import OperationHooks.Proofs.Config.Json
import OperationHooks.Proofs.Hook.Placing
import OperationHooks.Proofs.Hook.Selection
import OperationHooks.Proofs.Run.Generating
