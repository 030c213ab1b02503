import StackScript.Diagnostic
import StackScript.Docs.Builtin
import StackScript.Docs.Registry
import StackScript.Docs.Summary
import StackScript.Document
import StackScript.Folder.Scripts
import StackScript.Folder.SnapshotFile
import StackScript.Folder.Tree
import StackScript.Folder.Walk
import StackScript.Inspection
import StackScript.Json.Basic
import StackScript.Json.Parse
import StackScript.Json.Print
import StackScript.Json.Record
import StackScript.OrderedTable
import StackScript.Proofs.Document.Brace
import StackScript.Proofs.Document.Comment
import StackScript.Proofs.Document.Declaration
import StackScript.Proofs.Document.Error
import StackScript.Proofs.Document.Fragment
import StackScript.Proofs.Document.Listing
import StackScript.Proofs.Document.Object
import StackScript.Proofs.Document.Problem
import StackScript.Proofs.Document.Unfinished
import StackScript.Proofs.Folder.SnapshotFile
import StackScript.Proofs.Folder.Tree
import StackScript.Proofs.Folder.Walk
import StackScript.Proofs.Indexed.Attribute
import StackScript.Proofs.Indexed.Binding
import StackScript.Proofs.Indexed.Declaration
import StackScript.Proofs.Indexed.Document
import StackScript.Proofs.Indexed.Outline
import StackScript.Proofs.Indexed.Neighbour
import StackScript.Proofs.Indexed.Partition
import StackScript.Proofs.Indexed.Position
import StackScript.Proofs.Indexed.Reference
import StackScript.Proofs.Indexed.Scan
import StackScript.Proofs.Indexed.Statement
import StackScript.Proofs.Indexed.Text
import StackScript.Proofs.Json.Record
import StackScript.Proofs.Json.RoundTrip
import StackScript.Proofs.Json.Written
import StackScript.Proofs.OrderedTable
import StackScript.Proofs.Script.Block
import StackScript.Proofs.Script.Body
import StackScript.Proofs.Script.Brace
import StackScript.Proofs.Script.Comment
import StackScript.Proofs.Script.Enclosed
import StackScript.Proofs.Script.Loose
import StackScript.Proofs.Script.Object
import StackScript.Proofs.Script.Outline
import StackScript.Proofs.Script.Recast
import StackScript.Proofs.Script.Reference
import StackScript.Proofs.Script.Resume
import StackScript.Proofs.Script.Row
import StackScript.Proofs.Script.Statement
import StackScript.Proofs.Source.LineIndex
import StackScript.Proofs.Source.Position
import StackScript.Proofs.Symbols.Cause
import StackScript.Proofs.Symbols.Comment
import StackScript.Proofs.Symbols.Entry
import StackScript.Proofs.Symbols.Recast
import StackScript.Proofs.Symbols.RoundTrip
import StackScript.Proofs.Text.Quoted
import StackScript.Proofs.Text.Trim
import StackScript.Proofs.Token.Comment
import StackScript.Proofs.Token.Lexeme
import StackScript.Proofs.Token.Line
import StackScript.Proofs.Token.Print
import StackScript.Proofs.Token.Shift
import StackScript.Proofs.Token.Tiling
import StackScript.Proofs.Unicode.LowerCase
import StackScript.Proofs.Workspace.Endpoint
import StackScript.Proofs.Workspace.Index
import StackScript.Proofs.Workspace.Inventory
import StackScript.Proofs.Workspace.Reference
import StackScript.Proofs.Workspace.Resolve
import StackScript.Proofs.Workspace.Snapshot
import StackScript.Scheme
import StackScript.Script.Brace
import StackScript.Script.Occurrence
import StackScript.Script.Outline
import StackScript.Script.Reference
import StackScript.Script.Statement
import StackScript.Source.LineCursor
import StackScript.Source.LineIndex
import StackScript.Source.Position
import StackScript.Symbols.Binding
import StackScript.Symbols.Declaration
import StackScript.Symbols.Table
import StackScript.Text.Ellipsis
import StackScript.Text.Key
import StackScript.Text.Path
import StackScript.Text.Quoted
import StackScript.Text.Trim
import StackScript.Token.Basic
import StackScript.Token.Lexeme
import StackScript.Token.Tokenize
import StackScript.Unicode.Blank
import StackScript.Unicode.FinalSigma
import StackScript.Unicode.Identifier
import StackScript.Unicode.LowerCase
import StackScript.Unicode.Ranges
import StackScript.Wire.Basic
import StackScript.Wire.Script
import StackScript.Wire.Workspace
import StackScript.Workspace.Endpoint
import StackScript.Workspace.Index
import StackScript.Workspace.Object
import StackScript.Workspace.Resolve
import StackScript.Workspace.Snapshot
import StackScript.Proofs.Workspace.NewObject
import StackScript.Proofs.Json.Compact
import StackScript.Proofs.Wire.Basic
import StackScript.Proofs.Workspace.Order
import StackScript.Proofs.Wire.Script
import StackScript.Proofs.Symbols.Place
import StackScript.Proofs.Wire.Workspace
import StackScript.Proofs.Document.Place
import StackScript.Proofs.Wire.RoundTrip
import StackScript.Proofs.Document.Line
import StackScript.Proofs.Token.Space
import StackScript.Proofs.Document.Return
import StackScript.Proofs.Token.Return
import StackScript.Proofs.Document.Section
import StackScript.Proofs.Symbols.Filter
import StackScript.Proofs.Document.Filter
import StackScript.Proofs.Scheme
import StackScript.Proofs.Document.Asked
import StackScript.Proofs.Text.ByteOrder
import StackScript.Proofs.Text.Path
import StackScript.Proofs.Folder.Scripts
import StackScript.Proofs.Indexed.Section
import StackScript.Proofs.Script.Header
import StackScript.Proofs.Document.Header
import StackScript.Proofs.Indexed.Call
import StackScript.Proofs.Document.Call
import StackScript.Proofs.Token.Literal
import StackScript.Proofs.Token.Munch
import StackScript.Proofs.Document.Repeat
import StackScript.Proofs.Document.Literal
import StackScript.Proofs.Source.Offset
import StackScript.Proofs.Source.LineCursor
import StackScript.Proofs.Indexed.Word
import StackScript.Proofs.Script.Repair
import StackScript.Proofs.Token.Closing
import StackScript.Proofs.Text.Key
import StackScript.Proofs.Workspace.Route
import StackScript.Proofs.Workspace.Request
import StackScript.Proofs.Workspace.Folder
import StackScript.Proofs.Docs.Registry
import StackScript.Proofs.Docs.Summary
import StackScript.Proofs.Indexed.Remark
import StackScript.Proofs.Document.Remark
import StackScript.Proofs.Script.Argument
import StackScript.Proofs.Token.Operation
import StackScript.Proofs.Document.Reference
