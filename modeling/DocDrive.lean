import DocDrive.Admission
import DocDrive.CommandLine
import DocDrive.Discovery
import DocDrive.Document
import DocDrive.Drive.Basic
import DocDrive.Drive.Indexing
import DocDrive.Drive.Mount
import DocDrive.Error
import DocDrive.FileTree.Basic
import DocDrive.FileTree.Disk
import DocDrive.FileTree.Listing
import DocDrive.FileTree.Memory
import DocDrive.Handle
import DocDrive.Index
import DocDrive.Json.Number
import DocDrive.Json.Pretty
import DocDrive.Json.Reader
import DocDrive.Main
import DocDrive.Memo
import DocDrive.Node
import DocDrive.Number.Binary64
import DocDrive.Number.Shortest
import DocDrive.Path
import DocDrive.Pointer
import DocDrive.Proofs.Admission
import DocDrive.Proofs.Arguments
import DocDrive.Proofs.Catalogue
import DocDrive.Proofs.Conversion
import DocDrive.Proofs.Cursor
import DocDrive.Proofs.Delivery
import DocDrive.Proofs.Discovery
import DocDrive.Proofs.Encoding
import DocDrive.Proofs.Entries
import DocDrive.Proofs.Escaping
import DocDrive.Proofs.FileTree.Agreement
import DocDrive.Proofs.FileTree.Depth
import DocDrive.Proofs.FileTree.Disk
import DocDrive.Proofs.FileTree.Memory
import DocDrive.Proofs.FileTree.Nesting
import DocDrive.Proofs.FileTree.Reachable
import DocDrive.Proofs.Filtering
import DocDrive.Proofs.Follow
import DocDrive.Proofs.Hidden
import DocDrive.Proofs.Identity
import DocDrive.Proofs.Indexing
import DocDrive.Proofs.KeyText
import DocDrive.Proofs.Listed
import DocDrive.Proofs.Location
import DocDrive.Proofs.Memo
import DocDrive.Proofs.Mounting
import DocDrive.Proofs.Path.Components
import DocDrive.Proofs.Path.Joining
import DocDrive.Proofs.Path.Names
import DocDrive.Proofs.Path.Normal
import DocDrive.Proofs.Path.Order
import DocDrive.Proofs.Path.Parent
import DocDrive.Proofs.Path.Text
import DocDrive.Proofs.Pointer
import DocDrive.Proofs.Position
import DocDrive.Proofs.Preorder
import DocDrive.Proofs.Printing
import DocDrive.Proofs.Pruning
import DocDrive.Proofs.Readers
import DocDrive.Proofs.ReferencedFiles
import DocDrive.Proofs.Requests
import DocDrive.Proofs.Resolution
import DocDrive.Proofs.Seeking
import DocDrive.Proofs.Session
import DocDrive.Proofs.SingleFile
import DocDrive.Proofs.Steps
import DocDrive.Proofs.StreamLines
import DocDrive.Proofs.Summary
import DocDrive.Proofs.Targets
import DocDrive.Proofs.Tidying
import DocDrive.Proofs.Token
import DocDrive.Proofs.Transcript
import DocDrive.Proofs.Traversal
import DocDrive.Proofs.Unreadable
import DocDrive.Proofs.Untagging
import DocDrive.Proofs.Utf8
import DocDrive.Record
import DocDrive.Reference
import DocDrive.Report
import DocDrive.Text.Quoted
import DocDrive.Text.Utf8
import DocDrive.Text.Visible
import DocDrive.Transcript
import DocDrive.Yaml.Event
import DocDrive.Yaml.Lexis.Block
import DocDrive.Yaml.Lexis.Flow
import DocDrive.Yaml.Lexis.Tag
import DocDrive.Yaml.Reader
import DocDrive.Yaml.Scalar
import DocDrive.Yaml.Source
import DocDrive.Yaml.Token
import DocDrive.Yaml.Tokens
import DocDrive.Yaml.Written.Layout
import DocDrive.Yaml.Written.Scalar
