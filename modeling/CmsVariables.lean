import CmsVariables.Text.Blank
import CmsVariables.Text.LetterCase
import CmsVariables.Text.Quoted
import CmsVariables.Annotations.Occurrence
import CmsVariables.Annotations.Session
import CmsVariables.Path.Basic
import CmsVariables.Path.Order
import CmsVariables.Report
import CmsVariables.Config.Reading
import CmsVariables.Config.Printing
import CmsVariables.Glob.Matching
import CmsVariables.FileTree.Disk
import CmsVariables.Text.Decoding
import CmsVariables.Discovery
import CmsVariables.Config.Lookup
import CmsVariables.Program
import CmsVariables.FileTree.Changes
import CmsVariables.Main
import CmsVariables.Proofs.Annotations.Grammar
import CmsVariables.Proofs.Annotations.Dissection
import CmsVariables.Proofs.Annotations.Scan
import CmsVariables.Proofs.Annotations.Session
import CmsVariables.Proofs.Rewriting.Placeholder
import CmsVariables.Proofs.Rewriting.Stability
import CmsVariables.Proofs.Text.Decoding
import CmsVariables.Proofs.Path.Components
import CmsVariables.Proofs.Path.Order
import CmsVariables.Proofs.FileTree.Resolution
import CmsVariables.Proofs.FileTree.Writing
import CmsVariables.Proofs.FileTree.Outline
import CmsVariables.Proofs.FileTree.Overwriting
import CmsVariables.Proofs.Discovery.Outline
import CmsVariables.Proofs.Run.Writing
import CmsVariables.Proofs.Run.Sources
import CmsVariables.Proofs.Run.Copies
import CmsVariables.Proofs.Run.InPlace
import CmsVariables.Proofs.Run.SecondRun
import CmsVariables.Proofs.Declarations.Aggregate
import CmsVariables.Proofs.Report.Lines
import CmsVariables.Proofs.Rewriting.Names
import CmsVariables.Proofs.FileTree.LinkFree
import CmsVariables.Proofs.Discovery.Includes
import CmsVariables.Proofs.Run.Confinement
import CmsVariables.Proofs.Discovery.Walking
import CmsVariables.Proofs.Discovery.Sources
import CmsVariables.Proofs.Run.Failing
import CmsVariables.Proofs.Rewriting.Quotes
import CmsVariables.Proofs.Rewriting.Splice
import CmsVariables.Proofs.Rewriting.Remaining
import CmsVariables.Proofs.Run.Preview
import CmsVariables.Proofs.FileTree.Relocation
import CmsVariables.Proofs.Glob.Packages
import CmsVariables.Proofs.Glob.Compiling
import CmsVariables.Proofs.Glob.Relocation
import CmsVariables.Proofs.Discovery.Relocation
import CmsVariables.Proofs.Path.Ascent
import CmsVariables.Proofs.Discovery.Spellings
import CmsVariables.Proofs.FileTree.Correspondence
import CmsVariables.Proofs.Run.Correspondence
import CmsVariables.Proofs.Discovery.Standpoint
import CmsVariables.Proofs.Config.Lookup
import CmsVariables.Proofs.Run.Printing
import CmsVariables.Proofs.Run.Directories
import CmsVariables.Proofs.FileTree.Addition
import CmsVariables.Proofs.Discovery.Addition
import CmsVariables.Proofs.Discovery.Growth
import CmsVariables.Proofs.Run.Starting
import CmsVariables.Proofs.Run.Repeating
import CmsVariables.Proofs.Run.Variables
import CmsVariables.Proofs.Rewriting.Separation
import CmsVariables.Proofs.Declarations.Shape
import CmsVariables.Proofs.Declarations.Merging
import CmsVariables.Proofs.Declarations.Naming
import CmsVariables.Proofs.Report.Columns
import CmsVariables.Proofs.Report.Quotes
import CmsVariables.Proofs.Path.Normal
import CmsVariables.Proofs.Path.Ancestors
import CmsVariables.Proofs.Report.ShownFiles
import CmsVariables.Proofs.Glob.Following
import CmsVariables.Proofs.Discovery.Packages
import CmsVariables.Proofs.Glob.Components
import CmsVariables.Proofs.Config.Validation
import CmsVariables.Proofs.Run.Snapshot
import CmsVariables.Proofs.Json.Grammar
import CmsVariables.Proofs.Json.Reading
import CmsVariables.Proofs.Config.Values
import CmsVariables.Proofs.Config.Members
import CmsVariables.Proofs.Config.Overlay
import CmsVariables.Proofs.Config.Nearest
import CmsVariables.Proofs.FileTree.Frame
import CmsVariables.Proofs.Text.LetterCase
import CmsVariables.Proofs.Declarations.Parts
