import CSharpGen.ClassName
import CSharpGen.Code.Basic
import CSharpGen.Code.Draft
import CSharpGen.Code.Format
import CSharpGen.Decimal.Double
import CSharpGen.Decimal.Shortest
import CSharpGen.Decl.Attribute
import CSharpGen.Decl.Basic
import CSharpGen.Decl.Field
import CSharpGen.Decl.Fold
import CSharpGen.Decl.Method
import CSharpGen.Decl.Parameter
import CSharpGen.Decl.Property
import CSharpGen.Decl.Same
import CSharpGen.Decl.Type
import CSharpGen.Disk
import CSharpGen.Emit.Fragment
import CSharpGen.Emit.Instruction
import CSharpGen.Emit.Names
import CSharpGen.Emit.Stream
import CSharpGen.Emit.Wrap
import CSharpGen.Emit.Writer
import CSharpGen.Error
import CSharpGen.Identifier
import CSharpGen.Kind
import CSharpGen.Modifier
import CSharpGen.Path
import CSharpGen.Proofs.Accounts
import CSharpGen.Proofs.Arrangement
import CSharpGen.Proofs.Balance
import CSharpGen.Proofs.Blocks
import CSharpGen.Proofs.Bodies
import CSharpGen.Proofs.Builders
import CSharpGen.Proofs.Captures
import CSharpGen.Proofs.Closings
import CSharpGen.Proofs.Collisions
import CSharpGen.Proofs.Expressions
import CSharpGen.Proofs.Failures
import CSharpGen.Proofs.Faults
import CSharpGen.Proofs.Formats
import CSharpGen.Proofs.Fragments
import CSharpGen.Proofs.Grammar
import CSharpGen.Proofs.Imports
import CSharpGen.Proofs.Ink
import CSharpGen.Proofs.Interleavings
import CSharpGen.Proofs.Layers
import CSharpGen.Proofs.Legality
import CSharpGen.Proofs.LineEnds
import CSharpGen.Proofs.LineStates
import CSharpGen.Proofs.Literals
import CSharpGen.Proofs.Lookups
import CSharpGen.Proofs.Members
import CSharpGen.Proofs.Mentions
import CSharpGen.Proofs.Nesting
import CSharpGen.Proofs.Passes
import CSharpGen.Proofs.Paths
import CSharpGen.Proofs.Placement
import CSharpGen.Proofs.Rearrangement
import CSharpGen.Proofs.Remarks
import CSharpGen.Proofs.Reopening
import CSharpGen.Proofs.Restoration
import CSharpGen.Proofs.Scripts
import CSharpGen.Proofs.Selection
import CSharpGen.Proofs.Shadowing
import CSharpGen.Proofs.Shape
import CSharpGen.Proofs.ShortNames
import CSharpGen.Proofs.Simulation
import CSharpGen.Proofs.Spelling
import CSharpGen.Proofs.Tables
import CSharpGen.Proofs.Tallies
import CSharpGen.Proofs.Tokens
import CSharpGen.Proofs.Transcripts
import CSharpGen.Proofs.TypeNames
import CSharpGen.Proofs.Usings
import CSharpGen.Proofs.Wrapping
import CSharpGen.SourceFile
import CSharpGen.Style
import CSharpGen.Style.Reader
import CSharpGen.Table
import CSharpGen.Text.Alphabetic
import CSharpGen.Text.Numeric
import CSharpGen.Text.Pieces
import CSharpGen.Text.Quoted
import CSharpGen.Toml.Document
import CSharpGen.Toml.Scalar
import CSharpGen.Toml.Value
import CSharpGen.TypeRef
